import Dualnet.Peers.Held

/-!
# One id per transport key

A `Register` without an id gets the id its transport key already has, so that a peer whose
answer was lost is not tracked twice. The index entry of a key can be lost all the same: a
record that lost its key to another peer still carries the key, and moving that record to a new
key deletes the entry of the peer that has the key now. `minting_idempotent_iff` says when the
peer is found again.
-/

namespace Dualnet.Peers

open Library Wire

variable {S : Type}

/-- A step after which the peer with id `i` and key `k` is still to be found: `GC` has kept it,
and no `Register` was accepted for it under another key, or for another id under its key. -/
def Quiet (k : String) (i : Owner) : Registry S × Call S × Outcome → Prop
  | (_, .register _ peerKey _ _ _ _, .registered id true) => id = i ↔ peerKey = k
  | (r, .gc now, _) => (r.gc now).1.byID.lookup i ≠ none
  | _ => True

/-- An accepted `Register` for another id whose record still carries the key `k`. -/
def Strands (k : String) (i : Owner) : Registry S × Call S × Outcome → Prop
  | (r, .register .., .registered id true) =>
    id ≠ i ∧ ∃ p, r.byID.lookup id = some p ∧ (r.heap p).key = k
  | _ => False

/-- The record of `i`, if there is one with the key `k`, is the one the index has for `k`. -/
def OwnsKey (r : Registry S) (k : String) (i : Owner) : Prop :=
  ∀ p, r.byID.lookup i = some p → (r.heap p).key = k → r.byKey.lookup k = some p

/-- The record at `p` has the id `i` and carries the key `k`. -/
structure Carries (r : Registry S) (k : String) (i : Owner) (p : Ptr) : Prop where
  multiple : r.multiple = true
  indexed : Indexed r
  found : r.byID.lookup i = some p
  key : (r.heap p).key = k

section Register

variable {r r' : Registry S} {claimed i id : Owner} {k peerKey : String} {ts : UInt64}
  {sink : Option S} {now : Int} {draws : List Owner}

/-- An accepted `Register` in multiple mode refreshes a record: a new one, with no key yet, or
the one that is there. -/
theorem register_accepted (hm : r.multiple = true) (hindexed : Indexed r)
    (hcall : r.register claimed peerKey ts sink now draws = some (r', id, true)) :
    ∃ (b : Registry S) (p : Ptr), b.multiple = true ∧ Indexed b ∧
      b.byID.lookup id = some p ∧ b.byKey = r.byKey ∧
      (∀ id' q, id' ≠ id → r.byID.lookup id' = some q → b.byID.lookup id' = some q ∧
        b.heap q = r.heap q) ∧
      (r.byID.lookup id = some p ∧ b = r ∨ r.byID.lookup id = none ∧ (b.heap p).key = "") ∧
      r' = b.refresh p peerKey ts sink now := by
  rcases r.register_cases hcall with ⟨hok, -⟩ | ⟨-, hm', -⟩ | ⟨-, -, hid, hnone, hfull, rfl⟩ |
      ⟨p, -, -, hid, hp, -, rfl⟩
  · cases hok
  · exact absurd (hm.symm.trans hm') (by simp)
  · refine ⟨r.alloc id, r.next, hm, hindexed.alloc (hindexed.idFor_ne_zero hid) hnone hfull, ?_,
      rfl, ?_, .inr ⟨hnone, ?_⟩, rfl⟩
    · rw [Registry.alloc_lookup, if_pos rfl]
    · intro id' q hne hq
      rw [Registry.alloc_lookup, if_neg hne]
      exact ⟨hq, Registry.alloc_heap r id (hindexed.allocated id' q hq)⟩
    · simp [Registry.alloc, Peer.zero]
  · exact ⟨r, p, hm, hindexed, hp, rfl, fun id' q _ hq => ⟨hq, rfl⟩, .inl ⟨hp, rfl⟩, rfl⟩

/-- An accepted `Register` for `i` under `k` leaves a record that carries the key, and the index
has it unless another record has the key and this one carried it before. -/
theorem carries_register (hm : r.multiple = true) (hindexed : Indexed r) (hk : k ≠ "")
    (hcall : r.register claimed k ts sink now draws = some (r', i, true)) :
    ∃ p, Carries r' k i p ∧ (r'.byKey.lookup k = some p ↔ OwnsKey r k i) := by
  obtain ⟨b, p, hbm, hb, hp, hbyKey, -, hcases, rfl⟩ := register_accepted hm hindexed hcall
  refine ⟨p, ⟨by rw [Registry.refresh_multiple, hbm], hb.refresh hp _ _ _ _,
    by rw [Registry.refresh_byID, hp], by rw [Registry.refresh_heap, if_pos rfl]⟩, ?_⟩
  rw [Registry.refresh_byKey, hbyKey]
  unfold OwnsKey
  rcases hcases with ⟨hold, rfl⟩ | ⟨hnone, hkey⟩
  · rw [hold]
    split
    · rename_i hkey
      simp [hkey]
    · rename_i hkey
      simp [hkey]
  · rw [hkey, if_neg (Ne.symm hk), if_pos rfl, hnone]
    simp

/-- A quiet `Register` leaves the record alone or refreshes it under its key, and takes its
index entry away exactly if it strands it. -/
theorem carries_quiet {p : Ptr} (h : Carries r k i p) (hk : k ≠ "")
    (hcall : r.register claimed peerKey ts sink now draws = some (r', id, true))
    (hquiet : id = i ↔ peerKey = k) :
    Carries r' k i p ∧ (r'.byKey.lookup k = some p ↔ r.byKey.lookup k = some p ∧
      ¬ (id ≠ i ∧ ∃ q, r.byID.lookup id = some q ∧ (r.heap q).key = k)) := by
  obtain ⟨b, q, hbm, hb, hq, hbyKey, hothers, hcases, rfl⟩ :=
    register_accepted h.multiple h.indexed hcall
  have hmultiple : (b.refresh q peerKey ts sink now).multiple = true := by
    rw [Registry.refresh_multiple, hbm]
  have hindexed := hb.refresh hq peerKey ts sink now
  by_cases hid : id = i
  · -- The peer itself, under its own key: nothing moves.
    subst hid
    obtain rfl := hquiet.mp rfl
    rcases hcases with ⟨hold, rfl⟩ | ⟨hnone, -⟩
    · obtain rfl := Option.some.inj (h.found.symm.trans hold)
      refine ⟨⟨hmultiple, hindexed, by rw [Registry.refresh_byID, hq],
        by rw [Registry.refresh_heap, if_pos rfl]⟩, ?_⟩
      rw [Registry.refresh_byKey, if_pos h.key]
      simp
    · exact absurd (hnone.symm.trans h.found) (by simp)
  · have hne : k ≠ peerKey := fun heq => hid (hquiet.mpr heq.symm)
    obtain ⟨hfound, hheap⟩ := hothers i p (Ne.symm hid) h.found
    have hpq : p ≠ q := by
      rintro rfl
      exact hid (hb.id_unique hq hfound)
    refine ⟨⟨hmultiple, hindexed, by rw [Registry.refresh_byID, hfound],
      by rw [Registry.refresh_heap, if_neg hpq, hheap, h.key]⟩, ?_⟩
    rw [Registry.refresh_byKey, hbyKey, if_neg hne]
    rcases hcases with ⟨hold, rfl⟩ | ⟨hnone, hkey⟩
    · by_cases hstranded : (b.heap q).key = k
      · simp [hstranded, hne, hid, hold]
      · simp [hstranded, Ne.symm hstranded, hold]
    · simp [hkey, hk, hnone]

end Register

/-- Along quiet steps the record keeps its id and key, and the index has it as long as it had it
at first and no step strands it. -/
theorem carries_steps {r r' : Registry S} {k : String} {i : Owner} {p : Ptr}
    {steps : List (Registry S × Call S × Outcome)} (h : Carries r k i p) (hk : k ≠ "")
    (hsteps : Steps step r steps r') (hquiet : ∀ e ∈ steps, Quiet k i e) :
    Carries r' k i p ∧ (r'.byKey.lookup k = some p ↔
      r.byKey.lookup k = some p ∧ ∀ e ∈ steps, ¬ Strands k i e) := by
  induction hsteps with
  | refl => exact ⟨h, by simp⟩
  | @step s s' steps event out before taken ih =>
    obtain ⟨hcarries, hiff⟩ := ih fun e he => hquiet e (List.mem_cons_of_mem _ he)
    have hlast := hquiet _ List.mem_cons_self
    rw [List.forall_mem_cons, and_left_comm, ← hiff]
    cases event with
    | register claimed peerKey ts sink now draws =>
      simp only [step, Option.map_eq_some_iff] at taken
      obtain ⟨⟨r'', id, ok⟩, hcall, heq⟩ := taken
      obtain ⟨rfl, rfl⟩ := Prod.mk.inj heq
      cases ok with
      | false =>
        rcases s.register_cases hcall with ⟨-, rfl⟩ | ⟨hok, -⟩ | ⟨hok, -⟩ | ⟨q, hok, -⟩
        · exact ⟨hcarries, by simp [Strands]⟩
        all_goals cases hok
      | true =>
        obtain ⟨hafter, hkey⟩ := carries_quiet hcarries hk hcall hlast
        exact ⟨hafter, hkey.trans and_comm⟩
    | gc now =>
      obtain ⟨rfl, rfl⟩ := pair_inj taken
      obtain ⟨hheap, -, hmultiple, -, hids⟩ := s.gc_frame now
      obtain ⟨q, hq⟩ := Option.ne_none_iff_exists'.mp hlast
      obtain rfl := Option.some.inj (hcarries.found.symm.trans (hids i q hq))
      refine ⟨⟨hmultiple.trans hcarries.multiple, hcarries.indexed.gc now, hq,
        by rw [hheap, hcarries.key]⟩, ?_⟩
      have hid := (hcarries.indexed.ids i p hcarries.found).1
      rw [hcarries.indexed.gc_byKey now (by rw [hid, hq])]
      simp [Strands]

/-- A `Register` without an id, under a newer stamp, finds the peer exactly if the index has its
record for the key. -/
theorem register_zero_iff {r : Registry S} {k : String} {i : Owner} {p : Ptr} {ts : UInt64}
    (h : Carries r k i p) (hnewer : (r.heap p).lastTS < ts) (sink : Option S) (now : Int)
    (draws : List Owner) :
    (∃ r', r.register Owner.zero k ts sink now draws = some (r', i, true)) ↔
      r.byKey.lookup k = some p := by
  constructor
  · rintro ⟨r', hcall⟩
    have hid : r.idFor Owner.zero k draws = some i := by
      rcases r.register_cases hcall with ⟨hok, -⟩ | ⟨-, hm, -⟩ | ⟨-, -, hid, -⟩ |
          ⟨q, -, -, hid, -⟩
      · cases hok
      · exact absurd (h.multiple.symm.trans hm) (by simp)
      · exact hid
      · exact hid
    simp only [Registry.idFor, Owner.isZero_eq_true.mpr rfl, if_true] at hid
    split at hid
    · rename_i q hq
      have hfound := (h.indexed.keys k q hq).2
      rw [Option.some.inj hid, h.found] at hfound
      rw [hq, Option.some.inj hfound]
    · -- A minted id has no record.
      have hdraw := List.find?_some hid
      simp [h.found] at hdraw
  · intro hkey
    have hfresh : ¬ (ts ≠ 0 ∧ ts ≤ (r.heap p).lastTS) :=
      fun hstale => UInt64.not_le.mpr hnewer hstale.2
    have hid : (r.heap p).id = i := (h.indexed.ids i p h.found).1
    refine ⟨r.refresh p k ts sink now, ?_⟩
    simp [Registry.register, h.multiple, Registry.idFor, Owner.isZero_eq_true.mpr rfl, hkey, hid,
      h.found, hfresh]

/-- A peer registered under a key and undisturbed since is found again by a newer `Register`
without an id, exactly if its record was or became the one of the key then, and no `Register`
was accepted since for another record that still carries the key. -/
theorem minting_idempotent_iff {ttl maxPeers : Int} {r₀ r₁ r₂ : Registry S}
    {history : List (Call S × Outcome)} (hrun : ProperRun ttl maxPeers r₀ history)
    {claimed i : Owner} {k : String} {ts : UInt64} {sink : Option S} {now : Int}
    {draws : List Owner} (hk : k ≠ "")
    (hcall : r₀.register claimed k ts sink now draws = some (r₁, i, true))
    {since : List (Registry S × Call S × Outcome)} (hsince : Steps step r₁ since r₂)
    (hquiet : ∀ e ∈ since, Quiet k i e) (ts' : UInt64)
    (hnewer : ∀ p, r₂.byID.lookup i = some p → (r₂.heap p).lastTS < ts') (sink' : Option S)
    (now' : Int) (draws' : List Owner) :
    (∃ r₃, r₂.register Owner.zero k ts' sink' now' draws' = some (r₃, i, true)) ↔
      OwnsKey r₀ k i ∧ ∀ e ∈ since, ¬ Strands k i e := by
  have hconsistent := hrun.consistent
  obtain ⟨p, hcarries, hfirst⟩ := carries_register hconsistent.multiple hconsistent.indexed hk hcall
  obtain ⟨hcarries', hlast⟩ := carries_steps hcarries hk hsince hquiet
  rw [register_zero_iff hcarries' (hnewer p hcarries'.found), hlast, hfirst]

/-- A peer registers, `GC` passes, and the peer registers again without its id. -/
theorem minting_idempotent_after_gc : ∃ (r₁ r₂ r₃ : Registry String) (since : _),
    (new true 60 0).register ⟨1, 1, 1, 1⟩ "addr" 10 (some "peer") 0 [] =
        some (r₁, ⟨1, 1, 1, 1⟩, true) ∧ Steps step r₁ since r₂ ∧ since.length = 1 ∧
      r₂.register Owner.zero "addr" 11 (some "peer") 6 [⟨3, 3, 3, 3⟩] =
        some (r₃, ⟨1, 1, 1, 1⟩, true) := by
  have hrun : ProperRun 60 0 (new true 60 0 : Registry String) [] := .init
  have hcall : (new true 60 0).register ⟨1, 1, 1, 1⟩ "addr" 10 (some "peer") 0 [] =
    some (_, ⟨1, 1, 1, 1⟩, true) := rfl
  have hfound := minting_idempotent_iff hrun (by decide) hcall
    (.step .refl (show step _ (.gc 5) = _ from rfl))
    (by simp only [List.mem_singleton, forall_eq, Quiet]; decide) 11
    (fun p hp => by cases hp; decide) (some "peer") 6 [⟨3, 3, 3, 3⟩]
  obtain ⟨r₃, hfound⟩ := hfound.mpr ⟨by simp [OwnsKey, new], by simp [Strands]⟩
  exact ⟨_, _, r₃, _, hcall, .step .refl (show step _ (.gc 5) = _ from rfl), rfl, hfound⟩

/-- The first peer loses its key to the second. When the first one registers from a new address,
the index entry of the second is deleted, and the second is given another id. -/
theorem second_id_minted : ∃ (r₀ r₁ r₂ r₃ : Registry String) (history : _) (since : _),
    ProperRun 60 0 r₀ history ∧
      r₀.register ⟨2, 2, 2, 2⟩ "addr" 11 (some "second") 1 [] = some (r₁, ⟨2, 2, 2, 2⟩, true) ∧
      Steps step r₁ since r₂ ∧
      (∀ e ∈ since, Proper e.2.1 ∧ Quiet "addr" ⟨2, 2, 2, 2⟩ e) ∧
      (∀ p, r₂.byID.lookup ⟨2, 2, 2, 2⟩ = some p → (r₂.heap p).lastTS < 20) ∧
      r₂.register Owner.zero "addr" 20 (some "second") 3 [⟨3, 3, 3, 3⟩] =
        some (r₃, ⟨3, 3, 3, 3⟩, true) := by
  have hfirst : Proper (.register ⟨1, 1, 1, 1⟩ "addr" 10 (some "first") 0 []) :=
    ⟨by decide, rfl⟩
  have hrun : ProperRun 60 0 _ _ := .step .init hfirst rfl
  refine ⟨_, _, _, _, _, _, hrun, rfl, .step .refl (show step _
    (.register ⟨1, 1, 1, 1⟩ "moved" 12 (some "first") 2 []) = _ from rfl), ?_, fun p hp => ?_, rfl⟩
  · simp [Proper, Quiet]
  · cases hp
    decide

end Dualnet.Peers
