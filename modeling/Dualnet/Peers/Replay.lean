import Dualnet.Peers.Registry

/-!
# Replayed control records

A peer's last accepted stamp lives in its record, so the registry refuses a replay as long as
the record is there. `GC` deletes idle records, stamp included. `stale_refused_iff` places the
line: along runs in which no record is created under a stamp that was already overtaken, a
stale control record is refused without a trace exactly when it would not create a record.
-/

namespace Dualnet.Peers

open Library Wire

variable {S : Type}

/-- The claimed id and the stamp of an accepted control record. -/
def acceptedStamp : Call S × Outcome → Option (Owner × UInt64)
  | (.register claimed _ ts _ _ _, .registered _ true) => some (claimed, ts)
  | _ => none

/-- The accepted control records of a history. -/
def acceptedStamps (history : List (Call S × Outcome)) : List (Owner × UInt64) :=
  history.filterMap acceptedStamp

/-- A stamp not newer than one accepted before: for the same non-zero claimed id in multiple
mode, at all in single mode. -/
def Stale (multiple : Bool) (history : List (Call S × Outcome)) (claimed : Owner)
    (ts : UInt64) : Prop :=
  ∃ a ∈ acceptedStamps history, ts ≤ a.2 ∧
    (multiple = true → a.1 = claimed ∧ claimed ≠ Owner.zero)

/-- The caller's stamps are never zero. -/
def Stamped : Call S → Prop
  | .register _ _ ts _ _ _ => ts ≠ 0
  | .gc _ => True

/-- A call that would create a record for its id, none being there and the cap leaving room,
carries a stamp newer than all those accepted for that id. -/
def Remembered (r : Registry S) (history : List (Call S × Outcome)) : Call S → Prop
  | .register claimed peerKey ts _ _ draws =>
    r.multiple = true → ∀ id, r.idFor claimed peerKey draws = some id →
      r.byID.lookup id = none → r.full = false →
        ∀ a ∈ acceptedStamps history, a.1 = id → a.2 < ts
  | .gc _ => True

/-- The runs whose calls carry stamps and find what they need remembered. -/
abbrev Run (multiple : Bool) (ttl maxPeers : Int) :
    Registry S → List (Call S × Outcome) → Prop :=
  Reached step (fun r history call => Stamped call ∧ Remembered r history call)
    (new multiple ttl maxPeers)

/-- Every accepted stamp is covered: by `singleTS` in single mode, by the record of its id, if
there is one, in multiple mode. Pointers stay below the free addresses. -/
structure Covered (r : Registry S) (history : List (Call S × Outcome)) : Prop where
  allocated : ∀ id p, r.byID.lookup id = some p → p < r.next
  single : r.multiple = false → ∀ a ∈ acceptedStamps history, a.2 ≤ r.singleTS
  record : r.multiple = true → ∀ id p, id ≠ Owner.zero → r.byID.lookup id = some p →
    ∀ a ∈ acceptedStamps history, a.1 = id → a.2 ≤ (r.heap p).lastTS

/-- Nothing is accepted before the first call. -/
theorem covered_new (multiple : Bool) (ttl maxPeers : Int) :
    Covered (new multiple ttl maxPeers : Registry S) [] := by
  constructor <;> simp [acceptedStamps, new]

/-- Dropping records keeps what is left covered. -/
theorem covered_gc {r : Registry S} {history : List (Call S × Outcome)}
    (h : Covered r history) (now : Int) :
    Covered (r.gc now).1 ((.gc now, .dropped (r.gc now).2) :: history) := by
  obtain ⟨hheap, hnext, hmultiple, hsingle, hids⟩ := r.gc_frame now
  have hstamps : acceptedStamps ((.gc now, .dropped (r.gc now).2) :: history) =
      acceptedStamps history := rfl
  constructor
  · intro id p hp
    rw [hnext]
    exact h.allocated id p (hids id p hp)
  · rw [hmultiple, hsingle, hstamps]
    exact h.single
  · rw [hmultiple, hheap, hstamps]
    intro hm id p hid hp
    exact h.record hm id p hid (hids id p hp)

/-- An accepted call adds its own stamp. -/
theorem mem_acceptedStamps_accepted {history : List (Call S × Outcome)} {claimed id : Owner}
    {peerKey : String} {ts : UInt64} {sink : Option S} {now : Int} {draws : List Owner}
    {a : Owner × UInt64} :
    a ∈ acceptedStamps ((.register claimed peerKey ts sink now draws, .registered id true) ::
      history) ↔ a = (claimed, ts) ∨ a ∈ acceptedStamps history :=
  List.mem_cons

/-- A non-zero claim is worked on under its own id. -/
theorem idFor_claimed {r : Registry S} {claimed : Owner} (hclaimed : claimed ≠ Owner.zero)
    (peerKey : String) (draws : List Owner) : r.idFor claimed peerKey draws = some claimed := by
  have hzero : claimed.isZero = false := by simpa [Owner.isZero] using hclaimed
  simp [Registry.idFor, hzero]

section Accepted

variable {r : Registry S} {history : List (Call S × Outcome)} {claimed id : Owner}
  {peerKey : String} {ts : UInt64} {sink : Option S} {now : Int} {draws : List Owner}

/-- Creating a record under a stamp newer than all those accepted for its id keeps the stamps
covered. -/
theorem covered_create (h : Covered r history) (hm : r.multiple = true)
    (hid : claimed ≠ Owner.zero → claimed = id)
    (hnewer : ∀ a ∈ acceptedStamps history, a.1 = id → a.2 < ts) :
    Covered ((r.alloc id).refresh r.next peerKey ts sink now)
      ((.register claimed peerKey ts sink now draws, .registered id true) :: history) := by
  constructor
  · intro id' q hq
    rw [Registry.refresh_byID, Registry.alloc_lookup] at hq
    rw [Registry.refresh_next]
    split at hq
    · exact Option.some.inj hq ▸ Nat.lt_succ_self r.next
    · exact Nat.lt_succ_of_lt (h.allocated id' q hq)
  · intro hm'
    simp [Registry.alloc, hm] at hm'
  · intro _ id' q hid' hq a ha ha'
    rw [Registry.refresh_byID, Registry.alloc_lookup] at hq
    rw [mem_acceptedStamps_accepted] at ha
    rw [Registry.refresh_lastTS]
    split at hq
    · rename_i heq
      rw [if_pos (Option.some.inj hq).symm]
      rcases ha with rfl | ha
      · exact UInt64.le_refl ts
      · exact UInt64.le_of_lt (hnewer a ha (ha'.trans heq))
    · rename_i hne
      have hq' := h.allocated id' q hq
      rw [if_neg (Nat.ne_of_lt hq'), Registry.alloc_heap r id hq']
      rcases ha with rfl | ha
      · subst ha'
        exact absurd (hid hid') hne
      · exact h.record hm id' q hid' hq a ha ha'

/-- Refreshing a record under a newer stamp keeps the stamps covered. -/
theorem covered_refresh (h : Covered r history) (hm : r.multiple = true)
    (hid : claimed ≠ Owner.zero → claimed = id) {p : Ptr} (hp : r.byID.lookup id = some p)
    (hnewer : (r.heap p).lastTS < ts) :
    Covered (r.refresh p peerKey ts sink now)
      ((.register claimed peerKey ts sink now draws, .registered id true) :: history) := by
  constructor
  · intro id' q hq
    rw [Registry.refresh_byID] at hq
    rw [Registry.refresh_next]
    exact h.allocated id' q hq
  · intro hm'
    simp [hm] at hm'
  · intro _ id' q hid' hq a ha ha'
    rw [Registry.refresh_byID] at hq
    rw [mem_acceptedStamps_accepted] at ha
    rw [Registry.refresh_lastTS]
    rcases ha with rfl | ha
    · subst ha'
      obtain rfl : claimed = id := hid hid'
      rw [if_pos (Option.some.inj (hq.symm.trans hp))]
      exact UInt64.le_refl ts
    · have hold := h.record hm id' q hid' hq a ha ha'
      split
      · rename_i heq
        subst heq
        exact UInt64.le_of_lt (UInt64.lt_of_le_of_lt hold hnewer)
      · exact hold

/-- A call that finds what it needs remembered keeps every accepted stamp covered. -/
theorem covered_register {r' : Registry S} {ok : Bool} (h : Covered r history) (hts : ts ≠ 0)
    (hremembered : Remembered r history (.register claimed peerKey ts sink now draws))
    (hcall : r.register claimed peerKey ts sink now draws = some (r', id, ok)) :
    Covered r' ((.register claimed peerKey ts sink now draws, .registered id ok) :: history) := by
  have hown : r.idFor claimed peerKey draws = some id → claimed ≠ Owner.zero → claimed = id := by
    intro hid hclaimed
    rw [idFor_claimed hclaimed] at hid
    exact Option.some.inj hid
  rcases r.register_cases hcall with ⟨rfl, rfl⟩ | ⟨rfl, hm, hnewer, rfl⟩ |
      ⟨rfl, hm, hid, hnone, hfull, rfl⟩ | ⟨p, rfl, hm, hid, hp, hnewer, rfl⟩
  · exact ⟨h.allocated, h.single, h.record⟩
  · refine ⟨h.allocated, fun _ a ha => ?_, fun hm' => absurd (hm.symm.trans hm') (by simp)⟩
    rcases mem_acceptedStamps_accepted.mp ha with rfl | ha
    · exact UInt64.le_refl ts
    · exact UInt64.le_of_lt (UInt64.lt_of_le_of_lt (h.single hm a ha) (hnewer hts))
  · exact covered_create h hm (hown hid) (hremembered hm id hid hnone hfull)
  · exact covered_refresh h hm (hown hid) hp (hnewer hts)

end Accepted

/-- Every state of a run covers the stamps accepted so far. -/
theorem Run.covered {multiple : Bool} {ttl maxPeers : Int} {r : Registry S}
    {history : List (Call S × Outcome)} (h : Run multiple ttl maxPeers r history) :
    Covered r history := by
  refine h.invariant Covered (covered_new multiple ttl maxPeers) ?_
  rintro r history call r' out hcovered ⟨hstamped, hremembered⟩ htaken
  cases call with
  | register claimed peerKey ts sink now draws =>
    simp only [step, Option.map_eq_some_iff] at htaken
    obtain ⟨⟨r'', id, ok⟩, hcall, heq⟩ := htaken
    obtain ⟨rfl, rfl⟩ := Prod.mk.inj heq
    exact covered_register hcovered hstamped hremembered hcall
  | gc now =>
    obtain ⟨rfl, rfl⟩ := pair_inj htaken
    exact covered_gc hcovered now

/-- In a run that finds what it needs remembered, a stale control record is refused, the
registry staying as it was, exactly when it would not create a record anew. -/
theorem stale_refused_iff {multiple : Bool} {ttl maxPeers : Int} {r : Registry S}
    {history : List (Call S × Outcome)} (h : Run multiple ttl maxPeers r history)
    {claimed : Owner} {ts : UInt64} (hts : ts ≠ 0)
    (hstale : Stale r.multiple history claimed ts) (peerKey : String) (sink : Option S)
    (now : Int) (draws : List Owner) :
    r.register claimed peerKey ts sink now draws = some (r, Owner.zero, false) ↔
      Remembered r history (.register claimed peerKey ts sink now draws) := by
  obtain ⟨a, ha, hle, hclaim⟩ := hstale
  cases hm : r.multiple with
  | false =>
    have hseen : ts ≤ r.singleTS := UInt64.le_trans hle (h.covered.single hm a ha)
    simp [Registry.register, Remembered, hm, hts, hseen]
  | true =>
    obtain ⟨rfl, hclaimed⟩ := hclaim hm
    have hid := idFor_claimed (r := r) hclaimed peerKey draws
    constructor
    · intro hrefused _ id hid' hnone hfull
      obtain rfl : a.1 = id := Option.some.inj (hid.symm.trans hid')
      simp [Registry.register, hm, hid, hnone, hfull] at hrefused
    · intro hremembered
      cases hp : r.byID.lookup a.1 with
      | some p =>
        have hseen : ts ≤ (r.heap p).lastTS :=
          UInt64.le_trans hle (h.covered.record hm a.1 p hclaimed hp a ha rfl)
        simp [Registry.register, hm, hid, hp, hts, hseen]
      | none =>
        have hfull : r.full = true := by
          by_contra hroom
          have hlt := hremembered hm a.1 hid hp (by simpa using hroom) a ha rfl
          exact absurd hle (UInt64.not_le.mpr hlt)
        simp [Registry.register, hm, hid, hp, hfull]

/-- A peer registers under stamp 10; a copy of its record with stamp 9 is refused. -/
theorem stale_refused_after_register : ∃ (r : Registry String) (history : _),
    Run true 60 0 r history ∧ Stale r.multiple history ⟨1, 1, 1, 1⟩ 9 ∧
      r.register ⟨1, 1, 1, 1⟩ "attacker" 9 (some "replayer") 5 [] =
        some (r, Owner.zero, false) := by
  have hcall : Stamped (.register ⟨1, 1, 1, 1⟩ "victim" 10 (some "peer") 0 []) ∧
      Remembered (new true 60 0) [] (.register ⟨1, 1, 1, 1⟩ "victim" 10 (some "peer") 0 []) :=
    ⟨by simp [Stamped], by simp [Remembered, acceptedStamps]⟩
  have hrun : Run true 60 0 _ _ := .step .init hcall rfl
  refine ⟨_, _, hrun, ⟨(⟨1, 1, 1, 1⟩, 10), by decide, by decide, by decide⟩, ?_⟩
  refine (stale_refused_iff hrun (by decide) ⟨(⟨1, 1, 1, 1⟩, 10), by decide, by decide, by decide⟩
    _ _ _ _).mpr ?_
  intro _ id hid hnone
  obtain rfl : ⟨1, 1, 1, 1⟩ = id := Option.some.inj hid
  exact absurd hnone (by decide)

/-- A peer registers under stamp 10, goes idle and is collected; the copy of its record is then
accepted and the peer's packets go to the replayer. -/
theorem replay_after_gc : ∃ (r : Registry String) (history : _),
    Reached step (fun _ _ call => Stamped call) (new true 60 0) r history ∧
      Stale r.multiple history ⟨1, 1, 1, 1⟩ 10 ∧
      ∃ r', r.register ⟨1, 1, 1, 1⟩ "attacker" 10 (some "replayer") 101 [] =
          some (r', ⟨1, 1, 1, 1⟩, true) ∧
        r'.sinkFor ⟨1, 1, 1, 1⟩ = (some "replayer", true) := by
  have hcall : Stamped (.register ⟨1, 1, 1, 1⟩ "victim" 10 (some "peer") 0 []) := by
    simp [Stamped]
  have hgc : Stamped (S := String) (.gc 100) := trivial
  have hrun : Reached step (fun _ _ call => Stamped call) (new true 60 0) _ _ :=
    .step (.step .init hcall rfl) hgc rfl
  exact ⟨_, _, hrun, ⟨(⟨1, 1, 1, 1⟩, 10), by decide, by decide, by decide⟩, _, rfl, rfl⟩

end Dualnet.Peers
