import Dualnet.Peers.Invariant

/-!
# The record a packet goes to

`Registry.held` is the sink an owner's packets go to, with the time it was last seen, in either
mode. An accepted `Register` replaces it and `GC` takes it away, in multiple mode, when it is idle;
nothing else does. `registry_consistent`: in every run the indexes fit together, and `Accepts`,
`Send` and `SinkFor` use the sink of the latest accepted `Register` until a `GC` finds it idle.
-/

namespace Dualnet.Peers

open Library Wire

variable {S : Type}

namespace Registry

variable (r : Registry S)

/-- The sink and the time of the record a packet of this owner goes to. -/
def held (owner : Owner) : Option (Option S × Int) :=
  if r.multiple then (r.byID.lookup owner).map fun p => ((r.heap p).sink, (r.heap p).lastSeen)
  else r.single.map fun p => (p.sink, p.lastSeen)

/-- `Send` goes to the sink held for the owner. -/
theorem send_held {E : Type} (write : S → List UInt8 → Option E) (owner : Owner)
    (blob : List UInt8) : r.send write owner blob =
      match (r.held owner).bind Prod.fst with
      | none => (false, none)
      | some sink => (true, write sink blob) := by
  unfold send held
  split
  · rw [Option.bind_map]
    rfl
  · rw [Option.bind_map]
    rfl

/-- A refresh leaves the lifetime. -/
@[simp] theorem refresh_ttl (p : Ptr) (peerKey : String) (ts : UInt64) (sink : Option S)
    (now : Int) : (r.refresh p peerKey ts sink now).ttl = r.ttl := by
  unfold refresh
  split_ifs <;> rfl

/-- The single peer is registered without an id. -/
theorem register_single_id {r r' : Registry S} (hm : r.multiple = false) {claimed id : Owner}
    {peerKey : String} {ts : UInt64} {sink : Option S} {now : Int} {draws : List Owner} {ok : Bool}
    (hcall : r.register claimed peerKey ts sink now draws = some (r', id, ok)) :
    id = Owner.zero := by
  unfold register at hcall
  simp only [hm, Bool.not_false, if_true] at hcall
  split at hcall <;> simp_all

/-- A refresh replaces what is held for the id of its record, and for no other. -/
theorem refresh_held {r : Registry S} (hm : r.multiple = true) {id : Owner} {p : Ptr}
    (hp : r.byID.lookup id = some p)
    (hunique : ∀ id', r.byID.lookup id' = some p → id' = id) (owner : Owner) (peerKey : String)
    (ts : UInt64) (sink : Option S) (now : Int) :
    (r.refresh p peerKey ts sink now).held owner =
      if owner = id then some (sink, now) else r.held owner := by
  simp only [held, refresh_multiple, refresh_byID, hm, if_true, refresh_heap]
  by_cases howner : owner = id
  · subst howner
    simp [hp]
  · rw [if_neg howner]
    refine Option.map_congr fun q hq => ?_
    have hne : q ≠ p := by
      rintro rfl
      exact howner (hunique owner hq)
    simp [hne]

/-- What `GC` leaves in the index: the records seen since the cutoff. -/
theorem gc_byID (hm : r.multiple = true) (now : Int) :
    (r.gc now).1.byID = (r.byID.sweep fun _ p => (r.heap p).lastSeen < now - r.ttl).1 := by
  have hfold : ∀ (entries : List (Σ _ : Owner, Ptr)) (r' : Registry S) (n n' : Nat),
      r'.heap = r.heap → (entries.foldl (gcEntry (now - r.ttl)) (r', n)).1.byID =
        (entries.foldl (FMap.sweepEntry fun _ p => (r.heap p).lastSeen < now - r.ttl)
          (r'.byID, n')).1 := by
    intro entries
    induction entries with
    | nil => intro r' n n' _; rfl
    | cons entry entries ih =>
      intro r' n n' hheap
      rw [List.foldl_cons, List.foldl_cons, gcEntry_eq, hheap]
      by_cases hidle : (r.heap entry.2).lastSeen < now - r.ttl
      · rw [if_pos hidle, FMap.sweepEntry, if_pos (decide_eq_true hidle)]
        exact ih _ _ _ hheap
      · rw [if_neg hidle, FMap.sweepEntry, if_neg (by simpa using hidle)]
        exact ih _ _ _ hheap
  rw [gc, if_neg (by simp [hm])]
  exact hfold _ _ _ _ rfl

/-- `GC` takes away what is idle, in multiple mode. -/
theorem gc_held (owner : Owner) (now : Int) : (r.gc now).1.held owner =
    (r.held owner).filter fun held => !(r.multiple && held.2 < now - r.ttl) := by
  obtain ⟨hheap, -, hmultiple, -, -⟩ := r.gc_frame now
  cases hm : r.multiple with
  | true =>
    simp only [held, hmultiple, hm, if_true, hheap, gc_byID r hm now, FMap.lookup_sweep]
    cases r.byID.lookup owner with
    | none => rfl
    | some p =>
      by_cases hidle : (r.heap p).lastSeen < now - r.ttl <;> simp [Option.filter, hidle]
  | false =>
    rw [gc, if_pos (by simp [hm])]
    cases r.held owner <;> simp [Option.filter]

end Registry

/-- An accepted `Register` is held for the id it returns, in single mode for every owner; a refused
one changes nothing. The indexes stay consistent. -/
theorem Indexed.register {r r' : Registry S} (h : Indexed r) {claimed id : Owner}
    {peerKey : String} {ts : UInt64} {sink : Option S} {now : Int} {draws : List Owner} {ok : Bool}
    (hcall : r.register claimed peerKey ts sink now draws = some (r', id, ok)) :
    Indexed r' ∧ r'.multiple = r.multiple ∧ r'.ttl = r.ttl ∧ ∀ owner, r'.held owner =
      if ok = true ∧ (r.multiple = true → owner = id) then some (sink, now)
      else r.held owner := by
  rcases r.register_cases hcall with ⟨rfl, rfl⟩ | ⟨rfl, hm, -, rfl⟩ |
      ⟨rfl, hm, hid, hnone, hfull, rfl⟩ | ⟨p, rfl, hm, hid, hp, -, rfl⟩
  · exact ⟨h, rfl, rfl, by simp⟩
  · exact ⟨⟨h.allocated, h.ids, h.keys, h.capped⟩, rfl, rfl, by simp [Registry.held, hm]⟩
  · have halloc := h.alloc (h.idFor_ne_zero hid) hnone hfull
    have hlookup : (r.alloc id).byID.lookup id = some r.next := by
      rw [Registry.alloc_lookup, if_pos rfl]
    refine ⟨halloc.refresh hlookup .., by simp [Registry.alloc], by simp [Registry.alloc], ?_⟩
    intro owner
    have hm' : (r.alloc id).multiple = true := hm
    rw [Registry.refresh_held hm' hlookup fun id' hid' => halloc.id_unique hid' hlookup]
    by_cases howner : owner = id
    · simp [howner]
    · have hsame : (r.alloc id).held owner = r.held owner := by
        simp only [Registry.held, hm, hm', if_true, Registry.alloc_lookup, if_neg howner]
        refine Option.map_congr fun q hq => ?_
        rw [Registry.alloc_heap r id (h.allocated owner q hq)]
      simp [howner, hm, hsame]
  · refine ⟨h.refresh hp .., by simp, by simp, ?_⟩
    intro owner
    rw [Registry.refresh_held hm hp fun id' hid' => h.id_unique hid' hp]
    simp [hm]

/-! ## Runs -/

/-- The caller passes a transport key and a sink. -/
def Proper : Call S → Prop
  | .register _ peerKey _ sink _ _ => peerKey ≠ "" ∧ sink.isSome = true
  | .gc _ => True

/-- The runs of a multiple-mode registry whose callers pass keys and sinks. -/
abbrev ProperRun (ttl maxPeers : Int) : Registry S → List (Call S × Outcome) → Prop :=
  Reached step (fun _ _ call => Proper call) (new true ttl maxPeers)

/-- A record after a further call: an accepted `Register` for the owner replaces it, and a `GC`
drops it when it was last seen before the cutoff. -/
def liveAfter (ttl : Int) (owner : Owner) : Call S × Outcome → Option (S × Int) → Option (S × Int)
  | (.register _ _ _ (some sink) now _, .registered id true), live =>
    if id = owner then some (sink, now) else live
  | (.gc now, _), live => live.filter fun record => !(record.2 < now - ttl)
  | _, live => live

/-- The sink and the time of the latest accepted `Register` for this owner, unless a `GC` since
then has found it idle. -/
def live (ttl : Int) (owner : Owner) (history : List (Call S × Outcome)) : Option (S × Int) :=
  history.foldr (liveAfter ttl owner) none

/-- The registry keeps its mode and its limits, its indexes fit together, and it holds for each
owner what is live. -/
structure Consistent (ttl maxPeers : Int) (r : Registry S) (history : List (Call S × Outcome)) :
    Prop where
  multiple : r.multiple = true
  idle : r.ttl = ttl
  cap : r.maxPeers = maxPeers
  indexed : Indexed r
  held : ∀ owner, r.held owner = (live ttl owner history).map fun record => (some record.1, record.2)

/-- Every call keeps the registry consistent. -/
theorem Consistent.step {ttl maxPeers : Int} {r r' : Registry S}
    {history : List (Call S × Outcome)} (h : Consistent ttl maxPeers r history) {call : Call S}
    {out : Outcome} (hproper : Proper call) (htaken : step r call = some (r', out)) :
    Consistent ttl maxPeers r' ((call, out) :: history) := by
  have hcap := (step_maxPeers htaken).trans h.cap
  cases call with
  | register claimed peerKey ts sink now draws =>
    obtain ⟨sink, rfl⟩ := Option.isSome_iff_exists.mp hproper.2
    obtain ⟨⟨r'', id, ok⟩, hcall, heq⟩ := Option.map_eq_some_iff.mp htaken
    obtain ⟨rfl, rfl⟩ := Prod.mk.inj heq
    obtain ⟨hindexed, hmultiple, hidle, hheld⟩ := h.indexed.register hcall
    refine ⟨hmultiple.trans h.multiple, hidle.trans h.idle, hcap, hindexed, fun owner => ?_⟩
    rw [hheld, h.held, h.multiple]
    cases ok with
    | false => simp [live, liveAfter]
    | true => by_cases howner : id = owner <;> simp [live, liveAfter, howner, Ne.symm]
  | gc now =>
    obtain ⟨rfl, rfl⟩ := pair_inj htaken
    obtain ⟨-, -, hmultiple, -, -⟩ := r.gc_frame now
    have hidle : (r.gc now).1.ttl = r.ttl :=
      r.gc_induction now (P := fun r' => r'.ttl = r.ttl) rfl fun _ _ _ hr' _ => hr'
    refine ⟨hmultiple.trans h.multiple, hidle.trans h.idle, hcap, h.indexed.gc now,
      fun owner => ?_⟩
    have hlive : live ttl owner ((.gc now, .dropped (r.gc now).2) :: history) =
      (live ttl owner history).filter fun record => !(record.2 < now - ttl) := rfl
    rw [Registry.gc_held, h.held, h.multiple, h.idle, hlive]
    cases live ttl owner history with
    | none => rfl
    | some record => by_cases hseen : record.2 < now - ttl <;> simp [Option.filter, hseen]

/-- Every state of a run is consistent. -/
theorem ProperRun.consistent {ttl maxPeers : Int} {r : Registry S}
    {history : List (Call S × Outcome)} (h : ProperRun ttl maxPeers r history) :
    Consistent ttl maxPeers r history := by
  refine h.invariant (Consistent ttl maxPeers) ?_ ?_
  · refine ⟨rfl, rfl, rfl, ⟨?_, ?_, ?_, fun hmax => Int.le_of_lt hmax⟩, ?_⟩ <;>
      simp [new, live, Registry.held]
  · intro r history call r' out hconsistent hproper htaken
    exact hconsistent.step hproper htaken

/-- What the three readers answer for an owner: that there is no such peer, or all of them that
there is one, with this sink. -/
def Readers {E : Type} (r : Registry S) (write : S → List UInt8 → Option E) (owner : Owner)
    (blob : List UInt8) : Option S → Prop
  | none => r.accepts owner = false ∧ r.sinkFor owner = (none, false) ∧
      r.send write owner blob = (false, none)
  | some sink => r.accepts owner = true ∧ r.sinkFor owner = (some sink, true) ∧
      r.send write owner blob = (true, write sink blob)

/-- The readers answer with what the registry holds for the owner. -/
theorem Registry.readers_of_held {E : Type} {r : Registry S} (hm : r.multiple = true)
    (write : S → List UInt8 → Option E) {owner : Owner} (blob : List UInt8)
    {record : Option (S × Int)}
    (hheld : r.held owner = record.map fun record => (some record.1, record.2)) :
    Readers r write owner blob (record.map Prod.fst) := by
  rw [Registry.held, if_pos hm] at hheld
  cases record with
  | none =>
    have hnone : r.byID.lookup owner = none := by simpa using hheld
    simp [Readers, Registry.accepts, Registry.sinkFor, Registry.send, hm, hnone]
  | some record =>
    obtain ⟨p, hp, hrecord⟩ := Option.map_eq_some_iff.mp hheld
    have hsink : (r.heap p).sink = some record.1 := congrArg Prod.fst hrecord
    simp [Readers, Registry.accepts, Registry.sinkFor, Registry.send, hm, hp, hsink]

/-- In every state of a run the records are indexed consistently and within the cap, a refused
`Register` changes nothing, and all readers answer with the sink of the latest accepted `Register`
for the owner, or with none if there was none or a `GC` has found it idle since. -/
theorem registry_consistent {ttl maxPeers : Int} {r : Registry S}
    {history : List (Call S × Outcome)} (h : ProperRun ttl maxPeers r history) :
    (∀ id p, r.byID.lookup id = some p → (r.heap p).id = id ∧ id ≠ Owner.zero) ∧
    (∀ k p, r.byKey.lookup k = some p →
      (r.heap p).key = k ∧ r.byID.lookup (r.heap p).id = some p) ∧
    r.byKey.size ≤ r.byID.size ∧ (0 < maxPeers → (r.byID.size : Int) ≤ maxPeers) ∧
    (∀ claimed peerKey ts sink now draws r' id,
      r.register claimed peerKey ts sink now draws = some (r', id, false) → r' = r) ∧
    ∀ (E : Type) (write : S → List UInt8 → Option E) owner blob,
      Readers r write owner blob ((live ttl owner history).map Prod.fst) := by
  have hconsistent := h.consistent
  have hindexed := hconsistent.indexed
  refine ⟨hindexed.ids, hindexed.keys, hindexed.byKey_size, hconsistent.cap ▸ hindexed.capped,
    ?_, fun E write owner blob =>
      Registry.readers_of_held hconsistent.multiple write blob (hconsistent.held owner)⟩
  intro claimed peerKey ts sink now draws r' id hcall
  rcases r.register_cases hcall with ⟨-, rfl⟩ | ⟨hok, -⟩ | ⟨hok, -⟩ | ⟨p, hok, -⟩
  · rfl
  all_goals cases hok

/-- Two peers with one transport key: the second takes the index entry over. After a `GC` that
finds both of them in time, packets for the first still go to its own sink; after one that finds
the first idle, only the second is left. -/
theorem registry_consistent_takeover : ∃ (r r' : Registry String) (history history' : _),
    ProperRun 60 2 r history ∧ ProperRun 60 2 r' history' ∧
      r.byKey.size = 1 ∧ r.byID.size = 2 ∧
      Readers r (fun _ _ => (none : Option Unit)) ⟨1, 1, 1, 1⟩ [7] (some "first") ∧
      Readers r (fun _ _ => (none : Option Unit)) ⟨2, 2, 2, 2⟩ [7] (some "second") ∧
      Readers r' (fun _ _ => (none : Option Unit)) ⟨1, 1, 1, 1⟩ [7] none ∧
      Readers r' (fun _ _ => (none : Option Unit)) ⟨2, 2, 2, 2⟩ [7] (some "second") := by
  have hfirst : Proper (.register ⟨1, 1, 1, 1⟩ "addr" 10 (some "first") 0 []) :=
    ⟨by decide, rfl⟩
  have hsecond : Proper (.register ⟨2, 2, 2, 2⟩ "addr" 11 (some "second") 50 []) :=
    ⟨by decide, rfl⟩
  have hrun : ProperRun 60 2 _ _ := .step (.step (.step .init hfirst rfl) hsecond rfl)
    (show Proper (.gc 55) from trivial) rfl
  have hrun' : ProperRun 60 2 _ _ := .step hrun (show Proper (.gc 100) from trivial) rfl
  have hreaders := (registry_consistent hrun).2.2.2.2.2 Unit fun _ _ => none
  have hreaders' := (registry_consistent hrun').2.2.2.2.2 Unit fun _ _ => none
  exact ⟨_, _, _, _, hrun, hrun', rfl, rfl, hreaders ⟨1, 1, 1, 1⟩ [7], hreaders ⟨2, 2, 2, 2⟩ [7],
    hreaders' ⟨1, 1, 1, 1⟩ [7], hreaders' ⟨2, 2, 2, 2⟩ [7]⟩

end Dualnet.Peers
