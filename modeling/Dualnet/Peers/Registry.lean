import Dualnet.Library.Maps
import Dualnet.Library.Runs
import Dualnet.Wire.Envelope

/-!
# The peer registry

Package `peers`: the downstream peers of a listening outgoing connection. Records live on a
heap and `byID` and `byKey` hold pointers to them, because `GC` compares pointers. Sinks are
an arbitrary type, time is an integer number of nanoseconds, and a call is given the clock
reading and the random ids it draws.
-/

namespace Dualnet.Peers

open Library Wire

/-- A tracked peer; `lastTS` is the control stamp last accepted for it. -/
structure Peer (S : Type) where
  id : Owner
  key : String
  sink : Option S
  lastSeen : Int
  lastTS : UInt64

/-- The zero value. -/
def Peer.zero {S : Type} : Peer S := ⟨Owner.zero, "", none, 0, 0⟩

/-- The address of a record. -/
abbrev Ptr := Nat

/-- The registry. Addresses from `next` on are free. -/
structure Registry (S : Type) where
  multiple : Bool
  ttl : Int
  maxPeers : Int
  heap : Ptr → Peer S
  next : Ptr
  byID : FMap Owner Ptr
  byKey : FMap String Ptr
  single : Option (Peer S)
  singleTS : UInt64

variable {S : Type}

/-- `New`. -/
def new (multiple : Bool) (ttl maxPeers : Int) : Registry S :=
  ⟨multiple, ttl, maxPeers, fun _ => Peer.zero, 0, ∅, ∅, none, 0⟩

namespace Registry

variable (r : Registry S)

/-- `mintLocked`: the first draw that is a fresh non-zero id. With no such draw the loop is
still running. -/
def mintLocked (draws : List Owner) : Option Owner :=
  draws.find? fun id => !id.isZero && (r.byID.lookup id).isNone

/-- The id a multiple-mode `Register` works on: the claimed one, the one the transport key
already has, or a minted one. -/
def idFor (claimed : Owner) (peerKey : String) (draws : List Owner) : Option Owner :=
  if claimed.isZero then
    match r.byKey.lookup peerKey with
    | some p => some (r.heap p).id
    | none => r.mintLocked draws
  else some claimed

/-- The cap refuses a brand-new peer. -/
def full : Bool := 0 < r.maxPeers && r.maxPeers ≤ r.byID.size

/-- Allocate the record of a brand-new peer. -/
def alloc (id : Owner) : Registry S :=
  { r with
    heap := Function.update r.heap r.next { Peer.zero with id := id }
    next := r.next + 1
    byID := r.byID.insert id r.next }

/-- Refresh the record at `p`, moving it to the transport key it was seen under. -/
def refresh (p : Ptr) (peerKey : String) (ts : UInt64) (sink : Option S) (now : Int) :
    Registry S :=
  let r := if (r.heap p).key ≠ peerKey then
      { r with
        heap := Function.update r.heap p { r.heap p with key := peerKey }
        byKey := (r.byKey.erase (r.heap p).key).insert peerKey p }
    else r
  { r with
    heap := Function.update r.heap p
      { r.heap p with sink := sink, lastSeen := now, lastTS := ts } }

/-- `Register`: the returned id and whether the record was accepted. -/
def register (claimed : Owner) (peerKey : String) (ts : UInt64) (sink : Option S) (now : Int)
    (draws : List Owner) : Option (Registry S × Owner × Bool) :=
  if !r.multiple then
    if ts ≠ 0 ∧ ts ≤ r.singleTS then some (r, Owner.zero, false)
    else some ({ r with singleTS := ts, single := some ⟨Owner.zero, "", sink, now, ts⟩ },
      Owner.zero, true)
  else do
    let id ← r.idFor claimed peerKey draws
    match r.byID.lookup id with
    | none =>
      if r.full then some (r, Owner.zero, false)
      else some ((r.alloc id).refresh r.next peerKey ts sink now, id, true)
    | some p =>
      if ts ≠ 0 ∧ ts ≤ (r.heap p).lastTS then some (r, Owner.zero, false)
      else some (r.refresh p peerKey ts sink now, id, true)

/-- One round of `GC`'s loop. -/
def gcEntry (cutoff : Int) (acc : Registry S × Nat) (entry : Σ _ : Owner, Ptr) :
    Registry S × Nat :=
  let (r, n) := acc
  let ⟨id, p⟩ := entry
  if (r.heap p).lastSeen < cutoff then
    ({ r with
      byID := r.byID.erase id
      -- A newer peer may have taken the key over; then its entry stays.
      byKey := if r.byKey.lookup (r.heap p).key = some p then r.byKey.erase (r.heap p).key
        else r.byKey }, n + 1)
  else (r, n)

/-- `GC`: drop the multiple-mode peers idle beyond the ttl, and count them. -/
def gc (now : Int) : Registry S × Nat :=
  if !r.multiple then (r, 0)
  else r.byID.entries.foldl (gcEntry (now - r.ttl)) (r, 0)

/-- `Accepts`. -/
def accepts (owner : Owner) : Bool :=
  if !r.multiple then r.single.isSome else (r.byID.lookup owner).isSome

/-- `SinkFor`: the sink a packet of this owner goes to, and whether a peer is known. -/
def sinkFor (owner : Owner) : Option S × Bool :=
  if r.multiple then
    match r.byID.lookup owner with
    | some p => ((r.heap p).sink, true)
    | none => (none, false)
  else match r.single with
    | some p => (p.sink, true)
    | none => (none, false)

/-- `Send`: hand the blob to the sink selected by the owner, if a peer with one is known.
`write` is what calling a sink returns. -/
def send {E : Type} (write : S → List UInt8 → Option E) (owner : Owner) (blob : List UInt8) :
    Bool × Option E :=
  let sink := if r.multiple then (r.byID.lookup owner).bind fun p => (r.heap p).sink
    else r.single.bind Peer.sink
  match sink with
  | none => (false, none)
  | some sink => (true, write sink blob)

/-! ## What the operations change -/

/-- A refresh leaves the ids. -/
@[simp] theorem refresh_byID (p : Ptr) (peerKey : String) (ts : UInt64) (sink : Option S)
    (now : Int) : (r.refresh p peerKey ts sink now).byID = r.byID := by
  unfold refresh
  split_ifs <;> rfl

/-- It leaves the mode. -/
@[simp] theorem refresh_multiple (p : Ptr) (peerKey : String) (ts : UInt64) (sink : Option S)
    (now : Int) : (r.refresh p peerKey ts sink now).multiple = r.multiple := by
  unfold refresh
  split_ifs <;> rfl

/-- It leaves the limit. -/
@[simp] theorem refresh_maxPeers (p : Ptr) (peerKey : String) (ts : UInt64) (sink : Option S)
    (now : Int) : (r.refresh p peerKey ts sink now).maxPeers = r.maxPeers := by
  unfold refresh
  split_ifs <;> rfl

/-- It leaves the counter. -/
@[simp] theorem refresh_next (p : Ptr) (peerKey : String) (ts : UInt64) (sink : Option S)
    (now : Int) : (r.refresh p peerKey ts sink now).next = r.next := by
  unfold refresh
  split_ifs <;> rfl

/-- A brand-new record is found under its id. -/
theorem alloc_lookup (id id' : Owner) : (r.alloc id).byID.lookup id' =
    if id' = id then some r.next else r.byID.lookup id' :=
  FMap.lookup_insert_ite r.byID id id' r.next

/-- Allocation leaves the records in use alone. -/
theorem alloc_heap (id : Owner) {p : Ptr} (hp : p < r.next) : (r.alloc id).heap p = r.heap p :=
  Function.update_of_ne (Nat.ne_of_lt hp) _ _

/-- A refresh rewrites its own record, but for the id, and no other. -/
theorem refresh_heap (p q : Ptr) (peerKey : String) (ts : UInt64) (sink : Option S)
    (now : Int) : (r.refresh p peerKey ts sink now).heap q =
      if q = p then ⟨(r.heap p).id, peerKey, sink, now, ts⟩ else r.heap q := by
  unfold refresh
  by_cases hq : q = p
  · subst hq
    by_cases hkey : (r.heap q).key = peerKey
    · simp [hkey]
    · simp [hkey]
  · split_ifs <;> simp [Function.update_of_ne hq]

/-- A refresh stamps its own record and no other. -/
theorem refresh_lastTS (p q : Ptr) (peerKey : String) (ts : UInt64) (sink : Option S)
    (now : Int) : ((r.refresh p peerKey ts sink now).heap q).lastTS =
      if q = p then ts else (r.heap q).lastTS := by
  rw [refresh_heap]
  split <;> rfl

/-- A refresh under another key than the record's deletes the index entry of the old key,
whichever record it points to, and sets that of the new one. -/
theorem refresh_byKey (p : Ptr) (peerKey k : String) (ts : UInt64) (sink : Option S)
    (now : Int) : (r.refresh p peerKey ts sink now).byKey.lookup k =
      if (r.heap p).key = peerKey then r.byKey.lookup k
      else if k = peerKey then some p
      else if k = (r.heap p).key then none else r.byKey.lookup k := by
  unfold refresh
  by_cases hkey : (r.heap p).key = peerKey
  · simp [hkey]
  · simp only [ne_eq, hkey, not_false_eq_true, if_true, if_false]
    rw [FMap.lookup_insert_ite, FMap.lookup_erase_ite]

/-- Everything `Register` can do: refuse and change nothing, take over as the single peer,
create a record, or refresh one. -/
theorem register_cases {claimed : Owner} {peerKey : String} {ts : UInt64} {sink : Option S}
    {now : Int} {draws : List Owner} {r' : Registry S} {id : Owner} {ok : Bool}
    (h : r.register claimed peerKey ts sink now draws = some (r', id, ok)) :
    (ok = false ∧ r' = r) ∨
    (ok = true ∧ r.multiple = false ∧ (ts ≠ 0 → r.singleTS < ts) ∧
      r' = { r with singleTS := ts, single := some ⟨Owner.zero, "", sink, now, ts⟩ }) ∨
    (ok = true ∧ r.multiple = true ∧ r.idFor claimed peerKey draws = some id ∧
      r.byID.lookup id = none ∧ r.full = false ∧
      r' = (r.alloc id).refresh r.next peerKey ts sink now) ∨
    ∃ p, ok = true ∧ r.multiple = true ∧ r.idFor claimed peerKey draws = some id ∧
      r.byID.lookup id = some p ∧ (ts ≠ 0 → (r.heap p).lastTS < ts) ∧
      r' = r.refresh p peerKey ts sink now := by
  unfold register at h
  cases hm : r.multiple with
  | false =>
    simp only [hm, Bool.not_false, if_true] at h
    split at h
    · obtain ⟨rfl, rfl, rfl⟩ := by simpa using h
      exact .inl ⟨rfl, rfl⟩
    · rename_i hfresh
      obtain ⟨rfl, rfl, rfl⟩ := by simpa using h
      exact .inr (.inl ⟨rfl, rfl, fun hts => UInt64.not_le.mp fun hle => hfresh ⟨hts, hle⟩, rfl⟩)
  | true =>
    simp only [hm, Bool.not_true, Bool.false_eq_true, if_false, Option.bind_eq_bind,
      Option.bind_eq_some_iff] at h
    obtain ⟨id', hid, h⟩ := h
    cases hp : r.byID.lookup id' with
    | none =>
      simp only [hp] at h
      split at h
      · obtain ⟨rfl, rfl, rfl⟩ := by simpa using h
        exact .inl ⟨rfl, rfl⟩
      · rename_i hfull
        obtain ⟨rfl, rfl, rfl⟩ := by simpa using h
        exact .inr (.inr (.inl ⟨rfl, rfl, hid, hp, by simpa using hfull, rfl⟩))
    | some p =>
      simp only [hp] at h
      split at h
      · obtain ⟨rfl, rfl, rfl⟩ := by simpa using h
        exact .inl ⟨rfl, rfl⟩
      · rename_i hfresh
        obtain ⟨rfl, rfl, rfl⟩ := by simpa using h
        exact .inr (.inr (.inr ⟨p, rfl, rfl, hid, hp,
          fun hts => UInt64.not_le.mp fun hle => hfresh ⟨hts, hle⟩, rfl⟩))

/-- Drop the record at `p`, found under `id`. -/
def drop (id : Owner) (p : Ptr) : Registry S :=
  { r with
    byID := r.byID.erase id
    byKey := if r.byKey.lookup (r.heap p).key = some p then r.byKey.erase (r.heap p).key
      else r.byKey }

/-- A round of `GC` drops its record or does nothing. -/
theorem gcEntry_eq (cutoff : Int) (n : Nat) (id : Owner) (p : Ptr) :
    gcEntry cutoff (r, n) ⟨id, p⟩ =
      if (r.heap p).lastSeen < cutoff then (r.drop id p, n + 1) else (r, n) := rfl

/-- What holds before `GC` and is kept by dropping a record that was there holds after it. -/
theorem gc_induction {P : Registry S → Prop} (now : Int) (hinit : P r)
    (hdrop : ∀ r' id p, P r' → r.byID.lookup id = some p → P (r'.drop id p)) :
    P (r.gc now).1 := by
  unfold gc
  split
  · exact hinit
  refine List.foldlRecOn (motive := fun acc : Registry S × Nat => P acc.1) _ _ hinit ?_
  rintro ⟨acc, n⟩ hacc ⟨id, p⟩ hmem
  rw [gcEntry_eq]
  split
  · exact hdrop acc id p hacc (AList.mem_lookup_iff.mpr hmem)
  · exact hacc

/-- `GC` leaves the records themselves alone and only takes entries out. -/
theorem gc_frame (now : Int) : (r.gc now).1.heap = r.heap ∧ (r.gc now).1.next = r.next ∧
    (r.gc now).1.multiple = r.multiple ∧ (r.gc now).1.singleTS = r.singleTS ∧
    ∀ id p, (r.gc now).1.byID.lookup id = some p → r.byID.lookup id = some p := by
  refine r.gc_induction now (P := fun r' => r'.heap = r.heap ∧ r'.next = r.next ∧
    r'.multiple = r.multiple ∧ r'.singleTS = r.singleTS ∧
    ∀ id p, r'.byID.lookup id = some p → r.byID.lookup id = some p)
    ⟨rfl, rfl, rfl, rfl, fun _ _ h => h⟩ ?_
  rintro acc id p ⟨hheap, hnext, hmultiple, hsingle, hids⟩ -
  exact ⟨hheap, hnext, hmultiple, hsingle,
    fun id' q h => hids id' q (FMap.lookup_of_lookup_erase h)⟩

end Registry

/-- A call on the registry, with the clock reading and the random ids it gets. -/
inductive Call (S : Type) where
  | register (claimed : Owner) (peerKey : String) (ts : UInt64) (sink : Option S) (now : Int)
      (draws : List Owner)
  | gc (now : Int)

/-- What the caller gets back. -/
inductive Outcome where
  | registered (id : Owner) (ok : Bool)
  | dropped (n : Nat)
  deriving DecidableEq

/-- One call. -/
def step (r : Registry S) : Call S → Option (Registry S × Outcome)
  | .register claimed peerKey ts sink now draws =>
    (r.register claimed peerKey ts sink now draws).map fun (r, id, ok) => (r, .registered id ok)
  | .gc now => some ((r.gc now).1, .dropped (r.gc now).2)

/-- No call changes the cap. -/
theorem step_maxPeers {r r' : Registry S} {call : Call S} {out : Outcome}
    (h : step r call = some (r', out)) : r'.maxPeers = r.maxPeers := by
  cases call with
  | register claimed peerKey ts sink now draws =>
    simp only [step, Option.map_eq_some_iff] at h
    obtain ⟨⟨r'', id, ok⟩, hcall, heq⟩ := h
    obtain ⟨rfl, rfl⟩ := Prod.mk.inj heq
    rcases r.register_cases hcall with ⟨-, rfl⟩ | ⟨-, -, -, rfl⟩ | ⟨-, -, -, -, -, rfl⟩ |
        ⟨p, -, -, -, -, -, rfl⟩
    · rfl
    · rfl
    · rw [Registry.refresh_maxPeers]
      rfl
    · rw [Registry.refresh_maxPeers]
  | gc now =>
    obtain ⟨rfl, rfl⟩ := pair_inj h
    exact r.gc_induction now (P := fun r' => r'.maxPeers = r.maxPeers) rfl
      fun _ _ _ hr' _ => hr'

end Dualnet.Peers
