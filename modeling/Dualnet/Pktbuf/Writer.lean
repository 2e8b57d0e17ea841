import Mathlib.Tactic

/-!
# The batching writer

`pktbuf/writer.go`: producers build packets into a batch under the writer's lock, and a full batch
goes to the flush function. The lock is held from `Reserve` to `Commit`, so a packet being built is
part of the state. Packets, with their sizes, and what the flush function works on are arbitrary
types; an operation that would wait, for the lock or in the flush function, has no result.

An invariant that ties the sink to the packets handed to it so far (`Writer.Holds`) is kept by
every operation once it is kept by the flush function.
-/

namespace Dualnet.Pktbuf

/-- A writer. `building` is the packet of the producer that holds the lock; `sink` is what the
flush function works on. -/
structure Writer (α σ : Type) where
  views : List α
  building : Option α
  err : Option String
  sink : σ

namespace Writer

variable {α σ : Type}

/-- `NewWriter`. -/
def new (sink : σ) : Writer α σ := ⟨[], none, none, sink⟩

variable (size : α → Nat) (arenaCap maxPackets : Nat)
  (flush : σ → List α → Option (σ × Option String)) (w : Writer α σ)

/-- `flushLocked`: hand a batch that is not empty to the flush function, record its error and
forget the batch. -/
def flushLocked : Option (Writer α σ) :=
  if w.views.isEmpty then some w
  else (flush w.sink w.views).map fun (sink, err) =>
    { w with views := [], err := err.or w.err, sink := sink }

/-- How many bytes of the arena are in use. -/
def arena : Nat := (w.views.map size).sum

/-- `Reserve`, for the packet that is built next. A packet larger than the arena makes the slice
expression panic. -/
def reserve (p : α) : Option (Writer α σ) :=
  if w.building.isSome ∨ arenaCap < size p then none
  else if w.views.length = maxPackets ∨ arenaCap < w.arena size + size p then
    (w.flushLocked flush).map fun w => { w with building := some p }
  else some { w with building := some p }

/-- `Commit`, with the packet it commits. -/
def commit : Option (Writer α σ × α) := do
  let p ← w.building
  let w := { w with views := w.views ++ [p], building := none }
  if w.views.length = maxPackets ∨ w.arena size = arenaCap then
    (w.flushLocked flush).map fun w => (w, p)
  else some (w, p)

/-- `tryFlush`: nothing happens while a producer holds the lock. -/
def tryFlush : Option (Writer α σ) :=
  if w.building.isSome then some w else w.flushLocked flush

end Writer

/-- What happens to a writer: the two halves of a packet's build, and a tick of its flush group. -/
inductive Op (α : Type) where
  | reserve (p : α)
  | commit
  | tick

/-- Perform an operation, with the packet it commits. -/
def Writer.perform {α σ : Type} (size : α → Nat) (arenaCap maxPackets : Nat)
    (flush : σ → List α → Option (σ × Option String)) (w : Writer α σ) :
    Op α → Option (Writer α σ × Option α)
  | .reserve p => (w.reserve size arenaCap maxPackets flush p).map fun w => (w, none)
  | .commit => (w.commit size arenaCap maxPackets flush).map fun (w, p) => (w, some p)
  | .tick => (w.tryFlush flush).map fun w => (w, none)

/-- The packets committed in a run whose outcomes show them, in order. -/
def committed {ε α : Type} (history : List (ε × Option α)) : List α :=
  (history.filterMap Prod.snd).reverse

/-- What one more step commits. -/
@[simp] theorem committed_cons {ε α : Type} (event : ε) (out : Option α)
    (history : List (ε × Option α)) :
    committed ((event, out) :: history) = committed history ++ out.toList := by
  cases out <;> simp [committed]

namespace Writer

variable {α σ : Type} {size : α → Nat} {arenaCap maxPackets : Nat}
  {flush : σ → List α → Option (σ × Option String)} {w w' : Writer α σ} {packets : List α}

/-- The sink and the error are in the relation `I` to the packets handed to the flush function,
which are all of `packets` but those in the batch. -/
def Holds (I : σ → Option String → List α → Prop) (w : Writer α σ) (packets : List α) : Prop :=
  ∃ handed, I w.sink w.err handed ∧ packets = handed ++ w.views

variable {I J : σ → Option String → List α → Prop}

/-- A change of the sink by someone else. -/
theorem Holds.sink (h : w.Holds I packets) {sink : σ}
    (hsink : ∀ handed, I w.sink w.err handed → J sink w.err handed) :
    { w with sink := sink }.Holds J packets := by
  obtain ⟨handed, hI, hpackets⟩ := h
  exact ⟨handed, hsink handed hI, hpackets⟩

section Flush

variable (hflush : ∀ sink err handed views sink' err', I sink err handed →
  flush sink views = some (sink', err') → I sink' (err'.or err) (handed ++ views))
include hflush

/-- A flush keeps this. -/
theorem Holds.flushLocked (h : w.Holds I packets) (hw : w.flushLocked flush = some w') :
    w'.Holds I packets := by
  unfold Writer.flushLocked at hw
  split at hw
  · obtain rfl := Option.some.inj hw
    exact h
  · obtain ⟨⟨sink, err⟩, hcall, rfl⟩ := Option.map_eq_some_iff.mp hw
    obtain ⟨handed, hI, hpackets⟩ := h
    exact ⟨handed ++ w.views, hflush _ _ _ _ _ _ hI hcall, by simp [hpackets]⟩

/-- So does a tick. -/
theorem Holds.tryFlush (h : w.Holds I packets) (hw : w.tryFlush flush = some w') :
    w'.Holds I packets := by
  unfold Writer.tryFlush at hw
  split at hw
  · obtain rfl := Option.some.inj hw
    exact h
  · exact h.flushLocked hflush hw

/-- So does a reservation. -/
theorem Holds.reserve (h : w.Holds I packets) {p : α}
    (hw : w.reserve size arenaCap maxPackets flush p = some w') : w'.Holds I packets := by
  unfold Writer.reserve at hw
  split at hw
  · cases hw
  split at hw
  · obtain ⟨w₁, hw₁, rfl⟩ := Option.map_eq_some_iff.mp hw
    have hflushed : w₁.Holds I packets := h.flushLocked hflush hw₁
    exact hflushed
  · obtain rfl := Option.some.inj hw
    exact h

/-- `Commit` adds its packet. -/
theorem Holds.commit (h : w.Holds I packets) {p : α}
    (hw : w.commit size arenaCap maxPackets flush = some (w', p)) :
    w'.Holds I (packets ++ [p]) := by
  obtain ⟨q, -, hw⟩ := Option.bind_eq_some_iff.mp hw
  have hadd : { w with views := w.views ++ [q], building := none }.Holds I (packets ++ [q]) := by
    obtain ⟨handed, hI, rfl⟩ := h
    exact ⟨handed, hI, List.append_assoc ..⟩
  simp only at hw
  split at hw
  · obtain ⟨w₁, hw₁, hout⟩ := Option.map_eq_some_iff.mp hw
    obtain ⟨rfl, rfl⟩ := Prod.mk.inj hout
    exact hadd.flushLocked hflush hw₁
  · obtain ⟨rfl, rfl⟩ := Prod.mk.inj (Option.some.inj hw)
    exact hadd

/-- Every operation keeps the relation. -/
theorem Holds.perform (h : w.Holds I packets) {op : Op α} {out : Option α}
    (hw : w.perform size arenaCap maxPackets flush op = some (w', out)) :
    w'.Holds I (packets ++ out.toList) := by
  cases op with
  | reserve p =>
    obtain ⟨w₁, hw₁, hout⟩ := Option.map_eq_some_iff.mp hw
    obtain ⟨rfl, rfl⟩ := Prod.mk.inj hout
    rw [Option.toList_none, List.append_nil]
    exact h.reserve hflush hw₁
  | commit =>
    obtain ⟨⟨w₁, p⟩, hw₁, hout⟩ := Option.map_eq_some_iff.mp hw
    obtain ⟨rfl, rfl⟩ := Prod.mk.inj hout
    exact h.commit hflush hw₁
  | tick =>
    obtain ⟨w₁, hw₁, hout⟩ := Option.map_eq_some_iff.mp hw
    obtain ⟨rfl, rfl⟩ := Prod.mk.inj hout
    rw [Option.toList_none, List.append_nil]
    exact h.tryFlush hflush hw₁

end Flush

end Writer

end Dualnet.Pktbuf
