import Mathlib.Tactic

/-!
# Spans of a memory

A slice of a memory is a span, its first index and its length. `read` is its contents; a store
outside a span leaves them alone (`read_set`). Spans that follow one another without a gap tile the
range they fill (`Tiles`): they add up to it and no two share an index.
-/

namespace Dualnet.Library

/-- A slice of a memory. -/
structure Span where
  start : Nat
  len : Nat
  deriving DecidableEq

namespace Span

variable {α : Type}

/-- The index after the last one. -/
def stop (s : Span) : Nat := s.start + s.len

/-- The index belongs to the span. -/
def Covers (s : Span) (i : Nat) : Prop := s.start ≤ i ∧ i < s.stop

/-- No index belongs to both. -/
def Apart (s t : Span) : Prop := ∀ i, ¬ (s.Covers i ∧ t.Covers i)

/-- What stands in the span. -/
def read (s : Span) (mem : List α) : List α := (mem.drop s.start).take s.len

/-- Spans one after the other. -/
theorem apart_of_stop_le {s t : Span} (h : s.stop ≤ t.start) : s.Apart t := by
  rintro i ⟨⟨-, hs⟩, ⟨ht, -⟩⟩
  omega

/-- A span is read as a whole. -/
theorem length_read {s : Span} {mem : List α} (h : s.stop ≤ mem.length) :
    (s.read mem).length = s.len := by
  simp only [stop] at h
  simp only [read, List.length_take, List.length_drop]
  omega

/-- The first part of a span. -/
theorem take_read (s : Span) (mem : List α) {n : Nat} (h : n ≤ s.len) :
    (s.read mem).take n = (Span.mk s.start n).read mem := by
  simp [read, List.take_take, Nat.min_eq_left h]

/-- A store outside the span. -/
theorem read_set {s : Span} {mem : List α} {i : Nat} (a : α) (h : ¬ s.Covers i) :
    s.read (mem.set i a) = s.read mem := by
  refine List.ext_getElem? fun j => ?_
  simp only [read, List.getElem?_take, List.getElem?_drop]
  split
  · rename_i hj
    have hne : i ≠ s.start + j := by
      rintro rfl
      exact h ⟨Nat.le_add_right _ _, Nat.add_lt_add_left hj _⟩
    rw [List.getElem?_set_ne hne]
  · rfl

/-- A span in two parts. -/
theorem read_append (a m n : Nat) (mem : List α) :
    (Span.mk a (m + n)).read mem = (Span.mk a m).read mem ++ (Span.mk (a + m) n).read mem := by
  simp only [read, List.take_add, List.drop_drop]

/-- What was stored is read back. -/
theorem read_set_self {mem : List α} {i : Nat} (a : α) (h : i < mem.length) :
    (Span.mk i 1).read (mem.set i a) = [a] := by
  have hdrop : (mem.set i a).drop i = a :: mem.drop (i + 1) := by
    rw [List.drop_eq_getElem_cons (by simpa using h)]
    simp [List.drop_set]
  simp [read, hdrop]

end Span

/-- The spans follow one another from `a` to `b` without a gap. -/
def Tiles (a : Nat) : List Span → Nat → Prop
  | [], b => a = b
  | s :: spans, b => s.start = a ∧ Tiles s.stop spans b

namespace Tiles

variable {a b : Nat} {spans : List Span}

/-- One more span at the end. -/
theorem snoc (h : Tiles a spans b) (n : Nat) : Tiles a (spans ++ [⟨b, n⟩]) (b + n) := by
  induction spans generalizing a with
  | nil => exact ⟨Eq.symm h, rfl⟩
  | cons s spans ih => exact ⟨h.1, ih h.2⟩

/-- Tiles go forward. -/
theorem start_le (h : Tiles a spans b) : a ≤ b := by
  induction spans generalizing a with
  | nil => exact Nat.le_of_eq h
  | cons s spans ih =>
    obtain ⟨rfl, hrest⟩ := h
    exact (Nat.le_add_right _ _).trans (ih hrest)

/-- Every span is inside the range. -/
theorem bounds (h : Tiles a spans b) : ∀ s ∈ spans, a ≤ s.start ∧ s.stop ≤ b := by
  induction spans generalizing a with
  | nil => simp
  | cons t spans ih =>
    obtain ⟨rfl, hrest⟩ := h
    have hle : t.start ≤ t.stop := Nat.le_add_right _ _
    intro s hs
    rcases List.mem_cons.mp hs with rfl | hs
    · exact ⟨Nat.le_refl _, hrest.start_le⟩
    · obtain ⟨hstart, hstop⟩ := ih hrest s hs
      exact ⟨hle.trans hstart, hstop⟩

/-- The spans cover the range and nothing else. -/
theorem covers (h : Tiles a spans b) (i : Nat) :
    (∃ s ∈ spans, s.Covers i) ↔ a ≤ i ∧ i < b := by
  induction spans generalizing a with
  | nil =>
    obtain rfl : a = b := h
    simp only [List.not_mem_nil, false_and, exists_false, false_iff]
    omega
  | cons t spans ih =>
    obtain ⟨rfl, hrest⟩ := h
    have hle : t.start ≤ t.stop := Nat.le_add_right _ _
    have hstop := hrest.start_le
    simp only [List.mem_cons, exists_eq_or_imp, ih hrest]
    simp only [Span.Covers]
    omega

/-- The lengths add up. -/
theorem sum (h : Tiles a spans b) : a + (spans.map Span.len).sum = b := by
  induction spans generalizing a with
  | nil => exact h
  | cons s spans ih =>
    obtain ⟨rfl, hrest⟩ := h
    rw [List.map_cons, List.sum_cons, ← Nat.add_assoc]
    exact ih hrest

/-- No two spans share an index. -/
theorem apart (h : Tiles a spans b) : spans.Pairwise Span.Apart := by
  induction spans generalizing a with
  | nil => exact .nil
  | cons s spans ih =>
    refine .cons (fun t ht => ?_) (ih h.2)
    exact Span.apart_of_stop_le (h.2.bounds t ht).1

/-- A store behind the range leaves all the spans alone. -/
theorem map_read_set {α : Type} (h : Tiles a spans b) {mem : List α} {i : Nat} (x : α)
    (hi : b ≤ i) : spans.map (·.read (mem.set i x)) = spans.map (·.read mem) := by
  refine List.map_congr_left fun s hs => Span.read_set x ?_
  rintro ⟨-, hlt⟩
  have hstop := (h.bounds s hs).2
  omega

/-- What stands in the spans is as long as the range. -/
theorem sum_length_read {α : Type} (h : Tiles 0 spans b) {mem : List α} (hb : b ≤ mem.length) :
    ((spans.map (·.read mem)).map List.length).sum = b := by
  have hlengths : (spans.map (·.read mem)).map List.length = spans.map Span.len := by
    rw [List.map_map]
    refine List.map_congr_left fun s hs => ?_
    exact Span.length_read ((h.bounds s hs).2.trans hb)
  rw [hlengths]
  simpa using h.sum

end Tiles

end Dualnet.Library
