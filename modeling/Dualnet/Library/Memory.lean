import Mathlib.Tactic

/-!
# Reading and writing regions of a memory

A memory gives every address a value. A loop that reads a source region piece by piece and writes
the result of each piece to the same place in a destination region gives what it would give on a
copy of the source, if the two regions are the same or apart (`InPlace`): what is still to be read
was not written yet (`InPlace.read_rest`).
-/

namespace Dualnet.Library

variable {α : Type}

/-- A memory. -/
abbrev Memory (α : Type) := Nat → α

namespace Memory

variable (m : Memory α)

/-- The `n` values from address `a` on. -/
def read (a n : Nat) : List α := (List.range n).map fun i => m (a + i)

/-- Write values from address `a` on. -/
def write (m : Memory α) (a : Nat) : List α → Memory α
  | [] => m
  | x :: xs => write (Function.update m a x) (a + 1) xs

/-- As much is read as was asked for. -/
@[simp] theorem length_read (a n : Nat) : (m.read a n).length = n := by simp [read]

/-- Reading nothing. -/
@[simp] theorem read_zero (a : Nat) : m.read a 0 = [] := rfl

/-- One part after the other. -/
theorem read_add (a n k : Nat) : m.read a (n + k) = m.read a n ++ m.read (a + n) k := by
  simp [read, List.range_add, Nat.add_assoc, Function.comp_def]

/-- The first part of what is read. -/
theorem take_read (a : Nat) {n k : Nat} (h : k ≤ n) : (m.read a n).take k = m.read a k := by
  obtain ⟨j, rfl⟩ := Nat.exists_eq_add_of_le h
  rw [read_add, List.take_left' (m.length_read a k)]

/-- The rest of it. -/
theorem drop_read (a : Nat) {n k : Nat} (h : k ≤ n) :
    (m.read a n).drop k = m.read (a + k) (n - k) := by
  obtain ⟨j, rfl⟩ := Nat.exists_eq_add_of_le h
  rw [read_add, List.drop_left' (m.length_read a k), Nat.add_sub_cancel_left]

/-- Reading one cell. -/
theorem read_one (a : Nat) : m.read a 1 = [m a] := rfl

/-- Writing nothing. -/
@[simp] theorem write_nil (a : Nat) : m.write a [] = m := rfl

/-- One part after the other. -/
theorem write_append (a : Nat) (xs ys : List α) :
    m.write a (xs ++ ys) = (m.write a xs).write (a + xs.length) ys := by
  induction xs generalizing m a with
  | nil => rfl
  | cons x xs ih =>
    rw [List.cons_append, write, ih, write, List.length_cons]
    congr 1
    omega

/-- Outside the region written nothing changes. -/
theorem write_outside {a i : Nat} {xs : List α} (h : i < a ∨ a + xs.length ≤ i) :
    m.write a xs i = m i := by
  induction xs generalizing m a with
  | nil => rfl
  | cons x xs ih =>
    rw [List.length_cons] at h
    rw [write, ih (a := a + 1) _ (by omega), Function.update_of_ne (by omega)]

/-- A region apart from the one written reads as before. -/
theorem read_write_apart {a b n : Nat} {xs : List α} (h : b + n ≤ a ∨ a + xs.length ≤ b) :
    (m.write a xs).read b n = m.read b n := by
  refine List.map_congr_left fun i hi => ?_
  have hi := List.mem_range.mp hi
  exact m.write_outside (by omega)

/-- A region below which nothing changed. -/
theorem read_congr_below {m m' : Memory α} {a : Nat} (h : ∀ i < a, m' i = m i) {b n : Nat}
    (hn : b + n ≤ a) : m'.read b n = m.read b n := by
  refine List.map_congr_left fun i hi => h _ ?_
  have hi := List.mem_range.mp hi
  omega

/-- What was written is read back. -/
theorem read_write_same (a : Nat) (xs : List α) : (m.write a xs).read a xs.length = xs := by
  induction xs generalizing m a with
  | nil => rfl
  | cons x xs ih =>
    rw [List.length_cons, Nat.add_comm, read_add, write, ih, read_one,
      write_outside _ (.inl (Nat.lt_succ_self a)), Function.update_self]
    rfl

/-- Reading past what was written. -/
theorem read_write_add (a n : Nat) (xs : List α) :
    (m.write a xs).read a (xs.length + n) = xs ++ m.read (a + xs.length) n := by
  rw [read_add, read_write_same, m.read_write_apart (.inr (Nat.le_refl _))]

end Memory

/-- The destination region is the source region or apart from it. -/
def InPlace (dst src n : Nat) : Prop := dst = src ∨ dst + n ≤ src ∨ src + n ≤ dst

namespace InPlace

variable {dst src n k : Nat}

/-- A buffer over itself. -/
theorem refl (a n : Nat) : InPlace a a n := .inl rfl

/-- The rest of two regions. -/
theorem rest (h : InPlace dst src (k + n)) : InPlace (dst + k) (src + k) n := by
  unfold InPlace at h ⊢
  omega

/-- Part of two regions. -/
theorem mono (h : InPlace dst src n) (hk : k ≤ n) : InPlace dst src k := by
  unfold InPlace at h ⊢
  omega

/-- Writing the first part of the destination leaves the rest of the source alone. -/
theorem read_rest (h : InPlace dst src (k + n)) (m : Memory α) {xs : List α}
    (hxs : xs.length = k) : (m.write dst xs).read (src + k) n = m.read (src + k) n := by
  unfold InPlace at h
  exact m.read_write_apart (by omega)

end InPlace

end Dualnet.Library
