import Mathlib.Data.Stream.Init
import Mathlib.Tactic

/-!
# XOR with a keystream

`xorWith s bs` combines a byte string with the first bytes of an infinite stream. Doing it in
pieces, each piece from where the last one stopped, is doing it at once, and doing it twice
gives the bytes back.
-/

namespace Dualnet.Library

/-- XOR a byte string with the head of a stream. -/
def xorWith (s : Stream' UInt8) : List UInt8 → List UInt8
  | [] => []
  | b :: bs => (b ^^^ s.head) :: xorWith s.tail bs

/-- Nothing to combine. -/
@[simp] theorem xorWith_nil (s : Stream' UInt8) : xorWith s [] = [] := rfl

/-- XOR keeps the length. -/
@[simp] theorem length_xorWith (s : Stream' UInt8) (bs : List UInt8) :
    (xorWith s bs).length = bs.length := by
  induction bs generalizing s with
  | nil => rfl
  | cons b bs ih => simp [xorWith, ih]

/-- A second piece continues where the first one stopped. -/
theorem xorWith_append (s : Stream' UInt8) (bs bs' : List UInt8) :
    xorWith s (bs ++ bs') = xorWith s bs ++ xorWith (s.drop bs.length) bs' := by
  induction bs generalizing s with
  | nil => rfl
  | cons b bs ih =>
    rw [List.cons_append, xorWith, ih, xorWith, List.cons_append, List.length_cons]
    rfl

/-- The same stream twice cancels. -/
theorem xorWith_xorWith (s : Stream' UInt8) (bs : List UInt8) : xorWith s (xorWith s bs) = bs := by
  induction bs generalizing s with
  | nil => rfl
  | cons b bs ih => simp only [xorWith, ih, UInt8.xor_assoc, UInt8.xor_self, UInt8.xor_zero]

/-- As long as the bytes in front of a stream suffice, only they are used. -/
theorem xorWith_appendStream (l : List UInt8) (s : Stream' UInt8) {bs : List UInt8}
    (h : bs.length ≤ l.length) : xorWith (l ++ₛ s) bs = List.zipWith (· ^^^ ·) bs l := by
  induction bs generalizing l with
  | nil => rfl
  | cons b bs ih =>
    cases l with
    | nil => simp at h
    | cons a l =>
      rw [List.zipWith_cons_cons, ← ih l (by simpa using h)]
      rfl

/-- Dropping part of the bytes in front of a stream. -/
theorem drop_appendStream (l : List UInt8) (s : Stream' UInt8) {n : Nat} (h : n ≤ l.length) :
    (l ++ₛ s).drop n = l.drop n ++ₛ s := by
  induction n generalizing l with
  | zero => rfl
  | succ n ih =>
    cases l with
    | nil => simp at h
    | cons a l => exact ih l (by simpa using h)

/-- XORing zeros lays the stream open. -/
theorem xorWith_replicate_zero (s : Stream' UInt8) (n : Nat) :
    xorWith s (List.replicate n 0) = s.take n := by
  induction n generalizing s with
  | zero => rfl
  | succ n ih => simp [List.replicate_succ, xorWith, ih, Stream'.take_succ]

/-- Cutting either list to the other's length is the same. -/
theorem zipWith_take_length {α : Type} (f : α → α → α) (l l' : List α) :
    List.zipWith f l (l'.take l.length) = List.zipWith f (l.take l'.length) l' := by
  induction l generalizing l' with
  | nil => simp
  | cons a l ih =>
    cases l' with
    | nil => simp
    | cons b l' => simp [ih]

end Dualnet.Library
