import Mathlib.Tactic

/-!
# Texts in UTF-8

The bytes of a text, character by character. ASCII bytes stand for their characters only, so a text
can be cut at them before it is decoded.
-/

namespace Dualnet.Library

open String (utf8EncodeChar)

/-- A text in UTF-8. -/
def utf8 (s : List Char) : List UInt8 := s.flatMap utf8EncodeChar

/-- The bytes of the first character come first. -/
theorem utf8_cons (c : Char) (s : List Char) : utf8 (c :: s) = utf8EncodeChar c ++ utf8 s := rfl

/-- Every character has bytes. -/
theorem utf8_eq_nil {s : List Char} : utf8 s = [] ↔ s = [] := by
  cases s with
  | nil => simp [utf8]
  | cons c s => simp [utf8_cons, String.utf8EncodeChar_ne_nil]

/-- The bytes of a rune: ASCII, or a first byte from `0xc0` on and others below. -/
inductive Encoded (c : Char) : List UInt8 → Prop where
  | one {p : UInt8} : c.toNat < 0x80 → p.toNat = c.toNat → Encoded c [p]
  | two {p q : UInt8} : 0x80 ≤ c.toNat → c.toNat < 0x800 → p.toNat = 0xc0 + c.toNat / 64 →
      q.toNat = 0x80 + c.toNat % 64 → Encoded c [p, q]
  | three {p q r : UInt8} : 0x800 ≤ c.toNat → c.toNat < 0x10000 →
      p.toNat = 0xe0 + c.toNat / 4096 → q.toNat = 0x80 + c.toNat / 64 % 64 →
      r.toNat = 0x80 + c.toNat % 64 → Encoded c [p, q, r]
  | four {p q r s : UInt8} : 0x10000 ≤ c.toNat → 0xf0 ≤ p.toNat →
      q.toNat = 0x80 + c.toNat / 4096 % 64 → r.toNat = 0x80 + c.toNat / 64 % 64 →
      s.toNat = 0x80 + c.toNat % 64 → Encoded c [p, q, r, s]

/-- Every character is encoded in one of these ways. -/
theorem encoded (c : Char) : Encoded c (utf8EncodeChar c) := by
  have hval : c.toNat = c.val.toNat := rfl
  have hmax : c.toNat < 0x110000 := Nat.lt_of_not_le fun hge => by
    have hvalid := c.valid
    simp only [UInt32.isValidChar, Nat.isValidChar] at hvalid
    omega
  have hbyte : ∀ n, n < 0x100 → (UInt8.ofNat n).toNat = n := fun n hn => by
    rw [UInt8.toNat_ofNat', Nat.mod_eq_of_lt hn]
  unfold utf8EncodeChar
  dsimp only
  split_ifs
  · exact .one (by omega) (by rw [hbyte] <;> omega)
  · exact .two (by omega) (by omega) (by rw [hbyte] <;> omega) (by rw [hbyte] <;> omega)
  · exact .three (by omega) (by omega) (by rw [hbyte] <;> omega) (by rw [hbyte] <;> omega)
      (by rw [hbyte] <;> omega)
  · exact .four (by omega) (by rw [hbyte] <;> omega) (by rw [hbyte] <;> omega)
      (by rw [hbyte] <;> omega) (by rw [hbyte] <;> omega)

/-! ## ASCII characters -/

/-- An ASCII byte stands for its character only. -/
theorem mem_utf8EncodeChar {b : UInt8} (hb : b.toNat < 0x80) {c : Char} :
    b ∈ utf8EncodeChar c ↔ c.toNat = b.toNat := by
  have hc := encoded c
  generalize utf8EncodeChar c = e at hc
  cases hc <;> simp only [List.mem_cons, List.not_mem_nil, or_false, ← UInt8.toNat_inj] <;> omega

variable {b : UInt8} {x c : Char}

/-- An ASCII character is one byte. -/
structure Ascii (b : UInt8) (x : Char) : Prop where
  encoded : utf8EncodeChar x = [b]
  lt : b.toNat < 0x80

/-- The byte stands for its character only. -/
theorem Ascii.mem_iff (h : Ascii b x) : b ∈ utf8EncodeChar c ↔ c = x := by
  have hx := (mem_utf8EncodeChar h.lt (c := x)).mp (by simp [h.encoded])
  rw [mem_utf8EncodeChar h.lt, ← hx, Char.toNat_inj]

/-- So it does in a text. -/
theorem Ascii.mem_utf8_iff (h : Ascii b x) {s : List Char} : b ∈ utf8 s ↔ x ∈ s := by
  simp [utf8, List.mem_flatMap, h.mem_iff]

/-- A text up to the character. -/
theorem Ascii.takeWhile (h : Ascii b x) (s : List Char) :
    (utf8 s).takeWhile (· != b) = utf8 (s.takeWhile (· != x)) := by
  induction s with
  | nil => rfl
  | cons c s ih =>
    by_cases hc : c = x
    · subst hc
      simp [utf8, h.encoded]
    · have hother : ∀ a ∈ utf8EncodeChar c, (a != b) = true := by
        intro a ha
        simpa using fun heq : a = b => hc (h.mem_iff.mp (heq ▸ ha))
      rw [utf8_cons, List.takeWhile_append_of_pos hother, ih,
        List.takeWhile_cons_of_pos (by simpa using hc), utf8_cons]

/-- A text split at the character. -/
theorem Ascii.splitOn (h : Ascii b x) (s : List Char) :
    (utf8 s).splitOn b = (s.splitOn x).map utf8 := by
  have happend : ∀ a rest : List UInt8, b ∉ a →
      (a ++ rest).splitOn b = (rest.splitOn b).modifyHead (a ++ ·) := by
    intro a rest ha
    induction a with
    | nil => exact (congrFun List.modifyHead_id _).symm
    | cons y a ih =>
      rw [List.mem_cons, not_or] at ha
      rw [List.cons_append, List.splitOn_cons_eq_if_modifyHead,
        if_neg (by simpa using Ne.symm ha.1), ih ha.2, List.modifyHead_modifyHead]
      rfl
  induction s with
  | nil => simp [utf8]
  | cons c s ih =>
    rw [utf8_cons, List.splitOn_cons_eq_if_modifyHead]
    by_cases hc : c = x
    · subst hc
      rw [h.encoded, List.singleton_append, List.splitOn_cons_eq_if_modifyHead, ih]
      simp [utf8]
    · rw [happend _ _ (mt h.mem_iff.mp hc), ih, if_neg (by simpa using hc)]
      cases s.splitOn x with
      | nil => rfl
      | cons p ps => simp [utf8_cons]

end Dualnet.Library
