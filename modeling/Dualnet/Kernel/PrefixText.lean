import Dualnet.Ipmatch.PrefixFile
import Dualnet.Kernel.Lower
import Dualnet.Library.Utf8

/-!
# Prefix files as text and as bytes

`Kernel.readPrefixes` reads the characters of a file, `Ipmatch.readPrefixes` its bytes, as the
source does. `readPrefixes_text`: on every text in UTF-8 they read the same. Newlines, comment
signs and slashes are bytes of their own in UTF-8, and the spaces trimmed are the same runes, from
either end.
-/

namespace Dualnet.Kernel

open Library Text Config
open Ipmatch (Bytes strip isSpace₂ isSpace₃)
open String (utf8EncodeChar)

/-! ## Spaces -/

/-- Spaces of one byte. -/
theorem isSpace_iff {a : UInt8} :
    Ipmatch.isSpace a = true ↔ (9 ≤ a.toNat ∧ a.toNat ≤ 13) ∨ a.toNat = 0x20 := by
  simp [Ipmatch.isSpace, UInt8.le_iff_toNat_le, ← UInt8.toNat_inj]

/-- Spaces of two bytes. -/
theorem isSpace₂_iff {a b : UInt8} :
    isSpace₂ a b = true ↔ a.toNat = 0xc2 ∧ (b.toNat = 0x85 ∨ b.toNat = 0xa0) := by
  simp [isSpace₂, ← UInt8.toNat_inj]

/-- Spaces of three bytes. -/
theorem isSpace₃_iff {a b c : UInt8} : isSpace₃ a b c = true ↔
    a.toNat = 0xe1 ∧ b.toNat = 0x9a ∧ c.toNat = 0x80 ∨
      a.toNat = 0xe2 ∧ b.toNat = 0x80 ∧ ((0x80 ≤ c.toNat ∧ c.toNat ≤ 0x8a) ∨ c.toNat = 0xa8 ∨
        c.toNat = 0xa9 ∨ c.toNat = 0xaf) ∨
      a.toNat = 0xe2 ∧ b.toNat = 0x81 ∧ c.toNat = 0x9f ∨
      a.toNat = 0xe3 ∧ b.toNat = 0x80 ∧ c.toNat = 0x80 := by
  simp [isSpace₃, UInt8.le_iff_toNat_le, ← UInt8.toNat_inj, or_assoc, and_assoc]

/-- Spaces as characters. -/
theorem textIsSpace_iff {c : Char} : Text.isSpace c = true ↔
    (9 ≤ c.toNat ∧ c.toNat ≤ 13) ∨ c.toNat = 0x20 ∨ c.toNat = 0x85 ∨ c.toNat = 0xa0 ∨
      c.toNat = 0x1680 ∨ (0x2000 ≤ c.toNat ∧ c.toNat ≤ 0x200a) ∨ c.toNat = 0x2028 ∨
      c.toNat = 0x2029 ∨ c.toNat = 0x202f ∨ c.toNat = 0x205f ∨ c.toNat = 0x3000 := by
  simp [Text.isSpace, or_assoc]

section Strip

variable {two : UInt8 → UInt8 → Bool} {three : UInt8 → UInt8 → UInt8 → Bool} {p q r : UInt8}
  {rest : Bytes}

/-- A space of one byte is stripped. -/
theorem strip_one (htwo : ∀ y, two p y = false) (hthree : ∀ y z, three p y z = false) :
    strip two three (p :: rest) =
      if Ipmatch.isSpace p then strip two three rest else p :: rest := by
  split
  · next h => exact Ipmatch.strip_cons_space h rest
  · next h => rcases rest with _ | ⟨y, _ | ⟨z, rest⟩⟩ <;> simp [strip, h, htwo, hthree]

/-- A space of two bytes is stripped. -/
theorem strip_two (h : Ipmatch.isSpace p = false) (hthree : ∀ z, three p q z = false) :
    strip two three (p :: q :: rest) =
      if two p q then strip two three rest else p :: q :: rest := by
  cases rest <;> simp [strip, h, hthree]

/-- A space of three bytes is stripped. -/
theorem strip_three (h : Ipmatch.isSpace p = false) (htwo : two p q = false) :
    strip two three (p :: q :: r :: rest) =
      if three p q r then strip two three rest else p :: q :: r :: rest := by
  simp [strip, h, htwo]

end Strip

/-- A rune is dropped if it is a space, from the left and from the right, where its last byte comes
first. -/
theorem strip_rune (c : Char) (rest : Bytes) :
    strip isSpace₂ isSpace₃ (utf8EncodeChar c ++ rest) =
        (if Text.isSpace c then strip isSpace₂ isSpace₃ rest else utf8EncodeChar c ++ rest) ∧
      strip (fun a b => isSpace₂ b a) (fun a b c => isSpace₃ c b a)
          ((utf8EncodeChar c).reverse ++ rest) =
        if Text.isSpace c then strip (fun a b => isSpace₂ b a) (fun a b c => isSpace₃ c b a) rest
        else (utf8EncodeChar c).reverse ++ rest := by
  have hc := encoded c
  generalize utf8EncodeChar c = e at hc
  cases hc with
  | one =>
    refine ⟨(strip_one (fun y => ?_) fun y z => ?_).trans (if_congr ?_ rfl rfl),
      (strip_one (fun y => ?_) fun y z => ?_).trans (if_congr ?_ rfl rfl)⟩ <;>
    simp only [← Bool.not_eq_true, isSpace_iff, isSpace₂_iff, isSpace₃_iff, textIsSpace_iff] <;>
    omega
  | two =>
    refine ⟨(strip_two ?_ fun z => ?_).trans (if_congr ?_ rfl rfl),
      (strip_two ?_ fun z => ?_).trans (if_congr ?_ rfl rfl)⟩ <;>
    simp only [← Bool.not_eq_true, isSpace_iff, isSpace₂_iff, isSpace₃_iff, textIsSpace_iff] <;>
    omega
  | three =>
    refine ⟨(strip_three ?_ ?_).trans (if_congr ?_ rfl rfl),
      (strip_three ?_ ?_).trans (if_congr ?_ rfl rfl)⟩ <;>
    simp only [← Bool.not_eq_true, isSpace_iff, isSpace₂_iff, isSpace₃_iff, textIsSpace_iff] <;>
    omega
  | four =>
    -- no space has four bytes
    refine ⟨(strip_three ?_ ?_).trans ((if_neg ?_).trans (if_neg ?_).symm),
      (strip_three ?_ ?_).trans ((if_neg ?_).trans (if_neg ?_).symm)⟩ <;>
    simp only [← Bool.not_eq_true, isSpace_iff, isSpace₂_iff, isSpace₃_iff, textIsSpace_iff] <;>
    omega

/-- Runes are stripped one by one. -/
theorem strip_runes {two : UInt8 → UInt8 → Bool} {three : UInt8 → UInt8 → UInt8 → Bool}
    {encode : Char → Bytes} (h : ∀ c rest, strip two three (encode c ++ rest) =
      if Text.isSpace c then strip two three rest else encode c ++ rest) (s : List Char) :
    strip two three (s.flatMap encode) = (s.dropWhile Text.isSpace).flatMap encode := by
  induction s with
  | nil => rfl
  | cons c s ih =>
    rw [List.flatMap_cons, h, ih, List.dropWhile_cons]
    split <;> rfl

/-- Trimming bytes trims characters. -/
theorem trimSpace_utf8 (s : List Char) : Ipmatch.trimSpace (utf8 s) = utf8 (trimSpace s) := by
  have hreverse : ∀ s, (utf8 s).reverse = s.reverse.flatMap fun c => (utf8EncodeChar c).reverse :=
    fun s => List.reverse_flatMap
  rw [Ipmatch.trimSpace, Ipmatch.trimLeft, utf8, strip_runes fun c rest => (strip_rune c rest).1,
    Ipmatch.trimRight, ← utf8, hreverse, strip_runes fun c rest => (strip_rune c rest).2, trimSpace,
    utf8, List.flatMap_reverse]
  rfl

/-! ## Whole files -/

/-- The text of some bytes in UTF-8. -/
def decode (s : Bytes) : String := (String.fromUTF8? s.toByteArray).getD ""

/-- A text is decoded to itself. -/
theorem decode_utf8 (s : List Char) : decode (utf8 s) = String.ofList s := by
  have hvalid : (utf8 s).toByteArray.IsValidUTF8 := (String.ofList s).isValidUTF8
  rw [decode, String.fromUTF8?, dif_pos hvalid]
  rfl

/-- `net/netip` on the bytes of texts. -/
def textNetip : Ipmatch.NetipFuncs Netip.Addr Netip.Prefix :=
  { Ipmatch.bytewiseNetip with
    parsePrefix s := Netip.parsePrefix (decode s)
    parseAddr s := Netip.parseAddr (decode s) }

/-- A token is normalized alike. -/
theorem normalizePrefix_utf8 (tok : List Char) :
    Ipmatch.normalizePrefix textNetip (utf8 tok) = normalizePrefix (String.ofList tok) := by
  have hslash : Ipmatch.slash ∈ utf8 tok ↔ '/' ∈ tok := Ascii.mem_utf8_iff ⟨rfl, by decide⟩
  simp only [Ipmatch.normalizePrefix, normalizePrefix, hslash, String.toList_ofList, textNetip,
    decode_utf8]
  split
  · cases Netip.parsePrefix (String.ofList tok) <;> rfl
  · cases Netip.parseAddr (String.ofList tok) <;> rfl

/-- The lines of a text have the same tokens. -/
theorem lineToken_utf8 (line : List Char) :
    Ipmatch.lineToken (utf8 line) =
      if (trimSpace (line.takeWhile (· != '#'))).isEmpty then none
      else some (utf8 (trimSpace (line.takeWhile (· != '#')))) := by
  have hhash : Ascii Ipmatch.hash '#' := ⟨rfl, by decide⟩
  simp only [Ipmatch.lineToken, hhash.takeWhile, trimSpace_utf8, utf8_eq_nil, List.isEmpty_iff]

/-- The two models of `readPrefixes` read the same prefixes in a file. -/
theorem readPrefixes_text (content file : String) :
    Ipmatch.readPrefixes textNetip (utf8 content.toList) =
      readPrefixes (fun _ => .ok content) { file } := by
  have hnewline : Ascii Ipmatch.newline '\n' := ⟨rfl, by decide⟩
  have htokens : ∀ lines : List (List Char), (lines.map utf8).filterMap Ipmatch.lineToken =
      (lines.filterMap fun line =>
        let line := trimSpace (line.takeWhile (· != '#'))
        if line.isEmpty then none else some (String.ofList line)).map (fun t => utf8 t.toList) := by
    intro lines
    rw [List.filterMap_map, List.map_filterMap]
    refine List.filterMap_congr fun line _ => ?_
    simp only [Function.comp_apply, lineToken_utf8]
    split <;> simp
  have hread : readPrefixes (fun _ => .ok content) { file } =
      (prefixLines content).mapM normalizePrefix := rfl
  rw [Ipmatch.readPrefixes, hnewline.splitOn, htokens, hread, prefixLines, List.mapM_map]
  exact congrArg (List.mapM · _) (funext fun tok => by
    rw [Function.comp_apply, normalizePrefix_utf8, String.ofList_toList])

end Dualnet.Kernel
