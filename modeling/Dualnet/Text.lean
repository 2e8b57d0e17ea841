import Mathlib.Tactic
import Std.Data.String.ToNat

/-!
# Text helpers of the Go standard library

`strconv.Quote`, `strconv.Itoa`, `strconv.Atoi` and the few `strings` functions the
packages below use, over Lean strings. `atoi_itoa` is the round trip the kernel plan
relies on when it prints table numbers and priorities into `ip` command lines.
-/

namespace Dualnet.Text

/-- A number in so many lowercase hexadecimal digits, as in an escape. -/
def hexDigits : Nat → Nat → String
  | 0, _ => ""
  | width + 1, n => hexDigits width (n / 16) ++ (Nat.digitChar (n % 16)).toString

/-- Ranges of code points above ASCII that are not printed: control and format characters,
separators, private use and noncharacters. Of the unassigned ones, which change with the Unicode
version of the Go release, only those of empty planes are listed. -/
def unprintable : List (Nat × Nat) :=
  [(0x7f, 0xa0), (0xad, 0xad), (0x600, 0x605), (0x61c, 0x61c), (0x6dd, 0x6dd), (0x70f, 0x70f),
    (0x890, 0x891), (0x8e2, 0x8e2), (0x1680, 0x1680), (0x180e, 0x180e), (0x2000, 0x200f),
    (0x2028, 0x202f), (0x205f, 0x206f), (0x3000, 0x3000), (0xe000, 0xf8ff), (0xfdd0, 0xfdef),
    (0xfeff, 0xfeff), (0xfff0, 0xfffb), (0xfffe, 0xffff), (0x110bd, 0x110bd), (0x110cd, 0x110cd),
    (0x13430, 0x1343f), (0x1bca0, 0x1bca3), (0x1d173, 0x1d17a), (0x1fffe, 0x1ffff),
    (0x2fffe, 0x2ffff), (0x3fffe, 0xe00ff), (0xe01f0, 0x10ffff)]

/-- `strconv.IsPrint`. -/
def isPrint (c : Char) : Bool :=
  if c.toNat < 0x7f then 0x20 ≤ c.toNat
  else !unprintable.any fun (lo, hi) => lo ≤ c.toNat && c.toNat ≤ hi

/-- One character of `strconv.Quote`: quote and backslash are escaped, a printable rune stands for
itself, and every other one has a short escape or one by its number. -/
def quoteChar (c : Char) : String :=
  if c = '"' || c = '\\' then "\\" ++ c.toString
  else if isPrint c then c.toString
  else match c.toNat with
    | 7 => "\\a"
    | 8 => "\\b"
    | 12 => "\\f"
    | 10 => "\\n"
    | 13 => "\\r"
    | 9 => "\\t"
    | 11 => "\\v"
    | n =>
      if n < 0x20 || n = 0x7f then "\\x" ++ hexDigits 2 n
      else if n < 0x10000 then "\\u" ++ hexDigits 4 n
      else "\\U" ++ hexDigits 8 n

/-- `strconv.Quote`, the text the `%q` verb prints. -/
def quote (s : String) : String :=
  "\"" ++ String.join (s.toList.map quoteChar) ++ "\""

example : quote "a\t\u200b\"" = "\"a\\t\\u200b\\\"\"" := by decide

/-- `%v` of a string list: the elements between brackets, separated by blanks. -/
def showList (l : List String) : String :=
  "[" ++ " ".intercalate l ++ "]"

/-- `strconv.Itoa` on the non-negative numbers the program prints. -/
def itoa (n : Nat) : String := n.repr

/-- The digits of a decimal literal: at least one, all of them `0` to `9`. -/
def decimal? (cs : List Char) : Option Nat :=
  if !cs.isEmpty && cs.all Char.isDigit then some (Nat.ofDigitChars 10 cs 0) else none

/-- A decimal literal with an optional sign. -/
def signed? : List Char → Option Int
  | '-' :: cs => (decimal? cs).map fun n => -Int.ofNat n
  | '+' :: cs => (decimal? cs).map Int.ofNat
  | cs => (decimal? cs).map Int.ofNat

/-- `strconv.Atoi` with a 64-bit `int`: an optional sign, then decimal digits, in range. -/
def atoi (s : String) : Option Int :=
  (signed? s.toList).filter fun n => -(2 ^ 63) ≤ n ∧ n < 2 ^ 63

/-- Printed digits read back as the number. -/
theorem decimal_toDigits (n : Nat) : decimal? (Nat.toDigits 10 n) = some n := by
  have hne : Nat.toDigits 10 n ≠ [] := Nat.toDigits_ne_nil
  have hdigit : (Nat.toDigits 10 n).all Char.isDigit = true :=
    List.all_eq_true.mpr fun c hc => Nat.isDigit_of_mem_toDigits (by decide) (by decide) hc
  simp [decimal?, hne, hdigit, Nat.ofDigitChars_ten_toDigits]

/-- A number is read back. -/
theorem decimal_itoa (n : Nat) : decimal? (itoa n).toList = some n := by
  rw [show (itoa n).toList = Nat.toDigits 10 n from Nat.toList_repr, decimal_toDigits]

/-- A decimal literal does not start with a sign. -/
theorem toDigits_head_digit {n : Nat} {c : Char} {cs : List Char}
    (h : Nat.toDigits 10 n = c :: cs) : c ≠ '-' ∧ c ≠ '+' := by
  have hc : c.isDigit = true :=
    Nat.isDigit_of_mem_toDigits (n := n) (b := 10) (by decide) (by decide) (by simp [h])
  constructor <;> rintro rfl <;> exact absurd hc (by decide)

/-- Printed digits carry no sign. -/
theorem signed_toDigits (n : Nat) : signed? (Nat.toDigits 10 n) = some (n : Int) := by
  have hdec := decimal_toDigits n
  cases hd : Nat.toDigits 10 n with
  | nil => exact absurd hd Nat.toDigits_ne_nil
  | cons c cs =>
    obtain ⟨hminus, hplus⟩ := toDigits_head_digit hd
    rw [hd] at hdec
    unfold signed?
    split
    · rename_i heq
      exact absurd (List.cons.inj heq).1 hminus
    · rename_i heq
      exact absurd (List.cons.inj heq).1 hplus
    · rw [hdec]
      rfl

/-- Reading back a printed number that fits a 64-bit `int`. -/
theorem atoi_itoa {n : Nat} (h : n < 2 ^ 63) : atoi (itoa n) = some (n : Int) := by
  have hn : (n : Int) < 2 ^ 63 := by exact_mod_cast h
  have hlow : -(2 ^ 63) ≤ (n : Int) := by omega
  rw [atoi, show (itoa n).toList = Nat.toDigits 10 n from Nat.toList_repr, signed_toDigits,
    Option.filter_some, if_pos (decide_eq_true ⟨hlow, hn⟩)]

/-- `strings.Cut` at the first occurrence of `sep`: the text before it, the text after it,
and whether it occurs. -/
def cut (s : String) (sep : Char) : String × String × Bool :=
  if sep ∈ s.toList then
    (String.ofList (s.toList.takeWhile (· != sep)),
      String.ofList ((s.toList.dropWhile (· != sep)).drop 1), true)
  else (s, "", false)

/-- `unicode.IsSpace`. -/
def isSpace (c : Char) : Bool :=
  let n := c.toNat
  (9 ≤ n && n ≤ 13) || n == 0x20 || n == 0x85 || n == 0xa0 || n == 0x1680 ||
    (0x2000 ≤ n && n ≤ 0x200a) || n == 0x2028 || n == 0x2029 || n == 0x202f || n == 0x205f ||
    n == 0x3000

/-- `strings.TrimSpace`. -/
def trimSpace (s : List Char) : List Char :=
  ((s.dropWhile isSpace).reverse.dropWhile isSpace).reverse

end Dualnet.Text
