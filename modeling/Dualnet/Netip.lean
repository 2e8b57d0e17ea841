import Dualnet.Library.Checks
import Dualnet.Text

/-!
# IP addresses and prefixes

The part of Go's `net/netip` the packages below use: `ParseAddr`, `ParsePrefix`, `Unmap`,
`Masked`, `Contains` and `String`, with their error texts. The address of a prefix has no
zone and its length never exceeds the address length, so a `Prefix` is always valid.
-/

namespace Dualnet.Netip

open Library Text

/-- An IPv4 address, or an IPv6 address with its zone (`""` when it has none). -/
inductive Addr where
  | v4 (bits : BitVec 32)
  | v6 (bits : BitVec 128) (zone : String)
  deriving DecidableEq

/-- The number of bits of an address of this family. -/
def Addr.bitLen : Addr → Nat
  | .v4 _ => 32
  | .v6 _ _ => 128

/-- `Addr.Unmap`: an IPv4-mapped IPv6 address becomes the IPv4 address it maps. -/
def Addr.unmap : Addr → Addr
  | .v4 a => .v4 a
  | .v6 a zone =>
    if a.toNat / 2 ^ 32 = 0xffff then .v4 (BitVec.ofNat 32 a.toNat) else .v6 a zone

/-- Octet `i` of an IPv4 address, counted from the last one. -/
def octet (a : BitVec 32) (i : Nat) : Nat := a.toNat / 256 ^ i % 256

/-- The IPv4 address with the given octets. -/
def ofOctets (a b c d : Nat) : BitVec 32 :=
  BitVec.ofNat 32 (((a * 256 + b) * 256 + c) * 256 + d)

/-- `appendDecimal`: the decimal digits of an octet, without leading zeros. -/
def octetDigits (n : Nat) : List Char :=
  (if 100 ≤ n then [Nat.digitChar (n / 100)] else []) ++
    (if 10 ≤ n then [Nat.digitChar (n / 10 % 10)] else []) ++ [Nat.digitChar (n % 10)]

/-- The dotted decimal form. -/
def dotted (a : BitVec 32) : List Char :=
  octetDigits (octet a 3) ++ '.' :: (octetDigits (octet a 2) ++ '.' ::
    (octetDigits (octet a 1) ++ '.' :: octetDigits (octet a 0)))

/-- The eight 16-bit groups of an IPv6 address, in order. -/
def groups (a : BitVec 128) : List Nat :=
  (List.range 8).map fun i => a.toNat / 65536 ^ (7 - i) % 65536

/-- The first longest run of at least two zero groups, as its start and end. -/
def zeroRun (gs : List Nat) : Option (Nat × Nat) :=
  (List.range 8).foldl (fun best i =>
    let len := ((gs.drop i).takeWhile (· = 0)).length
    let old := (best.map fun r => r.2 - r.1).getD 0
    if 2 ≤ len ∧ old < len then some (i, i + len) else best) none

/-- Hexadecimal groups separated by colons. -/
def hexGroups (gs : List Nat) : String :=
  ":".intercalate (gs.map fun g => String.ofList (Nat.toDigits 16 g))

/-- The IPv6 text form, with the longest zero run written `::`. -/
def string6 (a : BitVec 128) : String :=
  match zeroRun (groups a) with
  | none => hexGroups (groups a)
  | some (i, j) => hexGroups ((groups a).take i) ++ "::" ++ hexGroups ((groups a).drop j)

/-- `Addr.String`. -/
def Addr.toString : Addr → String
  | .v4 a => String.ofList (dotted a)
  | .v6 a zone =>
    (if a.toNat / 2 ^ 32 = 0xffff then
      "::ffff:" ++ String.ofList (dotted (BitVec.ofNat 32 a.toNat)) else string6 a) ++
      (if zone = "" then "" else "%" ++ zone)

/-- The error `ParseAddr` reports for the text `input`, at the remaining text `rest`. -/
def parseAddrError (input message : String) (rest : List Char) : Except String α :=
  .error ("ParseAddr(" ++ quote input ++ "): " ++ message ++
    if rest.isEmpty then "" else " (at " ++ quote (String.ofList rest) ++ ")")

/-- The loop of `parseIPv4Fields`: `val` and `digLen` are the value and the digit count of
the current octet, `fields` the octets before it. -/
def parseIPv4Fields (input : String) (val digLen : Nat) (fields : List Nat) :
    List Char → Except String (List Nat)
  | [] =>
    if fields.length < 3 then parseAddrError input "IPv4 address too short" []
    else .ok (fields ++ [val])
  | c :: rest =>
    if c.isDigit then
      if digLen = 1 ∧ val = 0 then
        parseAddrError input "IPv4 field has octet with leading zero" []
      else if 255 < val * 10 + (c.toNat - '0'.toNat) then
        parseAddrError input "IPv4 field has value >255" []
      else parseIPv4Fields input (val * 10 + (c.toNat - '0'.toNat)) (digLen + 1) fields rest
    else if c = '.' then
      -- no digit since the last dot, or the dot ends the text
      if digLen = 0 ∨ rest.isEmpty then
        parseAddrError input "IPv4 field must have at least one digit" (c :: rest)
      else if fields.length = 3 then parseAddrError input "IPv4 address too long" []
      else parseIPv4Fields input 0 0 (fields ++ [val]) rest
    else parseAddrError input "unexpected character" (c :: rest)

/-- `parseIPv4`. -/
def parseIPv4 (input : String) (s : List Char) : Except String Addr := do
  match ← parseIPv4Fields input 0 0 [] s with
  | [a, b, c, d] => .ok (.v4 (ofOctets a b c d))
  | _ => parseAddrError input "IPv4 address too short" []

/-- A hexadecimal digit. -/
def isHexDigit (c : Char) : Bool :=
  c.isDigit || ('a' ≤ c && c ≤ 'f') || ('A' ≤ c && c ≤ 'F')

/-- The value of a hexadecimal digit. -/
def hexVal (c : Char) : Nat :=
  if c.isDigit then c.toNat - '0'.toNat
  else if 'a' ≤ c then c.toNat - 'a'.toNat + 10 else c.toNat - 'A'.toNat + 10

/-- The group loop of `parseIPv6`, with room for `room` more groups. It returns the unread
text, the groups read and the position of `::` among them. -/
def parseIPv6Groups (input : String) :
    Nat → List Char → List Nat → Option Nat → Except String (List Char × List Nat × Option Nat)
  | 0, s, gs, ellipsis => .ok (s, gs, ellipsis)
  | room + 1, s, gs, ellipsis =>
    let hex := s.takeWhile isHexDigit
    let gs' := gs ++ [hex.foldl (fun acc c => acc * 16 + hexVal c) 0]
    if 4 < hex.length then
      parseAddrError input "each group must have 4 or less digits" s
    else if hex.isEmpty then
      parseAddrError input "each colon-separated field must have at least one digit" s
    else match s.drop hex.length with
      | [] => .ok ([], gs', ellipsis)
      | '.' :: _ =>
        if ellipsis.isNone ∧ gs.length ≠ 6 then
          parseAddrError input
            "embedded IPv4 address must replace the final 2 fields of the address" s
        else if room = 0 then
          parseAddrError input
            "too many hex fields to fit an embedded IPv4 at the end of the address" s
        else do
          match ← parseIPv4Fields input 0 0 [] s with
          | [a, b, c, d] => .ok ([], gs ++ [a * 256 + b, c * 256 + d], ellipsis)
          | _ => parseAddrError input "IPv4 address too short" []
      | [':'] => parseAddrError input "colon must be followed by more characters" [':']
      | ':' :: ':' :: rest =>
        if ellipsis.isSome then parseAddrError input "multiple :: in address" (':' :: rest)
        else if rest.isEmpty then .ok ([], gs', some gs'.length)
        else parseIPv6Groups input room rest gs' (some gs'.length)
      | ':' :: rest => parseIPv6Groups input room rest gs' ellipsis
      | rest => parseAddrError input "unexpected character, want colon" rest

/-- The address with eight groups. -/
def ofGroups (gs : List Nat) : BitVec 128 :=
  BitVec.ofNat 128 (gs.foldl (fun acc g => acc * 65536 + g) 0)

/-- `parseIPv6`. -/
def parseIPv6 (input : String) (s : List Char) : Except String Addr :=
  let body := s.takeWhile (· != '%')
  let zone := String.ofList ((s.dropWhile (· != '%')).drop 1)
  if '%' ∈ s ∧ zone = "" then
    parseAddrError input "zone must be a non-empty string" []
  else do
    let (rest, gs, ellipsis) ←
      match body with
      | [':', ':'] => .ok ([], [], some 0)
      | ':' :: ':' :: more => parseIPv6Groups input 8 more [] (some 0)
      | _ => parseIPv6Groups input 8 body [] none
    if !rest.isEmpty then parseAddrError input "trailing garbage after address" rest
    else match ellipsis with
      | none =>
        if gs.length < 8 then parseAddrError input "address string too short" []
        else .ok (.v6 (ofGroups gs) zone)
      | some i =>
        if gs.length = 8 then
          parseAddrError input "the :: must expand to at least one field of zeros" []
        else .ok (.v6 (ofGroups
          (gs.take i ++ List.replicate (8 - gs.length) 0 ++ gs.drop i)) zone)

/-- `netip.ParseAddr`: the first dot, colon or percent sign decides the family. -/
def parseAddr (input : String) : Except String Addr :=
  match input.toList.find? fun c => c == '.' || c == ':' || c == '%' with
  | some '.' => parseIPv4 input input.toList
  | some ':' => parseIPv6 input input.toList
  | some _ => parseAddrError input "missing IPv6 address" []
  | none => parseAddrError input "unable to parse IP" []

/-- An address without zone and a length that fits it. -/
structure Prefix where
  addr : Addr
  bits : Nat
  bits_le : bits ≤ addr.bitLen
  deriving DecidableEq

/-- `Prefix.String`. -/
def Prefix.toString (p : Prefix) : String := p.addr.toString ++ "/" ++ itoa p.bits

/-- Clear all but the first `n` bits. -/
def maskBits {w : Nat} (a : BitVec w) (n : Nat) : BitVec w := a >>> (w - n) <<< (w - n)

/-- `Prefix.Masked`: the prefix with its host bits cleared. -/
def Prefix.masked : Prefix → Prefix
  | ⟨.v4 a, n, h⟩ => ⟨.v4 (maskBits a n), n, h⟩
  | ⟨.v6 a zone, n, h⟩ => ⟨.v6 (maskBits a n) zone, n, h⟩

/-- `Prefix.Contains`: same family, same leading bits; an address with a zone is in no
prefix. -/
def Prefix.contains (p : Prefix) (ip : Addr) : Bool :=
  match p.addr, ip with
  | .v4 a, .v4 b => a >>> (32 - p.bits) == b >>> (32 - p.bits)
  | .v6 a _, .v6 b zone => zone == "" && a >>> (128 - p.bits) == b >>> (128 - p.bits)
  | _, _ => false

/-- The prefix of the one address `a`. -/
def Prefix.host (a : Addr) : Prefix :=
  match a with
  | .v4 b => ⟨.v4 b, 32, le_rfl⟩
  | .v6 b _ => ⟨.v6 b "", 128, le_rfl⟩

/-- The error `ParsePrefix` reports for the text `input`. -/
def parsePrefixError (input message : String) : Except String α :=
  .error ("netip.ParsePrefix(" ++ quote input ++ "): " ++ message)

/-- The length part of `ParsePrefix`, after the address `a`. -/
def parseBits (input : String) (a : Addr) (bits : List Char) : Except String Prefix :=
  let bad := parsePrefixError input ("bad bits after slash: " ++ quote (String.ofList bits))
  -- `Atoi` accepts a sign and leading zeros, a prefix length does not
  if 1 < bits.length ∧ (bits.headD '0' < '1' ∨ '9' < bits.headD '0') then bad
  else match atoi (String.ofList bits) with
    | none => bad
    | some n =>
      if h : 0 ≤ n ∧ n.toNat ≤ a.bitLen then .ok ⟨a, n.toNat, h.2⟩
      else parsePrefixError input "prefix length out of range"

/-- `netip.ParsePrefix`: an address, the last slash, and a length. -/
def parsePrefix (input : String) : Except String Prefix :=
  let s := input.toList
  if '/' ∉ s then parsePrefixError input "no '/'"
  else
    let bits := (s.reverse.takeWhile (· != '/')).reverse
    let text := s.take (s.length - bits.length - 1)
    match parseAddr (String.ofList text) with
    | .error e => parsePrefixError input e
    | .ok (.v6 a zone) =>
      if zone ≠ "" then parsePrefixError input "IPv6 zones cannot be present in a prefix"
      else parseBits input (.v6 a zone) bits
    | .ok a => parseBits input a bits

/-- Masking twice is masking once, and masking changes no leading bit. -/
theorem maskBits_shift {w : Nat} (a : BitVec w) (n : Nat) :
    maskBits a n >>> (w - n) = a >>> (w - n) := by
  apply BitVec.eq_of_toNat_eq
  have hpos : 0 < 2 ^ (w - n) := Nat.two_pow_pos _
  have hlt : a.toNat / 2 ^ (w - n) * 2 ^ (w - n) < 2 ^ w :=
    lt_of_le_of_lt (Nat.div_mul_le_self _ _) a.isLt
  simp only [maskBits, BitVec.toNat_ushiftRight, BitVec.toNat_shiftLeft, Nat.shiftRight_eq_div_pow,
    Nat.shiftLeft_eq]
  rw [Nat.mod_eq_of_lt hlt, Nat.mul_div_cancel _ hpos]

/-- A prefix and its masked form contain the same addresses. -/
theorem contains_masked (p : Prefix) (ip : Addr) : p.masked.contains ip = p.contains ip := by
  obtain ⟨a | ⟨a, zone⟩, n, h⟩ := p <;> cases ip <;>
    simp [Prefix.masked, Prefix.contains, maskBits_shift]

/-! ## IPv4 text round trips -/

/-- A decimal digit as a character. -/
theorem digitChar_digit : ∀ d < 10, (Nat.digitChar d).isDigit = true ∧
    (Nat.digitChar d).toNat - '0'.toNat = d := by
  decide

/-- One more digit of an octet that stays in range. -/
theorem parseIPv4Fields_digit {input : String} {val digLen d : Nat} {fields : List Nat}
    {rest : List Char} (hd : d < 10) (hzero : ¬ (digLen = 1 ∧ val = 0)) (hval : val * 10 + d ≤ 255) :
    parseIPv4Fields input val digLen fields (Nat.digitChar d :: rest) =
      parseIPv4Fields input (val * 10 + d) (digLen + 1) fields rest := by
  obtain ⟨hdigit, hnum⟩ := digitChar_digit d hd
  rw [parseIPv4Fields, if_pos hdigit, if_neg hzero, hnum, if_neg (Nat.not_lt.mpr hval)]

/-- A printed octet reads back. -/
theorem parseIPv4Fields_octet {input : String} {n : Nat} {fields : List Nat} {rest : List Char}
    (hn : n < 256) : ∃ digLen, 0 < digLen ∧
      parseIPv4Fields input 0 0 fields (octetDigits n ++ rest) =
        parseIPv4Fields input n digLen fields rest := by
  unfold octetDigits
  by_cases h100 : 100 ≤ n
  · refine ⟨3, by decide, ?_⟩
    rw [if_pos h100, if_pos (by omega)]
    simp only [List.cons_append, List.nil_append]
    rw [parseIPv4Fields_digit (by omega) (by omega) (by omega),
      parseIPv4Fields_digit (by omega) (by omega) (by omega),
      parseIPv4Fields_digit (by omega) (by omega) (by omega)]
    congr 1
    omega
  · by_cases h10 : 10 ≤ n
    · refine ⟨2, by decide, ?_⟩
      rw [if_neg h100, if_pos h10]
      simp only [List.cons_append, List.nil_append]
      rw [parseIPv4Fields_digit (by omega) (by omega) (by omega),
        parseIPv4Fields_digit (by omega) (by omega) (by omega)]
      congr 1
      omega
    · refine ⟨1, by decide, ?_⟩
      rw [if_neg h100, if_neg h10]
      simp only [List.cons_append, List.nil_append]
      rw [parseIPv4Fields_digit (by omega) (by omega) (by omega)]
      congr 1
      omega

/-- A dot after an octet starts the next one. -/
theorem parseIPv4Fields_dot {input : String} {val digLen : Nat} {fields : List Nat}
    {rest : List Char} (hlen : 0 < digLen) (hrest : rest ≠ []) (hfields : fields.length < 3) :
    parseIPv4Fields input val digLen fields ('.' :: rest) =
      parseIPv4Fields input 0 0 (fields ++ [val]) rest := by
  have hmore : ¬ (digLen = 0 ∨ rest.isEmpty = true) := by
    rw [List.isEmpty_iff]
    rintro (h | h)
    · omega
    · exact hrest h
  rw [parseIPv4Fields, if_neg (by decide), if_pos rfl, if_neg hmore, if_neg (by omega)]

/-- An octet prints at least one digit. -/
theorem octetDigits_ne_nil (n : Nat) : octetDigits n ≠ [] := by
  simp [octetDigits]

/-- The octets of an address make it up again. -/
theorem ofOctets_octet (a : BitVec 32) :
    ofOctets (octet a 3) (octet a 2) (octet a 1) (octet a 0) = a := by
  have ha := a.isLt
  apply BitVec.eq_of_toNat_eq
  simp only [ofOctets, octet, BitVec.toNat_ofNat]
  omega

/-- A printed IPv4 address reads back. -/
theorem parseIPv4_dotted (input : String) (a : BitVec 32) :
    parseIPv4 input (dotted a) = .ok (.v4 a) := by
  have hoct : ∀ i, octet a i < 256 := fun i => Nat.mod_lt _ (by decide)
  have hfields : parseIPv4Fields input 0 0 [] (dotted a) =
      .ok [octet a 3, octet a 2, octet a 1, octet a 0] := by
    unfold dotted
    obtain ⟨l₃, hl₃, h₃⟩ := @parseIPv4Fields_octet input _ [] ('.' :: (octetDigits (octet a 2) ++
      '.' :: (octetDigits (octet a 1) ++ '.' :: octetDigits (octet a 0)))) (hoct 3)
    obtain ⟨l₂, hl₂, h₂⟩ := @parseIPv4Fields_octet input _ [octet a 3]
      ('.' :: (octetDigits (octet a 1) ++ '.' :: octetDigits (octet a 0))) (hoct 2)
    obtain ⟨l₁, hl₁, h₁⟩ := @parseIPv4Fields_octet input _ [octet a 3, octet a 2]
      ('.' :: octetDigits (octet a 0)) (hoct 1)
    obtain ⟨l₀, hl₀, h₀⟩ := @parseIPv4Fields_octet input _ [octet a 3, octet a 2, octet a 1] []
      (hoct 0)
    rw [List.append_nil] at h₀
    rw [h₃, parseIPv4Fields_dot hl₃ (by simp) (by decide), List.nil_append, h₂,
      parseIPv4Fields_dot hl₂ (by simp) (by simp)]
    rw [List.singleton_append, h₁, parseIPv4Fields_dot hl₁ (octetDigits_ne_nil _) (by simp)]
    rw [List.cons_append, List.singleton_append, h₀, parseIPv4Fields]
    rfl
  simp only [parseIPv4, hfields, bind, Except.bind, ofOctets_octet]

/-- An octet prints digits. -/
theorem octetDigits_digit {n : Nat} (hn : n < 256) {c : Char} (hc : c ∈ octetDigits n) :
    c.isDigit = true := by
  simp only [octetDigits, List.mem_append, List.mem_singleton] at hc
  rcases hc with (hc | hc) | hc
  · split at hc
    · rw [List.mem_singleton.mp hc]
      exact (digitChar_digit _ (by omega)).1
    · cases hc
  · split at hc
    · rw [List.mem_singleton.mp hc]
      exact (digitChar_digit _ (by omega)).1
    · cases hc
  · rw [hc]
    exact (digitChar_digit _ (by omega)).1

/-- A digit is none of the characters that decide the family. -/
theorem digit_not_mark {c : Char} (hc : c.isDigit = true) :
    (c == '.' || c == ':' || c == '%') = false := by
  have hne : ∀ d : Char, d.isDigit = false → (c == d) = false := by
    intro d hd
    rw [beq_eq_false_iff_ne]
    rintro rfl
    rw [hc] at hd
    cases hd
  rw [hne '.' (by decide), hne ':' (by decide), hne '%' (by decide)]
  rfl

/-- `ParseAddr` reads a printed IPv4 address back. -/
theorem parseAddr_dotted (a : BitVec 32) : parseAddr (String.ofList (dotted a)) = .ok (.v4 a) := by
  have hfind : (dotted a).find? (fun c => c == '.' || c == ':' || c == '%') = some '.' := by
    rw [List.find?_eq_some_iff_append]
    refine ⟨by decide, octetDigits (octet a 3), _, rfl, fun c hc => ?_⟩
    simp [digit_not_mark (octetDigits_digit (Nat.mod_lt _ (by decide)) hc)]
  rw [parseAddr, String.toList_ofList, hfind]
  exact parseIPv4_dotted _ a

/-- Cutting a text at its last slash. -/
theorem reverse_takeWhile_slash {text bits : List Char} (h : '/' ∉ bits) :
    ((text ++ '/' :: bits).reverse.takeWhile (· != '/')).reverse = bits := by
  have hbits : ∀ c ∈ bits.reverse, (c != '/') = true := by
    intro c hc
    rw [bne_iff_ne]
    rintro rfl
    exact h (List.mem_reverse.mp hc)
  rw [List.reverse_append, List.reverse_cons, List.append_assoc,
    List.takeWhile_append_of_pos hbits]
  simp

/-- A length of at most 32 reads back. -/
theorem parseBits_toDigits {input : String} {a : BitVec 32} {n : Nat} (hn : n ≤ 32) :
    parseBits input (.v4 a) (Nat.toDigits 10 n) = .ok ⟨.v4 a, n, hn⟩ := by
  have hcanonical : ∀ n ≤ 32, ¬ (1 < (Nat.toDigits 10 n).length ∧
      ((Nat.toDigits 10 n).headD '0' < '1' ∨ '9' < (Nat.toDigits 10 n).headD '0')) := by
    decide
  have hatoi : atoi (String.ofList (Nat.toDigits 10 n)) = some (n : Int) :=
    atoi_itoa (lt_of_le_of_lt hn (by decide))
  rw [parseBits, if_neg (hcanonical n hn), hatoi]
  simp [Addr.bitLen, hn]

/-- `ParsePrefix` reads a printed IPv4 prefix back. -/
theorem parsePrefix_toString {p : Prefix} {a : BitVec 32} (hp : p.addr = .v4 a) :
    parsePrefix p.toString = .ok p := by
  obtain ⟨addr, n, hn⟩ := p
  obtain rfl : addr = .v4 a := hp
  have hlist : (Prefix.toString ⟨.v4 a, n, hn⟩).toList = dotted a ++ '/' :: Nat.toDigits 10 n := by
    simp [Prefix.toString, Addr.toString, itoa, Nat.toList_repr]
  have hslash : '/' ∉ Nat.toDigits 10 n := by
    intro h
    exact absurd (Nat.isDigit_of_mem_toDigits (by decide) (by decide) h) (by decide)
  simp only [parsePrefix, hlist, reverse_takeWhile_slash hslash]
  have htext : (dotted a ++ '/' :: Nat.toDigits 10 n).take
      ((dotted a ++ '/' :: Nat.toDigits 10 n).length - (Nat.toDigits 10 n).length - 1) =
      dotted a := by
    rw [List.take_left']
    rw [List.length_append, List.length_cons]
    omega
  rw [if_neg (by simp), htext, parseAddr_dotted]
  exact parseBits_toDigits hn

end Dualnet.Netip
