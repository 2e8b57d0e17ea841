import Dualnet.Library.Checks
import Dualnet.Netip
import Mathlib.Data.List.TakeWhile

/-!
# Reading prefix files

`ipmatch.LoadReader` and `kernelnode.readPrefixes` on the bytes of a file. The first scans
lines, trims, cuts the comment and trims again; the second splits at newlines, cuts the
comment and trims once. `readPrefixes_eq_loadReader`: they read the same prefixes, unless a
line is too long for the scanner. `net/netip` is a parameter.
-/

namespace Dualnet.Ipmatch

open Library Text

abbrev Bytes := List UInt8

def newline : UInt8 := 0x0a
def carriageReturn : UInt8 := 0x0d
def hash : UInt8 := 0x23
def slash : UInt8 := 0x2f

/-! ## Trimming -/

/-- The spaces of one byte. -/
def isSpace (a : UInt8) : Bool := (9 ≤ a && a ≤ 13) || a == 0x20

/-- The spaces of two bytes in UTF-8: U+0085 and U+00A0. -/
def isSpace₂ (a b : UInt8) : Bool := a == 0xc2 && (b == 0x85 || b == 0xa0)

/-- The spaces of three bytes in UTF-8: U+1680, U+2000 to U+200A, U+2028, U+2029, U+202F, U+205F
and U+3000. -/
def isSpace₃ (a b c : UInt8) : Bool :=
  (a == 0xe1 && b == 0x9a && c == 0x80) ||
    (a == 0xe2 && b == 0x80 && ((0x80 ≤ c && c ≤ 0x8a) || c == 0xa8 || c == 0xa9 || c == 0xaf)) ||
    (a == 0xe2 && b == 0x81 && c == 0x9f) || (a == 0xe3 && b == 0x80 && c == 0x80)

/-- Drop the leading spaces, given those of two and of three bytes. -/
def strip (two : UInt8 → UInt8 → Bool) (three : UInt8 → UInt8 → UInt8 → Bool) : Bytes → Bytes
  | [] => []
  | a :: rest =>
    if isSpace a then strip two three rest
    else match rest with
      | b :: c :: rest =>
        if two a b then strip two three (c :: rest)
        else if three a b c then strip two three rest
        else a :: b :: c :: rest
      | [b] => if two a b then [] else [a, b]
      | [] => [a]

/-- The left half of `strings.TrimSpace`; a byte that starts no rune is no space. -/
def trimLeft (s : Bytes) : Bytes := strip isSpace₂ isSpace₃ s

/-- The right half of `strings.TrimSpace`, from the last byte on. -/
def trimRight (s : Bytes) : Bytes :=
  (strip (fun a b => isSpace₂ b a) (fun a b c => isSpace₃ c b a) s.reverse).reverse

/-- `strings.TrimSpace`. -/
def trimSpace (s : Bytes) : Bytes := trimRight (trimLeft s)

/-! ## The two readers -/

/-- The functions of `net/netip` the readers use: `parsePrefix`, `Masked`, `ParseAddr`, `Unmap`,
`PrefixFrom` with the bit length of the address, and the `String` of a prefix. -/
structure NetipFuncs (A P : Type) where
  parsePrefix : Bytes → Except String P
  masked : P → P
  parseAddr : Bytes → Except String A
  unmap : A → A
  host : A → P
  string : P → String

variable {A P : Type} (netip : NetipFuncs A P)

/-- `ipmatch.parsePrefix`. -/
def parsePrefix (s : Bytes) : Except String P :=
  if slash ∈ s then do
    let p ← netip.parsePrefix s
    pure (netip.masked p)
  else do
    let a ← netip.parseAddr s
    pure (netip.host (netip.unmap a))

/-- `bufio.MaxScanTokenSize`. -/
def maxScanTokenSize : Nat := 64 * 1024

/-- The lines `bufio.ScanLines` finds: no empty line after the last newline. -/
def scanLines (content : Bytes) : List Bytes :=
  let lines := content.splitOn newline
  if lines.getLast? = some [] then lines.dropLast else lines

/-- `dropCR`. -/
def dropCR (line : Bytes) : Bytes :=
  if line.getLast? = some carriageReturn then line.dropLast else line

/-- One round of `LoadReader`'s loop; the table is the list of the prefixes inserted. -/
def loadLine (table : List P) (entry : Bytes × Nat) : Except String (List P) :=
  let (line, i) := entry
  if maxScanTokenSize ≤ line.length then .error "bufio.Scanner: token too long"
  else
    let s := trimSpace (dropCR line)
    let s := if hash ∈ s then trimSpace (s.takeWhile (· != hash)) else s
    if s = [] then .ok table
    else do
      let pfx ← wrap s!"ipmatch: line {i + 1}: " (parsePrefix netip s)
      pure (table ++ [pfx])

/-- `LoadReader`. -/
def loadReader (content : Bytes) : Except String (List P) :=
  (scanLines content).zipIdx.foldlM (loadLine netip) []

/-- `normalizePrefix`. -/
def normalizePrefix (tok : Bytes) : Except String String :=
  if slash ∈ tok then do
    let p ← netip.parsePrefix tok
    pure (netip.string (netip.masked p))
  else do
    let a ← netip.parseAddr tok
    pure (netip.string (netip.host (netip.unmap a)))

/-- The token of a line, as `readPrefixes` finds it. -/
def lineToken (line : Bytes) : Option Bytes :=
  let line := trimSpace (line.takeWhile (· != hash))
  if line = [] then none else some line

/-- `readPrefixes` of a file. -/
def readPrefixes (content : Bytes) : Except String (List String) :=
  ((content.splitOn newline).filterMap lineToken).mapM (normalizePrefix netip)

/-! ## Trimming and cutting -/

section Strip

variable {two : UInt8 → UInt8 → Bool} {three : UInt8 → UInt8 → UInt8 → Bool}

/-- A space is stripped. -/
theorem strip_cons_space {a : UInt8} (h : isSpace a = true) (rest : Bytes) :
    strip two three (a :: rest) = strip two three rest := by
  rw [strip.eq_def]
  exact if_pos h

/-- A byte that is not the second or third of a space starts anew what is stripped. -/
theorem strip_append {c : UInt8} (htwo : ∀ x, two x c = false)
    (hsecond : ∀ x y, three x c y = false) (hthird : ∀ x y, three x y c = false) (a b : Bytes) :
    strip two three (a ++ c :: b) =
      if strip two three a = [] then strip two three (c :: b) else strip two three a ++ c :: b := by
  fun_induction strip two three a with
  | case1 => rfl
  | case2 x rest hspace ih => rwa [List.cons_append, strip_cons_space hspace]
  | case3 x hspace y z rest hxy ih =>
    rw [List.cons_append, List.cons_append, List.cons_append, strip, if_neg hspace, if_pos hxy]
    exact ih
  | case4 x hspace y z rest hxy hxyz ih =>
    rw [List.cons_append, List.cons_append, List.cons_append, strip, if_neg hspace, if_neg hxy,
      if_pos hxyz]
    exact ih
  | case5 x hspace y z rest hxy hxyz => simp [strip, hspace, hxy, hxyz]
  | case6 x hspace y hxy => simp [strip, hspace, hxy]
  | case7 x hspace y hxy => simp [strip, hspace, hxy, hthird]
  | case8 x hspace => cases b <;> simp [strip, hspace, htwo, hsecond]

/-- Stripping twice. -/
theorem strip_strip (a : Bytes) : strip two three (strip two three a) = strip two three a := by
  fun_induction strip two three a with
  | case1 => rfl
  | case2 x rest hspace ih => exact ih
  | case3 x hspace y z rest hxy ih => exact ih
  | case4 x hspace y z rest hxy hxyz ih => exact ih
  | case5 x hspace y z rest hxy hxyz => simp [strip, hspace, hxy, hxyz]
  | case6 x hspace y hxy => rfl
  | case7 x hspace y hxy => simp [strip, hspace, hxy]
  | case8 x hspace => simp [strip, hspace]

/-- Nothing is added. -/
theorem strip_subset (a : Bytes) : strip two three a ⊆ a := by
  fun_induction strip two three a with
  | case1 => exact List.Subset.refl _
  | case2 x rest hspace ih => exact List.subset_cons_of_subset x ih
  | case3 x hspace y z rest hxy ih =>
    exact List.subset_cons_of_subset x (List.subset_cons_of_subset y ih)
  | case4 x hspace y z rest hxy hxyz ih =>
    exact List.subset_cons_of_subset x
      (List.subset_cons_of_subset y (List.subset_cons_of_subset z ih))
  | case5 x hspace y z rest hxy hxyz => exact List.Subset.refl _
  | case6 x hspace y hxy => exact List.nil_subset _
  | case7 x hspace y hxy => exact List.Subset.refl _
  | case8 x hspace => exact List.Subset.refl _

end Strip

/-- Trimming stops at a hash. -/
theorem trimLeft_append_hash (a b : Bytes) :
    trimLeft (a ++ hash :: b) = trimLeft a ++ hash :: b := by
  have hstop : strip isSpace₂ isSpace₃ (hash :: b) = hash :: b := by
    rcases b with _ | ⟨x, _ | ⟨y, b⟩⟩ <;> simp [strip, isSpace, isSpace₂, isSpace₃, hash]
  rw [trimLeft, strip_append (by simp [isSpace₂, hash]) (by simp [isSpace₃, hash])
    (by simp [isSpace₃, hash]), hstop, trimLeft]
  split
  · next hnil => rw [hnil, List.nil_append]
  · rfl

/-- So it does from the right. -/
theorem trimRight_append_hash (a b : Bytes) :
    trimRight (a ++ hash :: b) = a ++ hash :: trimRight b := by
  have hstop : ∀ l, strip (fun a b => isSpace₂ b a) (fun a b c => isSpace₃ c b a) (hash :: l) =
      hash :: l := by
    rintro (_ | ⟨x, _ | ⟨y, l⟩⟩) <;> simp [strip, isSpace, isSpace₂, isSpace₃, hash]
  have hreverse : (a ++ hash :: b).reverse = b.reverse ++ hash :: a.reverse := by simp
  rw [trimRight, hreverse, strip_append (by simp [isSpace₂, hash]) (by simp [isSpace₃, hash])
    (by simp [isSpace₃, hash]), hstop, trimRight]
  split
  · next hnil => simp [hnil]
  · simp

/-- A carriage return at the end is trimmed away. -/
theorem trimSpace_append_cr (a : Bytes) : trimSpace (a ++ [carriageReturn]) = trimSpace a := by
  have hleft : trimLeft (a ++ [carriageReturn]) =
      if trimLeft a = [] then [] else trimLeft a ++ [carriageReturn] :=
    strip_append (by simp [isSpace₂, carriageReturn]) (by simp [isSpace₃, carriageReturn])
      (by simp [isSpace₃, carriageReturn]) a []
  have hright : ∀ l, trimRight (l ++ [carriageReturn]) = trimRight l := by
    intro l
    rw [trimRight, List.reverse_concat, strip_cons_space rfl, trimRight]
  rw [trimSpace, hleft, trimSpace]
  split
  · next hnil => rw [hnil]
  · exact hright _

/-- A carriage return is a space. -/
theorem trimSpace_dropCR (line : Bytes) : trimSpace (dropCR line) = trimSpace line := by
  unfold dropCR
  split
  · next hlast =>
      conv_rhs => rw [← List.dropLast_append_getLast? _ hlast]
      rw [trimSpace_append_cr]
  · rfl

/-- Trimming adds nothing. -/
theorem trimSpace_subset (a : Bytes) : trimSpace a ⊆ a := by
  intro x hx
  have hx := List.mem_reverse.mp (strip_subset _ (List.mem_reverse.mp hx))
  exact strip_subset _ hx

/-- Trimming before and after the comment is cut off is trimming after it. -/
theorem trimSpace_cut (line : Bytes) :
    (if hash ∈ trimSpace line then trimSpace ((trimSpace line).takeWhile (· != hash))
      else trimSpace line) = trimSpace (line.takeWhile (· != hash)) := by
  have htake : ∀ a b : Bytes, hash ∉ a → (a ++ hash :: b).takeWhile (· != hash) = a := by
    intro a b ha
    rw [List.takeWhile_append_of_pos]
    · simp
    · intro x hx
      simpa using fun heq : x = hash => ha (heq ▸ hx)
  by_cases hmem : hash ∈ line
  · obtain ⟨a, b, rfl, ha⟩ := List.eq_append_cons_of_mem hmem
    have htrim : trimSpace (a ++ hash :: b) = trimLeft a ++ hash :: trimRight b := by
      rw [trimSpace, trimLeft_append_hash, trimRight_append_hash]
    have hleft : hash ∉ trimLeft a := fun h => ha (strip_subset _ h)
    rw [htrim, if_pos (by simp), htake _ _ hleft, htake _ _ ha, trimSpace, trimSpace, trimLeft,
      trimLeft, strip_strip]
  · have htrim : hash ∉ trimSpace line := fun h => hmem (trimSpace_subset line h)
    rw [if_neg htrim, List.takeWhile_eq_self_iff.mpr]
    intro x hx
    simpa using fun heq : x = hash => hmem (heq ▸ hx)

/-! ## The readers agree -/

/-- `normalizePrefix` writes what `parsePrefix` reads. -/
theorem normalizePrefix_eq (tok : Bytes) :
    normalizePrefix netip tok = (parsePrefix netip tok).map netip.string := by
  unfold normalizePrefix parsePrefix
  split
  · cases netip.parsePrefix tok <;> rfl
  · cases netip.parseAddr tok <;> rfl

/-- A line that fits the scanner adds the prefix of its token. -/
theorem loadLine_eq_ok {line : Bytes} (hshort : line.length < maxScanTokenSize)
    {table table' : List P} {i : Nat} :
    loadLine netip table (line, i) = .ok table' ↔
      ∃ ps, (lineToken line).toList.mapM (parsePrefix netip) = .ok ps ∧ table' = table ++ ps := by
  simp only [loadLine, if_neg (Nat.not_le.mpr hshort), trimSpace_dropCR, trimSpace_cut, lineToken]
  split
  · simp only [Option.toList_none, mapM_eq_ok, List.forall₂_nil_left_iff, Except.ok.injEq,
      exists_eq_left, List.append_nil]
    exact eq_comm
  · simp only [bind_eq_ok, wrap_eq_ok, pure_eq_ok, Option.toList_some, List.mapM_cons,
      List.mapM_nil]
    constructor
    · rintro ⟨pfx, hpfx, rfl⟩
      exact ⟨[pfx], ⟨pfx, hpfx, [], rfl, rfl⟩, rfl⟩
    · rintro ⟨_, ⟨pfx, hpfx, _, rfl, rfl⟩, rfl⟩
      exact ⟨pfx, hpfx, rfl⟩

/-- The scanner's loop inserts the prefixes of the tokens. -/
theorem foldlM_loadLine {lines : List Bytes}
    (hshort : ∀ line ∈ lines, line.length < maxScanTokenSize)
    {table table' : List P} {i : Nat} :
    (lines.zipIdx i).foldlM (loadLine netip) table = .ok table' ↔
      ∃ ps, (lines.filterMap lineToken).mapM (parsePrefix netip) = .ok ps ∧
        table' = table ++ ps := by
  induction lines generalizing table i with
  | nil =>
    simp only [List.zipIdx_nil, List.foldlM_nil, pure_eq_ok, List.filterMap_nil, List.mapM_nil,
      exists_eq_left', List.append_nil]
    exact eq_comm
  | cons line lines ih =>
    have hlines : ∀ l ∈ lines, l.length < maxScanTokenSize :=
      fun l hl => hshort l (List.mem_cons_of_mem line hl)
    have hsplit : (line :: lines).filterMap lineToken =
        (lineToken line).toList ++ lines.filterMap lineToken := by
      cases htok : lineToken line <;> simp [htok]
    rw [List.zipIdx_cons, List.foldlM_cons, bind_eq_ok, hsplit, List.mapM_append]
    simp only [loadLine_eq_ok netip (hshort line List.mem_cons_self), ih hlines, bind_eq_ok,
      pure_eq_ok]
    constructor
    · rintro ⟨_, ⟨ps, hps, rfl⟩, qs, hqs, rfl⟩
      exact ⟨ps ++ qs, ⟨ps, hps, qs, hqs, rfl⟩, List.append_assoc _ _ _⟩
    · rintro ⟨_, ⟨ps, hps, qs, hqs, rfl⟩, rfl⟩
      exact ⟨table ++ ps, ⟨ps, hps, rfl⟩, qs, hqs, (List.append_assoc _ _ _).symm⟩

/-- The empty line after the last newline has no token. -/
theorem filterMap_scanLines (content : Bytes) :
    (scanLines content).filterMap lineToken = (content.splitOn newline).filterMap lineToken := by
  unfold scanLines
  dsimp only
  split
  · next hlast =>
      conv_rhs => rw [← List.dropLast_append_getLast? _ hlast]
      rw [List.filterMap_append]
      exact (List.append_nil _).symm
  · rfl

/-- `readPrefixes` succeeds exactly when `LoadReader` does, with the prefixes that are inserted. -/
theorem readPrefixes_eq_loadReader (content : Bytes)
    (hshort : ∀ line ∈ content.splitOn newline, line.length < maxScanTokenSize)
    (texts : List String) :
    readPrefixes netip content = .ok texts ↔
      ∃ table, loadReader netip content = .ok table ∧ texts = table.map netip.string := by
  have hscan : ∀ line ∈ scanLines content, line.length < maxScanTokenSize := by
    intro line hline
    refine hshort line ?_
    unfold scanLines at hline
    dsimp only at hline
    split at hline
    · exact List.mem_of_mem_dropLast hline
    · exact hline
  rw [readPrefixes, ← filterMap_scanLines, loadReader]
  rw [funext (normalizePrefix_eq netip), mapM_map]
  simp only [foldlM_loadLine netip hscan, List.nil_append]
  cases ((scanLines content).filterMap lineToken).mapM (parsePrefix netip) with
  | error e => simp [Except.map]
  | ok ps => simp [Except.map, eq_comm]

/-- `net/netip` on bytes taken for characters. -/
def bytewiseNetip : NetipFuncs Netip.Addr Netip.Prefix where
  parsePrefix s := Netip.parsePrefix (String.ofList (s.map fun b => Char.ofNat b.toNat))
  masked := Netip.Prefix.masked
  parseAddr s := Netip.parseAddr (String.ofList (s.map fun b => Char.ofNat b.toNat))
  unmap := Netip.Addr.unmap
  host := Netip.Prefix.host
  string := Netip.Prefix.toString

/-- A file with a comment, an empty line, CRLF endings and blanks around an address. -/
def smallFile : Bytes :=
  "10.1.2.3/8 # lan\r\n\r\n#\n\t1.2.3.4 ".toList.map fun c => UInt8.ofNat c.toNat

/-- The file is read as its two prefixes. -/
theorem readPrefixes_smallFile :
    (∀ line ∈ smallFile.splitOn newline, line.length < maxScanTokenSize) ∧
      readPrefixes bytewiseNetip smallFile = .ok ["10.0.0.0/8", "1.2.3.4/32"] := by
  have hshort : ∀ line ∈ smallFile.splitOn newline, line.length < maxScanTokenSize := by
    decide +kernel
  have hload : loadReader bytewiseNetip smallFile =
      .ok [⟨.v4 0x0a000000, 8, by decide⟩, ⟨.v4 0x01020304, 32, by decide⟩] := by
    decide +kernel
  exact ⟨hshort, (readPrefixes_eq_loadReader bytewiseNetip smallFile hshort _).mpr
    ⟨_, hload, by decide +kernel⟩⟩

end Dualnet.Ipmatch
