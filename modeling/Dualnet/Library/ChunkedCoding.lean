import Mathlib.Data.List.TakeWhile
import Mathlib.Tactic

/-!
# The chunked transfer coding

RFC 9112, section 7.1: a body is a sequence of chunks, each with its size in hexadecimal digits, an
optional extension, a line end, the data and another line end; a chunk of size zero ends it.
`Chunk` and `LastChunk` are the grammar, `decode` reads a body chunk by chunk. What is decoded is
what the grammar says (`decode_chunks`), so a text has at most one reading. A body whose end has not
been sent yet is one that stops between two chunks.
-/

namespace Dualnet.Library.Chunked

abbrev Bytes := List UInt8

/-- The line end. -/
def crlf : Bytes := [13, 10]

/-- The value of a hexadecimal digit, in either case. -/
def hexValue? (b : UInt8) : Option Nat :=
  if 48 ≤ b && b ≤ 57 then some (b.toNat - 48)
  else if 97 ≤ b && b ≤ 102 then some (b.toNat - 87)
  else if 65 ≤ b && b ≤ 70 then some (b.toNat - 55)
  else none

def isHex (b : UInt8) : Bool := (hexValue? b).isSome

/-- The number a row of digits stands for. -/
def sizeValue (digits : Bytes) : Nat :=
  digits.foldl (fun n b => 16 * n + (hexValue? b).getD 0) 0

/-! ## The grammar -/

/-- `chunk-size`: at least one digit. -/
structure ChunkSize (digits : Bytes) (n : Nat) : Prop where
  ne_nil : digits ≠ []
  hex : ∀ b ∈ digits, isHex b = true
  value : sizeValue digits = n

/-- The symbols a `chunk-ext` can start with: a blank, a tab or a semicolon. -/
def extStart : Bytes := [32, 9, 59]

/-- `chunk-ext`, or nothing. Only where it starts and that it has no line end in it matters. -/
structure ChunkExt (ext : Bytes) : Prop where
  start : ∀ b ∈ ext.head?, b ∈ extStart
  line : ∀ b ∈ ext, b ∉ crlf

/-- `chunk`, with its data. -/
inductive Chunk : Bytes → Bytes → Prop
  | mk {digits ext data : Bytes} : ChunkSize digits data.length → data ≠ [] → ChunkExt ext →
      Chunk (digits ++ ext ++ crlf ++ data ++ crlf) data

/-- `last-chunk`. -/
inductive LastChunk : Bytes → Prop
  | mk {digits ext : Bytes} : ChunkSize digits 0 → ChunkExt ext →
      LastChunk (digits ++ ext ++ crlf)

/-- Chunks one after the other. -/
inductive Chunks : Bytes → List Bytes → Prop
  | nil : Chunks [] []
  | cons {text data rest : Bytes} {datas : List Bytes} : Chunk text data → Chunks rest datas →
      Chunks (text ++ rest) (data :: datas)

/-- Chunks after chunks. -/
theorem Chunks.append {text text' : Bytes} {datas datas' : List Bytes} (h : Chunks text datas)
    (h' : Chunks text' datas') : Chunks (text ++ text') (datas ++ datas') := by
  induction h with
  | nil => exact h'
  | cons hchunk _ ih =>
    rw [List.append_assoc]
    exact .cons hchunk ih

/-! ## The decoder -/

/-- Take the line end off. -/
def stripCrlf (bs : Bytes) : Option Bytes :=
  if bs.take 2 = crlf then some (bs.drop 2) else none

/-- Read the size of a chunk and the rest of its line. -/
def decodeSize (bs : Bytes) : Option (Nat × Bytes) :=
  let digits := bs.takeWhile isHex
  let line := bs.dropWhile isHex
  let ext := line.takeWhile (!crlf.contains ·)
  if digits.isEmpty || ext.head?.any (!extStart.contains ·) then none
  else (stripCrlf (line.dropWhile (!crlf.contains ·))).map fun rest => (sizeValue digits, rest)

/-- How the text of a body goes on after the chunks that were read. -/
inductive Ending where
  /-- Nothing follows. -/
  | pending
  /-- The last chunk, and this after it. -/
  | last (rest : Bytes)
  | malformed
  deriving DecidableEq

/-- Read the chunks of a body; the fuel bounds their number. -/
def decodeChunks : Nat → Bytes → List Bytes × Ending
  | 0, _ => ([], .malformed)
  | fuel + 1, bs =>
    if bs.isEmpty then ([], .pending)
    else
      match decodeSize bs with
      | none => ([], .malformed)
      | some (size, rest) =>
        if size = 0 then ([], .last rest)
        else
          match stripCrlf (rest.drop size) with
          | none => ([], .malformed)
          | some rest' =>
            let (datas, ending) := decodeChunks fuel rest'
            (rest.take size :: datas, ending)

/-- Read a body. Every chunk takes at least one byte. -/
def decode (bs : Bytes) : List Bytes × Ending := decodeChunks (bs.length + 1) bs

/-! ## What is decoded -/

/-- A line end is read. -/
theorem stripCrlf_append (rest : Bytes) : stripCrlf (crlf ++ rest) = some rest := by
  simp [stripCrlf, crlf]

/-- A part that ends where the rest begins. -/
theorem takeWhile_dropWhile_append {p : UInt8 → Bool} {l rest : Bytes} (hl : ∀ b ∈ l, p b = true)
    (hrest : ∀ b ∈ rest.head?, p b = false) :
    (l ++ rest).takeWhile p = l ∧ (l ++ rest).dropWhile p = rest := by
  induction l with
  | nil =>
    cases rest with
    | nil => simp
    | cons b rest => simp [hrest b (by simp)]
  | cons b l ih =>
    obtain ⟨hb, hl⟩ := List.forall_mem_cons.mp hl
    simp [hb, ih hl]

/-- The line of a size is read as the size. -/
theorem decodeSize_complete {digits ext : Bytes} {n : Nat} (hsize : ChunkSize digits n)
    (hext : ChunkExt ext) (rest : Bytes) :
    decodeSize (digits ++ ext ++ crlf ++ rest) = some (n, rest) := by
  have hstop : ∀ b ∈ (ext ++ (crlf ++ rest)).head?, isHex b = false := by
    have hall : ∀ b ∈ 13 :: extStart, isHex b = false := by
      simp only [extStart, List.forall_mem_cons]
      exact ⟨rfl, rfl, rfl, rfl, List.forall_mem_nil _⟩
    intro b hb
    cases ext with
    | nil =>
      obtain rfl : 13 = b := by simpa [crlf] using hb
      exact hall 13 (by simp)
    | cons c ext =>
      obtain rfl : c = b := by simpa using hb
      exact hall c (List.mem_cons_of_mem _ (hext.start c (by simp)))
  have hline : ∀ b ∈ ext, (!crlf.contains b) = true := by
    simpa using hext.line
  have hend : ∀ b ∈ (crlf ++ rest).head?, (!crlf.contains b) = false := by simp [crlf]
  obtain ⟨htake, hdrop⟩ := takeWhile_dropWhile_append hsize.hex hstop
  obtain ⟨htake', hdrop'⟩ := takeWhile_dropWhile_append hline hend
  have hstart : ext.head?.any (!extStart.contains ·) = false := by
    cases hhead : ext.head? with
    | none => rfl
    | some b => simpa using hext.start b (by simp [hhead])
  have hassoc : digits ++ ext ++ crlf ++ rest = digits ++ (ext ++ (crlf ++ rest)) := by simp
  rw [hassoc]
  simp only [decodeSize, htake, hdrop]
  rw [htake', hdrop', hstart, stripCrlf_append]
  simp [hsize.ne_nil, hsize.value]

/-- A chunk in front of anything is read as its data. -/
theorem decodeChunks_chunk {text data : Bytes} (h : Chunk text data) (fuel : Nat) (rest : Bytes) :
    decodeChunks (fuel + 1) (text ++ rest) =
      (data :: (decodeChunks fuel rest).1, (decodeChunks fuel rest).2) := by
  obtain ⟨hsize, hne, hext⟩ := h
  rename_i digits ext
  have hassoc : digits ++ ext ++ crlf ++ data ++ crlf ++ rest =
      digits ++ ext ++ crlf ++ (data ++ (crlf ++ rest)) := by simp
  have hsome : (digits ++ ext ++ crlf ++ (data ++ (crlf ++ rest))).isEmpty = false := by
    simp [crlf]
  have hlen : data.length ≠ 0 := by simpa using hne
  rw [hassoc, decodeChunks, hsome, decodeSize_complete hsize hext]
  simp only [Bool.false_eq_true, if_false, if_neg hlen, List.drop_left, List.take_left,
    stripCrlf_append]

variable {text : Bytes} {datas : List Bytes}

/-- Chunks in front of anything are read as their data. -/
theorem decodeChunks_append (h : Chunks text datas) (fuel : Nat) (rest : Bytes) :
    decodeChunks (datas.length + fuel) (text ++ rest) =
      (datas ++ (decodeChunks fuel rest).1, (decodeChunks fuel rest).2) := by
  induction h with
  | nil => simp
  | @cons text data more datas hchunk _ ih =>
    rw [List.length_cons, Nat.add_right_comm, List.append_assoc, decodeChunks_chunk hchunk, ih]
    rfl

/-- More fuel than bytes is enough. -/
theorem Chunks.length_le (h : Chunks text datas) : datas.length ≤ text.length := by
  induction h with
  | nil => exact Nat.le_refl 0
  | cons hchunk _ ih =>
    obtain ⟨_, _, _⟩ := hchunk
    simp only [List.length_append, List.length_cons, crlf, List.length_nil]
    omega

/-- A body that stops between two chunks is read as its data, and has not ended. -/
theorem decode_chunks (h : Chunks text datas) : decode text = (datas, .pending) := by
  obtain ⟨fuel, hfuel⟩ : ∃ fuel, text.length + 1 = datas.length + (fuel + 1) :=
    ⟨text.length - datas.length, by have := h.length_le; omega⟩
  have hread := decodeChunks_append h (fuel + 1) []
  rw [List.append_nil] at hread
  rw [decode, hfuel, hread]
  simp [decodeChunks]

/-- A body with its last chunk is read up to there. -/
theorem decode_last {text last : Bytes} (h : Chunks text datas) (hlast : LastChunk last)
    (rest : Bytes) : decode (text ++ (last ++ rest)) = (datas, .last rest) := by
  obtain ⟨fuel, hfuel⟩ : ∃ fuel,
      (text ++ (last ++ rest)).length + 1 = datas.length + (fuel + 1) :=
    ⟨text.length + (last ++ rest).length - datas.length, by
      have := h.length_le
      rw [List.length_append]
      omega⟩
  have hend : decodeChunks (fuel + 1) (last ++ rest) = ([], .last rest) := by
    obtain ⟨hsize, hext⟩ := hlast
    rename_i digits ext
    have hsome : (digits ++ ext ++ crlf ++ rest).isEmpty = false := by simp [crlf]
    rw [decodeChunks, hsome, decodeSize_complete hsize hext]
    simp
  rw [decode, hfuel, decodeChunks_append h, hend]
  simp

/-! ## Writing -/

/-- The lower-case hexadecimal digits of a number. -/
def hexDigits (n : Nat) : Bytes := (Nat.toDigits 16 n).map fun c => c.toNat.toUInt8

/-- The chunk of some data. -/
def encode (data : Bytes) : Bytes := hexDigits data.length ++ crlf ++ data ++ crlf

/-- A digit is read back. -/
theorem hexValue_digitChar {d : Nat} (h : d < 16) :
    hexValue? d.digitChar.toNat.toUInt8 = some d := by
  interval_cases d <;> rfl

/-- The digits of a number are a size line that stands for it. -/
theorem chunkSize_hexDigits (n : Nat) : ChunkSize (hexDigits n) n := by
  induction n using Nat.strong_induction_on with
  | _ n ih =>
    have hlast : n % 16 < 16 := Nat.mod_lt _ (by decide)
    by_cases hsmall : n < 16
    · rw [hexDigits, Nat.toDigits_of_lt_base hsmall]
      exact ⟨by simp, by simp [isHex, hexValue_digitChar hsmall],
        by simp [sizeValue, hexValue_digitChar hsmall]⟩
    · have hsplit : hexDigits n =
          hexDigits (n / 16) ++ [(n % 16).digitChar.toNat.toUInt8] := by
        rw [hexDigits, Nat.toDigits_of_base_le (by decide) (by omega), List.map_append]
        rfl
      obtain ⟨hne, hhex, hvalue⟩ := ih (n / 16) (by omega)
      rw [hsplit]
      refine ⟨by simp, fun b hb => ?_, ?_⟩
      · obtain hb | hb := List.mem_append.mp hb
        · exact hhex b hb
        · obtain rfl := List.mem_singleton.mp hb
          simp [isHex, hexValue_digitChar hlast]
      · rw [sizeValue] at hvalue ⊢
        rw [List.foldl_append, hvalue]
        simp only [List.foldl_cons, List.foldl_nil, hexValue_digitChar hlast, Option.getD_some]
        omega

/-- The chunk of some data is one of the grammar. -/
theorem chunk_encode {data : Bytes} (h : data ≠ []) : Chunk (encode data) data := by
  have hext : ChunkExt [] := ⟨by simp, by simp⟩
  simpa [encode] using Chunk.mk (chunkSize_hexDigits data.length) h hext

/-! ## A body that was cut off -/

/-- What a reader of a body hands on of a text that may stop anywhere: the data of a chunk is handed
on as it arrives. -/
def availableIn : Nat → Bytes → Bytes
  | 0, _ => []
  | fuel + 1, bs =>
    match decodeSize bs with
    | none => []
    | some (size, rest) =>
      if size = 0 then []
      else
        match stripCrlf (rest.drop size) with
        | none => rest.take size
        | some rest' => rest.take size ++ availableIn fuel rest'

/-- The data there is in a text. -/
def available (bs : Bytes) : Bytes := availableIn (bs.length + 1) bs

/-- What is read was a line end. -/
theorem stripCrlf_eq_some {bs rest : Bytes} (h : stripCrlf bs = some rest) : bs = crlf ++ rest := by
  obtain ⟨hcrlf, hrest⟩ := Option.ite_none_right_eq_some.mp h
  rw [← hcrlf, ← Option.some.inj hrest, List.take_append_drop]

/-- What is read as a size is the line of one. -/
theorem decodeSize_sound {bs rest : Bytes} {n : Nat} (h : decodeSize bs = some (n, rest)) :
    ∃ digits ext, ChunkSize digits n ∧ ChunkExt ext ∧ bs = digits ++ ext ++ crlf ++ rest := by
  unfold decodeSize at h
  dsimp only at h
  split at h
  · cases h
  · next hline =>
      obtain ⟨rest', hstrip, heq⟩ := Option.map_eq_some_iff.mp h
      obtain ⟨rfl, rfl⟩ := Prod.mk.inj heq
      rw [Bool.or_eq_true, not_or, List.isEmpty_iff] at hline
      refine ⟨bs.takeWhile isHex, (bs.dropWhile isHex).takeWhile (!crlf.contains ·),
        ⟨hline.1, fun b hb => List.mem_takeWhile_imp hb, rfl⟩, ⟨fun b hb => ?_, fun b hb => ?_⟩, ?_⟩
      · by_contra hstart
        exact hline.2 (by rw [Option.mem_def.mp hb]; simpa using hstart)
      · simpa using List.mem_takeWhile_imp hb
      · rw [List.append_assoc _ crlf, ← stripCrlf_eq_some hstrip, List.append_assoc,
          List.takeWhile_append_dropWhile, List.takeWhile_append_dropWhile]

/-- A size that can be read already is not changed by what follows. -/
theorem decodeSize_append {bs rest : Bytes} {n : Nat} (h : decodeSize bs = some (n, rest))
    (more : Bytes) : decodeSize (bs ++ more) = some (n, rest ++ more) := by
  obtain ⟨digits, ext, hsize, hext, rfl⟩ := decodeSize_sound h
  rw [List.append_assoc _ rest]
  exact decodeSize_complete hsize hext _

/-- Of chunks that were cut off anywhere, what can be read is the first part of their data. -/
theorem availableIn_prefix {text bs : Bytes} (h : Chunks text datas) (hbs : bs <+: text)
    (fuel : Nat) : availableIn fuel bs <+: datas.flatten := by
  induction h generalizing bs fuel with
  | nil =>
    obtain rfl := List.prefix_nil.mp hbs
    cases fuel <;> simp [availableIn, decodeSize]
  | @cons text data rest datas hchunk _ ih =>
    cases fuel with
    | zero => exact List.nil_prefix
    | succ fuel =>
      rw [availableIn]
      cases hsize : decodeSize bs with
      | none => exact List.nil_prefix
      | some read =>
        obtain ⟨n, left⟩ := read
        obtain ⟨more, hmore⟩ := hbs
        obtain ⟨hdigits, hne, hext⟩ := hchunk
        rename_i digits ext
        -- the line is there in full, so it is read as in the whole text
        have hwhole := decodeSize_append hsize more
        rw [hmore] at hwhole
        have hassoc : digits ++ ext ++ crlf ++ data ++ crlf ++ rest =
            digits ++ ext ++ crlf ++ (data ++ (crlf ++ rest)) := by simp
        rw [hassoc, decodeSize_complete hdigits hext] at hwhole
        obtain ⟨rfl, hleft⟩ := Prod.mk.inj (Option.some.inj hwhole)
        have htake : left.take data.length <+: data := by
          have hcut := (List.prefix_append left more).take data.length
          rwa [← hleft, List.take_left] at hcut
        rw [List.flatten_cons]
        simp only [List.length_eq_zero_iff, hne, if_false]
        cases hstrip : stripCrlf (left.drop data.length) with
        | none => exact htake.trans (List.prefix_append _ _)
        | some next =>
          have hnext := stripCrlf_eq_some hstrip
          have hlong : data.length ≤ left.length := by
            by_contra hshort
            rw [List.drop_eq_nil_of_le (by omega)] at hnext
            simp [crlf] at hnext
          have hdata : left.take data.length = data := by
            refine htake.eq_of_length ?_
            rw [List.length_take]
            omega
          have hrest : next <+: rest := by
            refine ⟨more, ?_⟩
            have hdrop := congrArg (List.drop data.length) hleft
            rw [List.drop_left, List.drop_append_of_le_length hlong, hnext,
              List.append_assoc] at hdrop
            exact (List.append_cancel_left hdrop).symm
          rw [hdata]
          exact (List.prefix_append_right_inj _).mpr (ih hrest fuel)

/-- All the data of chunks that are there can be read. -/
theorem availableIn_chunks (h : Chunks text datas) {fuel : Nat} (hfuel : datas.length < fuel) :
    availableIn fuel text = datas.flatten := by
  induction h generalizing fuel with
  | nil => cases fuel <;> simp [availableIn, decodeSize]
  | @cons text data rest datas hchunk _ ih =>
    obtain ⟨fuel, rfl⟩ : ∃ k, fuel = k + 1 := ⟨fuel - 1, by omega⟩
    obtain ⟨hdigits, hne, hext⟩ := hchunk
    rename_i digits ext
    have hassoc : digits ++ ext ++ crlf ++ data ++ crlf ++ rest =
        digits ++ ext ++ crlf ++ (data ++ (crlf ++ rest)) := by simp
    rw [hassoc, availableIn, decodeSize_complete hdigits hext]
    simp only [List.length_eq_zero_iff, hne, if_false, List.drop_left, List.take_left,
      stripCrlf_append, List.flatten_cons]
    rw [ih (by simpa using hfuel)]

/-- All data of whole chunks is available. -/
theorem available_chunks (h : Chunks text datas) : available text = datas.flatten :=
  availableIn_chunks h (Nat.lt_succ_of_le h.length_le)

end Dualnet.Library.Chunked
