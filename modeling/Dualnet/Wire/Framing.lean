import Dualnet.Wire.Envelope

/-!
# Length-prefixed frames

`wire/framing.go`, the path over a plain reader or writer, and the parts of `io` and
`encoding/binary` it uses. A reader hands its bytes out in chunks of any size, empty ones
included; `bytes` is what it still holds.
-/

namespace Dualnet.Wire

/-- `MaxPacket`. -/
def maxPacket : Nat := 65535

/-- The errors of a frame read. -/
inductive ReadError where
  | shortBuffer
  | eof
  | unexpectedEOF
  deriving DecidableEq

/-- An `io.Reader`. One call returns at most the next chunk; `eofWithLast` readers report the
end together with their last bytes, the others on the call after. -/
structure Source where
  chunks : List Bytes
  eofWithLast : Bool

/-- What is left to read. -/
def Source.bytes (src : Source) : Bytes := src.chunks.flatten

/-- `Read` into a buffer of `n` bytes: the bytes, whether the end is reported, and the reader. -/
def Source.read (src : Source) (n : Nat) : Bytes × Bool × Source :=
  match src.chunks with
  | [] => ([], true, src)
  | chunk :: rest =>
    let left := if chunk.length ≤ n then rest else chunk.drop n :: rest
    (chunk.take n, src.eofWithLast && left.isEmpty, { src with chunks := left })

/-- The loop of `io.ReadFull`: read until `need` more bytes are there or the end is reported. -/
def readLoop : Nat → Source → Nat → Bytes → Except ReadError (Bytes × Source)
  | 0, _, _, _ => .error .unexpectedEOF
  | fuel + 1, src, need, acc =>
    if need = 0 then .ok (acc, src)
    else
      let (got, eof, src) := src.read need
      if eof ∧ got.length < need then
        .error (if (acc ++ got).isEmpty then .eof else .unexpectedEOF)
      else readLoop fuel src (need - got.length) (acc ++ got)

/-- `io.ReadFull` of `n` bytes. A round that does not complete the read uses a chunk up, so the
loop runs at most once per chunk and once more to notice that it is done. -/
def readFull (src : Source) (n : Nat) : Except ReadError (Bytes × Source) :=
  readLoop (src.chunks.length + 2) src n []

/-- A read of bytes that are there completes, whatever the chunks. -/
theorem readLoop_ok {fuel : Nat} {src : Source} {need : Nat} {acc : Bytes}
    (hfuel : 0 < fuel ∧ (0 < need → src.chunks.length + 1 < fuel))
    (hneed : need ≤ src.bytes.length) :
    ∃ src', readLoop fuel src need acc = .ok (acc ++ src.bytes.take need, src') ∧
      src'.bytes = src.bytes.drop need := by
  induction fuel generalizing src need acc with
  | zero => exact absurd hfuel.1 (Nat.lt_irrefl 0)
  | succ fuel ih =>
    rw [readLoop]
    split
    · rename_i hzero
      exact ⟨src, by simp [hzero], by simp [hzero]⟩
    · rename_i hpos
      obtain ⟨chunks, eager⟩ := src
      cases chunks with
      | nil => simp [Source.bytes] at hneed; omega
      | cons chunk rest =>
        have hbytes : Source.bytes ⟨chunk :: rest, eager⟩ = chunk ++ rest.flatten := rfl
        rw [hbytes, List.length_append] at hneed
        have hlength := hfuel.2 (Nat.pos_of_ne_zero hpos)
        simp only [List.length_cons] at hlength
        by_cases hchunk : chunk.length ≤ need
        · have hread : Source.read ⟨chunk :: rest, eager⟩ need =
              (chunk, eager && rest.isEmpty, ⟨rest, eager⟩) := by
            simp [Source.read, hchunk]
          have hmore : ¬ ((eager && rest.isEmpty) = true ∧ chunk.length < need) := by
            rintro ⟨heof, hshort⟩
            rw [Bool.and_eq_true, List.isEmpty_iff] at heof
            rw [heof.2, List.flatten_nil, List.length_nil] at hneed
            omega
          obtain ⟨src', hok, hleft⟩ := @ih ⟨rest, eager⟩ (need - chunk.length) (acc ++ chunk)
            ⟨by omega, fun _ => by simp only; omega⟩ (by simp only [Source.bytes]; omega)
          refine ⟨src', ?_, ?_⟩
          · simp only [hread, if_neg hmore, hok, hbytes]
            rw [List.take_append, List.take_of_length_le hchunk, List.append_assoc]
            rfl
          · rw [hleft, hbytes, List.drop_append, List.drop_eq_nil_of_le hchunk]
            rfl
        · have hread : Source.read ⟨chunk :: rest, eager⟩ need =
              (chunk.take need, false, ⟨chunk.drop need :: rest, eager⟩) := by
            simp [Source.read, hchunk]
          have htake : (chunk.take need).length = need := by
            rw [List.length_take]
            omega
          obtain ⟨src', hok, hleft⟩ := @ih ⟨chunk.drop need :: rest, eager⟩ 0
            (acc ++ chunk.take need) ⟨by omega, fun h => absurd h (Nat.lt_irrefl 0)⟩
            (Nat.zero_le _)
          refine ⟨src', ?_, ?_⟩
          · simp only [hread, Bool.false_eq_true, false_and, if_false, htake, Nat.sub_self, hok,
              hbytes, List.take_zero, List.append_nil]
            rw [List.take_append_of_le_length (by omega)]
          · rw [hleft, hbytes, List.drop_append_of_le_length (by omega)]
            rfl

/-- `io.ReadFull` of bytes that are there returns them and leaves the rest. -/
theorem readFull_ok {src : Source} {bs rest : Bytes} (h : src.bytes = bs ++ rest) :
    ∃ src', readFull src bs.length = .ok (bs, src') ∧ src'.bytes = rest := by
  have hneed : bs.length ≤ src.bytes.length := by simp [h]
  obtain ⟨src', hok, hleft⟩ := @readLoop_ok (src.chunks.length + 2) src bs.length []
    ⟨by omega, fun _ => by omega⟩ hneed
  refine ⟨src', ?_, ?_⟩
  · rw [readFull, hok, h, List.take_left, List.nil_append]
  · rw [hleft, h, List.drop_left]

/-- `binary.BigEndian.PutUint16`. -/
def putUint16 (n : UInt16) : Bytes := [(n >>> 8).toUInt8, n.toUInt8]

/-- `binary.BigEndian.Uint16`. -/
def uint16 (bs : Bytes) : UInt16 := (bs.getD 1 0).toUInt16 ||| (bs.getD 0 0).toUInt16 <<< 8

/-- A length prefix reads back. -/
theorem uint16_putUint16 (n : UInt16) : uint16 (putUint16 n) = n := by
  apply UInt16.eq_of_toBitVec_eq
  ext i hi
  simp only [uint16, putUint16, List.getD_cons_zero, List.getD_cons_succ, UInt16.toBitVec_or,
    UInt16.toBitVec_shiftLeft, UInt8.toBitVec_toUInt16, UInt16.toBitVec_toUInt8,
    UInt16.toBitVec_shiftRight, UInt16.toBitVec_ofNat, BitVec.getElem_or, BitVec.getElem_setWidth,
    BitVec.getElem_shiftLeft, BitVec.getLsbD_ushiftRight,
    BitVec.getLsbD_setWidth, BitVec.shiftLeft_eq', BitVec.ushiftRight_eq', BitVec.reduceMod,
    BitVec.reduceToNat]
  interval_cases i <;> simp

/-- The length of a packet that fits its prefix reads back. -/
theorem uint16_length {p : Bytes} (h : p.length ≤ maxPacket) :
    (uint16 (putUint16 (UInt16.ofNat p.length))).toNat = p.length := by
  rw [uint16_putUint16, UInt16.toNat_ofNat']
  exact Nat.mod_eq_of_lt (Nat.lt_succ_of_le h)

/-- `WriteFrame` to a plain writer that has written `out`. -/
def writeFrame (out p : Bytes) : Bytes := out ++ putUint16 (UInt16.ofNat p.length) ++ p

/-- `ReadFrame` from a plain reader into a buffer of `bufLen` bytes. -/
def readFrame (src : Source) (bufLen : Nat) : Except ReadError (Bytes × Source) := do
  if bufLen < 2 then .error .shortBuffer
  else
    let (hdr, src) ← readFull src 2
    let n := (uint16 hdr).toNat
    if bufLen < n then .error .shortBuffer
    else readFull src n

end Dualnet.Wire
