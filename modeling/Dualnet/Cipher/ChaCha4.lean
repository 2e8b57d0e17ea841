import Dualnet.Library.Keystream
import Dualnet.Wire.Envelope

/-!
# The chacha4 keystream cipher

`cipher/chacha4.go`: ChaCha with two double rounds, the counter-independent part of the first
round computed once per cipher, and a buffer for the unused tail of the last block. The model
follows the source word by word; `xorKeyStream_spec` says what a caller needs: the output is
the input XORed with the keystream from where the previous call stopped.
-/

namespace Dualnet.Cipher

open Library Wire

/-- `chachaDoubleRounds`. -/
def chachaDoubleRounds : Nat := 2

/-- `chachaNonceLen`. -/
def chachaNonceLen : Nat := 12

/-- `chachaBlockSize`. -/
def chachaBlockSize : Nat := 64

def chachaConst0 : UInt32 := 0x61707865
def chachaConst1 : UInt32 := 0x3320646e
def chachaConst2 : UInt32 := 0x79622d32
def chachaConst3 : UInt32 := 0x6b206574

/-- `binary.LittleEndian.Uint32`. -/
def le32 (bs : Bytes) : UInt32 :=
  (bs.getD 0 0).toUInt32 ||| (bs.getD 1 0).toUInt32 <<< 8 |||
    (bs.getD 2 0).toUInt32 <<< 16 ||| (bs.getD 3 0).toUInt32 <<< 24

/-- `binary.LittleEndian.PutUint32`. -/
def putLE32 (w : UInt32) : Bytes :=
  [w.toUInt8, (w >>> 8).toUInt8, (w >>> 16).toUInt8, (w >>> 24).toUInt8]

/-- `bits.RotateLeft32`. -/
def rotateLeft32 (x : UInt32) (k : UInt32) : UInt32 := x <<< k ||| x >>> (32 - k)

/-- `chachaQR`. -/
def chachaQR (a b c d : UInt32) : UInt32 × UInt32 × UInt32 × UInt32 :=
  let a := a + b
  let d := rotateLeft32 (d ^^^ a) 16
  let c := c + d
  let b := rotateLeft32 (b ^^^ c) 12
  let a := a + b
  let d := rotateLeft32 (d ^^^ a) 8
  let c := c + d
  let b := rotateLeft32 (b ^^^ c) 7
  (a, b, c, d)

/-- `chachaAddXor` on one four-byte slice. -/
def chachaAddXor (src : Bytes) (a b : UInt32) : Bytes := putLE32 (le32 src ^^^ (a + b))

/-- The key words. -/
abbrev KeyWords := Vector UInt32 8

/-- The nonce words. -/
abbrev NonceWords := Vector UInt32 3

/-- The three quarter rounds of the first column round that do not see the counter. -/
structure Precomp where
  p1 : UInt32
  p5 : UInt32
  p9 : UInt32
  p13 : UInt32
  p2 : UInt32
  p6 : UInt32
  p10 : UInt32
  p14 : UInt32
  p3 : UInt32
  p7 : UInt32
  p11 : UInt32
  p15 : UInt32

/-- Compute them. -/
def precompute (key : KeyWords) (nonce : NonceWords) : Precomp :=
  let (p1, p5, p9, p13) := chachaQR chachaConst1 key[1] key[5] nonce[0]
  let (p2, p6, p10, p14) := chachaQR chachaConst2 key[2] key[6] nonce[1]
  let (p3, p7, p11, p15) := chachaQR chachaConst3 key[3] key[7] nonce[2]
  ⟨p1, p5, p9, p13, p2, p6, p10, p14, p3, p7, p11, p15⟩

/-- The sixteen working words of a block. -/
structure Words where
  x0 : UInt32
  x1 : UInt32
  x2 : UInt32
  x3 : UInt32
  x4 : UInt32
  x5 : UInt32
  x6 : UInt32
  x7 : UInt32
  x8 : UInt32
  x9 : UInt32
  x10 : UInt32
  x11 : UInt32
  x12 : UInt32
  x13 : UInt32
  x14 : UInt32
  x15 : UInt32

/-- One double round: the columns, then the diagonals. -/
def doubleRound (x : Words) : Words :=
  let (x0, x4, x8, x12) := chachaQR x.x0 x.x4 x.x8 x.x12
  let (x1, x5, x9, x13) := chachaQR x.x1 x.x5 x.x9 x.x13
  let (x2, x6, x10, x14) := chachaQR x.x2 x.x6 x.x10 x.x14
  let (x3, x7, x11, x15) := chachaQR x.x3 x.x7 x.x11 x.x15
  let (x0, x5, x10, x15) := chachaQR x0 x5 x10 x15
  let (x1, x6, x11, x12) := chachaQR x1 x6 x11 x12
  let (x2, x7, x8, x13) := chachaQR x2 x7 x8 x13
  let (x3, x4, x9, x14) := chachaQR x3 x4 x9 x14
  ⟨x0, x1, x2, x3, x4, x5, x6, x7, x8, x9, x10, x11, x12, x13, x14, x15⟩

/-- The state of a block: the constants, the key, the counter and the nonce. -/
def plainState (key : KeyWords) (nonce : NonceWords) (counter : UInt32) : Words :=
  ⟨chachaConst0, chachaConst1, chachaConst2, chachaConst3, key[0], key[1], key[2], key[3],
    key[4], key[5], key[6], key[7], counter, nonce[0], nonce[1], nonce[2]⟩

/-- The words of the block with this counter, each with the state word added to it. -/
def blockWords (key : KeyWords) (nonce : NonceWords) (p : Precomp) (counter : UInt32) :
    List (UInt32 × UInt32) :=
  let (fcr0, fcr4, fcr8, fcr12) := chachaQR chachaConst0 key[0] key[4] counter
  let (x0, x5, x10, x15) := chachaQR fcr0 p.p5 p.p10 p.p15
  let (x1, x6, x11, x12) := chachaQR p.p1 p.p6 p.p11 fcr12
  let (x2, x7, x8, x13) := chachaQR p.p2 p.p7 fcr8 p.p13
  let (x3, x4, x9, x14) := chachaQR p.p3 fcr4 p.p9 p.p14
  let x := doubleRound^[chachaDoubleRounds - 1]
    ⟨x0, x1, x2, x3, x4, x5, x6, x7, x8, x9, x10, x11, x12, x13, x14, x15⟩
  [(x.x0, chachaConst0), (x.x1, chachaConst1), (x.x2, chachaConst2), (x.x3, chachaConst3),
    (x.x4, key[0]), (x.x5, key[1]), (x.x6, key[2]), (x.x7, key[3]),
    (x.x8, key[4]), (x.x9, key[5]), (x.x10, key[6]), (x.x11, key[7]),
    (x.x12, counter), (x.x13, nonce[0]), (x.x14, nonce[1]), (x.x15, nonce[2])]

/-- `chacha4Cipher`. The last `len` bytes of `buf` are keystream not used yet; `precomp` is
filled by the first block. -/
structure Chacha4 where
  key : KeyWords
  nonce : NonceWords
  counter : UInt32
  buf : Bytes
  len : Nat
  precomp : Option Precomp
  buf_length : buf.length = chachaBlockSize
  len_lt : len < chachaBlockSize
  precomp_eq : ∀ p ∈ precomp, p = precompute key nonce

/-- `newChacha4Cipher`. -/
def newChacha4Cipher (key : Vector UInt8 32) (nonce : Bytes) : Chacha4 where
  key := Vector.ofFn fun i => le32 (key.toList.drop (i * 4))
  nonce := Vector.ofFn fun i => le32 (nonce.drop (i * 4))
  counter := 0
  buf := List.replicate chachaBlockSize 0
  len := 0
  precomp := none
  buf_length := List.length_replicate
  len_lt := by decide
  precomp_eq := by simp

/-- XOR consecutive four-byte slices with the words of a block. -/
def xorWords : Bytes → List (UInt32 × UInt32) → Bytes
  | _, [] => []
  | src, (a, b) :: ws => chachaAddXor (src.take 4) a b ++ xorWords (src.drop 4) ws

/-- The loop of `block` over `n` blocks, with the counter it ends on. -/
def blockLoop (key : KeyWords) (nonce : NonceWords) (p : Precomp) :
    Nat → UInt32 → Bytes → Bytes × UInt32
  | 0, counter, _ => ([], counter)
  | n + 1, counter, src =>
    let (out, last) := blockLoop key nonce p n (counter + 1) (src.drop chachaBlockSize)
    (xorWords (src.take chachaBlockSize) (blockWords key nonce p counter) ++ out, last)

/-! ## The keystream -/

/-- The bytes of a list of words, each with its state word added. -/
def wordBytes (ws : List (UInt32 × UInt32)) : Bytes := ws.flatMap fun w => putLE32 (w.1 + w.2)

/-- The keystream block with this counter. -/
def blockBytes (key : KeyWords) (nonce : NonceWords) (counter : UInt32) : Bytes :=
  wordBytes (blockWords key nonce (precompute key nonce) counter)

/-- The keystream from the start of the block with this counter; the counter wraps. -/
def blockStream (key : KeyWords) (nonce : NonceWords) (counter : UInt32) : Stream' UInt8 :=
  fun i => (blockBytes key nonce (counter + UInt32.ofNat (i / chachaBlockSize))).getD
    (i % chachaBlockSize) 0

/-- Byte `k` of a little-endian word is that of the slice it was read from. -/
theorem putLE32_le32 (b0 b1 b2 b3 : UInt8) : putLE32 (le32 [b0, b1, b2, b3]) = [b0, b1, b2, b3] := by
  simp only [putLE32, le32, List.getD_cons_zero, List.getD_cons_succ, List.cons.injEq, and_true]
  -- Bit `i` of each byte of the word; the other three bytes are shifted out of reach.
  refine ⟨?_, ?_, ?_, ?_⟩ <;> apply UInt8.eq_of_toBitVec_eq <;> ext i hi <;>
    simp only [UInt32.toBitVec_toUInt8, UInt32.toBitVec_or, UInt32.toBitVec_shiftLeft,
      UInt32.toBitVec_shiftRight, UInt8.toBitVec_toUInt32, UInt32.toBitVec_ofNat,
      BitVec.getElem_setWidth, BitVec.getLsbD_or, BitVec.getLsbD_ushiftRight,
      BitVec.getLsbD_shiftLeft, BitVec.getLsbD_setWidth, BitVec.shiftLeft_eq',
      BitVec.ushiftRight_eq', BitVec.reduceMod, BitVec.reduceToNat] <;>
    interval_cases i <;> simp [BitVec.getLsbD_of_ge]

/-- Writing a word out byte by byte commutes with XOR. -/
theorem putLE32_xor (x y : UInt32) :
    putLE32 (x ^^^ y) = List.zipWith (· ^^^ ·) (putLE32 x) (putLE32 y) := by
  simp [putLE32, UInt32.shiftRight_xor]

/-- `chachaAddXor` is a bytewise XOR with the word. -/
theorem chachaAddXor_eq {src : Bytes} (h : src.length = 4) (a b : UInt32) :
    chachaAddXor src a b = List.zipWith (· ^^^ ·) src (putLE32 (a + b)) := by
  match src, h with
  | [b0, b1, b2, b3], _ => rw [chachaAddXor, putLE32_xor, putLE32_le32]

/-- XORing the slices with the words is XORing with the words' bytes. -/
theorem xorWords_eq {src : Bytes} {ws : List (UInt32 × UInt32)} (h : src.length = 4 * ws.length) :
    xorWords src ws = List.zipWith (· ^^^ ·) src (wordBytes ws) := by
  induction ws generalizing src with
  | nil => simp [xorWords, wordBytes]
  | cons w ws ih =>
    obtain ⟨a, b⟩ := w
    rw [List.length_cons] at h
    have hhead : (src.take 4).length = 4 := by
      rw [List.length_take]
      omega
    have htail : (src.drop 4).length = 4 * ws.length := by
      rw [List.length_drop]
      omega
    have hbytes : wordBytes ((a, b) :: ws) = putLE32 (a + b) ++ wordBytes ws := rfl
    rw [xorWords, chachaAddXor_eq hhead, ih htail, hbytes]
    conv_rhs => rw [← List.take_append_drop 4 src]
    rw [List.zipWith_append (by rw [hhead]; rfl)]

/-- A block has 64 bytes. -/
@[simp] theorem length_blockBytes (key : KeyWords) (nonce : NonceWords) (counter : UInt32) :
    (blockBytes key nonce counter).length = chachaBlockSize := rfl

/-- Counting blocks from the next one. -/
theorem counter_succ (counter : UInt32) (n : Nat) :
    counter + UInt32.ofNat (n + 1) = counter + 1 + UInt32.ofNat n := by
  rw [UInt32.ofNat_add, UInt32.add_comm (UInt32.ofNat n), ← UInt32.add_assoc]
  rfl

/-- The keystream is one block followed by the keystream of the next. -/
theorem blockStream_eq (key : KeyWords) (nonce : NonceWords) (counter : UInt32) :
    blockStream key nonce counter =
      blockBytes key nonce counter ++ₛ blockStream key nonce (counter + 1) := by
  refine Stream'.ext fun i => ?_
  by_cases hi : i < chachaBlockSize
  · have hlength : i < (blockBytes key nonce counter).length := hi
    rw [Stream'.get_append_left _ _ _ hlength]
    simp [blockStream, Stream'.get, Nat.div_eq_of_lt hi, Nat.mod_eq_of_lt hi, hlength,
      -length_blockBytes]
  · obtain ⟨j, rfl⟩ := Nat.exists_eq_add_of_le (Nat.le_of_not_lt hi)
    have hnext : (blockBytes key nonce counter ++ₛ blockStream key nonce (counter + 1)).get
        (chachaBlockSize + j) = (blockStream key nonce (counter + 1)).get j :=
      Stream'.get_append_right j (blockBytes key nonce counter) _
    rw [hnext]
    have hpos : 0 < chachaBlockSize := by decide
    simp only [blockStream, Stream'.get, Nat.add_mod_left, Nat.add_div_left j hpos, counter_succ]

/-- After one block the keystream is that of the next. -/
theorem drop_blockStream (key : KeyWords) (nonce : NonceWords) (counter : UInt32) :
    (blockStream key nonce counter).drop chachaBlockSize = blockStream key nonce (counter + 1) := by
  rw [blockStream_eq]
  exact Stream'.drop_append_stream (blockBytes key nonce counter) _

/-- After `n` blocks the keystream is that of the block `n` further on. -/
theorem drop_blockStream_blocks (key : KeyWords) (nonce : NonceWords) (counter : UInt32) (n : Nat) :
    (blockStream key nonce counter).drop (chachaBlockSize * n) =
      blockStream key nonce (counter + UInt32.ofNat n) := by
  induction n generalizing counter with
  | zero => simp
  | succ n ih =>
    rw [counter_succ, ← ih, ← drop_blockStream, Stream'.drop_drop, Nat.mul_succ, Nat.add_comm]

/-- The block loop XORs with the keystream and ends on the counter after its blocks. -/
theorem blockLoop_eq {key : KeyWords} {nonce : NonceWords} {n : Nat} {counter : UInt32}
    {src : Bytes} (h : src.length = chachaBlockSize * n) :
    blockLoop key nonce (precompute key nonce) n counter src =
      (xorWith (blockStream key nonce counter) src, counter + UInt32.ofNat n) := by
  induction n generalizing counter src with
  | zero =>
    obtain rfl : src = [] := List.length_eq_zero_iff.mp h
    simp [blockLoop]
  | succ n ih =>
    have hhead : (src.take chachaBlockSize).length = chachaBlockSize := by
      rw [List.length_take, h, Nat.mul_succ]
      omega
    have htail : (src.drop chachaBlockSize).length = chachaBlockSize * n := by
      rw [List.length_drop, h, Nat.mul_succ]
      omega
    have hfirst : xorWords (src.take chachaBlockSize)
        (blockWords key nonce (precompute key nonce) counter) =
        xorWith (blockStream key nonce counter) (src.take chachaBlockSize) := by
      rw [xorWords_eq hhead, blockStream_eq, xorWith_appendStream _ _ (by rw [hhead]; rfl)]
      rfl
    rw [blockLoop, ih htail, counter_succ]
    simp only
    rw [hfirst, ← drop_blockStream]
    conv_rhs => rw [← List.take_append_drop chachaBlockSize src, xorWith_append, hhead]

namespace Chacha4

variable (c : Chacha4)

/-- Whether stored or computed now, the precomputed words are the same. -/
theorem precomp_getD : c.precomp.getD (precompute c.key c.nonce) = precompute c.key c.nonce := by
  cases h : c.precomp with
  | none => rfl
  | some p => exact c.precomp_eq p h

/-- So is what a block stores. -/
theorem stored_eq :
    ∀ p ∈ some (c.precomp.getD (precompute c.key c.nonce)), p = precompute c.key c.nonce := by
  intro p hp
  obtain rfl := Option.some.inj hp
  exact c.precomp_getD

/-- `block`: XOR whole blocks with fresh keystream. -/
def block (src : Bytes) : Bytes × Chacha4 :=
  let p := c.precomp.getD (precompute c.key c.nonce)
  let (out, counter) := blockLoop c.key c.nonce p (src.length / chachaBlockSize) c.counter src
  (out, { c with
    counter := counter
    precomp := some p
    precomp_eq := c.stored_eq })

/-- What `block` does to whole blocks. -/
theorem block_eq {src : Bytes} {n : Nat} (h : src.length = chachaBlockSize * n) :
    (c.block src).1 = xorWith (blockStream c.key c.nonce c.counter) src ∧
      (c.block src).2.counter = c.counter + UInt32.ofNat n ∧
      (c.block src).2.key = c.key ∧ (c.block src).2.nonce = c.nonce ∧
      (c.block src).2.buf = c.buf ∧ (c.block src).2.len = c.len := by
  have hblocks : src.length / chachaBlockSize = n := by
    rw [h, Nat.mul_div_cancel_left n (by decide)]
  have hloop := @blockLoop_eq c.key c.nonce n c.counter src h
  simp only [block, precomp_getD, hblocks, hloop]
  simp

/-- The tail of the buffer that is keystream not used yet. -/
def unread : Bytes := c.buf.drop (chachaBlockSize - c.len)

/-- What is left of a block. -/
@[simp] theorem length_unread : c.unread.length = c.len := by
  have hlen := c.len_lt
  rw [unread, List.length_drop, c.buf_length]
  omega

/-- The first part of `XORKeyStream`: use up the buffered keystream. Returns the output, the
input left, and the cipher. -/
def drain (src : Bytes) : Bytes × Bytes × Chacha4 :=
  let keyStream := c.unread.take src.length
  (List.zipWith (· ^^^ ·) src keyStream, src.drop keyStream.length,
    { c with
      len := c.len - keyStream.length
      len_lt := lt_of_le_of_lt (Nat.sub_le _ _) c.len_lt })

/-- The last part of `XORKeyStream`: XOR a padded block in the buffer and keep what is left of
it. -/
def lastBlock (src : Bytes) (h : 0 < src.length ∧ src.length < chachaBlockSize) :
    Bytes × Chacha4 :=
  let padded := src ++ List.replicate (chachaBlockSize - src.length) 0
  (((c.block padded).1.take src.length),
    { (c.block padded).2 with
      buf := (c.block padded).1
      len := chachaBlockSize - src.length
      buf_length := by
        have hpadded : padded.length = chachaBlockSize * 1 := by
          simp only [padded, List.length_append, List.length_replicate]
          omega
        rw [(c.block_eq hpadded).1, length_xorWith, hpadded, Nat.mul_one]
      len_lt := by omega })

/-- The middle part of `XORKeyStream`: the whole blocks of the input. -/
def wholeBlocks (src : Bytes) : Bytes × Chacha4 :=
  let full := src.length - src.length % chachaBlockSize
  if 0 < full then c.block (src.take full) else ([], c)

/-- `XORKeyStream` behind the buffer: whole blocks, then a last shorter one. -/
def xorFresh (src : Bytes) : Bytes × Chacha4 :=
  let (body, c) := c.wholeBlocks src
  let rest := src.drop (src.length - src.length % chachaBlockSize)
  -- The source only asks for a non-empty rest; it is shorter than a block.
  if h : 0 < rest.length ∧ rest.length < chachaBlockSize then
    let (last, c) := c.lastBlock rest h
    (body ++ last, c)
  else (body, c)

/-- `XORKeyStream`: the output and the cipher after it. The early returns of the source are the
cases in which all the parts that follow do nothing. -/
def xorKeyStream (src : Bytes) : Bytes × Chacha4 :=
  if c.len ≠ 0 then
    let (head, rest, c) := c.drain src
    let (out, c) := c.xorFresh rest
    (head ++ out, c)
  else c.xorFresh src

/-! ## What `XORKeyStream` does -/

/-- The keystream not used yet. -/
def keystream : Stream' UInt8 := c.unread ++ₛ blockStream c.key c.nonce c.counter

/-- Where the cipher stands: the counter of the next block and the unused bytes of the last. -/
def position : UInt32 × Nat := (c.counter, c.len)

/-- The output is the input XORed with the keystream, and the next call continues behind it. -/
structure Continues (src out : Bytes) (c' : Chacha4) : Prop where
  out_eq : out = xorWith c.keystream src
  next : c'.keystream = c.keystream.drop src.length

variable {c}

/-- Nothing in, nothing out. -/
theorem Continues.refl : Continues c [] [] c := ⟨rfl, rfl⟩

/-- Two pieces in a row. -/
theorem Continues.trans {c' c'' : Chacha4} {src out src' out' : Bytes}
    (h : c.Continues src out c') (h' : c'.Continues src' out' c'') :
    c.Continues (src ++ src') (out ++ out') c'' := by
  constructor
  · rw [xorWith_append, h.out_eq, h'.out_eq, h.next]
  · rw [h'.next, h.next, Stream'.drop_drop, List.length_append]

/-- Draining the buffer uses the keystream it holds. -/
theorem drain_continues (src : Bytes) :
    c.Continues (src.take c.len) (c.drain src).1 (c.drain src).2.2 := by
  have hlen := c.len_lt
  constructor
  · rw [keystream, xorWith_appendStream _ _ (by simp), drain, zipWith_take_length, length_unread]
  · have hdrop : (c.drain src).2.2.unread = c.unread.drop (src.take c.len).length := by
      simp only [drain, unread, List.drop_drop, List.length_take, List.length_drop, c.buf_length]
      congr 1
      omega
    rw [keystream, keystream, drop_appendStream _ _ (by simp), hdrop]
    rfl

/-- After draining, the input is used up or the buffer is. -/
theorem drain_done (src : Bytes) : (c.drain src).2.1 = src.drop c.len ∧
    ((c.drain src).2.1 = [] ∨ (c.drain src).2.2.len = 0) ∧
    (c.drain src).2.2.position = (c.counter, c.len - src.length) := by
  have hused : (c.unread.take src.length).length = min src.length c.len := by
    rw [List.length_take, length_unread]
  refine ⟨?_, ?_, ?_⟩
  · simp only [drain, hused]
    rcases Nat.le_total c.len src.length with h | h
    · rw [Nat.min_eq_right h]
    · rw [Nat.min_eq_left h, List.drop_length, List.drop_eq_nil_of_le h]
  · simp only [drain, hused, List.drop_eq_nil_iff]
    omega
  · simp only [drain, hused, position, Prod.mk.injEq, true_and]
    omega

/-- With the buffer used up, whole blocks continue the keystream. -/
theorem block_continues {src : Bytes} {n : Nat} (hlen : c.len = 0)
    (h : src.length = chachaBlockSize * n) :
    c.Continues src (c.block src).1 (c.block src).2 := by
  obtain ⟨hout, hcounter, hkey, hnonce, hbuf, hlen'⟩ := c.block_eq h
  have hunread : c.unread = [] := List.length_eq_zero_iff.mp (c.length_unread.trans hlen)
  have hunread' : (c.block src).2.unread = [] := by
    rw [unread, hbuf, hlen', ← unread, hunread]
  constructor
  · rw [hout, keystream, hunread, Stream'.nil_append_stream]
  · rw [keystream, keystream, hunread, hunread', Stream'.nil_append_stream,
      Stream'.nil_append_stream, h, drop_blockStream_blocks, hcounter, hkey, hnonce]

/-- With the buffer used up, the last short piece continues the keystream. -/
theorem lastBlock_continues {src : Bytes} (hlen : c.len = 0)
    (h : 0 < src.length ∧ src.length < chachaBlockSize) :
    c.Continues src (c.lastBlock src h).1 (c.lastBlock src h).2 ∧
      (c.lastBlock src h).2.position = (c.counter + 1, chachaBlockSize - src.length) := by
  have hunread : c.unread = [] := List.length_eq_zero_iff.mp (c.length_unread.trans hlen)
  have hstream : c.keystream = blockStream c.key c.nonce c.counter := by
    rw [keystream, hunread, Stream'.nil_append_stream]
  have hpadded : (src ++ List.replicate (chachaBlockSize - src.length) 0).length =
      chachaBlockSize * 1 := by
    rw [List.length_append, List.length_replicate]
    omega
  obtain ⟨hout, hcounter, hkey, hnonce, -, -⟩ := c.block_eq hpadded
  rw [← hstream, xorWith_append, xorWith_replicate_zero] at hout
  refine ⟨⟨?_, ?_⟩, by simp only [lastBlock, position, hcounter]; rfl⟩
  · simp only [lastBlock]
    rw [hout, List.take_left' (length_xorWith _ _)]
  · have hunread' : (c.lastBlock src h).2.unread =
        (c.keystream.drop src.length).take (chachaBlockSize - src.length) := by
      simp only [lastBlock, unread]
      rw [hout, List.drop_left']
      rw [length_xorWith]
      omega
    have hblock : blockStream (c.lastBlock src h).2.key (c.lastBlock src h).2.nonce
        (c.lastBlock src h).2.counter =
        (c.keystream.drop src.length).drop (chachaBlockSize - src.length) := by
      simp only [lastBlock]
      rw [hkey, hnonce, hcounter, ← drop_blockStream_blocks, ← hstream, Stream'.drop_drop]
      congr 1
      omega
    rw [keystream, hunread', hblock, Stream'.append_take_drop]

/-- With the buffer used up, the whole blocks of the input continue the keystream. -/
theorem wholeBlocks_continues (hlen : c.len = 0) (src : Bytes) :
    c.Continues (src.take (src.length - src.length % chachaBlockSize)) (c.wholeBlocks src).1
        (c.wholeBlocks src).2 ∧
      (c.wholeBlocks src).2.position =
        (c.counter + UInt32.ofNat (src.length / chachaBlockSize), 0) := by
  have hfull : src.length - src.length % chachaBlockSize =
      chachaBlockSize * (src.length / chachaBlockSize) := by
    have hdiv := Nat.div_add_mod src.length chachaBlockSize
    omega
  unfold wholeBlocks
  simp only
  split
  · have hlength : (src.take (src.length - src.length % chachaBlockSize)).length =
        chachaBlockSize * (src.length / chachaBlockSize) := by
      rw [List.length_take, ← hfull]
      omega
    obtain ⟨-, hcounter, -, -, -, hlen'⟩ := c.block_eq hlength
    exact ⟨block_continues hlen hlength, by rw [position, hcounter, hlen', hlen]⟩
  · rename_i hnone
    rw [Nat.not_lt, Nat.le_zero] at hnone
    have hblocks : src.length / chachaBlockSize = 0 := by
      rw [hnone] at hfull
      exact (Nat.mul_eq_zero.mp hfull.symm).resolve_left (by decide)
    rw [hnone, hblocks, List.take_zero]
    exact ⟨Continues.refl, by simp [position, hlen]⟩

/-- The position `n` bytes further on. -/
def advance (pos : UInt32 × Nat) (n : Nat) : UInt32 × Nat :=
  if n ≤ pos.2 then (pos.1, pos.2 - n)
  else
    let blocks := (n - pos.2) / chachaBlockSize
    let rest := (n - pos.2) % chachaBlockSize
    if rest = 0 then (pos.1 + UInt32.ofNat blocks, 0)
    else (pos.1 + UInt32.ofNat blocks + 1, chachaBlockSize - rest)

/-- Using up the buffer first is part of the way. -/
theorem advance_drained (counter : UInt32) {len n : Nat} (h : len ≤ n) :
    advance (counter, 0) (n - len) = advance (counter, len) n := by
  unfold advance
  by_cases heq : n = len
  · simp [heq]
  · have hmore : ¬ n - len ≤ 0 := by omega
    have hmore' : ¬ n ≤ len := by omega
    simp only [Nat.sub_zero, if_neg hmore, if_neg hmore']

/-- With the buffer used up, any input continues the keystream and moves the position by its
length. -/
theorem xorFresh_continues (hlen : c.len = 0) (src : Bytes) :
    c.Continues src (c.xorFresh src).1 (c.xorFresh src).2 ∧
      (c.xorFresh src).2.position = advance c.position src.length := by
  obtain ⟨hbody, hposition⟩ := wholeBlocks_continues hlen src
  have hlen' : (c.wholeBlocks src).2.len = 0 := congrArg Prod.snd hposition
  have hmod := Nat.mod_lt src.length (show 0 < chachaBlockSize by decide)
  have hle := Nat.mod_le src.length chachaBlockSize
  have hrest : (src.drop (src.length - src.length % chachaBlockSize)).length =
      src.length % chachaBlockSize := by
    rw [List.length_drop]
    omega
  unfold xorFresh
  simp only
  split
  · rename_i h
    obtain ⟨hlast, hposition'⟩ := lastBlock_continues hlen' h
    have hall := hbody.trans hlast
    rw [List.take_append_drop] at hall
    refine ⟨hall, ?_⟩
    have hne : src.length % chachaBlockSize ≠ 0 := by
      rw [← hrest]
      exact Nat.ne_of_gt h.1
    have hpos : ¬ src.length ≤ 0 := by omega
    have hcounter : (c.wholeBlocks src).2.counter = _ := congrArg Prod.fst hposition
    rw [hposition', hrest, hcounter]
    simp only [advance, position, hlen, Nat.sub_zero, if_neg hne, if_neg hpos]
  · rename_i h
    rw [hrest] at h
    have hzero : src.length % chachaBlockSize = 0 := by omega
    rw [hzero, Nat.sub_zero, List.take_length] at hbody
    refine ⟨hbody, ?_⟩
    rw [hposition, advance, position]
    simp only [hlen]
    split
    · rename_i hempty
      rw [Nat.le_zero.mp hempty]
      simp
    · rw [Nat.sub_zero, if_pos hzero]

/-- With nothing left to do, nothing changes. -/
theorem xorFresh_nil : c.xorFresh [] = ([], c) := by
  simp [xorFresh, wholeBlocks]

/-- `XORKeyStream` continues the keystream, whatever the length of its input, and moves the
position by that length. -/
theorem xorKeyStream_spec (c : Chacha4) (src : Bytes) :
    c.Continues src (c.xorKeyStream src).1 (c.xorKeyStream src).2 ∧
      (c.xorKeyStream src).2.position = advance c.position src.length := by
  unfold xorKeyStream
  split
  · obtain ⟨hrest, hdone, hposition⟩ := drain_done src
    have hhead := @drain_continues c src
    show c.Continues src ((c.drain src).1 ++ ((c.drain src).2.2.xorFresh (c.drain src).2.1).1)
      ((c.drain src).2.2.xorFresh (c.drain src).2.1).2 ∧
      ((c.drain src).2.2.xorFresh (c.drain src).2.1).2.position = _
    rcases hdone with hempty | hlen
    · have hle : src.length ≤ c.len := by
        rw [hrest, List.drop_eq_nil_iff] at hempty
        exact hempty
      rw [List.take_of_length_le hle] at hhead
      rw [hempty, xorFresh_nil, List.append_nil]
      exact ⟨hhead, by rw [hposition, advance, position, if_pos hle]⟩
    · obtain ⟨htail, hposition'⟩ := xorFresh_continues hlen (c.drain src).2.1
      have hall := hhead.trans htail
      rw [hrest] at hall hposition' ⊢
      rw [List.take_append_drop] at hall
      refine ⟨hall, ?_⟩
      have hzero : c.len - src.length = 0 := (congrArg Prod.snd hposition).symm.trans hlen
      rw [hposition', hposition, hzero, List.length_drop]
      exact advance_drained c.counter (Nat.sub_eq_zero_iff_le.mp hzero)
  · rename_i hlen
    exact xorFresh_continues (not_not.mp hlen) src

end Chacha4

end Dualnet.Cipher
