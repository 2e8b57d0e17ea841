import Dualnet.Cipher.Plain

/-!
# The packet ciphers

The packet halves of `cipher/chacha4.go` and `cipher/none.go` on regions of a memory, so that
sealing in place and reusing a buffer are what they are in the source. The nonce of a datagram is
given. `sealed` is what a sealed body looks like; `Seal` and `SealInPlace` both write it, and `Open`
gives the body back.
-/

namespace Dualnet.Cipher

open Library Wire

/-- A packet cipher: the identity, or chacha4 with its key and head. -/
inductive PacketCipher where
  | none
  | chacha4 (key : Vector UInt8 32) (head : Int)

/-- A slice with nothing in it: where its array begins and how much it holds. -/
structure Room where
  base : Nat
  cap : Nat

/-- The room itself if it is large enough, else a new one of zeros. -/
def Room.fit (room : Room) (fresh need : Nat) (m : Memory UInt8) : Memory UInt8 × Room :=
  if room.cap < need then (m.write fresh (List.replicate need 0), ⟨fresh, need⟩) else (m, room)

/-- The room that is found is apart from the `len` bytes at `src`. -/
def Room.FitsApart (room : Room) (fresh need : Nat) (m : Memory UInt8) (src len : Nat) : Prop :=
  src + len ≤ (room.fit fresh need m).2.base ∨ (room.fit fresh need m).2.base + need ≤ src

/-- `obfsLen`: how many leading bytes of a body are XORed. -/
def obfsLen (head : Int) (n : Nat) : Nat := if 0 < head ∧ head < n then head.toNat else n

namespace PacketCipher

/-- `Overhead`. -/
def overhead : PacketCipher → Nat
  | .none => 0
  | .chacha4 _ _ => chachaNonceLen

/-- `Seal` of the `len` bytes at `src`, with the region it returns. -/
def sealInto (nonce : Vector UInt8 12) (m : Memory UInt8) (dst : Room) (fresh src len : Nat) :
    PacketCipher → Memory UInt8 × Nat × Nat
  | .none =>
    let (m, dst) := dst.fit fresh len m
    (m.write dst.base (m.read src len), dst.base, len)
  | .chacha4 key head =>
    let need := chachaNonceLen + len
    let (m, dst) := dst.fit fresh need m
    let m := m.write dst.base nonce.toList
    let n := obfsLen head len
    let c := newChacha4Cipher key (m.read dst.base chachaNonceLen)
    let m := (c.xorKeyStreamAt m (dst.base + chachaNonceLen) src n).1
    -- the clear tail
    (m.write (dst.base + chachaNonceLen + n) (m.read (src + n) (len - n)), dst.base, need)

/-- `SealInPlace` on the `len` bytes at `region`. -/
def sealInPlace (nonce : Vector UInt8 12) (m : Memory UInt8) (region len : Nat) :
    PacketCipher → Except String (Memory UInt8)
  | .none => .ok m
  | .chacha4 key head =>
    if len < chachaNonceLen then .error "unexpected EOF"
    else
      let m := m.write region nonce.toList
      let c := newChacha4Cipher key (m.read region chachaNonceLen)
      let body := region + chachaNonceLen
      let n := obfsLen head (len - chachaNonceLen)
      .ok (c.xorKeyStreamAt m body body n).1

/-- `Open` of the `len` bytes at `datagram`, with the region of the body it returns. -/
def openInPlace (m : Memory UInt8) (datagram len : Nat) :
    PacketCipher → Except String (Memory UInt8 × Nat × Nat)
  | .none => .ok (m, datagram, len)
  | .chacha4 key head =>
    if len < chachaNonceLen then .error "unexpected EOF"
    else
      let body := datagram + chachaNonceLen
      let n := obfsLen head (len - chachaNonceLen)
      let c := newChacha4Cipher key (m.read datagram chachaNonceLen)
      .ok ((c.xorKeyStreamAt m body body n).1, body, len - chachaNonceLen)

end PacketCipher

/-- A body with its head under the keystream; doing it twice gives the body back. -/
def obfuscated (key : Vector UInt8 32) (head : Int) (nonce : Vector UInt8 12) (body : Bytes) :
    Bytes :=
  let n := obfsLen head body.length
  xorWith (plainKeystream key nonce) (body.take n) ++ body.drop n

/-- What a sealed body looks like. -/
def PacketCipher.sealed (nonce : Vector UInt8 12) (body : Bytes) : PacketCipher → Bytes
  | .none => body
  | .chacha4 key head => nonce.toList ++ obfuscated key head nonce body

/-! ## Obfuscating a region -/

section Obfuscated

variable (key : Vector UInt8 32) (head : Int) (nonce : Vector UInt8 12)

/-- No more than there is. -/
theorem obfsLen_le (n : Nat) : obfsLen head n ≤ n := by
  unfold obfsLen
  split <;> omega

/-- The length stays. -/
@[simp] theorem length_obfuscated (body : Bytes) :
    (obfuscated key head nonce body).length = body.length := by
  have hle := obfsLen_le head body.length
  simp [obfuscated]
  omega

/-- Twice undoes it. -/
theorem obfuscated_obfuscated (body : Bytes) :
    obfuscated key head nonce (obfuscated key head nonce body) = body := by
  obtain ⟨n, hn⟩ : ∃ n, n = obfsLen head body.length := ⟨_, rfl⟩
  have hle : n ≤ body.length := hn ▸ obfsLen_le head body.length
  have hhead : (xorWith (plainKeystream key nonce) (body.take n)).length = n := by simp [hle]
  have honce : obfuscated key head nonce body =
      xorWith (plainKeystream key nonce) (body.take n) ++ body.drop n := by
    rw [obfuscated, ← hn]
  rw [obfuscated, length_obfuscated, ← hn, honce, List.take_left' hhead, List.drop_left' hhead,
    xorWith_xorWith, List.take_append_drop]

/-- A fresh cipher on regions. -/
theorem xorKeyStreamAt_new (m : Memory UInt8) {dst src n : Nat} (h : InPlace dst src n) :
    ((newChacha4Cipher key nonce.toList).xorKeyStreamAt m dst src n).1 =
      m.write dst (xorWith (plainKeystream key nonce) (m.read src n)) := by
  obtain ⟨⟨hout, -⟩, -⟩ :=
    Chacha4.xorKeyStream_spec (newChacha4Cipher key nonce.toList) (m.read src n)
  rw [Chacha4.xorKeyStreamAt_eq _ m h, hout, keystream_new]

/-- In place, the head of a region is put under the keystream and nothing else changes. -/
theorem xorKeyStreamAt_obfuscates (m : Memory UInt8) (a len : Nat) :
    ∃ m', ((newChacha4Cipher key nonce.toList).xorKeyStreamAt m a a (obfsLen head len)).1 = m' ∧
      m'.read a len = obfuscated key head nonce (m.read a len) ∧ ∀ i < a, m' i = m i := by
  refine ⟨_, rfl, ?_, ?_⟩
  · have hle := obfsLen_le head len
    rw [xorKeyStreamAt_new key nonce m (.refl a _), obfuscated, m.length_read, m.take_read a hle,
      m.drop_read a hle]
    have hlen : (xorWith (plainKeystream key nonce) (m.read a (obfsLen head len))).length =
        obfsLen head len := by simp
    have hread := m.read_write_add a (len - obfsLen head len)
      (xorWith (plainKeystream key nonce) (m.read a (obfsLen head len)))
    rwa [hlen, Nat.add_sub_of_le hle] at hread
  · intro i hi
    rw [xorKeyStreamAt_new key nonce m (.refl a _)]
    exact m.write_outside (.inl hi)

end Obfuscated

/-- The nonce just written is the one the cipher starts from. -/
theorem read_nonce (nonce : Vector UInt8 12) (m : Memory UInt8) (a : Nat) :
    (m.write a nonce.toList).read a chachaNonceLen = nonce.toList := by
  have hlen : nonce.toList.length = chachaNonceLen := nonce.length_toList
  rw [← hlen]
  exact m.read_write_same a _

namespace PacketCipher

/-- `SealInPlace` seals the body that stands behind the nonce and touches nothing before it. -/
theorem sealInPlace_eq (cipher : PacketCipher) (nonce : Vector UInt8 12) (m : Memory UInt8)
    (region : Nat) {body : Bytes} (h : m.read (region + cipher.overhead) body.length = body) :
    ∃ m', cipher.sealInPlace nonce m region (cipher.overhead + body.length) = .ok m' ∧
      m'.read region (cipher.overhead + body.length) = cipher.sealed nonce body ∧
      ∀ i < region, m' i = m i := by
  cases cipher with
  | none =>
    refine ⟨m, rfl, ?_, fun _ _ => rfl⟩
    rw [overhead, Nat.zero_add]
    exact h
  | chacha4 key head =>
    have hnonce : nonce.toList.length = chachaNonceLen := nonce.length_toList
    -- the body is still there behind the nonce
    have hbody : (m.write region nonce.toList).read (region + chachaNonceLen) body.length =
        body := by
      rw [m.read_write_apart (.inr (by omega))]
      exact h
    obtain ⟨m', hm', hread, hbelow⟩ := xorKeyStreamAt_obfuscates key head nonce
      (m.write region nonce.toList) (region + chachaNonceLen) body.length
    refine ⟨m', ?_, ?_, ?_⟩
    · have hroom : ¬ chachaNonceLen + body.length < chachaNonceLen := by omega
      simp only [sealInPlace, overhead, if_neg hroom, read_nonce, Nat.add_sub_cancel_left, hm']
    · rw [overhead, sealed, m'.read_add, hread, hbody,
        Memory.read_congr_below hbelow (Nat.le_refl _), read_nonce]
    · intro i hi
      rw [hbelow i (by omega), m.write_outside (.inl hi)]

/-- `Open` gives the body of a sealed datagram back. -/
theorem openInPlace_eq (cipher : PacketCipher) (nonce : Vector UInt8 12) (m : Memory UInt8)
    (datagram : Nat) {body : Bytes} (h : m.read datagram (cipher.overhead + body.length) =
      cipher.sealed nonce body) :
    ∃ m' a n, cipher.openInPlace m datagram (cipher.overhead + body.length) = .ok (m', a, n) ∧
      m'.read a n = body := by
  cases cipher with
  | none =>
    refine ⟨m, datagram, _, rfl, ?_⟩
    exact h
  | chacha4 key head =>
    have hnonce : nonce.toList.length = chachaNonceLen := nonce.length_toList
    rw [overhead, sealed, m.read_add] at h
    obtain ⟨hfirst, hrest⟩ := List.append_inj h (by rw [m.length_read, hnonce])
    obtain ⟨m', hm', hread, -⟩ := xorKeyStreamAt_obfuscates key head nonce m
      (datagram + chachaNonceLen) body.length
    refine ⟨m', datagram + chachaNonceLen, body.length, ?_, ?_⟩
    · have hroom : ¬ chachaNonceLen + body.length < chachaNonceLen := by omega
      simp only [openInPlace, overhead, if_neg hroom, hfirst, Nat.add_sub_cancel_left, hm']
    · rw [hread, hrest, obfuscated_obfuscated]

/-- The number of bytes a sealed body takes. -/
theorem length_sealed (cipher : PacketCipher) (nonce : Vector UInt8 12) (body : Bytes) :
    (cipher.sealed nonce body).length = cipher.overhead + body.length := by
  have hnonce : nonce.toList.length = chachaNonceLen := nonce.length_toList
  cases cipher with
  | none => exact (Nat.zero_add _).symm
  | chacha4 key head => simp [sealed, overhead, hnonce, -Vector.length_toList]

/-- Finding room leaves a region apart from it alone. -/
theorem read_fit (dst : Room) {fresh need src n : Nat} (m : Memory UInt8)
    (h : dst.FitsApart fresh need m src n) :
    (dst.fit fresh need m).1.read src n = m.read src n := by
  unfold Room.FitsApart Room.fit at h
  unfold Room.fit
  split at h
  · rename_i hsmall
    simp only [if_pos hsmall]
    exact m.read_write_apart (by simpa using h)
  · rename_i hlarge
    simp only [if_neg hlarge]

/-- The writes of `Seal`, one behind the other. -/
theorem write_sealed (key : Vector UInt8 32) (head : Int) (nonce : Vector UInt8 12)
    (m : Memory UInt8) {base src : Nat} {body : Bytes} (hbody : m.read src body.length = body)
    (happart : src + body.length ≤ base ∨ base + (chachaNonceLen + body.length) ≤ src) :
    let n := obfsLen head body.length
    let m₁ := m.write base nonce.toList
    let m₂ := ((newChacha4Cipher key (m₁.read base chachaNonceLen)).xorKeyStreamAt m₁
      (base + chachaNonceLen) src n).1
    m₂.write (base + chachaNonceLen + n) (m₂.read (src + n) (body.length - n)) =
      m.write base (nonce.toList ++ obfuscated key head nonce body) := by
  intro n m₁ m₂
  have hnonce : nonce.toList.length = chachaNonceLen := nonce.length_toList
  have hle : n ≤ body.length := obfsLen_le head body.length
  have hsrc : m₁.read src n = body.take n := by
    rw [m.read_write_apart (by omega), ← m.take_read src hle, hbody]
  have hplaced : InPlace (base + chachaNonceLen) src n := by
    unfold InPlace
    omega
  have hm₂ : m₂ = m₁.write (base + chachaNonceLen)
      (xorWith (plainKeystream key nonce) (body.take n)) := by
    simp only [m₂, m₁, read_nonce]
    rw [xorKeyStreamAt_new key nonce _ hplaced, hsrc]
  have hlen : (xorWith (plainKeystream key nonce) (body.take n)).length = n := by simp [hle]
  -- the tail was not written over
  have htail : m₂.read (src + n) (body.length - n) = body.drop n := by
    rw [hm₂, Memory.read_write_apart _ (by omega), m.read_write_apart (by omega),
      ← m.drop_read src hle, hbody]
  rw [htail, hm₂, obfuscated, Memory.write_append, Memory.write_append, hlen, hnonce]

/-- `Seal` writes the sealed body to a place apart from the body. -/
theorem sealInto_eq (cipher : PacketCipher) (nonce : Vector UInt8 12) (m : Memory UInt8)
    (dst : Room) (fresh src : Nat) {body : Bytes} (hbody : m.read src body.length = body)
    (happart : dst.FitsApart fresh (cipher.overhead + body.length) m src body.length) :
    ∃ m' a, cipher.sealInto nonce m dst fresh src body.length =
        (m', a, cipher.overhead + body.length) ∧
      m'.read a (cipher.overhead + body.length) = cipher.sealed nonce body := by
  have hfit := read_fit dst m happart
  rw [hbody] at hfit
  suffices hwrite : cipher.sealInto nonce m dst fresh src body.length =
      ((dst.fit fresh (cipher.overhead + body.length) m).1.write
          (dst.fit fresh (cipher.overhead + body.length) m).2.base (cipher.sealed nonce body),
        (dst.fit fresh (cipher.overhead + body.length) m).2.base,
        cipher.overhead + body.length) by
    refine ⟨_, _, hwrite, ?_⟩
    rw [← cipher.length_sealed nonce body]
    exact Memory.read_write_same _ _ _
  cases cipher with
  | none =>
    rw [overhead, Nat.zero_add] at hfit ⊢
    simp only [sealInto, sealed, hfit]
  | chacha4 key head =>
    have hnonce : nonce.toList.length = chachaNonceLen := nonce.length_toList
    rw [overhead] at hfit happart ⊢
    simp only [sealInto]
    rw [write_sealed key head nonce _ hfit happart]
    rfl

end PacketCipher

end Dualnet.Cipher
