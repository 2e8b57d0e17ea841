import Dualnet.Netip

/-!
# The routing envelope and the inner packet

Packages `wire/envelope.go` and `wire/ip.go`. Between nodes a packet travels with a routing
owner and a processed flag; the only things a node reads from the inner packet are its
addresses.
-/

namespace Dualnet.Wire

/-- A byte string. -/
abbrev Bytes := List UInt8

/-- A 4-byte routing identity. -/
structure Owner where
  b0 : UInt8
  b1 : UInt8
  b2 : UInt8
  b3 : UInt8
  deriving DecidableEq

/-- The unassigned id. -/
def Owner.zero : Owner := ⟨0, 0, 0, 0⟩

/-- Whether the owner is the unassigned id. -/
def Owner.isZero (o : Owner) : Bool := o == Owner.zero

/-- `isZero` decides equality with the unassigned id. -/
@[simp] theorem Owner.isZero_eq_true {o : Owner} : o.isZero = true ↔ o = Owner.zero := by
  simp [Owner.isZero]

/-- The other answer of `isZero`. -/
@[simp] theorem Owner.isZero_eq_false {o : Owner} : o.isZero = false ↔ o ≠ Owner.zero := by
  simp [Owner.isZero]

/-- The bytes of an owner. -/
def Owner.bytes (o : Owner) : Bytes := [o.b0, o.b1, o.b2, o.b3]

/-- `copy(o[:], bs)` into a zero owner. -/
def Owner.ofBytes (bs : Bytes) : Owner := ⟨bs.getD 0 0, bs.getD 1 0, bs.getD 2 0, bs.getD 3 0⟩

/-- An owner reads back. -/
@[simp] theorem Owner.ofBytes_bytes (o : Owner) : Owner.ofBytes o.bytes = o := rfl

/-- Per-packet routing metadata. -/
structure Envelope where
  owner : Owner
  processed : Bool
  deriving DecidableEq

/-- `EnvelopeLen`. -/
def envelopeLen : Nat := 5

/-- The flags byte. -/
def Envelope.flags (e : Envelope) : UInt8 := if e.processed then 1 else 0

/-- `PutEnvelope`. -/
def putEnvelope (e : Envelope) (inner : Bytes) : Bytes := e.owner.bytes ++ e.flags :: inner

/-- `ParseEnvelope`: the envelope and the inner packet of a blob that is long enough. -/
def parseEnvelope (blob : Bytes) : Option (Envelope × Bytes) :=
  if blob.length < envelopeLen then none
  else some (⟨Owner.ofBytes (blob.take 4), blob.getD 4 0 &&& 1 != 0⟩, blob.drop envelopeLen)

/-- A packet reads back with its envelope. -/
theorem parseEnvelope_putEnvelope (e : Envelope) (inner : Bytes) :
    parseEnvelope (putEnvelope e inner) = some (e, inner) := by
  obtain ⟨owner, processed⟩ := e
  cases processed <;> simp [parseEnvelope, putEnvelope, Owner.bytes, Owner.ofBytes, Envelope.flags,
    envelopeLen]

/-- The big-endian value of a byte string. -/
def beNat (bs : Bytes) : Nat := bs.foldl (fun acc b => acc * 256 + b.toNat) 0

/-- `binary.BigEndian.AppendUint64`: the bytes of a 64-bit number, most significant first. -/
def putUint64 (n : UInt64) : Bytes :=
  [7, 6, 5, 4, 3, 2, 1, 0].map fun i => UInt8.ofNat (n.toNat / 256 ^ i)

/-- `binary.BigEndian.Uint64`. -/
def uint64 (bs : Bytes) : UInt64 := UInt64.ofNat (beNat (bs.take 8))

/-- A stamp reads back. -/
@[simp] theorem uint64_putUint64 (n : UInt64) : uint64 (putUint64 n) = n := by
  have hlt : n.toNat < 256 ^ (7 + 1) := n.toNat_lt
  have hdigit : ∀ i, n.toNat / 256 ^ (i + 1) * 256 + n.toNat / 256 ^ i % 2 ^ 8 =
      n.toNat / 256 ^ i := by
    intro i
    rw [pow_succ, ← Nat.div_div_eq_div_mul]
    exact Nat.div_add_mod' _ _
  have htop := hdigit 7
  rw [Nat.div_eq_of_lt hlt] at htop
  apply UInt64.toNat_inj.mp
  simp only [uint64, putUint64, beNat, List.map_cons, List.map_nil, List.take_succ_cons,
    List.take_nil, List.foldl_cons, List.foldl_nil, UInt8.toNat_ofNat', UInt64.toNat_ofNat']
  rw [htop, hdigit 6, hdigit 5, hdigit 4, hdigit 3, hdigit 2, hdigit 1, hdigit 0, pow_zero,
    Nat.div_one]
  exact Nat.mod_eq_of_lt hlt

/-- The bytes of a stamp read back. -/
theorem putUint64_uint64 {bs : Bytes} (h : bs.length = 8) : putUint64 (uint64 bs) = bs := by
  obtain _ | ⟨a, _ | ⟨b, _ | ⟨c, _ | ⟨d, _ | ⟨e, _ | ⟨f, _ | ⟨g, _ | ⟨k, _ | _⟩⟩⟩⟩⟩⟩⟩⟩ := bs <;>
    simp at h
  have ha := a.toNat_lt
  have hb := b.toNat_lt
  have hc := c.toNat_lt
  have hd := d.toNat_lt
  have he := e.toNat_lt
  have hf := f.toNat_lt
  have hg := g.toNat_lt
  have hk := k.toNat_lt
  simp only [uint64, putUint64, beNat, List.map_cons, List.map_nil, List.take_succ_cons,
    List.take_nil, List.foldl_cons, List.foldl_nil, UInt64.toNat_ofNat', List.cons.injEq,
    ← UInt8.toNat_inj, UInt8.toNat_ofNat', and_true, Nat.reducePow]
  omega

/-- The IP version a packet announces in its first nibble. -/
def ipVersion (p : Bytes) : Nat := (p.headD 0).toNat / 16

/-- `PlausibleIP`: the packet could be an IPv4 or IPv6 packet. -/
def plausibleIP (p : Bytes) : Bool :=
  if p.length < 20 then false
  else if ipVersion p = 4 then 20 ≤ p.length
  else if ipVersion p = 6 then 40 ≤ p.length
  else false

/-- `SrcIP`: the source address of an IPv4 or IPv6 packet, if it can be parsed. -/
def srcIP (p : Bytes) : Option Netip.Addr :=
  if 20 ≤ p.length ∧ ipVersion p = 4 then
    some (.v4 (BitVec.ofNat 32 (beNat ((p.drop 12).take 4))))
  else if 40 ≤ p.length ∧ ipVersion p = 6 then
    some (.v6 (BitVec.ofNat 128 (beNat ((p.drop 8).take 16))) "")
  else none

/-- `DstIP`: the destination address of an IPv4 or IPv6 packet, if it can be parsed. -/
def dstIP (p : Bytes) : Option Netip.Addr :=
  if 20 ≤ p.length ∧ ipVersion p = 4 then
    some (.v4 (BitVec.ofNat 32 (beNat ((p.drop 16).take 4))))
  else if 40 ≤ p.length ∧ ipVersion p = 6 then
    some (.v6 (BitVec.ofNat 128 (beNat ((p.drop 24).take 16))) "")
  else none

end Dualnet.Wire
