import Dualnet.Library.Bits
import Dualnet.Netip

/-!
# Destinations the egress dials

`addrPort` and `blockedDst` of `egress/netstack.go`, with the predicates of Go's `net/netip` they
use. The destination of a flow comes from the inner IP header as bytes; IPv4, IPv6 and IPv4-mapped
addresses all reach the filter, which looks at the unmapped address.

`blockedDst_iff` says that the filter refuses the loopback, unspecified, link-local and multicast
ranges and nothing else.
-/

namespace Dualnet.Egress

open Library Netip

/-! ## Predicates of `netip.Addr` -/

/-- `Addr.v6u16(0)`: the first group of an IPv6 address. -/
def group0 (a : BitVec 128) : Nat := a.toNat / 2 ^ 112

/-- `Addr.IsLoopback`. -/
def isLoopback : Addr → Bool
  | .v4 a => octet a 3 == 127
  | .v6 a _ => a == 1

/-- `Addr.IsUnspecified`. -/
def isUnspecified (ip : Addr) : Bool := ip == .v4 0 || ip == .v6 0 ""

/-- `Addr.IsLinkLocalUnicast`. -/
def isLinkLocalUnicast : Addr → Bool
  | .v4 a => octet a 3 == 169 && octet a 2 == 254
  | .v6 a _ => group0 a &&& 0xffc0 == 0xfe80

/-- `Addr.IsLinkLocalMulticast`. -/
def isLinkLocalMulticast : Addr → Bool
  | .v4 a => octet a 3 == 224 && octet a 2 == 0 && octet a 1 == 0
  | .v6 a _ => group0 a &&& 0xff0f == 0xff02

/-- `Addr.IsMulticast`. -/
def isMulticast : Addr → Bool
  | .v4 a => octet a 3 &&& 0xf0 == 0xe0
  | .v6 a _ => a.toNat / 2 ^ 120 == 0xff

/-- `Addr.IsInterfaceLocalMulticast`. -/
def isInterfaceLocalMulticast : Addr → Bool
  | .v4 _ => false
  | .v6 a _ => group0 a &&& 0xff0f == 0xff01

/-- The number with the given bytes, most significant first. -/
def ofBytes (bytes : List UInt8) : Nat := bytes.foldl (fun n b => n * 256 + b.toNat) 0

/-- `netip.AddrFromSlice`. -/
def addrFromSlice (bytes : List UInt8) : Option Addr :=
  if bytes.length = 4 then some (.v4 (BitVec.ofNat 32 (ofBytes bytes)))
  else if bytes.length = 16 then some (.v6 (BitVec.ofNat 128 (ofBytes bytes)) "")
  else none

/-! ## The filter -/

/-- A `netip.AddrPort` with a valid address. -/
structure AddrPort where
  addr : Addr
  port : UInt16
  deriving DecidableEq

/-- `blockedDst`; `none` is the zero `netip.Addr`. -/
def blockedDst (a : Option Addr) : Bool :=
  match a.map Addr.unmap with
  | none => true
  | some a =>
    isLoopback a || isUnspecified a || isLinkLocalUnicast a || isLinkLocalMulticast a ||
      isMulticast a || isInterfaceLocalMulticast a

/-- `addrPort`. -/
def addrPort (a : List UInt8) (port : UInt16) : Option AddrPort :=
  (addrFromSlice a).map fun ip => ⟨ip.unmap, port⟩

/-! ## The ranges -/

/-- 127.0.0.0/8 and ::1/128, 0.0.0.0/32 and ::/128, 169.254.0.0/16 and fe80::/10, 224.0.0.0/4 and
ff00::/8. -/
def forbidden : List Netip.Prefix :=
  [⟨.v4 (ofOctets 127 0 0 0), 8, by decide⟩, .host (.v6 1 ""), .host (.v4 0), .host (.v6 0 ""),
    ⟨.v4 (ofOctets 169 254 0 0), 16, by decide⟩,
    ⟨.v6 (BitVec.ofNat 128 (0xfe80 * 2 ^ 112)) "", 10, by decide⟩,
    ⟨.v4 (ofOctets 224 0 0 0), 4, by decide⟩,
    ⟨.v6 (BitVec.ofNat 128 (0xff00 * 2 ^ 112)) "", 8, by decide⟩]

/-- A destination that may be dialed: an unmapped address, without zone, in none of the ranges. -/
structure Allowed (ip : Addr) : Prop where
  unmapped : ip.unmap = ip
  zone : ∀ a zone, ip = .v6 a zone → zone = ""
  outside : ∀ p ∈ forbidden, p.contains ip = false

/-- Unmapping twice. -/
theorem unmap_unmap (ip : Addr) : ip.unmap.unmap = ip.unmap := by
  cases ip with
  | v4 a => rfl
  | v6 a zone =>
    by_cases hmapped : a.toNat / 2 ^ 32 = 0xffff
    · simp only [Addr.unmap, if_pos hmapped]
    · simp only [Addr.unmap, if_neg hmapped]

/-- An octet is a byte. -/
theorem octet_lt (a : BitVec 32) (i : Nat) : octet a i < 256 := Nat.mod_lt _ (by decide)

/-- A group has 16 bits. -/
theorem group0_lt (a : BitVec 128) : group0 a < 2 ^ 16 := by
  have := a.isLt
  unfold group0
  omega

/-- Of an IPv4 address, the link-local multicast range is part of the multicast range. -/
theorem blocked_v4 (a : BitVec 32) :
    blockedDst (some (.v4 a)) = forbidden.any fun p => p.contains (.v4 a) := by
  have hlt := a.isLt
  have hmulticast : octet a 3 &&& 0xf0 = 0xe0 ↔ octet a 3 / 2 ^ 4 = 14 :=
    and_mask_eq_iff (k := 4) (n := 4) (v := 14) (octet_lt a 3)
  rw [Bool.eq_iff_iff]
  simp only [blockedDst, Option.map_some, Addr.unmap, isLoopback, isUnspecified,
    isLinkLocalUnicast, isLinkLocalMulticast, isMulticast, isInterfaceLocalMulticast,
    Bool.or_eq_true, Bool.and_eq_true, beq_iff_eq, hmulticast, forbidden, List.any_cons,
    List.any_nil, Netip.Prefix.contains, Netip.Prefix.host, Bool.or_false, Addr.v4.injEq,
    reduceCtorEq, or_false, Bool.false_eq_true, false_or, ← BitVec.toNat_inj,
    BitVec.toNat_ushiftRight, Nat.shiftRight_eq_div_pow, ofOctets, BitVec.toNat_ofNat]
  unfold octet
  omega

/-- Of an IPv6 address, the masks of the two narrower multicast ranges fix the first byte. -/
theorem blocked_v6 {a : BitVec 128} (hplain : a.toNat / 2 ^ 32 ≠ 0xffff) :
    blockedDst (some (.v6 a "")) = forbidden.any fun p => p.contains (.v6 a "") := by
  have hlt := a.isLt
  have hgroup := group0_lt a
  have hlinkLocal : group0 a &&& 0xffc0 = 0xfe80 ↔ group0 a / 2 ^ 6 = 1018 :=
    and_mask_eq_iff (k := 6) (n := 10) (v := 1018) hgroup
  have hnarrow : ∀ v, v &&& 0xff00 = 0xff00 → group0 a &&& 0xff0f = v →
      group0 a / 2 ^ 8 = 0xff := by
    intro v hv heq
    refine (and_mask_eq_iff (k := 8) (n := 8) hgroup).mp ?_
    calc group0 a &&& 0xff00
        = group0 a &&& (0xff0f &&& 0xff00) := rfl
      _ = group0 a &&& 0xff0f &&& 0xff00 := (Nat.and_assoc ..).symm
      _ = 0xff00 := by rw [heq, hv]
  have hlink := hnarrow 0xff02 (by decide)
  have hinterface := hnarrow 0xff01 (by decide)
  rw [Bool.eq_iff_iff]
  simp only [blockedDst, Option.map_some, Addr.unmap, if_neg hplain, isLoopback, isUnspecified,
    isLinkLocalUnicast, isLinkLocalMulticast, isMulticast, isInterfaceLocalMulticast,
    Bool.or_eq_true, Bool.and_eq_true, beq_iff_eq, hlinkLocal, forbidden, List.any_cons,
    List.any_nil, Netip.Prefix.contains, Netip.Prefix.host, Bool.or_false, Addr.v6.injEq,
    reduceCtorEq, Bool.false_eq_true, false_or, ← BitVec.toNat_inj, BitVec.toNat_ushiftRight,
    and_true, true_and, Nat.shiftRight_eq_div_pow, BitVec.toNat_ofNat]
  unfold group0 at hlink hinterface ⊢
  omega

/-- The filter lets exactly the allowed destinations pass. -/
theorem blockedDst_iff {a : List UInt8} {port : UInt16} {dst : AddrPort}
    (h : addrPort a port = some dst) : blockedDst (some dst.addr) = false ↔ Allowed dst.addr := by
  obtain ⟨ip, hip, rfl⟩ := Option.map_eq_some_iff.mp h
  have hzone : ∀ b zone, ip = .v6 b zone → zone = "" := by
    rintro b zone rfl
    unfold addrFromSlice at hip
    split at hip
    · cases hip
    split at hip
    · cases hip
      rfl
    · cases hip
  have hranges : blockedDst (some ip.unmap) = forbidden.any fun p => p.contains ip.unmap := by
    cases ip with
    | v4 b => exact blocked_v4 b
    | v6 b zone =>
      obtain rfl := hzone b zone rfl
      by_cases hmapped : b.toNat / 2 ^ 32 = 0xffff
      · simpa only [Addr.unmap, if_pos hmapped] using blocked_v4 _
      · simpa only [Addr.unmap, if_neg hmapped] using blocked_v6 hmapped
  have hzone' : ∀ b zone, ip.unmap = .v6 b zone → zone = "" := by
    intro b zone heq
    cases ip with
    | v4 c => cases heq
    | v6 c zone' =>
      unfold Addr.unmap at heq
      dsimp only at heq
      split at heq
      · cases heq
      · cases heq
        exact hzone b zone rfl
  dsimp only
  rw [hranges, List.any_eq_false]
  constructor
  · intro hout
    exact ⟨unmap_unmap ip, hzone', fun p hp => by simpa using hout p hp⟩
  · intro hallowed p hp
    simpa using hallowed.outside p hp

end Dualnet.Egress
