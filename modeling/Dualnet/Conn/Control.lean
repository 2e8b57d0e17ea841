import Dualnet.Wire.Envelope

/-!
# Authenticated control messages

`conn/control.go` and `conn/auth.go`: the control datagram of the UDP and TCP carriers and the
header tokens of the HTTP carrier. The keyed tag of package `wire` is an arbitrary function of
the message, one for each key.
-/

namespace Dualnet.Conn

open Wire

/-- `wire.Tag` under a connection's key. -/
abbrev Mac := Bytes → Vector UInt8 8

/-! ## The message types of package `proto` -/

def msgData : UInt8 := 0x03

def msgAssignID : UInt8 := 0x05

/-! ## Control datagrams -/

/-- `controlLen`. -/
def controlLen : Nat := 22

/-- The fields of a control datagram. -/
structure Control where
  typ : UInt8
  id : Owner
  flags : UInt8
  ts : UInt64
  deriving DecidableEq

/-- What the tag covers. -/
def Control.body (c : Control) : Bytes := c.typ :: c.id.bytes ++ c.flags :: putUint64 c.ts

/-- `encodeControl`. -/
def encodeControl (tag : Mac) (c : Control) : Bytes := c.body ++ (tag c.body).toList

/-- `decodeControl`. -/
def decodeControl (tag : Mac) (data : Bytes) : Except String Control :=
  if data.length ≠ controlLen then .error "conn: malformed control datagram"
  else
    let body := data.take (data.length - 8)
    if (tag body).toList ≠ data.drop (data.length - 8) then
      .error "conn: malformed control datagram"
    else .ok ⟨body.getD 0 0, Owner.ofBytes ((body.drop 1).take 4), body.getD 5 0,
      uint64 (body.drop 6)⟩

/-- A datagram built under the key is accepted under it and reads back. -/
theorem decodeControl_encodeControl (tag : Mac) (c : Control) :
    decodeControl tag (encodeControl tag c) = .ok c := by
  have hbody : c.body.length = 14 := by simp [Control.body, Owner.bytes, putUint64]
  have hlength : (encodeControl tag c).length = controlLen := by
    simp [encodeControl, hbody, controlLen]
  have hcut : (encodeControl tag c).length - 8 = 14 := by rw [hlength]; rfl
  have htake : (encodeControl tag c).take ((encodeControl tag c).length - 8) = c.body := by
    rw [hcut, encodeControl, List.take_left' hbody]
  have hdrop : (encodeControl tag c).drop ((encodeControl tag c).length - 8) =
      (tag c.body).toList := by
    rw [hcut, encodeControl, List.drop_left' hbody]
  rw [decodeControl, if_neg (not_not.mpr hlength)]
  simp only [htake, hdrop, ne_eq, not_true_eq_false, if_false]
  have hstamp : uint64 (c.body.drop 6) = c.ts := by
    simp [Control.body, Owner.bytes]
  rw [hstamp]
  simp [Control.body, Owner.bytes, Owner.ofBytes]

/-! ## Header tokens -/

/-- The value of a hexadecimal digit. -/
def fromHexChar (c : Char) : Option Nat :=
  if '0' ≤ c ∧ c ≤ '9' then some (c.toNat - '0'.toNat)
  else if 'a' ≤ c ∧ c ≤ 'f' then some (c.toNat - 'a'.toNat + 10)
  else if 'A' ≤ c ∧ c ≤ 'F' then some (c.toNat - 'A'.toNat + 10)
  else none

/-- `hex.DecodeString`. -/
def hexDecode : List Char → Option Bytes
  | [] => some []
  | [_] => none
  | hi :: lo :: rest => do
    let hi ← fromHexChar hi
    let lo ← fromHexChar lo
    let bs ← hexDecode rest
    some (UInt8.ofNat (hi * 16 + lo) :: bs)

/-- The bytes of an ASCII string. -/
def ascii (s : String) : Bytes := s.toList.map fun c => UInt8.ofNat c.toNat

/-- `authDomainAssign`. -/
def authDomainAssign : String := "dn-http-id"

/-- `authTokenLen`. -/
def authTokenLen : Nat := 16

/-- `authMsg`. -/
def authMsg (domain : String) (id : Owner) (ts : UInt64) : Bytes :=
  ascii domain ++ id.bytes ++ putUint64 ts

/-- `verifyAuthToken`: the stamp of a token that authenticates the id in the domain. -/
def verifyAuthToken (tag : Mac) (domain : String) (id : Owner) (hexTok : String) :
    Option UInt64 := do
  let raw ← hexDecode hexTok.toList
  if raw.length ≠ authTokenLen then none
  else
    let ts := uint64 (raw.take 8)
    if (tag (authMsg domain id ts)).toList ≠ raw.drop 8 then none else some ts

/-- `parseOwnerHex`: the zero owner on any error. -/
def parseOwnerHex (s : String) : Owner :=
  match hexDecode s.toList with
  | some bs => if bs.length ≠ 4 then Owner.zero else Owner.ofBytes bs
  | none => Owner.zero

end Dualnet.Conn
