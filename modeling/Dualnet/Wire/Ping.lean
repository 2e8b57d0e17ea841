import Dualnet.Wire.Framing

/-!
# Healthcheck pings

`wire/ping.go`. A ping is an IPv4 packet of an unused protocol with a nonce behind its header.
It is recognised by its length, its version and its protocol alone.
-/

namespace Dualnet.Wire

/-- `pingProto`. -/
def pingProto : UInt8 := 253

/-- `pingLen`. -/
def pingLen : Nat := 28

/-- `EncodePing`. -/
def encodePing (nonce : UInt64) : Bytes :=
  [0x45, 0] ++ putUint16 (UInt16.ofNat pingLen) ++ [0, 0, 0, 0, 64, pingProto] ++
    List.replicate 10 0 ++ putUint64 nonce

/-- `IsPing`. -/
def isPing (pkt : Bytes) : Bool :=
  pingLen ≤ pkt.length && ipVersion pkt == 4 && pkt.getD 9 0 == pingProto

/-- A ping is recognised as one. -/
theorem isPing_encodePing (nonce : UInt64) : isPing (encodePing nonce) = true := by
  simp [isPing, encodePing, putUint16, putUint64, ipVersion, pingLen]

end Dualnet.Wire
