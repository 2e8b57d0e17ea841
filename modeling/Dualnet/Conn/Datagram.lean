import Dualnet.Cipher.Packet
import Dualnet.Conn.Assignment

/-!
# The datagram carrier

The data path of `conn/udp.go`: `udpConnectOut.Send` to `udpListenIn.deliver`, and
`udpListenOut.Send` to `udpConnectIn.handleDatagram`. Both senders build the datagram in a buffer
that was used before and seal it in place; the receivers open it where it was received.

`datagram_round_trip` is the result: what arrives is the envelope and the payload sent, if the
payload could be an IP packet, whatever the buffers held before.
-/

namespace Dualnet.Conn

open Cipher Library Wire

/-! ## Sending -/

/-- `PutEnvelope` into the room from index `i` on. Where the capacity does not suffice, `append`
writes to another array. -/
def putEnvelopeAt (m : Memory UInt8) (room : Room) (i : Nat) (e : Envelope) (payload : Bytes) :
    Memory UInt8 :=
  if room.cap < i + (envelopeLen + payload.length) then m
  else m.write (room.base + i) (putEnvelope e payload)

/-- What both senders do: make the buffer fit, put in the leading bytes and the packet, and seal all
behind the leading bytes. -/
def buildDatagram (cipher : PacketCipher) (nonce : Vector UInt8 12) (lead : Bytes)
    (m : Memory UInt8) (buf : Room) (fresh : Nat) (e : Envelope) (payload : Bytes) :
    Memory UInt8 × Room × Except String Bytes :=
  let hdr := lead.length + cipher.overhead
  let need := hdr + envelopeLen + payload.length
  let (m, buf) := buf.fit fresh need m
  let m := m.write buf.base lead
  let m := putEnvelopeAt m buf hdr e payload
  match cipher.sealInPlace nonce m (buf.base + lead.length) (need - lead.length) with
  | .error err => (m, buf, .error err)
  | .ok m => (m, buf, .ok (m.read buf.base need))

/-- A `udpConnectOut`: whether it has a socket, and its buffer in the memory. -/
structure UdpConnectOut where
  connected : Bool
  mem : Memory UInt8
  buf : Room

/-- `udpConnectOut.Send`, with the datagram that is written. `dialErr` and `writeErr` are the errors
of the dial, if there is one, and of the write. -/
def UdpConnectOut.send (cipher : PacketCipher) (nonce : Vector UInt8 12) (fresh : Nat)
    (dialErr writeErr : Option String) (c : UdpConnectOut) (e : Envelope) (payload : Bytes) :
    UdpConnectOut × Option Bytes × Option String :=
  if !c.connected && dialErr.isSome then (c, none, dialErr)
  else
    match buildDatagram cipher nonce [] c.mem c.buf fresh e payload with
    | (m, buf, .error err) => (⟨true, m, buf⟩, none, some err)
    | (m, buf, .ok datagram) => (⟨writeErr.isNone, m, buf⟩, some datagram, writeErr)

/-- `udpListenOut.Send` with a buffer of the pool: the datagram given to the sink of the peer, if
there is one, whether the packet is delivered, and the error. -/
def udpListenOutSend (cipher : PacketCipher) (nonce : Vector UInt8 12) (fresh : Nat)
    (sink : Option (Bytes → Option String)) (m : Memory UInt8) (buf : Room) (e : Envelope)
    (payload : Bytes) : Memory UInt8 × Room × Option Bytes × Bool × Option String :=
  match sink with
  | none => (m, buf, none, false, none)
  | some sink =>
    match buildDatagram cipher nonce [msgData] m buf fresh e payload with
    | (m, buf, .error err) => (m, buf, none, true, some err)
    | (m, buf, .ok datagram) => (m, buf, some datagram, true, sink datagram)

/-! ## Receiving -/

/-- `Open` of a datagram that was received into the memory at `a`. -/
def openReceived (cipher : PacketCipher) (m : Memory UInt8) (a : Nat) (datagram : Bytes) :
    Option Bytes :=
  match cipher.openInPlace (m.write a datagram) a datagram.length with
  | .error _ => none
  | .ok (m, body, n) => some (m.read body n)

/-- `udpListenIn.deliver`; `openBlob` is the cipher's `Open`. -/
def deliver (openBlob : Bytes → Option Bytes) (datagram : Bytes) : Effect :=
  match openBlob datagram with
  | none => .drop
  | some blob =>
    match parseEnvelope blob with
    | none => .drop
    | some (e, payload) => if plausibleIP payload then .ingress e payload else .drop

/-! ## The round trip -/

/-- The envelope comes before the payload. -/
theorem length_putEnvelope (e : Envelope) (payload : Bytes) :
    (putEnvelope e payload).length = envelopeLen + payload.length := by
  simp [putEnvelope, Owner.bytes, envelopeLen]
  omega

/-- There is room for it. -/
theorem le_cap_fit (room : Room) (fresh need : Nat) (m : Memory UInt8) :
    need ≤ (room.fit fresh need m).2.cap := by
  unfold Room.fit
  split <;> simp only <;> omega

/-- The datagram a sender builds, whatever its buffer held. -/
theorem buildDatagram_eq (cipher : PacketCipher) (nonce : Vector UInt8 12) (lead : Bytes)
    (m : Memory UInt8) (buf : Room) (fresh : Nat) (e : Envelope) (payload : Bytes) :
    ∃ m' buf', buildDatagram cipher nonce lead m buf fresh e payload =
      (m', buf', .ok (lead ++ cipher.sealed nonce (putEnvelope e payload))) := by
  have hblob := length_putEnvelope e payload
  have hcap := le_cap_fit buf fresh
    (lead.length + cipher.overhead + envelopeLen + payload.length) m
  unfold buildDatagram
  dsimp only
  generalize buf.fit fresh (lead.length + cipher.overhead + envelopeLen + payload.length) m =
    fitted at hcap ⊢
  obtain ⟨m₁, room⟩ := fitted
  dsimp only at hcap ⊢
  have hput : putEnvelopeAt (m₁.write room.base lead) room (lead.length + cipher.overhead) e
      payload = (m₁.write room.base lead).write (room.base + (lead.length + cipher.overhead))
        (putEnvelope e payload) := by
    rw [putEnvelopeAt, if_neg (by omega)]
  have hneed : lead.length + cipher.overhead + envelopeLen + payload.length - lead.length =
      cipher.overhead + (putEnvelope e payload).length := by omega
  rw [hput, hneed]
  generalize hm₂ : (m₁.write room.base lead).write (room.base + (lead.length + cipher.overhead))
    (putEnvelope e payload) = m₂
  have hbody : m₂.read (room.base + lead.length + cipher.overhead)
      (putEnvelope e payload).length = putEnvelope e payload := by
    rw [← hm₂, Nat.add_assoc]
    exact Memory.read_write_same _ _ _
  have hlead : m₂.read room.base lead.length = lead := by
    rw [← hm₂, Memory.read_write_apart _ (.inl (by omega))]
    exact m₁.read_write_same _ _
  obtain ⟨m₃, hseal, hread, hbelow⟩ := cipher.sealInPlace_eq nonce m₂ (room.base + lead.length)
    hbody
  refine ⟨m₃, room, ?_⟩
  rw [hseal]
  have hsplit : lead.length + cipher.overhead + envelopeLen + payload.length =
      lead.length + (cipher.overhead + (putEnvelope e payload).length) := by omega
  dsimp only
  rw [hsplit, m₃.read_add, hread, Memory.read_congr_below hbelow (Nat.le_refl _), hlead]

/-- A sealed body that was received is opened. -/
theorem openReceived_sealed (cipher : PacketCipher) (nonce : Vector UInt8 12) (m : Memory UInt8)
    (a : Nat) (body : Bytes) : openReceived cipher m a (cipher.sealed nonce body) = some body := by
  have hlen := cipher.length_sealed nonce body
  have hread : (m.write a (cipher.sealed nonce body)).read a (cipher.overhead + body.length) =
      cipher.sealed nonce body := by
    rw [← hlen]
    exact m.read_write_same a _
  obtain ⟨m', b, n, hopen, hbody⟩ := cipher.openInPlace_eq nonce _ a hread
  simp only [openReceived, hlen, hopen, hbody]

/-- What a receiver makes of the packet it opened. -/
def arrival (e : Envelope) (payload : Bytes) : Effect :=
  if plausibleIP payload then .ingress e payload else .drop

/-- A sealed datagram is delivered. -/
theorem deliver_sealed (cipher : PacketCipher) (nonce : Vector UInt8 12) (m : Memory UInt8)
    (a : Nat) (e : Envelope) (payload : Bytes) :
    deliver (openReceived cipher m a) (cipher.sealed nonce (putEnvelope e payload)) =
      arrival e payload := by
  simp only [deliver, openReceived_sealed, parseEnvelope_putEnvelope, arrival]

/-- So it is by the carrier. -/
theorem handleDatagram_sealed (tag : Mac) (cipher : PacketCipher) (nonce : Vector UInt8 12)
    (m : Memory UInt8) (a : Nat) (c : UdpConnectIn) (e : Envelope) (payload : Bytes) :
    c.handleDatagram tag (openReceived cipher m a)
      ([msgData] ++ cipher.sealed nonce (putEnvelope e payload)) = (c, arrival e payload) := by
  simp only [UdpConnectIn.handleDatagram, List.cons_append, List.nil_append, if_true,
    openReceived_sealed, parseEnvelope_putEnvelope, arrival]
  split <;> rfl

/-- The datagram carrier round trip, for both packet ciphers and every key, head and nonce.
`SealInPlace` on a body behind room for the nonce and `Seal` of the same body leave the same
datagram, and `Open` gives the body back. The datagram `udpConnectOut.Send` writes, delivered by
`udpListenIn`, and the one `udpListenOut.Send` writes, handled by `udpConnectIn`, yield the envelope
and the payload that were sent if the payload could be an IP packet and are dropped otherwise,
whatever the buffers of either end held. -/
theorem datagram_round_trip (cipher : PacketCipher) (nonce : Vector UInt8 12) :
    (∀ body, ∃ datagram,
      (∀ m region, m.read (region + cipher.overhead) body.length = body →
        ∃ m', cipher.sealInPlace nonce m region (cipher.overhead + body.length) = .ok m' ∧
          m'.read region (cipher.overhead + body.length) = datagram) ∧
      (∀ m dst fresh src, m.read src body.length = body →
        dst.FitsApart fresh (cipher.overhead + body.length) m src body.length →
        ∃ m' a, cipher.sealInto nonce m dst fresh src body.length =
            (m', a, cipher.overhead + body.length) ∧
          m'.read a (cipher.overhead + body.length) = datagram) ∧
      (∀ m a, m.read a (cipher.overhead + body.length) = datagram →
        ∃ m' b n, cipher.openInPlace m a (cipher.overhead + body.length) = .ok (m', b, n) ∧
          m'.read b n = body)) ∧
    (∀ fresh dialErr writeErr c e payload, c.connected = true ∨ dialErr = none →
      ∃ c' datagram, UdpConnectOut.send cipher nonce fresh dialErr writeErr c e payload =
          (c', some datagram, writeErr) ∧
        ∀ m a, deliver (openReceived cipher m a) datagram =
          if plausibleIP payload then .ingress e payload else .drop) ∧
    (∀ fresh sink m buf e payload,
      ∃ m' buf' datagram, udpListenOutSend cipher nonce fresh (some sink) m buf e payload =
          (m', buf', some datagram, true, sink datagram) ∧
        ∀ tag m a c, UdpConnectIn.handleDatagram tag (openReceived cipher m a) c datagram =
          (c, if plausibleIP payload then .ingress e payload else .drop)) := by
  refine ⟨fun body => ⟨cipher.sealed nonce body, ?_, ?_, ?_⟩, ?_, ?_⟩
  · intro m region h
    obtain ⟨m', hseal, hread, -⟩ := cipher.sealInPlace_eq nonce m region h
    exact ⟨m', hseal, hread⟩
  · intro m dst fresh src h happart
    exact cipher.sealInto_eq nonce m dst fresh src h happart
  · intro m a h
    exact cipher.openInPlace_eq nonce m a h
  · intro fresh dialErr writeErr c e payload hconn
    obtain ⟨m', buf', hbuild⟩ := buildDatagram_eq cipher nonce [] c.mem c.buf fresh e payload
    refine ⟨⟨writeErr.isNone, m', buf'⟩, cipher.sealed nonce (putEnvelope e payload), ?_,
      fun m a => deliver_sealed cipher nonce m a e payload⟩
    have hdial : (!c.connected && dialErr.isSome) = false := by
      rcases hconn with hconn | hdial
      · simp [hconn]
      · simp [hdial]
    rw [UdpConnectOut.send, hdial, hbuild]
    rfl
  · intro fresh sink m buf e payload
    obtain ⟨m', buf', hbuild⟩ := buildDatagram_eq cipher nonce [msgData] m buf fresh e payload
    refine ⟨m', buf', [msgData] ++ cipher.sealed nonce (putEnvelope e payload), ?_,
      fun tag m a c => handleDatagram_sealed tag cipher nonce m a c e payload⟩
    rw [udpListenOutSend, hbuild]

/-- A packet sent through a buffer that was full of other bytes and is larger than needed. -/
theorem datagram_round_trip_reused_buffer :
    ∃ c' datagram, UdpConnectOut.send (.chacha4 (Vector.replicate 32 7) 16) (Vector.replicate 12 9)
        100 none none ⟨true, fun _ => 0xff, ⟨0, 64⟩⟩ ⟨.zero, true⟩ (0x45 :: List.replicate 19 0) =
          (c', some datagram, none) ∧
      deliver (openReceived (.chacha4 (Vector.replicate 32 7) 16) (fun _ => 0xff) 3) datagram =
        .ingress ⟨.zero, true⟩ (0x45 :: List.replicate 19 0) := by
  obtain ⟨c', datagram, hsend, hdeliver⟩ :=
    (datagram_round_trip (.chacha4 (Vector.replicate 32 7) 16) (Vector.replicate 12 9)).2.1 100 none
      none ⟨true, fun _ => 0xff, ⟨0, 64⟩⟩ ⟨.zero, true⟩ (0x45 :: List.replicate 19 0) (.inl rfl)
  exact ⟨c', datagram, hsend, hdeliver _ 3⟩

end Dualnet.Conn
