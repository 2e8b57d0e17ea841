import Dualnet.Conn.FrameStream
import Dualnet.Library.Runs
import Dualnet.Pktbuf.Writer

/-!
# The TCP uplink

`tcpConnectOut` of `conn/tcp.go` and the reader at the other end. Sends go into a batch; a flush
frames the batch down the current connection or, if there is none or a write fails, drops it. Each
connection has its own cipher state and starts with its own nonce. Flushes, dial completions,
resets and the two halves of a `Send` are the steps; a write may fail at any byte, and of what was
written on a connection the other end gets some prefix.

`uplink_in_order_at_most_once` is the result: what a connection delivers is the plausible part of
a prefix of the packets flushed on it, and all connections together deliver every packet at most
once and in order.
-/

namespace Dualnet.Conn

open Cipher Library Wire

/-- A packet with its envelope. -/
abbrev Packet := Envelope × Bytes

/-- The blob a packet travels as. -/
def Packet.blob (p : Packet) : Bytes := putEnvelope p.1 p.2

/-! ## The sender -/

/-- A connection with the packets flushed on it, those of a failed flush included. -/
structure Link where
  nonce : Vector UInt8 12
  flushed : List Packet
  stream : FrameStream

/-- The part of a `tcpConnectOut` behind its writer: the connections it gave up and the current
one. -/
structure Uplink where
  past : List Link
  cur : Option Link
  dialing : Bool
  closed : Bool

/-- `ErrBackoff`. -/
def errBackoff : String := "conn: upstream reconnect backoff"

namespace Uplink

variable (c : Uplink)

/-- All connections, in the order they were made. -/
def links : List Link := c.past ++ c.cur.toList

/-- `kickDialLocked`. -/
def kickDialLocked (backingOff : Bool) : Uplink :=
  if c.dialing || c.closed || backingOff then c else { c with dialing := true }

/-- `resetLocked`. -/
def resetLocked : Uplink := { c with past := c.links, cur := none }

/-- `flush`. -/
def flush (fate : Fate) (backingOff : Bool) (views : List Packet) : Uplink × Option String :=
  match c.cur with
  | none => (c.kickDialLocked backingOff, some errBackoff)
  | some link =>
    let (stream, err) := link.stream.write fate (views.map Packet.blob)
    let c := { c with cur := some ⟨link.nonce, link.flushed ++ views, stream⟩ }
    if err.isNone then (c, none) else (c.resetLocked, err)

/-- The end of `dial` with a connection: it is installed unless `Close` came first. -/
def dialed (sc : StreamCipher) (nonce : Vector UInt8 12) : Uplink :=
  let c := { c with dialing := false }
  if c.closed then c
  else { c with past := c.links, cur := some ⟨nonce, [], FrameStream.new sc nonce⟩ }

/-- The end of `dial` without one. -/
def dialFailed : Uplink := { c with dialing := false }

end Uplink

/-- A step: half a `Send` or a tick of the flush group, the end of a dial, or a call. A step that
may flush says how the socket fares and whether a recent failure is still backing off. -/
inductive UplinkEvent where
  | batch (op : Pktbuf.Op Packet) (fate : Fate) (backingOff : Bool)
  | dialed (nonce : Vector UInt8 12)
  | dialFailed
  | reconnect
  | close

/-- The sender with its writer. -/
abbrev Sender := Pktbuf.Writer Packet Uplink

/-- A fresh `tcpConnectOut`. -/
def newSender : Sender := .new ⟨[], none, false, false⟩

/-- One step, with the packet it commits. -/
def Sender.step (sc : StreamCipher) (s : Sender) : UplinkEvent → Option (Sender × Option Packet)
  | .batch op fate backingOff =>
    Pktbuf.Writer.perform (fun p => p.blob.length) tcpWriteBufSize streamWriteBatch
      (fun c views => some (c.flush fate backingOff views)) s op
  | .dialed nonce =>
    if s.sink.dialing then some ({ s with sink := s.sink.dialed sc nonce }, none) else none
  | .dialFailed =>
    if s.sink.dialing then some ({ s with sink := s.sink.dialFailed }, none) else none
  | .reconnect => some ({ s with sink := s.sink.resetLocked }, none)
  | .close => some ({ s with sink := { s.sink with closed := true }.resetLocked }, none)

/-! ## The receiver -/

/-- `tcpBadFrames`. -/
def tcpBadFrames : Nat := 8

/-- The loop of `runStreamReader`: hand plausible packets on, drop the others, and give up after a
run of bad ones. -/
def ingest (bad : Nat) : List Bytes → List Packet
  | [] => []
  | frame :: rest =>
    match (parseEnvelope frame).filter fun p => plausibleIP p.2 with
    | some p => p :: ingest 0 rest
    | none => if tcpBadFrames < bad + 1 then [] else ingest (bad + 1) rest

/-- `tcpListenIn.handle`: what it hands on of the bytes that arrive, reading at most `n` frames. -/
def receive (sc : StreamCipher) (n : Nat) (src : Source) : List Packet :=
  match sc.wrapReader src with
  | .error _ => []
  | .ok r => ingest 0 (r.readAll maxPacket n)

/-- The packets that could be IP packets. -/
def plausiblePackets (packets : List Packet) : List Packet :=
  packets.filter fun p => plausibleIP p.2

/-- Of packets that arrive in order the loop hands on the plausible ones of a prefix. -/
theorem ingest_blobs (packets : List Packet) (bad : Nat) :
    ∃ m, ingest bad (packets.map Packet.blob) = plausiblePackets (packets.take m) := by
  induction packets generalizing bad with
  | nil => exact ⟨0, rfl⟩
  | cons p packets ih =>
    rw [List.map_cons, ingest, Packet.blob, parseEnvelope_putEnvelope]
    cases hp : plausibleIP p.2 with
    | true =>
      obtain ⟨m, hm⟩ := ih 0
      refine ⟨m + 1, ?_⟩
      simp [Option.filter, hp, hm, plausiblePackets]
    | false =>
      simp only [Option.filter, hp, Bool.false_eq_true, if_false]
      split
      · exact ⟨0, rfl⟩
      · obtain ⟨m, hm⟩ := ih (bad + 1)
        refine ⟨m + 1, ?_⟩
        simp [hm, hp, plausiblePackets]

/-! ## One connection -/

/-- The frames of a connection are those of the first packets that were flushed on it. -/
def Link.Sound (sc : StreamCipher) (link : Link) : Prop :=
  ∃ done, done <+: link.flushed ∧ link.stream.Wrote sc link.nonce (done.map Packet.blob)

/-- What a connection delivers, however many of its bytes arrive, is the plausible part of a
prefix of the packets flushed on it. -/
theorem Link.Sound.receive {sc : StreamCipher} {link : Link} (h : link.Sound sc) {src : Source}
    (hsrc : src.bytes <+: link.stream.wire) (n : Nat) :
    ∃ m, receive sc n src = plausiblePackets (link.flushed.take m) := by
  obtain ⟨done, hdone, hwrite, hwire⟩ := h
  rcases received_prefix hwrite (hsrc.trans hwire) n with ⟨err, herr⟩ | ⟨r, hr, hread⟩
  · exact ⟨0, by simp [Conn.receive, herr, plausiblePackets]⟩
  · obtain ⟨m, hm⟩ := ingest_blobs (done.take (r.readAll maxPacket n).length) 0
    have hframes : r.readAll maxPacket n =
        (done.take (r.readAll maxPacket n).length).map Packet.blob := by
      rw [List.map_take]
      exact List.prefix_iff_eq_take.mp hread
    refine ⟨min m (min (r.readAll maxPacket n).length done.length), ?_⟩
    rw [Conn.receive, hr]
    simp only
    rw [hframes, hm, List.take_take]
    conv_lhs => rw [List.prefix_iff_eq_take.mp hdone, List.take_take]
    simp [Nat.min_assoc]

/-- What the connections of a list deliver together is in the order of what was flushed on them,
without repetition. -/
theorem receives_sublist {sc : StreamCipher} {links : List Link} {arrivals : List (Source × Nat)}
    (hsound : ∀ link ∈ links, link.Sound sc)
    (h : List.Forall₂ (fun link arrival => arrival.1.bytes <+: link.stream.wire) links arrivals) :
    (arrivals.flatMap fun arrival => receive sc arrival.2 arrival.1).Sublist
      (links.flatMap Link.flushed) := by
  induction h with
  | nil => exact List.Sublist.refl _
  | @cons link arrival links arrivals hsrc _ ih =>
    obtain ⟨m, hm⟩ := (hsound link List.mem_cons_self).receive hsrc arrival.2
    rw [List.flatMap_cons, List.flatMap_cons, hm]
    refine List.Sublist.append ?_ (ih fun link' hlink' => hsound link' (.tail _ hlink'))
    exact (List.filter_sublist).trans (List.take_sublist _ _)

/-! ## All connections -/

namespace Uplink

/-- Past connections are sound, the current one has written all that was flushed on it, and of the
packets handed over none was flushed twice. -/
structure Sound (sc : StreamCipher) (c : Uplink) (handed : List Packet) : Prop where
  past : ∀ link ∈ c.past, link.Sound sc
  cur : ∀ link, c.cur = some link →
    link.stream.Wrote sc link.nonce (link.flushed.map Packet.blob)
  once : (c.links.flatMap Link.flushed).Sublist handed

variable {sc : StreamCipher} {c : Uplink} {handed : List Packet}

/-- Every connection is sound. -/
theorem Sound.links (h : c.Sound sc handed) : ∀ link ∈ c.links, link.Sound sc := by
  intro link hlink
  rcases List.mem_append.mp hlink with hpast | hlast
  · exact h.past link hpast
  · exact ⟨link.flushed, List.prefix_refl _, h.cur link (Option.mem_toList.mp hlast)⟩

/-- Dropping the connection keeps this. -/
theorem Sound.resetLocked (h : c.Sound sc handed) : c.resetLocked.Sound sc handed where
  past := h.links
  cur := by
    intro link hcur
    cases hcur
  once := by simpa [Uplink.resetLocked, Uplink.links] using h.once

/-- A new connection starts with its nonce and nothing flushed. -/
theorem Sound.dialed (h : c.Sound sc handed) (nonce : Vector UInt8 12) :
    (c.dialed sc nonce).Sound sc handed := by
  unfold Uplink.dialed
  dsimp only
  split
  · exact ⟨h.past, h.cur, h.once⟩
  · refine ⟨h.links, ?_, ?_⟩
    · intro link hcur
      obtain rfl := Option.some.inj hcur
      exact FrameStream.Wrote.new
    · simpa [Uplink.links] using h.once

/-- Kicking a dial touches no connection. -/
theorem Sound.kickDialLocked (h : c.Sound sc handed) (backingOff : Bool) :
    (c.kickDialLocked backingOff).Sound sc handed := by
  unfold Uplink.kickDialLocked
  split <;> exact ⟨h.past, h.cur, h.once⟩

/-- A flush without a connection drops its batch; one on a connection writes the batch or a prefix
of it behind what was flushed there, and a failure ends the connection. -/
theorem Sound.flush (h : c.Sound sc handed) (fate : Fate) (backingOff : Bool)
    (views : List Packet) : (c.flush fate backingOff views).1.Sound sc (handed ++ views) := by
  cases hcur : c.cur with
  | none =>
    have hkick := h.kickDialLocked backingOff
    simp only [Uplink.flush, hcur]
    exact ⟨hkick.past, hkick.cur, hkick.once.trans (List.sublist_append_left _ _)⟩
  | some link =>
    obtain ⟨⟨stream, err⟩, hwrite⟩ :
      ∃ r, link.stream.write fate (views.map Packet.blob) = r := ⟨_, rfl⟩
    obtain ⟨done, hdone, hwrote, hall⟩ := (h.cur link hcur).write hwrite
    rw [← List.map_append] at hwrote
    have honce : ((c.past ++ [link]).flatMap Link.flushed ++ views).Sublist
        (handed ++ views) := by
      have honce := h.once
      rw [Uplink.links, hcur] at honce
      exact List.Sublist.append_right honce views
    simp only [Uplink.flush, hcur, hwrite]
    split
    · rename_i hfine
      obtain rfl := hall (Option.isNone_iff_eq_none.mp hfine)
      refine ⟨h.past, ?_, ?_⟩
      · intro link' hcur'
        obtain rfl := Option.some.inj hcur'
        exact hwrote
      · simpa [Uplink.links] using honce
    · refine ⟨?_, ?_, ?_⟩
      · intro link' hlink'
        rcases List.mem_append.mp hlink' with hpast | hlast
        · exact h.past link' hpast
        · obtain rfl := Option.some.inj (Option.mem_toList.mp hlast)
          exact ⟨link.flushed ++ done, (List.prefix_append_right_inj _).mpr hdone, hwrote⟩
      · intro link' hcur'
        cases hcur'
      · simpa [Uplink.links, Uplink.resetLocked] using honce

end Uplink

/-- The connections are sound for the packets handed over, which with the batch are the packets
committed so far. -/
def Sender.Sound (sc : StreamCipher) (s : Sender) (packets : List Packet) : Prop :=
  s.Holds (fun c _ handed => c.Sound sc handed) packets

/-- Every step keeps this. -/
theorem Sender.Sound.step {sc : StreamCipher} {s s' : Sender} {packets : List Packet}
    {event : UplinkEvent} {out : Option Packet} (h : s.Sound sc packets)
    (htaken : s.step sc event = some (s', out)) : s'.Sound sc (packets ++ out.toList) := by
  have hsame : ∀ {s₁ : Sender}, s₁.Sound sc packets →
      s₁.Sound sc (packets ++ (none : Option Packet).toList) := by
    intro s₁ hs₁
    rwa [Option.toList_none, List.append_nil]
  cases event with
  | batch op fate backingOff =>
    refine Pktbuf.Writer.Holds.perform ?_ h htaken
    intro c _ handed views c' err' hc hcall
    have hc' : (c.flush fate backingOff views).1 = c' := by rw [Option.some.inj hcall]
    exact hc' ▸ hc.flush fate backingOff views
  | dialed nonce =>
    obtain ⟨-, hs'⟩ := Option.ite_none_right_eq_some.mp htaken
    obtain ⟨rfl, rfl⟩ := pair_inj hs'
    exact hsame (Pktbuf.Writer.Holds.sink h fun _ hc => hc.dialed nonce)
  | dialFailed =>
    obtain ⟨-, hs'⟩ := Option.ite_none_right_eq_some.mp htaken
    obtain ⟨rfl, rfl⟩ := pair_inj hs'
    exact hsame (Pktbuf.Writer.Holds.sink h fun _ hc => ⟨hc.past, hc.cur, hc.once⟩)
  | reconnect =>
    obtain ⟨rfl, rfl⟩ := pair_inj htaken
    exact hsame (Pktbuf.Writer.Holds.sink h fun _ hc => hc.resetLocked)
  | close =>
    obtain ⟨rfl, rfl⟩ := pair_inj htaken
    refine hsame (Pktbuf.Writer.Holds.sink h fun handed hc => ?_)
    have hclosed : { s.sink with closed := true }.Sound sc handed := ⟨hc.past, hc.cur, hc.once⟩
    exact hclosed.resetLocked

/-- A run of the sender, with the packets its steps committed. -/
abbrev Sender.Run (sc : StreamCipher) : Sender → List (UplinkEvent × Option Packet) → Prop :=
  Reached (Sender.step sc) (fun _ _ _ => True) newSender

/-- In every state reached the sender is sound for the packets committed. -/
theorem Sender.Run.sound {sc : StreamCipher} {s : Sender}
    {history : List (UplinkEvent × Option Packet)} (h : Sender.Run sc s history) :
    s.Sound sc (Pktbuf.committed history) := by
  refine h.invariant (fun s history => s.Sound sc (Pktbuf.committed history)) ?_ ?_
  · refine ⟨[], ⟨?_, ?_, List.Sublist.refl _⟩, rfl⟩
    · intro link hlink
      cases hlink
    · intro link hcur
      cases hcur
  · intro s history event s' out hs _ htaken
    rw [Pktbuf.committed_cons]
    exact hs.step htaken

/-- The uplink is in order and at most once, whatever fails. In every run of `Send`s, flushes,
ticks, dials, reconnects and write failures at any byte, the packets flushed on the connections are
those of `Send`s in the order they were committed, none twice. However many bytes of a connection
arrive, its reader hands on the plausible packets of a prefix of those flushed on it, with their
envelopes; and what the readers of all connections hand on are `Send`s in order, none twice. -/
theorem uplink_in_order_at_most_once {sc : StreamCipher} {s : Sender}
    {history : List (UplinkEvent × Option Packet)} (h : Sender.Run sc s history) :
    (s.sink.links.flatMap Link.flushed).Sublist (Pktbuf.committed history) ∧
    (∀ link ∈ s.sink.links, ∀ src n, src.bytes <+: link.stream.wire →
      ∃ m, receive sc n src = plausiblePackets (link.flushed.take m)) ∧
    (∀ arrivals : List (Source × Nat),
      List.Forall₂ (fun link arrival => arrival.1.bytes <+: link.stream.wire) s.sink.links
        arrivals →
      (arrivals.flatMap fun arrival => receive sc arrival.2 arrival.1).Sublist
        (Pktbuf.committed history)) := by
  obtain ⟨handed, hsink, hpackets⟩ := h.sound
  have hflushed : (s.sink.links.flatMap Link.flushed).Sublist (Pktbuf.committed history) := by
    rw [hpackets]
    exact hsink.once.trans (List.sublist_append_left _ _)
  refine ⟨hflushed, ?_, ?_⟩
  · intro link hlink src n hsrc
    exact (hsink.links link hlink).receive hsrc n
  · intro arrivals harrivals
    exact (receives_sublist hsink.links harrivals).trans hflushed

/-- A packet sent before there is a connection is lost with its batch; the next one arrives, and
the run meets the conditions of the theorem. -/
theorem uplink_in_order_at_most_once_dialed :
    ∃ s history, Sender.Run .none s history ∧
      Pktbuf.committed history =
        [(⟨.zero, false⟩, []), (⟨.zero, false⟩, 0x45 :: List.replicate 19 0)] ∧
      (s.sink.links.flatMap fun link => receive .none 2 ⟨[link.stream.wire], false⟩) =
        [(⟨.zero, false⟩, 0x45 :: List.replicate 19 0)] ∧
      (s.sink.links.flatMap Link.flushed).Sublist (Pktbuf.committed history) := by
  have hrun : Sender.Run .none _ _ := Reached.init.play
    [.batch (.reserve (⟨.zero, false⟩, [])) ⟨none, 0⟩ false, .batch .commit ⟨none, 0⟩ false,
      .batch .tick ⟨none, 0⟩ false, .dialed (Vector.replicate 12 0),
      .batch (.reserve (⟨.zero, false⟩, 0x45 :: List.replicate 19 0)) ⟨none, 0⟩ false,
      .batch .commit ⟨none, 0⟩ false, .batch .tick ⟨none, 0⟩ false] rfl
  exact ⟨_, _, hrun, rfl, by decide, (uplink_in_order_at_most_once hrun).1⟩

end Dualnet.Conn
