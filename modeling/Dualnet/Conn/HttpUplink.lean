import Dualnet.Conn.TcpLifecycle
import Dualnet.Conn.TcpUplink
import Dualnet.Conn.Upload

/-!
# The HTTP uplink

`httpConnectOut` of `conn/http.go` and the reader of its request bodies at the other end. A `Send`
writes its packet as one frame into the body of the current request, through the cipher and the
chunked coding. A request that is too old is given up for a new one; so is one on which a write
failed, and then a pause is kept before the next is opened. A write may fail at any byte, and of
what was written on a connection the other end gets some prefix.

`http_uplink_in_order_at_most_once` is the result.
-/

namespace Dualnet.Conn

open Cipher Library Wire

/-! ## Writing into a request -/

/-- Calls of `Write` until one fails; a call without a fate of its own succeeds. -/
def ChunkedWriter.writeCalls (c : ChunkedWriter) : List Fate → List Bytes →
    ChunkedWriter × Option String
  | _, [] => (c, none)
  | fates, p :: ps =>
    match c.write (fates.headD ⟨none, 0⟩) p with
    | (c', .ok _) => c'.writeCalls fates.tail ps
    | (c', .error err) => (c', some err)

/-- A request: when it was opened, the packets that were written into its body, each with the time
at which the request was found to be young enough for it, and the writers of the body. The body
starts after the head of the request. -/
structure Upload where
  nonce : Vector UInt8 12
  openedAt : Int
  sent : List (Int × Packet) := []
  obf : Cipher.Writer
  cw : ChunkedWriter

/-- The packets of a request. -/
def Upload.packets (u : Upload) : List Packet := u.sent.map Prod.snd

/-- `WrapWriter` over the chunked writer of a new request. -/
def Upload.wrap (sc : StreamCipher) (nonce : Vector UInt8 12) (now : Int) (fate : Fate) :
    Upload × Option String :=
  let (cw, err) := ChunkedWriter.writeCalls ⟨[]⟩ [fate] (wrapCalls nonce sc)
  (⟨nonce, now, [], sc.wrapWriter nonce, cw⟩, err)

/-- `wire.WriteFrame` into the body of a request. -/
def Upload.writeFrame (u : Upload) (fates : List Fate) (p : Bytes) : Upload × Option String :=
  match u.obf.writeFrame p with
  | .error err => (u, some err)
  | .ok obf =>
    let (cw, err) := u.cw.writeCalls fates (frameCalls p u.obf)
    ({ u with obf := obf, cw := cw }, err)

/-! ## The sender -/

/-- An `httpConnectOut`: the requests it gave up, the current one and the end of the pause. -/
structure HttpConnectOut where
  past : List Upload := []
  cur : Option Upload := none
  nextRetry : Option Int := none

/-- How `connectLocked` fares: the dial or the write of the head fails, or the nonce is written. -/
inductive Dial where
  | failed (err : String)
  | headFailed (err : String)
  | opened (nonce : Vector UInt8 12) (fate : Fate)

/-- The readings of the clock in one `Send`. -/
structure Readings where
  age : Int
  retry : Int
  connect : Int
  failure : Int

namespace HttpConnectOut

variable (c : HttpConnectOut)

/-- All requests, in the order they were made. -/
def uploads : List Upload := c.past ++ c.cur.toList

/-- `resetLocked`. -/
def resetLocked : HttpConnectOut := { c with past := c.uploads, cur := none }

/-- `connectLocked`. A request whose nonce could not be written is closed at once. -/
def connectLocked (sc : StreamCipher) (now : Int) : Dial → HttpConnectOut × Except String Upload
  | .failed err | .headFailed err => (c, .error err)
  | .opened nonce fate =>
    match Upload.wrap sc nonce now fate with
    | (u, some err) => ({ c with past := c.past ++ [u] }, .error err)
    | (u, none) => ({ c with cur := some u }, .ok u)

/-- The end of `Send`: write the packet as a frame, and give the request up if that fails. -/
def sendFrame (u : Upload) (found failure : Int) (fates : List Fate) (p : Packet) :
    HttpConnectOut × Option String :=
  let (u', err) := u.writeFrame fates p.blob
  let c := { c with cur := some { u' with sent := u.sent ++ [(found, p)] } }
  match err with
  | none => (c, none)
  | some err => ({ c.resetLocked with nextRetry := some (failure + reconnectBackoff) }, some err)

/-- The first check of `Send`: a request that is too old is given up. -/
def recycle (maxAge now : Int) : HttpConnectOut :=
  match c.cur with
  | some u => if 0 < maxAge && maxAge < now - u.openedAt then c.resetLocked else c
  | none => c

/-- `Send`. -/
def send (sc : StreamCipher) (maxAge : Int) (now : Readings) (dial : Dial) (fates : List Fate)
    (p : Packet) : HttpConnectOut × Option String :=
  let c := c.recycle maxAge now.age
  match c.cur with
  | some u => c.sendFrame u now.age now.failure fates p
  | none =>
    if c.nextRetry.any (now.retry < ·) then (c, some errBackoff)
    else
      match c.connectLocked sc now.connect dial with
      | (c, .error err) =>
        ({ c with nextRetry := some (now.failure + reconnectBackoff) }, some err)
      | (c, .ok u) => c.sendFrame u now.connect now.failure fates p

/-- `Reconnect`. -/
def reconnect : HttpConnectOut := { c.resetLocked with nextRetry := none }

end HttpConnectOut

/-- The calls, one step each: they hold the lock. -/
inductive HttpSend where
  | send (now : Readings) (dial : Dial) (fates : List Fate) (p : Packet)
  | reconnect
  | close

/-- One call, with the packet of a `Send`. -/
def HttpConnectOut.step (sc : StreamCipher) (maxAge : Int) (c : HttpConnectOut) :
    HttpSend → Option (HttpConnectOut × Option Packet)
  | .send now dial fates p => some ((c.send sc maxAge now dial fates p).1, some p)
  | .reconnect => some (c.reconnect, none)
  | .close => some (c.resetLocked, none)

/-- The runs of an `httpConnectOut`. -/
abbrev HttpConnectOut.Run (sc : StreamCipher) (maxAge : Int) :
    HttpConnectOut → List (HttpSend × Option Packet) → Prop :=
  Reached (HttpConnectOut.step sc maxAge) (fun _ _ _ => True) {}

/-! ## The receiver -/

/-- `httpListenIn.serveHTTP`: what it hands on of a body of which these bytes arrive, reading at most
`n` frames. `net/http` undoes the chunked coding; the loop over the frames is that of a stream. -/
def serveUpload (sc : StreamCipher) (n : Nat) (body : Source) : List Packet := receive sc n body

/-- The bytes a server reads from a body: those of the chunks there are in what arrived. -/
def Arrives (raw : Bytes) (body : Source) : Prop := body.bytes = Chunked.available raw

/-! ## One request -/

/-- A write that does not fail writes its chunk. -/
theorem ChunkedWriter.write_succeeds {c c' : ChunkedWriter} {fate : Fate} {p : Bytes} {n : Nat}
    (h : c.write fate p = (c', .ok n)) : (c.write ⟨none, 0⟩ p).1 = c' := by
  unfold ChunkedWriter.write at h ⊢
  split at h
  · next hempty =>
      rw [if_pos hempty]
      exact (Prod.mk.inj h).1
  · next hempty =>
      rw [if_neg hempty]
      cases hfails : fate.fails with
      | none =>
        simp only [hfails] at h
        exact (Prod.mk.inj h).1
      | some err => simp [hfails] at h

/-- Calls of `Write` leave a part of the chunks they would leave if none failed, and all of them if
none fails. -/
theorem ChunkedWriter.writeCalls_chunks {c c' : ChunkedWriter} {fates : List Fate}
    {calls datas : List Bytes} {err : Option String} (h : Chunked.Chunks c.out datas)
    (hw : c.writeCalls fates calls = (c', err)) :
    ∃ text, Chunked.Chunks text (datas ++ calls.filter (!·.isEmpty)) ∧ c'.out <+: text ∧
      (err = none → c'.out = text) := by
  induction calls generalizing c fates datas with
  | nil =>
    obtain ⟨rfl, rfl⟩ := Prod.mk.inj hw
    exact ⟨c.out, by simpa using h, List.prefix_rfl, fun _ => rfl⟩
  | cons p calls ih =>
    have hfirst := ChunkedWriter.write_chunks h p
    have hcalls : datas ++ (p :: calls).filter (!·.isEmpty) =
        datas ++ [p].filter (!·.isEmpty) ++ calls.filter (!·.isEmpty) := by
      rw [List.append_assoc, ← List.filter_append, List.singleton_append]
    rw [hcalls]
    rw [writeCalls] at hw
    split at hw
    · next c₁ n heq =>
        rw [ChunkedWriter.write_succeeds heq] at hfirst
        exact ih hfirst hw
    · next c₁ e heq =>
        obtain ⟨rfl, rfl⟩ := Prod.mk.inj hw
        refine ⟨_, hfirst.append (chunks_emitted calls), ?_, by simp⟩
        have hpart := (ChunkedWriter.write_fails c (fates.headD ⟨none, 0⟩) p).2
        rw [heq] at hpart
        exact hpart.trans (List.prefix_append _ _)

/-- Plausible packets are all handed on. -/
theorem ingest_plausible {packets : List Packet} (h : ∀ p ∈ packets, plausibleIP p.2) (bad : Nat) :
    ingest bad (packets.map Packet.blob) = packets := by
  induction packets generalizing bad with
  | nil => rfl
  | cons p packets ih =>
    obtain ⟨hp, hrest⟩ := List.forall_mem_cons.mp h
    rw [List.map_cons, ingest, Packet.blob, parseEnvelope_putEnvelope]
    simp [Option.filter, hp, ih hrest]

namespace Upload

variable {sc : StreamCipher} {u u' : Upload} {packets : List Packet}

/-- The body of a request holds these packets as frames, all of them in full. -/
structure Wrote (sc : StreamCipher) (u : Upload) (packets : List Packet) : Prop where
  frames : (sc.wrapWriter u.nonce).writeFrames (packets.map Packet.blob) = .ok u.obf
  chunks : ∃ datas, Chunked.Chunks u.cw.out datas ∧ datas.flatten = u.obf.out

/-- The body of a request is a part of one that holds the first of its packets. -/
def Sound (sc : StreamCipher) (u : Upload) : Prop :=
  ∃ done w text datas, done <+: u.packets ∧
    (sc.wrapWriter u.nonce).writeFrames (done.map Packet.blob) = .ok w ∧
    Chunked.Chunks text datas ∧ datas.flatten = w.out ∧ u.cw.out <+: text

/-- A request so written is sound. -/
theorem Wrote.sound (h : u.Wrote sc u.packets) : u.Sound sc := by
  obtain ⟨datas, hchunks, hflat⟩ := h.chunks
  exact ⟨_, _, _, datas, List.prefix_rfl, h.frames, hchunks, hflat, List.prefix_rfl⟩

/-- A new request holds nothing after its nonce, and a part of it if that could not be written. -/
theorem wrap_wrote {nonce : Vector UInt8 12} {now : Int} {fate : Fate} {err : Option String}
    (h : wrap sc nonce now fate = (u, err)) :
    u.openedAt = now ∧ u.sent = [] ∧ u.Sound sc ∧ (err = none → u.Wrote sc []) := by
  obtain ⟨⟨cw, e⟩, hcalls⟩ :
    ∃ r, ChunkedWriter.writeCalls ⟨[]⟩ [fate] (wrapCalls nonce sc) = r := ⟨_, rfl⟩
  simp only [wrap, hcalls] at h
  obtain ⟨rfl, rfl⟩ := Prod.mk.inj h
  obtain ⟨text, htext, hpart, hall⟩ := ChunkedWriter.writeCalls_chunks .nil hcalls
  have hflat : (([] : List Bytes) ++ (wrapCalls nonce sc).filter (!·.isEmpty)).flatten =
      (sc.wrapWriter nonce).out := by
    rw [List.nil_append, flatten_filter_nonempty, out_wrapWriter]
  refine ⟨rfl, rfl, ⟨[], _, text, _, List.nil_prefix, rfl, htext, hflat, hpart⟩, fun hok => ?_⟩
  refine ⟨rfl, _, ?_, hflat⟩
  rw [hall hok]
  exact htext

/-- A frame goes behind those of the request in full, or in part if a write fails. -/
theorem Wrote.writeFrame {fates : List Fate} {p : Packet} {err : Option String}
    (h : u.Wrote sc packets) (hw : u.writeFrame fates p.blob = (u', err)) :
    u'.nonce = u.nonce ∧ u'.openedAt = u.openedAt ∧
      (err = none → u'.Wrote sc (packets ++ [p])) ∧
      ∃ done w text datas, done <+: packets ++ [p] ∧
        (sc.wrapWriter u.nonce).writeFrames (done.map Packet.blob) = .ok w ∧
        Chunked.Chunks text datas ∧ datas.flatten = w.out ∧ u'.cw.out <+: text := by
  obtain ⟨datas, hchunks, hflat⟩ := h.chunks
  unfold Upload.writeFrame at hw
  split at hw
  · obtain ⟨rfl, rfl⟩ := Prod.mk.inj hw
    exact ⟨rfl, rfl, by simp, packets, _, _, datas, List.prefix_append _ _, h.frames, hchunks, hflat,
      List.prefix_rfl⟩
  · next obf hframe =>
      obtain ⟨⟨cw, e⟩, hcalls⟩ : ∃ r, u.cw.writeCalls fates (frameCalls p.blob u.obf) = r := ⟨_, rfl⟩
      simp only [hcalls] at hw
      obtain ⟨rfl, rfl⟩ := Prod.mk.inj hw
      obtain ⟨text, htext, hpart, hall⟩ := ChunkedWriter.writeCalls_chunks hchunks hcalls
      have hframes : (sc.wrapWriter u.nonce).writeFrames ((packets ++ [p]).map Packet.blob) =
          .ok obf := by
        rw [List.map_append, writeFrames_append h.frames, Cipher.Writer.writeFrames, List.map_cons,
          List.map_nil, List.foldlM_cons, hframe]
        rfl
      have hflat' : (datas ++ (frameCalls p.blob u.obf).filter (!·.isEmpty)).flatten = obf.out := by
        rw [List.flatten_append, flatten_filter_nonempty, hflat, out_writeFrame hframe]
      refine ⟨rfl, rfl, fun hok => ⟨hframes, _, ?_, hflat'⟩,
        packets ++ [p], _, text, _, List.prefix_rfl, hframes, htext, hflat', hpart⟩
      rw [hall hok]
      exact htext

/-- However many bytes of a request arrive, its server hands on the plausible packets of a prefix of
those written into it. -/
theorem Sound.serve (h : u.Sound sc) {raw : Bytes} (hraw : raw <+: u.cw.out) {body : Source}
    (hbody : Arrives raw body) (n : Nat) :
    ∃ m, serveUpload sc n body = plausiblePackets (u.packets.take m) := by
  obtain ⟨done, w, text, datas, hdone, hframes, hchunks, hflat, hpart⟩ := h
  have hbytes : body.bytes <+: w.out := by
    rw [hbody, ← hflat]
    exact Chunked.availableIn_prefix hchunks (hraw.trans hpart) _
  -- the same frames written to a stream without the chunked coding
  have hlink : Link.Sound sc ⟨u.nonce, u.packets, ⟨w, w.out, none⟩⟩ :=
    ⟨done, hdone, hframes, List.prefix_rfl⟩
  exact hlink.receive hbytes n

/-- Of a request that was written without a failure and has arrived, every packet is handed on. -/
theorem Wrote.serve_all (h : u.Wrote sc packets) (hsane : ∀ p ∈ packets, plausibleIP p.2)
    {body : Source} (hbody : Arrives u.cw.out body) {n : Nat} (hn : packets.length ≤ n) :
    serveUpload sc n body = packets := by
  obtain ⟨datas, hchunks, hflat⟩ := h.chunks
  obtain ⟨w, sent, hwrite, hout, hread⟩ :=
    @frames_round_trip (packets.map Packet.blob) (sc.wrapWriter u.nonce) (writeFrames_fit h.frames)
  obtain rfl : w = u.obf := Except.ok.inj (hwrite.symm.trans h.frames)
  have hbytes : body.bytes = (sc.wrapWriter u.nonce).out ++ sent := by
    rw [hbody, Chunked.available_chunks hchunks, hflat, hout]
  obtain ⟨r, hwrap, hleft, hmirrors⟩ := wrapReader_mirrors sc u.nonce hbytes
  obtain ⟨r', hr', hempty, -⟩ := hread r [] maxPacket hmirrors (Nat.le_refl _)
    (by rw [hleft, List.append_nil])
  have hframes := readAll_eq hr' hempty (by decide) (by simpa using hn)
  rw [serveUpload, receive, hwrap]
  simp only [hframes]
  exact ingest_plausible hsane 0

end Upload

/-- What the servers of a list of requests hand on together is in the order of what was written into
them, without repetition. -/
theorem serves_sublist {sc : StreamCipher} {uploads : List Upload}
    {arrivals : List (Source × Nat)} (hsound : ∀ u ∈ uploads, u.Sound sc)
    (h : List.Forall₂ (fun u arrival => ∃ raw, raw <+: u.cw.out ∧ Arrives raw arrival.1) uploads
      arrivals) :
    (arrivals.flatMap fun arrival => serveUpload sc arrival.2 arrival.1).Sublist
      (uploads.flatMap Upload.packets) := by
  induction h with
  | nil => exact List.Sublist.refl _
  | @cons u arrival uploads arrivals hraw _ ih =>
    obtain ⟨raw, hraw, hbody⟩ := hraw
    obtain ⟨m, hm⟩ := (hsound u List.mem_cons_self).serve hraw hbody arrival.2
    rw [List.flatMap_cons, List.flatMap_cons, hm]
    refine List.Sublist.append ?_ (ih fun u' hu' => hsound u' (.tail _ hu'))
    exact List.filter_sublist.trans (List.take_sublist _ _)

/-! ## All requests -/

namespace HttpConnectOut

/-- Past requests are sound, the current one holds all that was written into it, every packet was
written into one request at most, and into one that was young enough. -/
structure Sound (sc : StreamCipher) (maxAge : Int) (c : HttpConnectOut) (handed : List Packet) :
    Prop where
  past : ∀ u ∈ c.past, u.Sound sc
  cur : ∀ u, c.cur = some u → u.Wrote sc u.packets
  once : (c.uploads.flatMap Upload.packets).Sublist handed
  young : ∀ u ∈ c.uploads, ∀ s ∈ u.sent, 0 < maxAge → s.1 - u.openedAt ≤ maxAge

variable {sc : StreamCipher} {maxAge : Int} {c : HttpConnectOut} {handed : List Packet}

/-- Every request is sound. -/
theorem Sound.uploads (h : c.Sound sc maxAge handed) : ∀ u ∈ c.uploads, u.Sound sc := by
  intro u hu
  rcases List.mem_append.mp hu with hpast | hlast
  · exact h.past u hpast
  · exact (h.cur u (Option.mem_toList.mp hlast)).sound

/-- Dropping the request keeps this. -/
theorem Sound.resetLocked (h : c.Sound sc maxAge handed) :
    c.resetLocked.Sound sc maxAge handed where
  past := h.uploads
  cur := by simp [HttpConnectOut.resetLocked]
  once := by simpa [HttpConnectOut.resetLocked, HttpConnectOut.uploads] using h.once
  young := by simpa [HttpConnectOut.resetLocked, HttpConnectOut.uploads] using h.young

/-- Ending or setting the pause touches no request. -/
theorem Sound.pause (h : c.Sound sc maxAge handed) (t : Option Int) :
    { c with nextRetry := t }.Sound sc maxAge handed :=
  ⟨h.past, h.cur, h.once, h.young⟩

/-- A request that survives the first check of `Send` is young enough. -/
theorem Sound.recycle (h : c.Sound sc maxAge handed) (now : Int) :
    (c.recycle maxAge now).Sound sc maxAge handed ∧
      ∀ u, (c.recycle maxAge now).cur = some u → 0 < maxAge → now - u.openedAt ≤ maxAge := by
  unfold HttpConnectOut.recycle
  cases hcur : c.cur with
  | none => exact ⟨h, by simp [hcur]⟩
  | some u =>
    dsimp only
    split
    · exact ⟨h.resetLocked, by simp [HttpConnectOut.resetLocked]⟩
    · next hyoung =>
        refine ⟨h, fun u' hu' hpos => ?_⟩
        obtain rfl := Option.some.inj (hcur.symm.trans hu')
        simp only [Bool.and_eq_true, decide_eq_true_eq, not_and, not_lt] at hyoung
        exact hyoung hpos

/-- A new request is sound and young. -/
theorem Sound.connectLocked (h : c.Sound sc maxAge handed) (hcur : c.cur = none) (now : Int)
    {dial : Dial} {c' : HttpConnectOut} {r : Except String Upload}
    (hc : c.connectLocked sc now dial = (c', r)) :
    c'.Sound sc maxAge handed ∧ ∀ u, r = .ok u → c'.cur = some u ∧ u.openedAt = now := by
  unfold HttpConnectOut.connectLocked at hc
  split at hc
  · obtain ⟨rfl, rfl⟩ := Prod.mk.inj hc
    exact ⟨h, by simp⟩
  · obtain ⟨rfl, rfl⟩ := Prod.mk.inj hc
    exact ⟨h, by simp⟩
  · next nonce fate =>
      split at hc
      · next u err hwrap =>
          obtain ⟨rfl, rfl⟩ := Prod.mk.inj hc
          obtain ⟨-, hsent, hsound, -⟩ := Upload.wrap_wrote hwrap
          have honce := h.once
          have hyoung := h.young
          simp only [HttpConnectOut.uploads, hcur, Option.toList_none, List.append_nil]
            at honce hyoung
          refine ⟨⟨?_, by simp [hcur], ?_, ?_⟩, by simp⟩
          · exact List.forall_mem_append.mpr ⟨h.past, by simpa using hsound⟩
          · simpa [HttpConnectOut.uploads, hcur, Upload.packets, hsent] using honce
          · intro u' hu'
            simp only [HttpConnectOut.uploads, hcur, Option.toList_none, List.append_nil,
              List.mem_append, List.mem_singleton] at hu'
            rcases hu' with hu' | rfl
            · exact hyoung u' hu'
            · simp [hsent]
      · next u hwrap =>
          obtain ⟨rfl, rfl⟩ := Prod.mk.inj hc
          obtain ⟨hopened, hsent, -, hwrote⟩ := Upload.wrap_wrote hwrap
          have hnone : u.packets = [] := by simp [Upload.packets, hsent]
          have honce := h.once
          have hyoung := h.young
          simp only [HttpConnectOut.uploads, hcur, Option.toList_none, List.append_nil]
            at honce hyoung
          refine ⟨⟨h.past, ?_, ?_, ?_⟩, ?_⟩
          · rintro u' hu'
            obtain rfl := Option.some.inj hu'
            rw [hnone]
            exact hwrote rfl
          · simpa [HttpConnectOut.uploads, hnone] using honce
          · intro u' hu'
            simp only [HttpConnectOut.uploads, Option.toList_some, List.mem_append,
              List.mem_singleton] at hu'
            rcases hu' with hu' | rfl
            · exact hyoung u' hu'
            · simp [hsent]
          · rintro u' hu'
            obtain rfl := Except.ok.inj hu'
            exact ⟨rfl, hopened⟩

/-- A packet written into the current request is behind those of the request, or the request is given
up with a part of it. -/
theorem Sound.sendFrame (h : c.Sound sc maxAge handed) {u : Upload} (hcur : c.cur = some u)
    {found : Int} (hfound : 0 < maxAge → found - u.openedAt ≤ maxAge) (failure : Int)
    (fates : List Fate) (p : Packet) :
    (c.sendFrame u found failure fates p).1.Sound sc maxAge (handed ++ [p]) := by
  obtain ⟨⟨u', err⟩, hwrite⟩ : ∃ r, u.writeFrame fates p.blob = r := ⟨_, rfl⟩
  obtain ⟨hnonce, hopened, hwrote, hpart⟩ := (h.cur u hcur).writeFrame hwrite
  obtain ⟨v, hv⟩ : ∃ v : Upload, v = { u' with sent := u.sent ++ [(found, p)] } := ⟨_, rfl⟩
  have hpackets : v.packets = u.packets ++ [p] := by simp [hv, Upload.packets]
  have honce : ((c.past ++ [v]).flatMap Upload.packets).Sublist (handed ++ [p]) := by
    have honce := h.once
    simp only [HttpConnectOut.uploads, hcur, Option.toList_some] at honce
    simpa [hpackets] using honce.append_right [p]
  have hyoung : ∀ w ∈ c.past ++ [v], ∀ s ∈ w.sent, 0 < maxAge → s.1 - w.openedAt ≤ maxAge := by
    have hold := h.young
    simp only [HttpConnectOut.uploads, hcur, Option.toList_some] at hold
    intro w hw s hs hpos
    rcases List.mem_append.mp hw with hw | hw
    · exact hold w (List.mem_append_left _ hw) s hs hpos
    · obtain rfl := List.mem_singleton.mp hw
      rw [hv] at hs ⊢
      simp only [List.mem_append, List.mem_singleton, hopened] at hs ⊢
      rcases hs with hs | rfl
      · exact hold u (by simp) s hs hpos
      · exact hfound hpos
  simp only [HttpConnectOut.sendFrame, hwrite, ← hv]
  cases err with
  | none =>
    refine ⟨h.past, ?_, honce, hyoung⟩
    rintro w hw
    obtain rfl := Option.some.inj hw
    obtain ⟨hframes, hchunks⟩ := hwrote rfl
    rw [hpackets, hv]
    exact ⟨hframes, hchunks⟩
  | some e =>
    refine ⟨?_, by simp [HttpConnectOut.resetLocked], ?_, ?_⟩
    · intro w hw
      simp only [HttpConnectOut.resetLocked, HttpConnectOut.uploads, Option.toList_some,
        List.mem_append, List.mem_singleton] at hw
      rcases hw with hw | rfl
      · exact h.past w hw
      · obtain ⟨done, x, text, datas, hdone, hframes, hchunks, hflat, hprefix⟩ := hpart
        refine ⟨done, x, text, datas, by rwa [hpackets], ?_, hchunks, hflat, ?_⟩
        · rw [hv, ← hframes, hnonce]
        · rw [hv]
          exact hprefix
    · simpa [HttpConnectOut.resetLocked, HttpConnectOut.uploads] using honce
    · simpa [HttpConnectOut.resetLocked, HttpConnectOut.uploads] using hyoung

/-- A packet that is not sent changes nothing. -/
theorem Sound.drop (h : c.Sound sc maxAge handed) (p : Packet) :
    c.Sound sc maxAge (handed ++ [p]) :=
  ⟨h.past, h.cur, h.once.trans (List.sublist_append_left _ _), h.young⟩

/-- So does a `Send`. -/
theorem Sound.send (h : c.Sound sc maxAge handed) (now : Readings) (dial : Dial)
    (fates : List Fate) (p : Packet) :
    (c.send sc maxAge now dial fates p).1.Sound sc maxAge (handed ++ [p]) := by
  obtain ⟨hrecycled, hyoung⟩ := h.recycle now.age
  obtain ⟨c₁, hc₁⟩ : ∃ c₁, c.recycle maxAge now.age = c₁ := ⟨_, rfl⟩
  rw [hc₁] at hrecycled hyoung
  simp only [HttpConnectOut.send, hc₁]
  cases hcur : c₁.cur with
  | some u => exact hrecycled.sendFrame hcur (hyoung u hcur) now.failure fates p
  | none =>
    dsimp only
    split
    · exact hrecycled.drop p
    · obtain ⟨⟨c₂, r⟩, hconnect⟩ : ∃ r, c₁.connectLocked sc now.connect dial = r := ⟨_, rfl⟩
      obtain ⟨hconnected, hnew⟩ := hrecycled.connectLocked hcur now.connect hconnect
      rw [hconnect]
      cases r with
      | error err => exact (hconnected.drop p).pause _
      | ok u =>
        obtain ⟨hcur₂, hopened⟩ := hnew u rfl
        exact hconnected.sendFrame hcur₂ (fun hpos => by rw [hopened]; omega) now.failure fates p

/-- In every state reached the sender is sound for the packets it was given. -/
theorem Run.sound {history : List (HttpSend × Option Packet)} (h : Run sc maxAge c history) :
    c.Sound sc maxAge (Pktbuf.committed history) := by
  refine h.invariant (fun c history => c.Sound sc maxAge (Pktbuf.committed history)) ?_ ?_
  · exact ⟨by simp, by simp, List.Sublist.refl _, by simp [HttpConnectOut.uploads]⟩
  · intro c history event c' out hc _ htaken
    rw [Pktbuf.committed_cons]
    cases event with
    | send now dial fates p =>
      obtain ⟨rfl, rfl⟩ := pair_inj htaken
      exact hc.send now dial fates p
    | reconnect =>
      obtain ⟨rfl, rfl⟩ := pair_inj htaken
      rw [Option.toList_none, List.append_nil]
      exact hc.resetLocked.pause none
    | close =>
      obtain ⟨rfl, rfl⟩ := pair_inj htaken
      rw [Option.toList_none, List.append_nil]
      exact hc.resetLocked

end HttpConnectOut

/-- The HTTP uplink is in order and at most once, whatever fails and however often requests are
recycled. In every run of `Send`s, reconnects and closes, with dials, heads and nonces that may fail
and writes that may fail at any byte, the packets written into the requests are those of `Send`s in
order, none twice, and none into a request older than the maximum age. However many bytes of a
request arrive, its server hands on the plausible packets of a prefix of those written into it; what the
servers of all requests hand on are `Send`s in order, none twice; and of a current request that has
arrived in full, with plausible packets only, every packet is handed on. -/
theorem http_uplink_in_order_at_most_once {sc : StreamCipher} {maxAge : Int} {c : HttpConnectOut}
    {history : List (HttpSend × Option Packet)} (h : HttpConnectOut.Run sc maxAge c history) :
    (c.uploads.flatMap Upload.packets).Sublist (Pktbuf.committed history) ∧
    (∀ u ∈ c.uploads, ∀ s ∈ u.sent, 0 < maxAge → s.1 - u.openedAt ≤ maxAge) ∧
    (∀ u ∈ c.uploads, ∀ raw body n, raw <+: u.cw.out → Arrives raw body →
      ∃ m, serveUpload sc n body = plausiblePackets (u.packets.take m)) ∧
    (∀ arrivals : List (Source × Nat),
      List.Forall₂ (fun u arrival => ∃ raw, raw <+: u.cw.out ∧ Arrives raw arrival.1) c.uploads
        arrivals →
      (arrivals.flatMap fun arrival => serveUpload sc arrival.2 arrival.1).Sublist
        (Pktbuf.committed history)) ∧
    (∀ u, c.cur = some u → (∀ p ∈ u.packets, plausibleIP p.2) →
      ∀ body n, Arrives u.cw.out body → u.packets.length ≤ n →
        serveUpload sc n body = u.packets) := by
  have hsound := h.sound
  refine ⟨hsound.once, hsound.young, ?_, ?_, ?_⟩
  · intro u hu raw body n hraw hbody
    exact (hsound.uploads u hu).serve hraw hbody n
  · intro arrivals harrivals
    exact (serves_sublist hsound.uploads harrivals).trans hsound.once
  · intro u hcur hsane body n hbody hn
    exact (hsound.cur u hcur).serve_all hsane hbody hn

/-- A packet of the least size. -/
def barePacket (last : UInt8) : Packet := (⟨.zero, false⟩, 0x45 :: List.replicate 18 0 ++ [last])

/-- The second packet comes when the request is too old, so it goes into a new one; the write of the
third fails after a few bytes. The first two arrive, each from its own request. -/
theorem http_uplink_in_order_at_most_once_recycled :
    ∃ c history, HttpConnectOut.Run .none 10 c history ∧
      Pktbuf.committed history = [barePacket 1, barePacket 2, barePacket 3] ∧
      c.uploads.map Upload.packets = [[barePacket 1], [barePacket 2, barePacket 3]] ∧
      (c.uploads.flatMap fun u => serveUpload .none 3 ⟨[Chunked.available u.cw.out], false⟩) =
        [barePacket 1, barePacket 2] ∧
      (c.uploads.flatMap Upload.packets).Sublist (Pktbuf.committed history) := by
  have hrun : HttpConnectOut.Run .none 10 _ _ := Reached.init.play
    [.send ⟨0, 0, 1, 2⟩ (.opened (Vector.replicate 12 0) ⟨none, 0⟩) [] (barePacket 1),
      .send ⟨20, 20, 21, 22⟩ (.opened (Vector.replicate 12 0) ⟨none, 0⟩) [] (barePacket 2),
      .send ⟨25, 25, 25, 25⟩ (.failed "refused") [⟨none, 0⟩, ⟨some "broken pipe", 5⟩] (barePacket 3)]
    rfl
  exact ⟨_, _, hrun, rfl, rfl, by decide +kernel, (http_uplink_in_order_at_most_once hrun).1⟩

end Dualnet.Conn
