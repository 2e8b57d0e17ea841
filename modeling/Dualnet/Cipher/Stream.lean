import Dualnet.Cipher.ChaCha4
import Dualnet.Library.Checks
import Dualnet.Wire.Framing

/-!
# The stream ciphers

`cipher/cipher.go`, the stream halves of `cipher/chacha4.go` and `cipher/none.go`, and the
frame calls of `wire/framing.go` that delegate to them. A writer accumulates what it has sent;
a reader holds what it will receive. `stream_round_trip` is the carrier's contract: frames
written through one end are read back through the other, whatever the chunking.
-/

namespace Dualnet.Cipher

open Library Text Wire

/-- `minObfsHead`. -/
def minObfsHead : Int := 16

/-- The ciphers a selector can name. -/
inductive Base where
  | none
  | chacha4
  deriving DecidableEq

/-- `ParseName`: the base and the partial-obfuscation head of a selector. -/
def parseName (name : String) : Except String (Base × Int) :=
  let (base, rest, hasHead) := cut name ':'
  if base = "" ∨ base = "none" then
    if hasHead then .error s!"cipher: {quote name} takes no :head" else .ok (.none, 0)
  else if base ≠ "chacha4" then .error s!"cipher: unknown cipher {quote name}"
  else if !hasHead then .ok (.chacha4, 0)
  else match atoi rest with
    | some head =>
      if head < minObfsHead then
        .error s!"cipher: {quote name}: head must be an integer >= {minObfsHead}"
      else .ok (.chacha4, head)
    | none => .error s!"cipher: {quote name}: head must be an integer >= {minObfsHead}"

/-- A stream cipher: the identity, or chacha4 with its key and head. -/
inductive StreamCipher where
  | none
  | chacha4 (key : Vector UInt8 32) (head : Int)

/-- `streamObfsLen`: how many of a frame's `n` payload bytes are XORed. -/
def streamObfsLen (head : Int) (n : Nat) : Nat :=
  if 0 < head ∧ head < n then head.toNat else n

/-- `chacha4Writer`. -/
structure Chacha4Writer where
  out : Bytes
  c : Chacha4
  head : Int

/-- The frame `dst` that `WriteFrame` builds in its scratch: the length and the head of the
payload XORed, the tail clear. -/
def Chacha4Writer.frame (o : Chacha4Writer) (p : Bytes) : Bytes × Chacha4 :=
  let (hdr, c) := o.c.xorKeyStream (putUint16 (UInt16.ofNat p.length))
  let m := streamObfsLen o.head p.length
  let (body, c) := c.xorKeyStream (p.take m)
  (hdr ++ body ++ p.drop m, c)

/-- `chacha4Writer.WriteFrame`. -/
def Chacha4Writer.writeFrame (o : Chacha4Writer) (p : Bytes) : Chacha4Writer :=
  { o with out := o.out ++ (o.frame p).1, c := (o.frame p).2 }

/-- `chacha4Reader`. -/
structure Chacha4Reader where
  src : Source
  c : Chacha4
  head : Int

/-- `chacha4Reader.ReadFrame` into a buffer of `bufLen` bytes. -/
def Chacha4Reader.readFrame (o : Chacha4Reader) (bufLen : Nat) :
    Except ReadError (Bytes × Chacha4Reader) := do
  if bufLen < 2 then .error .shortBuffer
  else
    let (hdr, src) ← readFull o.src 2
    let (hdr, c) := o.c.xorKeyStream hdr
    let n := (uint16 hdr).toNat
    if bufLen < n then .error .shortBuffer
    else
      let (payload, src) ← readFull src n
      let m := streamObfsLen o.head n
      let (body, c) := c.xorKeyStream (payload.take m)
      .ok (body ++ payload.drop m, { o with src := src, c := c })

/-- The writers `WrapWriter` returns. -/
inductive Writer where
  | plain (out : Bytes)
  | chacha4 (o : Chacha4Writer)

/-- The readers `WrapReader` returns. -/
inductive Reader where
  | plain (src : Source)
  | chacha4 (o : Chacha4Reader)

/-- What was written so far. -/
def Writer.out : Writer → Bytes
  | .plain out => out
  | .chacha4 o => o.out

/-- The underlying reader. -/
def Reader.src : Reader → Source
  | .plain src => src
  | .chacha4 o => o.src

/-- Where the keystream stands, if there is one. -/
def Writer.position : Writer → Option (UInt32 × Nat)
  | .plain _ => none
  | .chacha4 o => some o.c.position

/-- Where the keystream stands, if there is one. -/
def Reader.position : Reader → Option (UInt32 × Nat)
  | .plain _ => none
  | .chacha4 o => some o.c.position

/-- `WrapWriter` on a fresh writer; the nonce is drawn at random. -/
def StreamCipher.wrapWriter (nonce : Vector UInt8 12) : StreamCipher → Writer
  | .none => .plain []
  | .chacha4 key head => .chacha4 ⟨nonce.toList, newChacha4Cipher key nonce.toList, head⟩

/-- `WrapReader`. -/
def StreamCipher.wrapReader (src : Source) : StreamCipher → Except ReadError Reader
  | .none => .ok (.plain src)
  | .chacha4 key head => do
    let (nonce, src) ← readFull src chachaNonceLen
    pure (.chacha4 ⟨src, newChacha4Cipher key nonce, head⟩)

/-- `wire.WriteFrame`: a frame writer writes the frame itself. -/
def Writer.writeFrame (w : Writer) (p : Bytes) : Except String Writer :=
  if maxPacket < p.length then
    .error s!"wire: packet too large ({p.length} > {maxPacket})"
  else match w with
    | .plain out => .ok (.plain (Wire.writeFrame out p))
    | .chacha4 o => .ok (.chacha4 (o.writeFrame p))

/-- `wire.ReadFrame`: a frame reader reads the frame itself. -/
def Reader.readFrame (r : Reader) (bufLen : Nat) : Except ReadError (Bytes × Reader) :=
  match r with
  | .plain src => (Wire.readFrame src bufLen).map fun (p, src) => (p, .plain src)
  | .chacha4 o => (o.readFrame bufLen).map fun (p, o) => (p, .chacha4 o)

/-- Write packets in order. -/
def Writer.writeFrames (w : Writer) (packets : List Bytes) : Except String Writer :=
  packets.foldlM Writer.writeFrame w

/-- Read `n` packets in order. -/
def Reader.readFrames (bufLen : Nat) : Nat → Reader → Except ReadError (List Bytes × Reader)
  | 0, r => .ok ([], r)
  | n + 1, r => do
    let (p, r) ← r.readFrame bufLen
    let (ps, r) ← readFrames bufLen n r
    pure (p :: ps, r)

/-! ## Both ends stay in step -/

/-- Two ciphers whose unused keystreams and positions agree. -/
structure InStep (c d : Chacha4) : Prop where
  keystream : c.keystream = d.keystream
  position : c.position = d.position

/-- Ciphers in step, given inputs of one length, stay in step. -/
theorem InStep.xorKeyStream {c d : Chacha4} (h : InStep c d) {src src' : Bytes}
    (hlen : src.length = src'.length) :
    InStep (c.xorKeyStream src).2 (d.xorKeyStream src').2 := by
  obtain ⟨hc, hcpos⟩ := c.xorKeyStream_spec src
  obtain ⟨hd, hdpos⟩ := d.xorKeyStream_spec src'
  constructor
  · rw [hc.next, hd.next, h.keystream, hlen]
  · rw [hcpos, hdpos, h.position, hlen]

/-- A cipher in step undoes the other's XOR. -/
theorem InStep.xorKeyStream_undo {c d : Chacha4} (h : InStep c d) (src : Bytes) :
    (d.xorKeyStream (c.xorKeyStream src).1).1 = src := by
  rw [(d.xorKeyStream_spec _).1.out_eq, (c.xorKeyStream_spec src).1.out_eq, h.keystream,
    xorWith_xorWith]

/-- `XORKeyStream` keeps the length. -/
@[simp] theorem length_xorKeyStream (c : Chacha4) (src : Bytes) :
    (c.xorKeyStream src).1.length = src.length := by
  rw [(c.xorKeyStream_spec src).1.out_eq, length_xorWith]

/-- A writer and a reader of one stream: the same cipher, in step. -/
inductive Mirrors : Writer → Reader → Prop where
  | plain (out : Bytes) (src : Source) : Mirrors (.plain out) (.plain src)
  | chacha4 {o : Chacha4Writer} {o' : Chacha4Reader} (head : o.head = o'.head)
      (step : InStep o.c o'.c) : Mirrors (.chacha4 o) (.chacha4 o')

/-- Mirrored ends stand at one position. -/
theorem Mirrors.position {w : Writer} {r : Reader} (h : Mirrors w r) : w.position = r.position := by
  cases h with
  | plain => rfl
  | chacha4 _ step => exact congrArg some step.position

/-- The obfuscated span lies inside the payload. -/
theorem streamObfsLen_le (head : Int) (n : Nat) : streamObfsLen head n ≤ n := by
  unfold streamObfsLen
  split <;> omega

/-- A chacha4 frame reads back through a reader in step, and leaves it in step. -/
theorem chacha4_frame {o : Chacha4Writer} {o' : Chacha4Reader} {p rest : Bytes} {bufLen : Nat}
    (hp : p.length ≤ maxPacket) (hbuf : maxPacket ≤ bufLen) (hhead : o.head = o'.head)
    (hstep : InStep o.c o'.c) (hbytes : o'.src.bytes = (o.frame p).1 ++ rest) :
    ∃ o'', o'.readFrame bufLen = .ok (p, o'') ∧ o''.src.bytes = rest ∧ o.head = o''.head ∧
      InStep (o.frame p).2 o''.c := by
  have hm := streamObfsLen_le o.head p.length
  -- The writer's header `hdr` and body `body`, and the cipher `c` between them.
  obtain ⟨hdr, hhdr⟩ : ∃ hdr, (o.c.xorKeyStream (putUint16 (UInt16.ofNat p.length))).1 = hdr :=
    ⟨_, rfl⟩
  obtain ⟨c, hc⟩ : ∃ c, (o.c.xorKeyStream (putUint16 (UInt16.ofNat p.length))).2 = c := ⟨_, rfl⟩
  obtain ⟨m, hspan⟩ : ∃ m, streamObfsLen o.head p.length = m := ⟨_, rfl⟩
  obtain ⟨body, hbody⟩ : ∃ body, (c.xorKeyStream (p.take m)).1 = body := ⟨_, rfl⟩
  have hframe : o.frame p = (hdr ++ body ++ p.drop m, (c.xorKeyStream (p.take m)).2) := by
    rw [← hbody, ← hspan, ← hc, ← hhdr]
    rfl
  rw [hspan] at hm
  have hhdr2 : hdr.length = 2 := by
    rw [← hhdr, length_xorKeyStream]
    rfl
  have hbodym : body.length = m := by
    rw [← hbody, length_xorKeyStream, List.length_take]
    omega
  have hlength : (body ++ p.drop m).length = p.length := by
    rw [List.length_append, hbodym, List.length_drop]
    omega
  have hclear : (o'.c.xorKeyStream hdr).1 = putUint16 (UInt16.ofNat p.length) := by
    rw [← hhdr]
    exact hstep.xorKeyStream_undo _
  have hstep' : InStep c (o'.c.xorKeyStream hdr).2 := by
    rw [← hc, ← hhdr]
    exact hstep.xorKeyStream (length_xorKeyStream _ _).symm
  have hplain : ((o'.c.xorKeyStream hdr).2.xorKeyStream body).1 = p.take m := by
    rw [← hbody]
    exact hstep'.xorKeyStream_undo _
  obtain ⟨src, hread, hsrc⟩ : ∃ src, readFull o'.src 2 = .ok (hdr, src) ∧
      src.bytes = (body ++ p.drop m) ++ rest := by
    rw [← hhdr2]
    exact readFull_ok (by rw [hbytes, hframe]; simp only [List.append_assoc])
  obtain ⟨src', hread', hsrc'⟩ : ∃ src', readFull src p.length = .ok (body ++ p.drop m, src') ∧
      src'.bytes = rest := by
    rw [← hlength]
    exact readFull_ok hsrc
  refine ⟨⟨src', ((o'.c.xorKeyStream hdr).2.xorKeyStream body).2, o'.head⟩, ?_, hsrc', hhead, ?_⟩
  · have hbuf2 : ¬ bufLen < 2 := Nat.not_lt.mpr (le_trans (by decide) hbuf)
    have hfits : ¬ bufLen < p.length := Nat.not_lt.mpr (le_trans hp hbuf)
    simp only [Chacha4Reader.readFrame, if_neg hbuf2, hread, hclear, uint16_length hp,
      if_neg hfits, hread', ← hhead, hspan, List.take_left' hbodym, List.drop_left' hbodym, hplain,
      bind, Except.bind, List.take_append_drop]
  · rw [hframe, ← hbody]
    exact hstep'.xorKeyStream (length_xorKeyStream _ _).symm

/-- A plain frame reads back. -/
theorem plain_frame {src : Source} {p rest : Bytes} {bufLen : Nat} (hp : p.length ≤ maxPacket)
    (hbuf : maxPacket ≤ bufLen)
    (hbytes : src.bytes = putUint16 (UInt16.ofNat p.length) ++ p ++ rest) :
    ∃ src', Wire.readFrame src bufLen = .ok (p, src') ∧ src'.bytes = rest := by
  rw [List.append_assoc] at hbytes
  obtain ⟨src₁, hread, hsrc⟩ := readFull_ok hbytes
  obtain ⟨src', hread', hsrc'⟩ := readFull_ok hsrc
  refine ⟨src', ?_, hsrc'⟩
  have hbuf2 : ¬ bufLen < 2 := Nat.not_lt.mpr (le_trans (by decide) hbuf)
  have hfits : ¬ bufLen < p.length := Nat.not_lt.mpr (le_trans hp hbuf)
  have hhdr : readFull src 2 = .ok (putUint16 (UInt16.ofNat p.length), src₁) := hread
  simp only [Wire.readFrame, if_neg hbuf2, hhdr, uint16_length hp, if_neg hfits, hread', bind,
    Except.bind]

/-- One frame: writing it succeeds and appends some bytes; a mirrored reader that finds these
bytes next returns the packet and mirrors the writer again. -/
theorem frame_round_trip {w : Writer} {p : Bytes} (hp : p.length ≤ maxPacket) :
    ∃ w' frame, w.writeFrame p = .ok w' ∧ w'.out = w.out ++ frame ∧
      ∀ (r : Reader) (rest : Bytes) (bufLen : Nat), Mirrors w r → maxPacket ≤ bufLen →
        r.src.bytes = frame ++ rest →
        ∃ r', r.readFrame bufLen = .ok (p, r') ∧ r'.src.bytes = rest ∧ Mirrors w' r' := by
  have hsize : ¬ maxPacket < p.length := Nat.not_lt.mpr hp
  cases w with
  | plain out =>
    refine ⟨.plain (Wire.writeFrame out p), putUint16 (UInt16.ofNat p.length) ++ p, ?_, ?_, ?_⟩
    · simp only [Writer.writeFrame, if_neg hsize]
    · simp [Writer.out, Wire.writeFrame]
    · intro r rest bufLen hmirrors hbuf hbytes
      cases hmirrors with
      | plain _ src =>
        obtain ⟨src', hread, hleft⟩ := plain_frame hp hbuf hbytes
        refine ⟨.plain src', ?_, hleft, .plain _ _⟩
        have hread' : Wire.readFrame src bufLen = .ok (p, src') := hread
        simp [Reader.readFrame, hread', Except.map]
  | chacha4 o =>
    refine ⟨.chacha4 (o.writeFrame p), (o.frame p).1, ?_, rfl, ?_⟩
    · simp only [Writer.writeFrame, if_neg hsize]
    · intro r rest bufLen hmirrors hbuf hbytes
      cases hmirrors with
      | @chacha4 _ o' hhead hstep =>
        obtain ⟨o'', hread, hleft, hhead', hstep'⟩ := chacha4_frame hp hbuf hhead hstep hbytes
        refine ⟨.chacha4 o'', ?_, hleft, .chacha4 hhead' hstep'⟩
        simp [Reader.readFrame, hread, Except.map]

/-- A run of frames, by induction on the packets. -/
theorem frames_round_trip {packets : List Bytes} {w : Writer}
    (hp : ∀ p ∈ packets, p.length ≤ maxPacket) :
    ∃ w' sent, w.writeFrames packets = .ok w' ∧ w'.out = w.out ++ sent ∧
      ∀ (r : Reader) (rest : Bytes) (bufLen : Nat), Mirrors w r → maxPacket ≤ bufLen →
        r.src.bytes = sent ++ rest →
        ∃ r', Reader.readFrames bufLen packets.length r = .ok (packets, r') ∧
          r'.src.bytes = rest ∧ Mirrors w' r' := by
  induction packets generalizing w with
  | nil =>
    refine ⟨w, [], rfl, by simp, fun r rest bufLen hmirrors _ hbytes => ?_⟩
    exact ⟨r, rfl, hbytes, hmirrors⟩
  | cons p packets ih =>
    obtain ⟨w₁, frame, hwrite, hout, hread⟩ := @frame_round_trip w p (hp p List.mem_cons_self)
    obtain ⟨w', sent, hwrites, houts, hreads⟩ :=
      @ih w₁ fun q hq => hp q (List.mem_cons_of_mem p hq)
    refine ⟨w', frame ++ sent, ?_, by rw [houts, hout, List.append_assoc], ?_⟩
    · rw [Writer.writeFrames, List.foldlM_cons, hwrite]
      exact hwrites
    · intro r rest bufLen hmirrors hbuf hbytes
      rw [List.append_assoc] at hbytes
      obtain ⟨r₁, hr₁, hleft₁, hmirrors₁⟩ := hread r _ bufLen hmirrors hbuf hbytes
      obtain ⟨r', hr', hleft, hmirrors'⟩ := hreads r₁ rest bufLen hmirrors₁ hbuf hleft₁
      refine ⟨r', ?_, hleft, hmirrors'⟩
      simp only [List.length_cons, Reader.readFrames, hr₁, hr', bind, Except.bind, pure,
        Except.pure]

/-- A reader wrapped around a writer's output mirrors the writer, with the nonce consumed. -/
theorem wrapReader_mirrors (sc : StreamCipher) (nonce : Vector UInt8 12) {src : Source}
    {sent : Bytes} (hbytes : src.bytes = (sc.wrapWriter nonce).out ++ sent) :
    ∃ r, sc.wrapReader src = .ok r ∧ r.src.bytes = sent ∧ Mirrors (sc.wrapWriter nonce) r := by
  cases sc with
  | none => exact ⟨.plain src, rfl, hbytes, .plain _ _⟩
  | chacha4 key head =>
    have hlength : nonce.toList.length = chachaNonceLen := nonce.length_toList
    obtain ⟨src', hread, hleft⟩ := readFull_ok hbytes
    refine ⟨.chacha4 ⟨src', newChacha4Cipher key nonce.toList, head⟩, ?_, hleft,
      .chacha4 rfl ⟨rfl, rfl⟩⟩
    have hnonce : readFull src chachaNonceLen = .ok (nonce.toList, src') := by
      rw [← hlength]
      exact hread
    simp only [StreamCipher.wrapReader, hnonce, bind, Except.bind, pure, Except.pure]

/-- Frames written through a stream cipher, of any head, are read back in order through its
other end, whatever the chunking of the reader; all bytes are consumed, and after every frame
both ends stand at the same keystream position. -/
theorem stream_round_trip (sc : StreamCipher) (nonce : Vector UInt8 12) {packets : List Bytes}
    (hp : ∀ p ∈ packets, p.length ≤ maxPacket) {bufLen : Nat} (hbuf : maxPacket ≤ bufLen) :
    ∃ w, (sc.wrapWriter nonce).writeFrames packets = .ok w ∧
      ∀ src : Source, src.bytes = w.out → ∃ r, sc.wrapReader src = .ok r ∧
        (∃ r', Reader.readFrames bufLen packets.length r = .ok (packets, r') ∧
          r'.src.bytes = []) ∧
        ∀ k ≤ packets.length, ∃ wₖ rₖ,
          (sc.wrapWriter nonce).writeFrames (packets.take k) = .ok wₖ ∧
          Reader.readFrames bufLen k r = .ok (packets.take k, rₖ) ∧
          wₖ.position = rₖ.position := by
  obtain ⟨w, sent, hwrite, hout, hread⟩ := @frames_round_trip packets (sc.wrapWriter nonce) hp
  refine ⟨w, hwrite, fun src hsrc => ?_⟩
  obtain ⟨r, hwrap, hbytes, hmirrors⟩ := wrapReader_mirrors sc nonce (hsrc.trans hout)
  refine ⟨r, hwrap, ?_, fun k hk => ?_⟩
  · obtain ⟨r', hr', hleft, -⟩ := hread r [] bufLen hmirrors hbuf (by rw [hbytes, List.append_nil])
    exact ⟨r', hr', hleft⟩
  · -- Writing all the packets is writing the first `k` and then the others.
    obtain ⟨wₖ, sentₖ, hwriteₖ, houtₖ, hreadₖ⟩ := @frames_round_trip (packets.take k)
      (sc.wrapWriter nonce) fun p hmem => hp p (List.mem_of_mem_take hmem)
    obtain ⟨w', more, hmore, hout', -⟩ := @frames_round_trip (packets.drop k) wₖ
      fun p hmem => hp p (List.mem_of_mem_drop hmem)
    have hsame : w' = w := by
      have hall : (sc.wrapWriter nonce).writeFrames (packets.take k ++ packets.drop k) = .ok w' := by
        rw [Writer.writeFrames, List.foldlM_append]
        rw [Writer.writeFrames] at hwriteₖ hmore
        rw [hwriteₖ]
        exact hmore
      rw [List.take_append_drop, hwrite] at hall
      exact (Except.ok.inj hall).symm
    have hsent : sent = sentₖ ++ more := by
      rw [hsame, houtₖ, List.append_assoc, hout] at hout'
      exact List.append_cancel_left hout'
    obtain ⟨rₖ, hrₖ, -, hmirrorsₖ⟩ := hreadₖ r more bufLen hmirrors hbuf (by rw [hbytes, hsent])
    rw [List.length_take_of_le hk] at hrₖ
    exact ⟨wₖ, rₖ, hwriteₖ, hrₖ, hmirrorsₖ.position⟩

/-- An empty packet and a short one under a partly obfuscating cipher. -/
theorem stream_round_trip_short : ∃ w, ((StreamCipher.chacha4 (Vector.replicate 32 7) 16).wrapWriter
      (Vector.replicate 12 1)).writeFrames [[], [0x45, 0, 0]] = .ok w ∧
    ∀ src : Source, src.bytes = w.out → ∃ r,
      (StreamCipher.chacha4 (Vector.replicate 32 7) 16).wrapReader src = .ok r ∧
      ∃ r', Reader.readFrames 65535 2 r = .ok ([[], [0x45, 0, 0]], r') ∧ r'.src.bytes = [] := by
  have hp : ∀ p ∈ [[], [0x45, 0, 0]], List.length (α := UInt8) p ≤ maxPacket := by decide
  have hbuf : maxPacket ≤ 65535 := by decide
  obtain ⟨w, hw, hall⟩ := stream_round_trip (.chacha4 (Vector.replicate 32 7) 16)
    (Vector.replicate 12 1) hp hbuf
  refine ⟨w, hw, fun src hsrc => ?_⟩
  obtain ⟨r, hr, hread, -⟩ := hall src hsrc
  exact ⟨r, hr, hread⟩

end Dualnet.Cipher
