import Dualnet.Conn.FrameStream
import Dualnet.Library.ChunkedCoding

/-!
# The upload body

`chunkedWriter` of `conn/http.go`, and the frames an `httpConnectOut` writes through it: the
cipher's writer wraps the chunked writer, so what it writes in one call is one chunk. A frame over
the plain writer is two calls, its length and its bytes, of which the second may be empty.

`upload_body_chunked` is the result: the body has exactly one reading as chunks, which gives back
the bytes written and never ends; frames are read back from it under either cipher.
-/

namespace Dualnet.Conn

open Cipher Library Wire

/-- `chunkedWriter`, with the bytes its connection took. -/
structure ChunkedWriter where
  out : Bytes

/-- `chunkedWriter.Write`, with the number of bytes it reports. -/
def ChunkedWriter.write (c : ChunkedWriter) (fate : Fate) (p : Bytes) :
    ChunkedWriter × Except String Nat :=
  if p.length = 0 then (c, .ok 0)
  else
    let buf := Chunked.hexDigits p.length ++ [13, 10] ++ p ++ [13, 10]
    match fate.fails with
    | some err => (⟨c.out ++ buf.take fate.taken⟩, .error err)
    | none => (⟨c.out ++ buf⟩, .ok p.length)

/-- What the connection gets from writes that succeed. -/
def emitted (writes : List Bytes) : Bytes :=
  (writes.foldl (fun c p => (c.write ⟨none, 0⟩ p).1) (⟨[]⟩ : ChunkedWriter)).out

/-- The calls of `Write` that `WrapWriter` makes. -/
def wrapCalls (nonce : Vector UInt8 12) : StreamCipher → List Bytes
  | .none => []
  | .chacha4 _ _ => [nonce.toList]

/-- The calls of `Write` that `WriteFrame` makes. -/
def frameCalls (p : Bytes) : Cipher.Writer → List Bytes
  | .plain _ => [putUint16 (UInt16.ofNat p.length), p]
  | .chacha4 o => [(o.frame p).1]

/-- The calls of `Write` for frames until one fails. -/
def framesCalls (w : Cipher.Writer) : List Bytes → List Bytes
  | [] => []
  | p :: ps =>
    match w.writeFrame p with
    | .ok w' => frameCalls p w ++ framesCalls w' ps
    | .error _ => []

/-- The body of an upload that carries these packets. -/
def uploadBody (sc : StreamCipher) (nonce : Vector UInt8 12) (packets : List Bytes) : Bytes :=
  emitted (wrapCalls nonce sc ++ framesCalls (sc.wrapWriter nonce) packets)

/-! ## Chunks -/

/-- A write adds one chunk, or nothing. -/
theorem ChunkedWriter.write_chunks {c : ChunkedWriter} {datas : List Bytes}
    (h : Chunked.Chunks c.out datas) (p : Bytes) :
    Chunked.Chunks (c.write ⟨none, 0⟩ p).1.out (datas ++ [p].filter (!·.isEmpty)) := by
  unfold ChunkedWriter.write
  cases p with
  | nil => simpa using h
  | cons b p =>
    have hchunk : Chunked.Chunks (Chunked.encode (b :: p) ++ []) [b :: p] :=
      .cons (Chunked.chunk_encode (by simp)) .nil
    rw [List.append_nil] at hchunk
    exact h.append hchunk

/-- A write that fails leaves a part of its chunk. -/
theorem ChunkedWriter.write_fails (c : ChunkedWriter) (fate : Fate) (p : Bytes) :
    c.out <+: (c.write fate p).1.out ∧
      (c.write fate p).1.out <+: (c.write ⟨none, 0⟩ p).1.out := by
  unfold ChunkedWriter.write
  split
  · exact ⟨List.prefix_rfl, List.prefix_rfl⟩
  · cases fate.fails with
    | none => exact ⟨List.prefix_append _ _, List.prefix_rfl⟩
    | some err =>
      exact ⟨List.prefix_append _ _,
        (List.prefix_append_right_inj _).mpr (List.take_prefix _ _)⟩

/-- What is emitted are the chunks of the writes that are not empty. -/
theorem chunks_emitted (writes : List Bytes) :
    Chunked.Chunks (emitted writes) (writes.filter (!·.isEmpty)) := by
  induction writes using List.reverseRecOn with
  | nil => exact .nil
  | append_singleton writes p ih =>
    rw [List.filter_append]
    simpa [emitted] using ChunkedWriter.write_chunks ih p

/-! ## Frames -/

/-- The calls of a frame write its bytes. -/
theorem out_writeFrame {w w' : Cipher.Writer} {p : Bytes} (h : w.writeFrame p = .ok w') :
    w'.out = w.out ++ (frameCalls p w).flatten := by
  unfold Cipher.Writer.writeFrame at h
  split at h
  · cases h
  split at h
  · obtain rfl := Except.ok.inj h
    simp [frameCalls, Cipher.Writer.out, Wire.writeFrame]
  · obtain rfl := Except.ok.inj h
    simp [frameCalls, Cipher.Writer.out, Chacha4Writer.writeFrame]

/-- The calls of frames write their bytes. -/
theorem out_writeFrames {w w' : Cipher.Writer} {packets : List Bytes}
    (h : w.writeFrames packets = .ok w') :
    w'.out = w.out ++ (framesCalls w packets).flatten := by
  induction packets generalizing w with
  | nil =>
    obtain rfl := Except.ok.inj h
    simp [framesCalls]
  | cons p packets ih =>
    rw [Cipher.Writer.writeFrames, List.foldlM_cons, bind_eq_ok] at h
    obtain ⟨w₁, hfirst, hrest⟩ := h
    rw [ih hrest, out_writeFrame hfirst, framesCalls, hfirst]
    simp

/-- What a fresh writer has written. -/
theorem out_wrapWriter (sc : StreamCipher) (nonce : Vector UInt8 12) :
    (sc.wrapWriter nonce).out = (wrapCalls nonce sc).flatten := by
  cases sc <;> simp [StreamCipher.wrapWriter, wrapCalls, Cipher.Writer.out]

/-- Empty strings add nothing. -/
theorem flatten_filter_nonempty (writes : List Bytes) :
    (writes.filter (!·.isEmpty)).flatten = writes.flatten := by
  induction writes with
  | nil => rfl
  | cons p writes ih => cases p <;> simp [ih]

/-- The body of an upload is well-formed: its only reading as chunks is that of the writes that are
not empty, it gives back the bytes that were written, and no last chunk stands anywhere in it. The
frames of any packets are read back from it, through either cipher. -/
theorem upload_body_chunked :
    (∀ writes : List Bytes,
      (∀ datas, Chunked.Chunks (emitted writes) datas ↔ datas = writes.filter (!·.isEmpty)) ∧
      (Chunked.decode (emitted writes)).1.flatten = writes.flatten ∧
      (Chunked.decode (emitted writes)).2 = .pending ∧
      ∀ text last rest datas, emitted writes = text ++ (last ++ rest) →
        Chunked.Chunks text datas → ¬ Chunked.LastChunk last) ∧
    ∀ (sc : StreamCipher) (nonce : Vector UInt8 12) (packets : List Bytes) (bufLen : Nat),
      (∀ p ∈ packets, p.length ≤ maxPacket) → maxPacket ≤ bufLen →
      ∀ src : Source, src.bytes = (Chunked.decode (uploadBody sc nonce packets)).1.flatten →
        ∃ r r', sc.wrapReader src = .ok r ∧
          Cipher.Reader.readFrames bufLen packets.length r = .ok (packets, r') ∧
          r'.src.bytes = [] := by
  have hdecode : ∀ writes, Chunked.decode (emitted writes) =
      (writes.filter (!·.isEmpty), .pending) := fun writes =>
    Chunked.decode_chunks (chunks_emitted writes)
  refine ⟨fun writes => ⟨fun datas => ⟨fun h => ?_, ?_⟩, ?_, ?_, ?_⟩, ?_⟩
  · have hread := Chunked.decode_chunks h
    rw [hdecode] at hread
    exact (Prod.mk.inj hread).1.symm
  · rintro rfl
    exact chunks_emitted writes
  · rw [hdecode, flatten_filter_nonempty]
  · rw [hdecode]
  · intro text last rest datas hsplit hchunks hlast
    have hread := Chunked.decode_last hchunks hlast rest
    rw [← hsplit, hdecode] at hread
    exact absurd (Prod.mk.inj hread).2 (by simp)
  · intro sc nonce packets bufLen hp hbuf src hsrc
    obtain ⟨w, sent, hwrite, hout, hread⟩ := @frames_round_trip packets (sc.wrapWriter nonce) hp
    have hbody : src.bytes = w.out := by
      rw [hsrc, uploadBody, hdecode, flatten_filter_nonempty, List.flatten_append,
        out_writeFrames hwrite, out_wrapWriter]
    obtain ⟨r, hwrap, hbytes, hmirrors⟩ := wrapReader_mirrors sc nonce (hbody.trans hout)
    obtain ⟨r', hr', hleft, -⟩ := hread r [] bufLen hmirrors hbuf (by rw [hbytes, List.append_nil])
    exact ⟨r, r', hwrap, hr', hleft⟩

/-- An empty packet and one that looks like the end of a body, over the plain writer. -/
theorem upload_body_chunked_plain :
    ∀ src : Source, src.bytes =
        (Chunked.decode (uploadBody .none (Vector.replicate 12 0) [[], [48, 13, 10]])).1.flatten →
      ∃ r r', StreamCipher.none.wrapReader src = .ok r ∧
        Cipher.Reader.readFrames 65535 2 r = .ok ([[], [48, 13, 10]], r') ∧ r'.src.bytes = [] :=
  upload_body_chunked.2 .none (Vector.replicate 12 0) [[], [48, 13, 10]] 65535 (by decide)
    (by decide)

end Dualnet.Conn
