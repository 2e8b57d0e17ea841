import Dualnet.Cipher.Prefix

/-!
# A framed stream over a socket

The write half of a TCP connection as `conn/tcp.go` builds it: a frame writer over a `bufio.Writer`
over the socket. Frames are written one by one and then the buffer is flushed. The buffer also
drains when it is full, so a write that does not complete may have put any part of its bytes on the
wire; once the socket has failed, the buffer's error sticks and nothing is written any more.
-/

namespace Dualnet.Conn

open Cipher Wire

/-- `tcpWriteBufSize`. -/
def tcpWriteBufSize : Nat := 128 * 1024

/-- `streamWriteBatch`. -/
def streamWriteBatch : Nat := 64

/-- How the socket fares in a write: its error, if it fails, and how many bytes it takes if the
write does not complete. -/
structure Fate where
  fails : Option String
  taken : Nat

/-- The frame writer, the bytes the socket took and the error of the buffer. -/
structure FrameStream where
  obf : Cipher.Writer
  wire : Bytes
  err : Option String

/-- A fresh stream: the nonce waits in the buffer. -/
def FrameStream.new (sc : StreamCipher) (nonce : Vector UInt8 12) : FrameStream :=
  ⟨sc.wrapWriter nonce, [], none⟩

/-- Write frames until one fails. -/
def writeAll (w : Cipher.Writer) : List Bytes → Cipher.Writer × Option String
  | [] => (w, none)
  | p :: ps =>
    match w.writeFrame p with
    | .ok w' => writeAll w' ps
    | .error err => (w, some err)

/-- Write frames and flush the buffer. -/
def FrameStream.write (s : FrameStream) (fate : Fate) (frames : List Bytes) :
    FrameStream × Option String :=
  match s.err with
  | some err => (s, some err)
  | none =>
    let (w, tooLarge) := writeAll s.obf frames
    match fate.fails.or tooLarge with
    | none => ({ s with obf := w, wire := w.out }, none)
    | some err => (⟨w, w.out.take (s.wire.length + fate.taken), fate.fails⟩, some err)

/-- Writing until a frame fails writes the first of the frames, and all if none fails. -/
theorem writeAll_spec {α : Type} {f : α → Bytes} {w w' : Cipher.Writer} {packets : List α}
    {err : Option String} (h : writeAll w (packets.map f) = (w', err)) :
    ∃ done, done <+: packets ∧ w.writeFrames (done.map f) = .ok w' ∧
      (err = none → done = packets) := by
  induction packets generalizing w with
  | nil =>
    obtain ⟨rfl, rfl⟩ := Prod.mk.inj h
    exact ⟨[], List.nil_prefix, rfl, fun _ => rfl⟩
  | cons p packets ih =>
    rw [List.map_cons, writeAll] at h
    cases hfirst : w.writeFrame (f p) with
    | error err =>
      rw [hfirst] at h
      obtain ⟨rfl, rfl⟩ := Prod.mk.inj h
      exact ⟨[], List.nil_prefix, rfl, by simp⟩
    | ok w₁ =>
      rw [hfirst] at h
      obtain ⟨done, hdone, hwrite, hall⟩ := ih h
      refine ⟨p :: done, (List.prefix_cons_inj p).mpr hdone, ?_, fun hok => by rw [hall hok]⟩
      rw [List.map_cons, Cipher.Writer.writeFrames, List.foldlM_cons, hfirst]
      exact hwrite

namespace FrameStream

variable {sc : StreamCipher} {nonce : Vector UInt8 12} {s s' : FrameStream} {frames : List Bytes}

/-- The frame writer has written these frames after its nonce, and the wire has a prefix of the
bytes. -/
def Wrote (sc : StreamCipher) (nonce : Vector UInt8 12) (s : FrameStream) (frames : List Bytes) :
    Prop :=
  (sc.wrapWriter nonce).writeFrames frames = .ok s.obf ∧ s.wire <+: s.obf.out

/-- A fresh stream has written nothing. -/
theorem Wrote.new : (FrameStream.new sc nonce).Wrote sc nonce [] := ⟨rfl, List.nil_prefix⟩

/-- A write adds the first of its frames, and all of them if it does not fail. -/
theorem Wrote.write {α : Type} {f : α → Bytes} {views : List α} {fate : Fate}
    {err : Option String} (h : s.Wrote sc nonce frames)
    (hw : s.write fate (views.map f) = (s', err)) :
    ∃ done, done <+: views ∧ s'.Wrote sc nonce (frames ++ done.map f) ∧
      (err = none → done = views) := by
  cases herr : s.err with
  | some e =>
    simp only [FrameStream.write, herr] at hw
    obtain ⟨rfl, rfl⟩ := Prod.mk.inj hw
    exact ⟨[], List.nil_prefix, by simpa using h, by simp⟩
  | none =>
    obtain ⟨⟨w, tooLarge⟩, hall⟩ : ∃ r, writeAll s.obf (views.map f) = r := ⟨_, rfl⟩
    obtain ⟨done, hdone, hwrite, hcomplete⟩ := writeAll_spec hall
    have hframes : (sc.wrapWriter nonce).writeFrames (frames ++ done.map f) = .ok w := by
      rw [writeFrames_append h.1, hwrite]
    simp only [FrameStream.write, herr, hall] at hw
    refine ⟨done, hdone, ?_⟩
    split at hw
    · rename_i hfine
      obtain ⟨rfl, rfl⟩ := Prod.mk.inj hw
      exact ⟨⟨hframes, List.prefix_refl _⟩, fun _ => hcomplete (Option.or_eq_none_iff.mp hfine).2⟩
    · obtain ⟨rfl, rfl⟩ := Prod.mk.inj hw
      exact ⟨⟨hframes, List.take_prefix _ _⟩, by simp⟩

/-- Once the buffer has an error, nothing is written. -/
theorem write_of_err {err : String} (herr : s.err = some err) (fate : Fate) (frames : List Bytes) :
    s.write fate frames = (s, some err) := by
  simp [write, herr]

/-- A frame of an allowed size is written even if the socket fails, and the error of the write is
the one that sticks. -/
theorem Wrote.write_fitting {p : Bytes} {fate : Fate} {err : Option String}
    (h : s.Wrote sc nonce frames) (herr : s.err = none) (hfits : p.length ≤ maxPacket)
    (hw : s.write fate [p] = (s', err)) : s'.Wrote sc nonce (frames ++ [p]) ∧ s'.err = err := by
  obtain ⟨w, -, hframe, -⟩ := @frame_round_trip s.obf p hfits
  have hall : writeAll s.obf [p] = (w, none) := by simp [writeAll, hframe]
  have hframes : (sc.wrapWriter nonce).writeFrames (frames ++ [p]) = .ok w := by
    rw [writeFrames_append h.1, Cipher.Writer.writeFrames, List.foldlM_cons, hframe]
    rfl
  simp only [FrameStream.write, herr, hall, Option.or_none] at hw
  cases hfails : fate.fails with
  | none =>
    rw [hfails] at hw
    obtain ⟨rfl, rfl⟩ := Prod.mk.inj hw
    exact ⟨⟨hframes, List.prefix_refl _⟩, rfl⟩
  | some e =>
    rw [hfails] at hw
    obtain ⟨rfl, rfl⟩ := Prod.mk.inj hw
    exact ⟨⟨hframes, List.take_prefix _ _⟩, rfl⟩

end FrameStream

end Dualnet.Conn
