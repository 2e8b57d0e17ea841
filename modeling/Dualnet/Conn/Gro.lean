import Dualnet.Library.Spans
import Dualnet.Wire.Envelope

/-!
# Receive offload

`conn/udp.go` and `conn/udp_gro_linux.go`: the kernel may hand over a run of datagrams of equal
size as one read, with the size in a control message, and `splitGRO` publishes each datagram as a
view into the buffer that was read into. A batch is its first slot and the views published so far.

`splitGRO_spec` is the result: what the kernel joined is taken apart again, and whatever size it
reports, the views tile the bytes that were read.
-/

namespace Dualnet.Conn

open Library Wire

/-- `pktbuf.Batch`, with the one slot a datagram is read into. -/
structure Batch where
  buf : Bytes
  views : List Span

/-- `Batch.Add`. -/
def Batch.add (b : Batch) (view : Span) : Batch := { b with views := b.views ++ [view] }

/-- The length of the datagram at `off`. -/
def datagramLen (n : Nat) (segSize : Int) (off : Nat) : Nat :=
  let dlen := n - off
  if 0 < segSize ∧ segSize < dlen then segSize.toNat else dlen

/-- Every datagram has a byte. -/
theorem datagramLen_pos {n off : Nat} (segSize : Int) (h : off < n) :
    0 < datagramLen n segSize off := by
  unfold datagramLen
  dsimp only
  split <;> omega

/-- No more than is left. -/
theorem datagramLen_le (n : Nat) (segSize : Int) (off : Nat) :
    datagramLen n segSize off ≤ n - off := by
  unfold datagramLen
  dsimp only
  split <;> omega

/-- The loop of `splitGRO`. Every round moves on by at least one byte. -/
def splitLoop (n : Nat) (segSize : Int) (b : Batch) (off added : Nat) : Batch × Nat :=
  if off < n then
    splitLoop n segSize (b.add ⟨off, datagramLen n segSize off⟩)
      (off + datagramLen n segSize off) (added + 1)
  else (b, added)
termination_by n - off
decreasing_by
  have := datagramLen_pos segSize ‹off < n›
  omega

/-- `splitGRO`, with the number of views published. -/
def splitGRO (b : Batch) (n : Nat) (segSize : Int) : Batch × Nat := splitLoop n segSize b 0 0

/-- A control message; `level` and `type` are those of its header. -/
structure ControlMessage where
  level : Int
  type : Int
  data : Bytes

/-- `unix.IPPROTO_UDP` and `unix.UDP_GRO`. -/
def ipprotoUDP : Int := 17
def udpGRO : Int := 104

/-- `groSegSize` on the parsed control messages, none if they do not parse. `uint32` is
`binary.NativeEndian.Uint32`; its result is converted to a signed integer of 32 bits. -/
def groSegSize (uint32 : Bytes → UInt32) (msgs : Option (List ControlMessage)) : Int :=
  match (msgs.getD []).find? fun m =>
      m.level == ipprotoUDP && m.type == udpGRO && 4 ≤ m.data.length with
  | some m => (uint32 m.data).toBitVec.toInt
  | none => 0

/-- What one receive call gets: the bytes, and the control messages of a UDP socket. -/
structure Received where
  data : Bytes
  control : Option (List ControlMessage)

/-- `readGRO`, when the receive call succeeds. -/
def readGRO (uint32 : Bytes → UInt32) (udpConn : Bool) (r : Received) : Bytes × Int :=
  (r.data, if udpConn then groSegSize uint32 r.control else 0)

/-- The loop of the `fill` functions, over what the receive calls that succeed get. A read
without bytes is followed by another one. -/
def fill (uint32 : Bytes → UInt32) (udpConn : Bool) (b : Batch) :
    List Received → Option (Batch × List Received)
  | [] => none
  | r :: rs =>
    let (data, segSize) := readGRO uint32 udpConn r
    let b := { b with buf := data ++ b.buf.drop data.length }
    let (b, added) := splitGRO b data.length segSize
    if added = 0 then fill uint32 udpConn b rs else some (b, rs)

/-! ## The views -/

/-- The loop publishes views that tile the rest of the bytes. -/
theorem splitLoop_tiles {n : Nat} (segSize : Int) (b : Batch) {off : Nat} (added : Nat)
    (h : off ≤ n) : ∃ views, splitLoop n segSize b off added =
      ({ b with views := b.views ++ views }, added + views.length) ∧ Tiles off views n ∧
      ∀ v ∈ views, 0 < v.len := by
  fun_induction splitLoop n segSize b off added with
  | case1 b off added hlt ih =>
    have hle := datagramLen_le n segSize off
    obtain ⟨views, hloop, htiles, hpos⟩ := ih (by omega)
    refine ⟨⟨off, datagramLen n segSize off⟩ :: views, ?_, ⟨rfl, htiles⟩, ?_⟩
    · rw [hloop]
      simp [Batch.add, Nat.add_comm, Nat.add_left_comm]
    · exact List.forall_mem_cons.mpr ⟨datagramLen_pos segSize hlt, hpos⟩
  | case2 b off added hge =>
    exact ⟨[], by simp, by simp only [Tiles]; omega, by simp⟩

/-- One round of the loop. -/
theorem splitLoop_step {n : Nat} {segSize : Int} {b : Batch} {off added : Nat} (h : off < n) :
    splitLoop n segSize b off added = splitLoop n segSize
      (b.add ⟨off, datagramLen n segSize off⟩) (off + datagramLen n segSize off) (added + 1) := by
  rw [splitLoop, if_pos h]

/-- Nothing is left to split. -/
theorem splitLoop_done {n : Nat} {segSize : Int} {b : Batch} {added : Nat} :
    splitLoop n segSize b n added = (b, added) := by
  rw [splitLoop, if_neg (Nat.lt_irrefl n)]

/-- The rest of the bytes is one datagram. -/
theorem splitLoop_last {n : Nat} {segSize : Int} (b : Batch) {off : Nat} (added : Nat)
    (h : off < n) (hlen : datagramLen n segSize off = n - off) :
    splitLoop n segSize b off added = (b.add ⟨off, n - off⟩, added + 1) := by
  rw [splitLoop_step h, hlen, Nat.add_sub_cancel' (Nat.le_of_lt h), splitLoop_done]

/-- Datagrams of the segment size, then one that may be shorter, stand in the bytes from `off`
on: the loop publishes exactly these. -/
theorem splitLoop_coalesced {s : Nat} (hs : 0 < s) {datagrams : List Bytes} {last rest : Bytes}
    (hfull : ∀ d ∈ datagrams, d.length = s) (hpos : 1 ≤ last.length) (hle : last.length ≤ s)
    (b : Batch) (off added : Nat)
    (hbuf : b.buf.drop off = datagrams.flatten ++ last ++ rest) :
    ∃ views, splitLoop (off + (datagrams.flatten ++ last).length) s b off added =
      ({ b with views := b.views ++ views }, added + views.length) ∧
      views.map (·.read b.buf) = datagrams ++ [last] := by
  induction datagrams generalizing b off added with
  | nil =>
    have hbuf : b.buf.drop off = last ++ rest := by simpa using hbuf
    have hlen : datagramLen (off + last.length) s off = off + last.length - off := by
      unfold datagramLen
      simp only
      rw [if_neg (by omega)]
    refine ⟨[⟨off, last.length⟩], ?_, ?_⟩
    · rw [List.flatten_nil, List.nil_append, splitLoop_last b added (by omega) hlen]
      simp [Batch.add]
    · simp [Span.read, hbuf]
  | cons d datagrams ih =>
    obtain ⟨hd, hrest⟩ := List.forall_mem_cons.mp hfull
    have hbuf : b.buf.drop off = d ++ (datagrams.flatten ++ last ++ rest) := by
      simpa [List.append_assoc] using hbuf
    have hnext : b.buf.drop (off + s) = datagrams.flatten ++ last ++ rest := by
      rw [← List.drop_drop, hbuf, ← hd, List.drop_left]
    have hn : off + ((d :: datagrams).flatten ++ last).length =
        off + s + (datagrams.flatten ++ last).length := by
      simp [hd]
      omega
    have hlen : datagramLen (off + s + (datagrams.flatten ++ last).length) s off = s := by
      unfold datagramLen
      simp only [List.length_append]
      rw [if_pos (by omega)]
      simp
    obtain ⟨views, hloop, hviews⟩ := ih hrest (b.add ⟨off, s⟩) (off + s) (added + 1) hnext
    refine ⟨⟨off, s⟩ :: views, ?_, ?_⟩
    · rw [hn, splitLoop_step (by omega), hlen, hloop]
      simp [Batch.add, Nat.add_comm, Nat.add_left_comm]
    · have hfirst : (Span.mk off s).read b.buf = d := by
        rw [Span.read, hbuf, ← hd, List.take_left]
      rw [List.map_cons, hfirst]
      exact congrArg (d :: ·) hviews

/-! ## What is published -/

/-- Splitting undoes the joining of datagrams; without a segment size the read is one datagram;
and whatever the segment size, the views are apart, lie in the bytes read and cover all of them,
and their number is returned. -/
theorem splitGRO_spec (b : Batch) :
    (∀ (s : Nat) (datagrams : List Bytes) (last rest : Bytes), 0 < s →
      (∀ d ∈ datagrams, d.length = s) → 1 ≤ last.length → last.length ≤ s →
      b.buf = (datagrams ++ [last]).flatten ++ rest →
      ∃ views, splitGRO b (datagrams ++ [last]).flatten.length s =
          ({ b with views := b.views ++ views }, views.length) ∧
        views.map (·.read b.buf) = datagrams ++ [last]) ∧
    (∀ (n : Nat) (segSize : Int), 0 < n → segSize ≤ 0 →
      splitGRO b n segSize = (b.add ⟨0, n⟩, 1)) ∧
    ∀ (n : Nat) (segSize : Int),
      ∃ views, splitGRO b n segSize = ({ b with views := b.views ++ views }, views.length) ∧
        views.Pairwise Span.Apart ∧ (∀ v ∈ views, v.stop ≤ n) ∧
        ∀ i, (∃ v ∈ views, v.Covers i) ↔ i < n := by
  refine ⟨fun s datagrams last rest hs hfull hpos hle hbuf => ?_, fun n segSize hn hseg => ?_,
    fun n segSize => ?_⟩
  · have hjoin : (datagrams ++ [last]).flatten = datagrams.flatten ++ last := by simp
    rw [hjoin] at hbuf ⊢
    obtain ⟨views, hloop, hviews⟩ :=
      splitLoop_coalesced hs hfull hpos hle b 0 0 (by simpa using hbuf)
    exact ⟨views, by simpa [splitGRO] using hloop, hviews⟩
  · have hlen : datagramLen n segSize 0 = n - 0 := by
      unfold datagramLen
      dsimp only
      rw [if_neg (by omega)]
    simpa [splitGRO] using splitLoop_last b 0 hn hlen
  · obtain ⟨views, hloop, htiles, -⟩ := splitLoop_tiles segSize b 0 (Nat.zero_le n)
    refine ⟨views, by simpa [splitGRO] using hloop, htiles.apart,
      fun v hv => (htiles.bounds v hv).2, fun i => ?_⟩
    simpa using htiles.covers i

/-- Two datagrams and a shorter one in a read. -/
theorem splitGRO_spec_tail :
    ∃ views, splitGRO ⟨[1, 2, 3, 4, 5, 9], []⟩ 5 2 =
        (⟨[1, 2, 3, 4, 5, 9], views⟩, views.length) ∧
      views.map (·.read ([1, 2, 3, 4, 5, 9] : Bytes)) = [[1, 2], [3, 4], [5]] := by
  obtain ⟨views, hsplit, hviews⟩ := (splitGRO_spec ⟨[1, 2, 3, 4, 5, 9], []⟩).1 2 [[1, 2], [3, 4]]
    [5] [9] (by decide) (by decide) (by decide) (by decide) (by decide)
  exact ⟨views, hsplit, hviews⟩

/-- A fill that returns has published the datagrams of its last read, of which there is at least
one; the reads before it were empty. -/
theorem fill_spec {uint32 : Bytes → UInt32} {udpConn : Bool} {b b' : Batch}
    {rs left : List Received} (h : fill uint32 udpConn b rs = some (b', left)) :
    ∃ empty r views, rs = empty ++ r :: left ∧ (∀ e ∈ empty, e.data = []) ∧
      r.data ≠ [] ∧ b'.views = b.views ++ views ∧ views ≠ [] ∧ Tiles 0 views r.data.length := by
  induction rs generalizing b with
  | nil => cases h
  | cons r rs ih =>
    obtain ⟨views, hloop, htiles, hpos⟩ := splitLoop_tiles (readGRO uint32 udpConn r).2
      { b with buf := r.data ++ b.buf.drop r.data.length } 0 (Nat.zero_le r.data.length)
    simp only [readGRO] at hloop
    simp only [fill, readGRO, splitGRO, hloop, Nat.zero_add, List.length_eq_zero_iff] at h
    split at h
    · rename_i hnone
      subst hnone
      have hdata : r.data = [] := List.eq_nil_of_length_eq_zero (Eq.symm htiles)
      obtain ⟨empty, r', views', rfl, hempty, hne, hviews, hsome, htiles'⟩ := ih h
      refine ⟨r :: empty, r', views', rfl, ?_, hne, ?_, hsome, htiles'⟩
      · exact List.forall_mem_cons.mpr ⟨hdata, hempty⟩
      · simpa using hviews
    · rename_i hsome
      obtain ⟨rfl, rfl⟩ := Prod.mk.inj (Option.some.inj h)
      refine ⟨[], r, views, rfl, by simp, fun hdata => ?_, rfl, hsome, htiles⟩
      obtain ⟨v, hv⟩ := List.exists_mem_of_ne_nil views hsome
      have hstop : v.start + v.len ≤ r.data.length := (htiles.bounds v hv).2
      have hlen := hpos v hv
      rw [hdata, List.length_nil] at hstop
      omega

end Dualnet.Conn
