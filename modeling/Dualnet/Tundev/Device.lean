import Dualnet.Wire.Envelope

/-!
# Writing packets to the tunnel device

`tundev/tundev.go`, the write side. `Write` copies the packets of a chunk into scratch slots, with
room for the driver's header in front, and hands the filled slots over. The slots are used again
for the next chunk, and the driver may leave anything in them. An index out of range has no result.

`write_hands_over` is the result: every packet of a valid length is handed over once, in order and
intact, in batches the device can take, up to the first write that fails.
-/

namespace Dualnet.Tundev

open Wire

/-- The headroom in front of every packet. -/
def offset : Nat := 16

/-- The largest packet. -/
def maxFrame : Nat := 65535

/-- A scratch buffer: the headroom and room for the largest packet. -/
structure Slot where
  bytes : Bytes
  size : bytes.length = offset + maxFrame

/-- A slot keeps its length. -/
theorem length_copied (slot : Slot) (pkt : Bytes) :
    (slot.bytes.take offset ++ pkt.take maxFrame ++
      slot.bytes.drop (offset + pkt.length)).length = offset + maxFrame := by
  simp only [List.length_append, List.length_take, List.length_drop, slot.size]
  omega

/-- `copy(slot[offset:], pkt)`. -/
def Slot.copy (slot : Slot) (pkt : Bytes) : Slot :=
  ⟨slot.bytes.take offset ++ pkt.take maxFrame ++ slot.bytes.drop (offset + pkt.length),
    length_copied slot pkt⟩

/-- The first `len` bytes of a slot. -/
structure View where
  slot : Nat
  len : Nat

/-- What the driver finds in a view. -/
def View.read {n : Nat} (slots : Vector Slot n) (v : View) : Bytes :=
  ((slots[v.slot]?).map fun slot => slot.bytes.take v.len).getD []

/-- What a write of the driver leaves behind: the driver, the slots and the error. -/
structure Outcome (δ : Type) where
  dev : δ
  scribble : Nat → Slot → Slot
  err : Option String

/-- A call of the driver's `Write`. -/
structure Call where
  bufs : List Bytes
  err : Option String

/-- `Device`; a device takes at least one packet at a time. -/
structure Device (δ : Type) where
  dev : δ
  batch : Nat
  batch_pos : 0 < batch
  wbufs : Vector Slot batch

/-- A batch has a slot. -/
theorem batch_pos_of_clamp (batchSize : Int) :
    0 < (if batchSize < 1 then 1 else batchSize).toNat := by
  split <;> omega

/-- `newDevice`, for a driver with this batch size. -/
def newDevice {δ : Type} (dev : δ) (batchSize : Int) : Device δ where
  dev := dev
  batch := (if batchSize < 1 then 1 else batchSize).toNat
  batch_pos := batch_pos_of_clamp batchSize
  wbufs := Vector.replicate _ ⟨List.replicate (offset + maxFrame) 0, List.length_replicate⟩

/-- The packet is skipped. -/
def skipped (pkt : Bytes) : Bool := pkt.length == 0 || maxFrame < pkt.length

/-- One round of the inner loop: the next free slot is the one after the views. -/
def fillSlot {n : Nat} (st : Vector Slot n × List View) (pkt : Bytes) :
    Option (Vector Slot n × List View) :=
  if skipped pkt then some st
  else do
    let slot ← st.1[st.2.length]?
    some (st.1.setIfInBounds st.2.length (slot.copy pkt),
      st.2 ++ [⟨st.2.length, offset + pkt.length⟩])

section Write

variable {δ : Type} (devWrite : δ → List Bytes → Outcome δ)

/-- One round of the outer loop, with the call it makes, if any. -/
def writeChunk (d : Device δ) (pkts : List Bytes) : Option (Device δ × Option Call) := do
  let (slots, bufs) ← pkts.foldlM fillSlot (d.wbufs, [])
  if bufs.isEmpty then some ({ d with wbufs := slots }, none)
  else
    let given := bufs.map (View.read slots)
    let out := devWrite d.dev given
    some ({ d with dev := out.dev, wbufs := slots.mapIdx out.scribble }, some ⟨given, out.err⟩)

/-- `Device.Write`, with the calls it makes. The first error ends the loop. -/
def Device.write (d : Device δ) (pkts : List Bytes) :
    Option (Device δ × List Call × Option String) :=
  if pkts = [] then some (d, [], none)
  else
    (writeChunk devWrite d (pkts.take d.batch)).bind fun (d', call) =>
      match call.bind Call.err with
      | some err => some (d', call.toList, some err)
      | none => (Device.write d' (pkts.drop d.batch)).map fun (d'', calls, err) =>
        (d'', call.toList ++ calls, err)
termination_by pkts.length
decreasing_by
  have := d.batch_pos
  have := List.length_pos_of_ne_nil ‹_›
  rw [List.length_drop]
  omega

end Write

/-! ## Filling the slots -/

/-- Each buffer is a packet with the headroom in front. -/
def Carries (bufs pkts : List Bytes) : Prop :=
  List.Forall₂ (fun buf pkt => ∃ room : Bytes, room.length = offset ∧ buf = room ++ pkt) bufs pkts

/-- The views show the packets, each in a slot before the next free one. -/
structure Filled {n : Nat} (slots : Vector Slot n) (bufs : List View) (pkts : List Bytes) :
    Prop where
  carries : Carries (bufs.map (View.read slots)) pkts
  used : ∀ v ∈ bufs, v.slot < bufs.length

/-- The packet and the headroom in front of it are the first bytes of the slot. -/
theorem take_copy (slot : Slot) {pkt : Bytes} (h : pkt.length ≤ maxFrame) :
    ∃ room : Bytes, room.length = offset ∧
      (slot.copy pkt).bytes.take (offset + pkt.length) = room ++ pkt := by
  have hroom : (slot.bytes.take offset).length = offset := by
    rw [List.length_take, slot.size]
    omega
  refine ⟨slot.bytes.take offset, hroom, ?_⟩
  have hlen : (slot.bytes.take offset ++ pkt).length = offset + pkt.length := by
    rw [List.length_append, hroom]
  have hbytes : (slot.copy pkt).bytes =
      slot.bytes.take offset ++ pkt ++ slot.bytes.drop (offset + pkt.length) := by
    simp [Slot.copy, List.take_of_length_le h]
  rw [hbytes, ← hlen, List.take_left]

/-- A buffer for each packet. -/
theorem Filled.length {n : Nat} {slots : Vector Slot n} {bufs : List View} {pkts : List Bytes}
    (h : Filled slots bufs pkts) : bufs.length = pkts.length := by
  simpa using h.carries.length_eq

/-- A packet goes into the next free slot. -/
theorem Filled.fillSlot {n : Nat} {slots : Vector Slot n} {bufs : List View} {pkts : List Bytes}
    (h : Filled slots bufs pkts) {pkt : Bytes} (hpkt : skipped pkt = false)
    (hfree : bufs.length < n) :
    ∃ slots' bufs', Tundev.fillSlot (slots, bufs) pkt = some (slots', bufs') ∧
      Filled slots' bufs' (pkts ++ [pkt]) := by
  have hlen : pkt.length ≤ maxFrame := by
    simp only [skipped, Bool.or_eq_false_iff, decide_eq_false_iff_not] at hpkt
    omega
  obtain ⟨room, hroom, htake⟩ := take_copy slots[bufs.length] hlen
  refine ⟨slots.setIfInBounds bufs.length (slots[bufs.length].copy pkt),
    bufs ++ [⟨bufs.length, offset + pkt.length⟩], ?_, ?_, ?_⟩
  · simp [Tundev.fillSlot, hpkt, hfree]
  · rw [List.map_append]
    refine List.rel_append ?_ ?_
    · -- the slots of the earlier views are left alone
      have hsame : bufs.map (View.read (slots.setIfInBounds bufs.length
          (slots[bufs.length].copy pkt))) = bufs.map (View.read slots) := by
        refine List.map_congr_left fun v hv => ?_
        have hne : bufs.length ≠ v.slot := (h.used v hv).ne'
        simp [View.read, hne]
      rw [hsame]
      exact h.carries
    · refine .cons ⟨room, hroom, ?_⟩ .nil
      simpa [View.read, Vector.getElem?_setIfInBounds, hfree] using htake
  · intro v hv
    simp only [List.mem_append, List.mem_singleton] at hv
    simp only [List.length_append, List.length_singleton]
    obtain hv | rfl := hv
    · have := h.used v hv
      omega
    · simp

/-- The packets of a chunk that are not skipped go into consecutive slots. -/
theorem Filled.foldlM {n : Nat} {slots : Vector Slot n} {bufs : List View} {done : List Bytes}
    (h : Filled slots bufs done) (pkts : List Bytes)
    (hfree : bufs.length + (pkts.filter (!skipped ·)).length ≤ n) :
    ∃ slots' bufs', pkts.foldlM Tundev.fillSlot (slots, bufs) = some (slots', bufs') ∧
      Filled slots' bufs' (done ++ pkts.filter (!skipped ·)) := by
  induction pkts generalizing slots bufs done with
  | nil => exact ⟨slots, bufs, rfl, by simpa using h⟩
  | cons pkt pkts ih =>
    cases hskip : skipped pkt with
    | true =>
      rw [List.filter_cons_of_neg (by simp [hskip])] at hfree ⊢
      have hround : Tundev.fillSlot (slots, bufs) pkt = some (slots, bufs) := by
        simp [Tundev.fillSlot, hskip]
      obtain ⟨slots', bufs', hfold, hfilled⟩ := ih h hfree
      refine ⟨slots', bufs', ?_, hfilled⟩
      rw [List.foldlM_cons, hround]
      exact hfold
    | false =>
      rw [List.filter_cons_of_pos (by simp [hskip])] at hfree ⊢
      simp only [List.length_cons] at hfree
      obtain ⟨slots₁, bufs₁, hround, hfilled₁⟩ := h.fillSlot hskip (by omega)
      have hlen : bufs₁.length = bufs.length + 1 := by
        rw [hfilled₁.length, h.length, List.length_append, List.length_singleton]
      obtain ⟨slots', bufs', hfold, hfilled⟩ := ih hfilled₁ (by omega)
      refine ⟨slots', bufs', ?_, by simpa using hfilled⟩
      rw [List.foldlM_cons, hround]
      exact hfold

/-- No packet, no buffer. -/
theorem filled_nil {n : Nat} (slots : Vector Slot n) : Filled slots [] [] := ⟨.nil, by simp⟩

/-! ## Writing -/

section Write

variable {δ : Type} {devWrite : δ → List Bytes → Outcome δ}

/-- The calls hand over these packets in batches the device can take. -/
structure HandsOver (batch : Nat) (calls : List Call) (pkts : List Bytes) : Prop where
  carries : Carries (calls.flatMap Call.bufs) pkts
  batches : ∀ call ∈ calls, call.bufs ≠ [] ∧ call.bufs.length ≤ batch

/-- Calls after calls. -/
theorem HandsOver.append {batch : Nat} {calls calls' : List Call} {pkts pkts' : List Bytes}
    (h : HandsOver batch calls pkts) (h' : HandsOver batch calls' pkts') :
    HandsOver batch (calls ++ calls') (pkts ++ pkts') where
  carries := by
    rw [List.flatMap_append]
    exact List.rel_append h.carries h'.carries
  batches := fun call hcall =>
    (List.mem_append.mp hcall).elim (h.batches call) (h'.batches call)

/-- A chunk is handed over in at most one call. -/
theorem writeChunk_spec (devWrite : δ → List Bytes → Outcome δ) (d : Device δ)
    {pkts : List Bytes} (hlen : pkts.length ≤ d.batch) :
    ∃ d' call, writeChunk devWrite d pkts = some (d', call) ∧ d'.batch = d.batch ∧
      HandsOver d.batch call.toList (pkts.filter (!skipped ·)) := by
  have hroom : (pkts.filter (!skipped ·)).length ≤ d.batch :=
    (List.length_filter_le _ _).trans hlen
  obtain ⟨slots, bufs, hfold, hfilled⟩ := (filled_nil d.wbufs).foldlM pkts (by simpa using hroom)
  rw [List.nil_append] at hfilled
  by_cases hbufs : bufs = []
  · have hnone : pkts.filter (!skipped ·) = [] := by
      rw [← List.length_eq_zero_iff, ← hfilled.length, hbufs]
      rfl
    refine ⟨{ d with wbufs := slots }, none, ?_, rfl, ?_⟩
    · simp [writeChunk, hfold, hbufs]
    · rw [hnone]
      exact ⟨.nil, by simp⟩
  · have hcount : bufs.length ≤ d.batch := hfilled.length ▸ hroom
    obtain ⟨out, hout⟩ : ∃ out, devWrite d.dev (bufs.map (View.read slots)) = out := ⟨_, rfl⟩
    refine ⟨{ d with dev := out.dev, wbufs := slots.mapIdx out.scribble },
      some ⟨bufs.map (View.read slots), out.err⟩, ?_, rfl, ?_, ?_⟩
    · simp [writeChunk, hfold, hbufs, hout]
    · simpa using hfilled.carries
    · simpa [hbufs] using hcount

/-- Every packet of a length from 1 to `maxFrame` is handed over once, in order, intact and with the
headroom in front, in calls that are not empty and not larger than the batch size. The call that
fails is the last one: up to it the calls have handed over the first of the packets. -/
theorem write_hands_over (d : Device δ) (pkts : List Bytes) :
    ∃ d' calls err, d.write devWrite pkts = some (d', calls, err) ∧ d'.batch = d.batch ∧
      ∃ written, HandsOver d.batch calls written ∧ written <+: pkts.filter (!skipped ·) ∧
        (err = none → written = pkts.filter (!skipped ·) ∧ ∀ call ∈ calls, call.err = none) ∧
        ∀ e, err = some e → ∃ earlier last, calls = earlier ++ [last] ∧ last.err = some e ∧
          ∀ call ∈ earlier, call.err = none := by
  induction hn : pkts.length using Nat.strong_induction_on generalizing d pkts with
  | _ n ih =>
    subst hn
    rw [Device.write]
    by_cases hpkts : pkts = []
    · subst hpkts
      exact ⟨d, [], none, by simp, rfl, [], ⟨.nil, by simp⟩, by simp, by simp, by simp⟩
    · rw [if_neg hpkts]
      have htake : (pkts.take d.batch).length ≤ d.batch := List.length_take_le _ _
      obtain ⟨d₁, call, hchunk, hbatch, hfirst⟩ := writeChunk_spec devWrite d htake
      have hsplit : pkts.filter (!skipped ·) = (pkts.take d.batch).filter (!skipped ·) ++
          (pkts.drop d.batch).filter (!skipped ·) := by
        rw [← List.filter_append, List.take_append_drop]
      rw [hchunk, Option.bind_some, hsplit]
      cases herr : call.bind Call.err with
      | some err =>
        obtain ⟨last, rfl, hlast⟩ := Option.bind_eq_some_iff.mp herr
        refine ⟨d₁, [last], some err, by simp [herr], hbatch, _, hfirst,
          List.prefix_append _ _, by simp, ?_⟩
        rintro e ⟨rfl⟩
        exact ⟨[], last, rfl, hlast, by simp⟩
      | none =>
        have hless : (pkts.drop d.batch).length < pkts.length := by
          have hpos := d.batch_pos
          have hsome := List.length_pos_of_ne_nil hpkts
          rw [List.length_drop]
          omega
        obtain ⟨d₂, calls, err, hrest, hbatch₂, written, hover, hwritten, hall, hfail⟩ :=
          ih _ hless d₁ (pkts.drop d.batch) rfl
        have hquiet : ∀ c ∈ call.toList, c.err = none := by
          intro c hc
          obtain rfl := Option.mem_toList.mp hc
          simpa using herr
        refine ⟨d₂, call.toList ++ calls, err, by simp [herr, hrest], hbatch₂.trans hbatch,
          _ ++ written, hfirst.append (hbatch ▸ hover), ?_, ?_, ?_⟩
        · exact (List.prefix_append_right_inj _).mpr hwritten
        · intro hnone
          obtain ⟨rfl, hcalls⟩ := hall hnone
          exact ⟨rfl, fun c hc => (List.mem_append.mp hc).elim (hquiet c) (hcalls c)⟩
        · intro e he
          obtain ⟨earlier, last, rfl, hlast, hearlier⟩ := hfail e he
          refine ⟨call.toList ++ earlier, last, by simp, hlast, fun c hc => ?_⟩
          exact (List.mem_append.mp hc).elim (hquiet c) (hearlier c)

end Write

end Dualnet.Tundev
