import Dualnet.Library.Runs
import Dualnet.Library.Spans
import Dualnet.Pktbuf.Writer

/-!
# The batching writer in its arena

`pktbuf/writer.go` down to the bytes: the arena, the views as slices of it, the slice `Reserve`
hands out and the stores a producer makes into it until `Commit`. A slice expression past the
capacity of the arena panics; an `append` to a full `views` reallocates it with another capacity.

`batches_and_views_are_the_commits` is the result: under the documented conditions nothing is lost,
duplicated, reordered or overwritten. `put_refines` connects this to the packets of `Writer`.
-/

namespace Dualnet.Pktbuf

open Library

abbrev Bytes := List UInt8

/-- A `Writer` with its memory. `mem` is the array behind `arena` and `len` the length of `arena`;
`reserved` is the slice of the producer that holds the lock; `batches` are the arguments of the
calls of the flush function. -/
structure Buffer where
  mem : Bytes
  len : Nat
  views : List Span
  viewsCap : Nat
  reserved : Option Span
  err : Option String
  batches : List (List Bytes)

/-- What a call returns: the slice of a `Reserve`, the packet of a `Commit` as its producer built
it, or a panic. -/
inductive Outcome where
  | done
  | slice (s : Span)
  | packet (p : Bytes)
  | panicked

namespace Buffer

/-- `NewWriter`. -/
def new (arenaCap maxPackets : Nat) : Buffer :=
  ⟨List.replicate arenaCap 0, 0, [], maxPackets, none, none, []⟩

variable (grow : Nat → Nat) (b : Buffer)

/-- The packets in the batch. -/
def packets : List Bytes := b.views.map (·.read b.mem)

/-- `flushLocked`, with what the flush function returns. -/
def flushLocked (err : Option String) : Buffer :=
  if b.views.isEmpty then b
  else { b with len := 0, views := [], err := err.or b.err, batches := b.batches ++ [b.packets] }

/-- `Reserve`, once it has the lock. -/
def reserve (max : Nat) (err : Option String) : Buffer × Outcome :=
  let b := if b.views.length = b.viewsCap ∨ b.mem.length < b.len + max then b.flushLocked err else b
  if b.mem.length < b.len + max then (b, .panicked)
  else ({ b with reserved := some ⟨b.len, max⟩ }, .slice ⟨b.len, max⟩)

/-- The first half of `Commit`: the next `n` bytes of the arena become a view. An `append` to a full
`views` gives it another capacity. -/
def extend (n : Nat) : Buffer :=
  { b with
    len := b.len + n
    views := b.views ++ [⟨b.len, n⟩]
    viewsCap := if b.views.length < b.viewsCap then b.viewsCap else grow b.viewsCap
    reserved := none }

/-- The second half of `Commit`: flush if the batch is now full. -/
def flushIfFull (err : Option String) : Buffer :=
  if b.views.length = b.viewsCap ∨ b.len = b.mem.length then b.flushLocked err else b

/-- `Commit` of the first `n` bytes of the slice `r`. -/
def commit (r : Span) (n : Nat) (err : Option String) : Buffer × Outcome :=
  if b.mem.length < b.len + n then (b, .panicked)
  else ((b.extend grow n).flushIfFull err, .packet ((r.read b.mem).take n))

end Buffer

/-- A call, with what the flush function returns if it is called, or a store of the producer that
holds the lock into its slice. -/
inductive Access where
  | reserve (max : Nat) (err : Option String)
  | store (i : Nat) (byte : UInt8)
  | commit (n : Nat) (err : Option String)
  | flush (err : Option String)
  | tryFlush (err : Option String)

/-- One step. `Reserve` and `Flush` wait for the lock, `tryFlush` does not. -/
def Buffer.step (grow : Nat → Nat) (b : Buffer) : Access → Option (Buffer × Outcome)
  | .reserve max err => if b.reserved.isSome then none else some (b.reserve max err)
  | .store i byte => b.reserved.map fun r => ({ b with mem := b.mem.set (r.start + i) byte }, .done)
  | .commit n err => b.reserved.map fun r => b.commit grow r n err
  | .flush err => if b.reserved.isSome then none else some (b.flushLocked err, .done)
  | .tryFlush err => some (if b.reserved.isSome then b else b.flushLocked err, .done)

/-- No more is reserved than the arena holds, and what is stored and committed is inside the slice
reserved. -/
def InsideSlice (arenaCap : Nat) (b : Buffer) (_ : List (Access × Outcome)) : Access → Prop
  | .reserve max _ => max ≤ arenaCap
  | .store i _ => ∀ r ∈ b.reserved, i < r.len
  | .commit n _ => ∀ r ∈ b.reserved, n ≤ r.len
  | .flush _ | .tryFlush _ => True

instance (arenaCap : Nat) (b : Buffer) (history : List (Access × Outcome)) (access : Access) :
    Decidable (InsideSlice arenaCap b history access) := by
  cases access <;> unfold InsideSlice <;> infer_instance

/-- The runs of a writer whose producers keep to this. -/
abbrev Buffer.Run (grow : Nat → Nat) (arenaCap maxPackets : Nat) :
    Buffer → List (Access × Outcome) → Prop :=
  Reached (Buffer.step grow) (InsideSlice arenaCap) (.new arenaCap maxPackets)

/-- The packet of a `Commit`. -/
def Outcome.committed : Outcome → Option Bytes
  | .packet p => some p
  | .done | .slice _ | .panicked => none

/-- The packets committed in a run, in order. -/
def commits (history : List (Access × Outcome)) : List Bytes :=
  (history.filterMap fun entry => entry.2.committed).reverse

/-- What one more step commits. -/
theorem commits_cons (access : Access) (out : Outcome) (history : List (Access × Outcome)) :
    commits ((access, out) :: history) = commits history ++ out.committed.toList := by
  cases out <;> simp [commits, Outcome.committed]

namespace Buffer

variable {grow : Nat → Nat} {arenaCap maxPackets : Nat} {b b' : Buffer}

/-- A batch the flush function may be called with. -/
def Fits (arenaCap maxPackets : Nat) (batch : List Bytes) : Prop :=
  batch ≠ [] ∧ batch.length ≤ maxPackets ∧ (batch.map List.length).sum ≤ arenaCap

/-- The views tile the used part of the arena, every batch fits, and batches and views are the
packets committed. -/
structure Loaded (arenaCap maxPackets : Nat) (b : Buffer) (commits : List Bytes) : Prop where
  mem : b.mem.length = arenaCap
  cap : b.viewsCap = maxPackets
  count : b.views.length ≤ maxPackets
  tiles : Tiles 0 b.views b.len
  used : b.len ≤ arenaCap
  fits : ∀ batch ∈ b.batches, Fits arenaCap maxPackets batch
  all : b.batches.flatten ++ b.packets = commits

/-- Between calls there is also room for another view, and the slice handed out begins where the
views end. -/
structure Sound (arenaCap maxPackets : Nat) (b : Buffer) (commits : List Bytes) : Prop extends
    Loaded arenaCap maxPackets b commits where
  room : b.views.length < maxPackets
  slice : ∀ r, b.reserved = some r → r.start = b.len ∧ r.stop ≤ arenaCap

variable {commits : List Bytes}

/-- A fresh batch is sound. -/
theorem sound_new (hpackets : 1 ≤ maxPackets) :
    (new arenaCap maxPackets).Sound arenaCap maxPackets [] where
  mem := List.length_replicate
  cap := rfl
  count := Nat.zero_le _
  tiles := rfl
  used := Nat.zero_le _
  fits := by simp [new]
  all := rfl
  room := hpackets
  slice := by simp [new]

/-- What is in the batch fits. -/
theorem Loaded.fits_packets (h : b.Loaded arenaCap maxPackets commits) (hne : b.views ≠ []) :
    Fits arenaCap maxPackets b.packets := by
  refine ⟨by simpa [packets] using hne, by simpa [packets] using h.count, ?_⟩
  rw [packets, h.tiles.sum_length_read (h.mem ▸ h.used)]
  exact h.used

/-- A flush leaves the reservation. -/
@[simp] theorem flushLocked_reserved (err : Option String) :
    (b.flushLocked err).reserved = b.reserved := by
  unfold flushLocked
  split <;> rfl

/-- A flush empties the batch into the batches. -/
theorem Loaded.flushLocked (h : b.Loaded arenaCap maxPackets commits) (err : Option String) :
    (b.flushLocked err).Loaded arenaCap maxPackets commits ∧
      (b.flushLocked err).views = [] ∧ (b.flushLocked err).len = 0 := by
  unfold Buffer.flushLocked
  split
  · rename_i hempty
    have hviews : b.views = [] := List.isEmpty_iff.mp hempty
    have htiles := h.tiles
    rw [hviews] at htiles
    exact ⟨h, hviews, htiles.symm⟩
  · rename_i hviews
    have hne : b.views ≠ [] := fun hnil => hviews (List.isEmpty_iff.mpr hnil)
    refine ⟨⟨h.mem, h.cap, Nat.zero_le _, rfl, Nat.zero_le _, ?_, ?_⟩, rfl, rfl⟩
    · intro batch hbatch
      rcases List.mem_append.mp hbatch with hold | hnew
      · exact h.fits batch hold
      · obtain rfl := List.mem_singleton.mp hnew
        exact h.fits_packets hne
    · simpa [packets] using h.all

/-- A flush while nobody builds a packet. -/
theorem Loaded.sound_flushLocked (h : b.Loaded arenaCap maxPackets commits)
    (hpackets : 1 ≤ maxPackets) (hfree : b.reserved = none) (err : Option String) :
    (b.flushLocked err).Sound arenaCap maxPackets commits := by
  obtain ⟨hloaded, hviews, -⟩ := h.flushLocked err
  refine ⟨hloaded, ?_, ?_⟩
  · rw [hviews]
    exact hpackets
  · simp [hfree]

/-- `Reserve` hands out a slice behind the views, inside the arena. -/
theorem Sound.reserve (h : b.Sound arenaCap maxPackets commits) (hfree : b.reserved = none)
    {max : Nat} (hmax : max ≤ arenaCap) (err : Option String) :
    ∃ b' s, b.reserve max err = (b', .slice s) ∧ b'.Sound arenaCap maxPackets commits ∧
      b'.reserved = some s ∧ s.len = max := by
  have hready : ∃ b₁, (if b.views.length = b.viewsCap ∨ b.mem.length < b.len + max then
      b.flushLocked err else b) = b₁ ∧ b₁.Sound arenaCap maxPackets commits ∧
      b₁.len + max ≤ arenaCap := by
    refine ⟨_, rfl, ?_⟩
    have hpackets : 1 ≤ maxPackets := Nat.lt_of_le_of_lt (Nat.zero_le _) h.room
    split
    · obtain ⟨-, -, hlen⟩ := h.toLoaded.flushLocked err
      exact ⟨h.toLoaded.sound_flushLocked hpackets hfree err, by omega⟩
    · rename_i hfits
      have hmem := h.mem
      exact ⟨h, by omega⟩
  obtain ⟨b₁, hb₁, hsound, hroom⟩ := hready
  have hinside : ¬ b₁.mem.length < b₁.len + max := by
    rw [hsound.mem]
    omega
  refine ⟨{ b₁ with reserved := some ⟨b₁.len, max⟩ }, ⟨b₁.len, max⟩, ?_,
    ⟨?_, hsound.room, ?_⟩, rfl, rfl⟩
  · simp only [Buffer.reserve, hb₁, if_neg hinside]
  · exact ⟨hsound.mem, hsound.cap, hsound.count, hsound.tiles, hsound.used, hsound.fits, hsound.all⟩
  · intro r hr
    obtain rfl := Option.some.inj hr
    exact ⟨rfl, hroom⟩

/-- A store into the slice is behind the views. -/
theorem Sound.store (h : b.Sound arenaCap maxPackets commits) {r : Span}
    (hr : b.reserved = some r) (i : Nat) (byte : UInt8) :
    { b with mem := b.mem.set (r.start + i) byte }.Sound arenaCap maxPackets commits := by
  obtain ⟨hstart, -⟩ := h.slice r hr
  refine ⟨⟨?_, h.cap, h.count, h.tiles, h.used, h.fits, ?_⟩, h.room, h.slice⟩
  · simpa using h.mem
  · have hsame : b.views.map (·.read (b.mem.set (r.start + i) byte)) = b.packets :=
      h.tiles.map_read_set byte (by omega)
    simpa [packets, hsame] using h.all

/-- The view is the part of the slice its producer filled. -/
theorem Sound.extend (h : b.Sound arenaCap maxPackets commits) {r : Span}
    (hr : b.reserved = some r) {n : Nat} (hn : n ≤ r.len) (grow : Nat → Nat) :
    ¬ b.mem.length < b.len + n ∧ (Span.mk b.len n).read b.mem = (r.read b.mem).take n ∧
      (b.extend grow n).Loaded arenaCap maxPackets (commits ++ [(r.read b.mem).take n]) := by
  obtain ⟨hstart, hstop⟩ := h.slice r hr
  have hused : b.len + n ≤ arenaCap := by
    simp only [Span.stop] at hstop
    omega
  have hcap : b.views.length < b.viewsCap := by
    rw [h.cap]
    exact h.room
  have hpacket : (Span.mk b.len n).read b.mem = (r.read b.mem).take n := by
    rw [Span.take_read r b.mem hn, hstart]
  refine ⟨by rw [h.mem]; omega, hpacket, h.mem, ?_, ?_, h.tiles.snoc n, hused, h.fits, ?_⟩
  · simpa [Buffer.extend, hcap] using h.cap
  · simpa [Buffer.extend] using h.room
  · rw [← hpacket, ← h.all]
    simp [packets, Buffer.extend]

/-- A full batch is flushed. -/
theorem Loaded.flushIfFull (h : b.Loaded arenaCap maxPackets commits) (hpackets : 1 ≤ maxPackets)
    (hfree : b.reserved = none) (err : Option String) :
    (b.flushIfFull err).Sound arenaCap maxPackets commits := by
  unfold Buffer.flushIfFull
  split
  · exact h.sound_flushLocked hpackets hfree err
  · rename_i hpartial
    have hcount := h.count
    have hcap := h.cap
    exact ⟨h, by omega, by simp [hfree]⟩

/-- `Commit` adds the packet its producer built. -/
theorem Sound.commit (h : b.Sound arenaCap maxPackets commits) {r : Span}
    (hr : b.reserved = some r) {n : Nat} (hn : n ≤ r.len) (grow : Nat → Nat)
    (err : Option String) :
    ∃ b', b.commit grow r n err = (b', .packet ((r.read b.mem).take n)) ∧
      b'.Sound arenaCap maxPackets (commits ++ [(r.read b.mem).take n]) ∧ b'.reserved = none := by
  obtain ⟨hinside, -, hloaded⟩ := h.extend hr hn grow
  have hpackets : 1 ≤ maxPackets := Nat.lt_of_le_of_lt (Nat.zero_le _) h.room
  refine ⟨_, ?_, hloaded.flushIfFull hpackets rfl err, ?_⟩
  · rw [Buffer.commit, if_neg hinside]
  · unfold Buffer.flushIfFull
    split
    · rw [flushLocked_reserved]
      rfl
    · rfl

/-- Every step keeps the buffer sound and does not panic. -/
theorem Sound.step (h : b.Sound arenaCap maxPackets commits) {access : Access} {out : Outcome}
    {history : List (Access × Outcome)} (hinside : InsideSlice arenaCap b history access)
    (htaken : b.step grow access = some (b', out)) :
    b'.Sound arenaCap maxPackets (commits ++ out.committed.toList) ∧ out ≠ .panicked := by
  have hpackets : 1 ≤ maxPackets := Nat.lt_of_le_of_lt (Nat.zero_le _) h.room
  cases access with
  | reserve max err =>
    obtain ⟨hlocked, hcall⟩ := Option.ite_none_left_eq_some.mp htaken
    have hfree : b.reserved = none := by simpa using hlocked
    obtain ⟨b₁, s, hreserve, hsound, -, -⟩ := h.reserve hfree hinside err
    obtain ⟨rfl, rfl⟩ := Prod.mk.inj (hreserve.symm.trans (Option.some.inj hcall))
    exact ⟨by simpa [Outcome.committed] using hsound, by simp⟩
  | store i byte =>
    obtain ⟨r, hr, hstore⟩ := Option.map_eq_some_iff.mp htaken
    obtain ⟨rfl, rfl⟩ := Prod.mk.inj hstore
    exact ⟨by simpa [Outcome.committed] using h.store hr i byte, by simp⟩
  | commit n err =>
    obtain ⟨r, hr, hcall⟩ := Option.map_eq_some_iff.mp htaken
    obtain ⟨b₁, hcommit, hsound, -⟩ := h.commit hr (hinside r hr) grow err
    obtain ⟨rfl, rfl⟩ := Prod.mk.inj (hcommit.symm.trans hcall)
    exact ⟨hsound, by simp⟩
  | flush err =>
    obtain ⟨hlocked, hcall⟩ := Option.ite_none_left_eq_some.mp htaken
    obtain ⟨rfl, rfl⟩ := pair_inj hcall
    have hfree : b.reserved = none := by simpa using hlocked
    have hsound := h.toLoaded.sound_flushLocked hpackets hfree err
    exact ⟨by simpa [Outcome.committed] using hsound, by simp⟩
  | tryFlush err =>
    obtain ⟨rfl, rfl⟩ := pair_inj htaken
    refine ⟨?_, by simp⟩
    rw [Outcome.committed, Option.toList_none, List.append_nil]
    split
    · exact h
    · rename_i hlocked
      exact h.toLoaded.sound_flushLocked hpackets (by simpa using hlocked) err

/-- Every state of a run is sound for the packets committed so far, and no call panicked. -/
theorem Run.sound {history : List (Access × Outcome)} (hpackets : 1 ≤ maxPackets)
    (h : Run grow arenaCap maxPackets b history) :
    b.Sound arenaCap maxPackets (Pktbuf.commits history) ∧
      ∀ entry ∈ history, entry.2 ≠ .panicked := by
  refine h.invariant (fun b history => b.Sound arenaCap maxPackets (Pktbuf.commits history) ∧
    ∀ entry ∈ history, entry.2 ≠ .panicked) ⟨sound_new hpackets, by simp⟩ ?_
  rintro b history access b' out ⟨hsound, hcalls⟩ hinside htaken
  obtain ⟨hsound', hout⟩ := hsound.step hinside htaken
  refine ⟨by rwa [commits_cons], ?_⟩
  intro entry hentry
  rcases List.mem_cons.mp hentry with rfl | hentry
  · exact hout
  · exact hcalls entry hentry

end Buffer

/-- The writer loses, duplicates and reorders nothing. Whatever calls its producers and its flush
group make, in whatever order, as long as no producer reserves more than the arena holds or leaves
its slice: no slice expression panics and the slice handed out is inside the arena; while nobody
builds a packet, the batches flushed and the batch are the packets committed, byte for byte; no
batch flushed is empty or larger than the limits; and no view shares a byte with another one or
with the slice handed out. -/
theorem batches_and_views_are_the_commits (grow : Nat → Nat) (arenaCap maxPackets : Nat)
    (hpackets : 1 ≤ maxPackets) {b : Buffer} {history : List (Access × Outcome)}
    (h : Buffer.Run grow arenaCap maxPackets b history) :
    (∀ entry ∈ history, entry.2 ≠ .panicked) ∧
    (∀ r, b.reserved = some r → r.stop ≤ arenaCap ∧ b.mem.length = arenaCap) ∧
    (b.reserved = none → b.batches.flatten ++ b.packets = commits history) ∧
    (∀ batch ∈ b.batches, batch ≠ [] ∧ batch.length ≤ maxPackets ∧
      (batch.map List.length).sum ≤ arenaCap) ∧
    b.views.Pairwise Span.Apart ∧
    (∀ r, b.reserved = some r → ∀ view ∈ b.views, view.Apart r) := by
  obtain ⟨hsound, hcalls⟩ := h.sound hpackets
  refine ⟨hcalls, ?_, fun _ => hsound.all, hsound.fits, hsound.tiles.apart, ?_⟩
  · intro r hr
    exact ⟨(hsound.slice r hr).2, hsound.mem⟩
  · intro r hr view hview
    refine Span.apart_of_stop_le ?_
    rw [(hsound.slice r hr).1]
    exact (hsound.tiles.bounds view hview).2

/-- A batch flushed because the next packet does not fit, and a slice larger than its packet. -/
theorem batches_and_views_are_the_commits_small : ∃ b history,
    Buffer.Run (2 * ·) 4 2 b history ∧ b.reserved = none ∧ b.batches = [[[7]]] ∧
      b.batches.flatten ++ b.packets = [[7], [8, 9]] ∧
      b.batches.flatten ++ b.packets = commits history := by
  have hrun : Buffer.Run (2 * ·) 4 2 _ _ := Reached.init.playIf
    [.reserve 2 none, .store 0 7, .tryFlush none, .commit 1 none, .reserve 4 none, .store 1 9,
      .store 0 8, .commit 2 none] rfl
  exact ⟨_, _, hrun, rfl, rfl, rfl,
    (batches_and_views_are_the_commits _ 4 2 (by decide) hrun).2.2.1 rfl⟩

/-! ## The packets of the writer -/

namespace Buffer

variable {arenaCap maxPackets : Nat} {b : Buffer} {commits : List Bytes}

/-- The writer of packets a buffer stands for while nobody builds one. -/
def writer (b : Buffer) : Writer Bytes (List (List Bytes)) := ⟨b.packets, none, b.err, b.batches⟩

/-- A flush function that keeps its arguments. -/
def deliver (err : Option String) (batches : List (List Bytes)) (views : List Bytes) :
    Option (List (List Bytes) × Option String) := some (batches ++ [views], err)

/-- A flush is shown as a flush. -/
theorem writer_flushLocked (err : Option String) :
    b.writer.flushLocked (deliver err) = some (b.flushLocked err).writer := by
  unfold Writer.flushLocked flushLocked
  cases hviews : b.views with
  | nil => simp [writer, packets, hviews]
  | cons view views => simp [writer, packets, hviews, deliver]

/-- The packets in the batch take up the used part of the arena. -/
theorem Loaded.arena (h : b.Loaded arenaCap maxPackets commits) :
    b.writer.arena List.length = b.len :=
  h.tiles.sum_length_read (h.mem ▸ h.used)

/-- The stores that put these bytes into the slice from index `k` on. -/
def stores (k : Nat) : Bytes → List Access
  | [] => []
  | byte :: bytes => .store k byte :: stores (k + 1) bytes

/-- They leave all before that index alone. -/
theorem Sound.stores (h : b.Sound arenaCap maxPackets commits) {r : Span}
    (hr : b.reserved = some r) (p : Bytes) {k : Nat} (hk : k + p.length ≤ r.len)
    (grow : Nat → Nat) (history : List (Access × Outcome)) :
    ∃ mem history', play (Buffer.step grow) b history (Buffer.stores k p) =
        some ({ b with mem := mem }, history') ∧
      { b with mem := mem }.Sound arenaCap maxPackets commits ∧
      (Span.mk (r.start + k) p.length).read mem = p ∧
      ∀ s : Span, s.stop ≤ r.start + k → s.read mem = s.read b.mem := by
  induction p generalizing b k history with
  | nil => exact ⟨b.mem, history, rfl, h, by simp [Span.read], fun _ _ => rfl⟩
  | cons byte p ih =>
    simp only [List.length_cons] at hk
    have hstored := h.store hr k byte
    obtain ⟨mem, history', hplay, hsound, hread, hbefore⟩ := ih hstored hr
      (k := k + 1) (by omega) ((.store k byte, .done) :: history)
    refine ⟨mem, history', ?_, hsound, ?_, ?_⟩
    · have htaken : b.step grow (.store k byte) =
          some ({ b with mem := b.mem.set (r.start + k) byte }, .done) := by
        simp [Buffer.step, hr]
      rw [Buffer.stores, play, htaken]
      exact hplay
    · have hinside : r.start + k < b.mem.length := by
        have hstop := (h.slice r hr).2
        rw [h.mem]
        simp only [Span.stop] at hstop
        omega
      rw [List.length_cons, Nat.add_comm p.length, Span.read_append, Nat.add_assoc, hread,
        hbefore ⟨r.start + k, 1⟩ (Nat.le_refl _), Span.read_set_self byte hinside]
      rfl
    · intro s hs
      rw [hbefore s (by omega)]
      refine Span.read_set byte ?_
      rintro ⟨-, hlt⟩
      omega

/-- Building a packet in a slice of its own size. -/
def put (p : Bytes) (err err' : Option String) : List Access :=
  .reserve p.length err :: (stores 0 p ++ [.commit p.length err'])

/-- `Reserve` of the packet's size is the `Reserve` of the packet. -/
theorem Sound.writer_reserve (h : b.Sound arenaCap maxPackets commits) {p : Bytes}
    (hp : p.length ≤ arenaCap) (err : Option String) :
    b.writer.reserve List.length arenaCap maxPackets (deliver err) p =
      some { (b.reserve p.length err).1.writer with building := some p } := by
  have hcount : b.writer.views.length = b.views.length := List.length_map _
  have hfits : ¬ (b.writer.building.isSome = true ∨ arenaCap < p.length) := by
    simpa [writer] using hp
  have hreserve : ((b.reserve p.length err).1.writer : Writer Bytes (List (List Bytes))) =
      (if b.views.length = b.viewsCap ∨ b.mem.length < b.len + p.length then
        b.flushLocked err else b).writer := by
    unfold Buffer.reserve
    generalize (if b.views.length = b.viewsCap ∨ b.mem.length < b.len + p.length then
      b.flushLocked err else b) = b₁
    dsimp only
    split <;> rfl
  rw [Writer.reserve, if_neg hfits, h.toLoaded.arena, hcount, hreserve, h.cap, h.mem]
  split
  · rw [writer_flushLocked]
    rfl
  · rfl

/-- `Commit` of the whole slice is the `Commit` of the packet that was built in it. -/
theorem Sound.writer_commit (h : b.Sound arenaCap maxPackets commits) {r : Span}
    (hr : b.reserved = some r) {p : Bytes} (hlen : p.length = r.len) (hp : r.read b.mem = p)
    (grow : Nat → Nat) (err : Option String) :
    { b.writer with building := some p }.commit List.length arenaCap maxPackets (deliver err) =
      some ((b.commit grow r p.length err).1.writer, p) := by
  obtain ⟨hinside, hpacket, hloaded⟩ := h.extend hr (Nat.le_of_eq hlen) grow
  have hcommit : { b.writer with building := some p }.commit List.length arenaCap maxPackets
      (deliver err) =
      if (b.extend grow p.length).writer.views.length = maxPackets ∨
          (b.extend grow p.length).writer.arena List.length = arenaCap then
        ((b.extend grow p.length).writer.flushLocked (deliver err)).map fun w => (w, p)
      else some ((b.extend grow p.length).writer, p) := by
    have hextend : (b.extend grow p.length).writer =
        { b.writer with views := b.packets ++ [p], building := none } := by
      rw [hp, List.take_length] at hpacket
      simp [writer, packets, Buffer.extend, hpacket]
    rw [hextend]
    rfl
  have hcount : (b.extend grow p.length).writer.views.length =
      (b.extend grow p.length).views.length := List.length_map _
  rw [hcommit, hcount, hloaded.arena, writer_flushLocked, Buffer.commit, if_neg hinside,
    Buffer.flushIfFull, hloaded.cap, hloaded.mem]
  split <;> rfl

/-- Building a packet in a slice of its own size does to the buffer what `Reserve` and `Commit` of
the packet do to the writer it stands for. -/
theorem Sound.put_refines (h : b.Sound arenaCap maxPackets commits) (hfree : b.reserved = none)
    {p : Bytes} (hp : p.length ≤ arenaCap) (grow : Nat → Nat) (err err' : Option String)
    (history : List (Access × Outcome)) :
    ∃ b' history', play (Buffer.step grow) b history (put p err err') = some (b', history') ∧
      b'.Sound arenaCap maxPackets (commits ++ [p]) ∧ b'.reserved = none ∧
      ((b.writer.reserve List.length arenaCap maxPackets (deliver err) p).bind fun w =>
        w.commit List.length arenaCap maxPackets (deliver err')) = some (b'.writer, p) := by
  obtain ⟨b₁, s, hreserve, hb₁, hs, hslen⟩ := h.reserve hfree hp err
  have hwriter : b.writer.reserve List.length arenaCap maxPackets (deliver err) p =
      some { b₁.writer with building := some p } := by
    rw [h.writer_reserve hp err, hreserve]
  have htaken : b.step grow (.reserve p.length err) = some (b₁, .slice s) := by
    rw [Buffer.step, hfree, hreserve]
    rfl
  obtain ⟨mem, history₂, hplay, hb₂, hread, -⟩ := hb₁.stores hs p (k := 0) (by omega) grow
    ((.reserve p.length err, .slice s) :: history)
  have hbuilt : s.read mem = p := by
    rw [Nat.add_zero, ← hslen] at hread
    exact hread
  have hpackets : ({ b₁ with mem := mem } : Buffer).writer = b₁.writer := by
    have hsame : ({ b₁ with mem := mem } : Buffer).packets = b₁.packets :=
      List.append_cancel_left (hb₂.all.trans hb₁.all.symm)
    simp [writer, hsame]
  have hcommit := hb₂.writer_commit hs hslen.symm hbuilt grow err'
  obtain ⟨b₃, hcall, hb₃, hfree₃⟩ := hb₂.commit hs (Nat.le_of_eq hslen.symm) grow err'
  rw [hbuilt, List.take_length] at hb₃ hcall
  rw [hpackets, hcall] at hcommit
  refine ⟨b₃, (.commit p.length err', .packet p) :: history₂, ?_, hb₃, hfree₃, ?_⟩
  · have hlast : ({ b₁ with mem := mem } : Buffer).step grow (.commit p.length err') =
        some (b₃, .packet p) := Option.map_eq_some_iff.mpr ⟨s, hs, hcall⟩
    rw [put, play, htaken]
    refine (play_append hplay _).trans ?_
    rw [play, hlast]
    rfl
  · rw [hwriter]
    exact hcommit

end Buffer

end Dualnet.Pktbuf
