import Dualnet.Library.Runs

/-!
# Freshness stamps

`nextTS` of the connecting carriers and `nextAssignTS` of the HTTP listener: a counter in an
atomic field, moved on by a loop of a load and a compare-and-swap. The clock is read once, in front
of the loop. Any number of callers run at once; each atomic operation is a step.

`stamps_increase` is the result: whatever the clock shows, the stamps that are returned increase
strictly in the order of the swaps that took them.
-/

namespace Dualnet.Conn

open Library

/-- An atomic field of a connection. -/
structure AtomicField (σ : Type) where
  load : σ → UInt64
  store : UInt64 → σ → σ
  load_store : ∀ v c, load (store v c) = v

/-- Where a caller is: outside, in front of the load, or in front of the swap. -/
inductive Caller where
  | idle
  | started (now : UInt64)
  | loaded (now prev : UInt64)

/-- A connection and the callers in its stamp function. -/
structure Stamping (σ : Type) where
  conn : σ
  callers : Nat → Caller

/-- An atomic operation of a caller. -/
inductive StampEvent where
  /-- The call, with the reading of the clock. -/
  | call (caller : Nat) (now : UInt64)
  | load (caller : Nat)
  | swap (caller : Nat)

/-- The stamp a caller tries to swap in. -/
def nextStamp (now prev : UInt64) : UInt64 := if now ≤ prev then prev + 1 else now

variable {σ : Type}

/-- A caller gets to another place. -/
def Stamping.move (s : Stamping σ) (caller : Nat) (c : Caller) : Stamping σ :=
  { s with callers := fun i => if i = caller then c else s.callers i }

/-- The stamp function on an atomic field, with the stamp if the call returns. -/
def nextTS (field : AtomicField σ) (s : Stamping σ) :
    StampEvent → Option (Stamping σ × Option UInt64)
  | .call caller now =>
    match s.callers caller with
    | .idle => some (s.move caller (.started now), none)
    | _ => none
  | .load caller =>
    match s.callers caller with
    | .started now => some (s.move caller (.loaded now (field.load s.conn)), none)
    | _ => none
  | .swap caller =>
    match s.callers caller with
    | .loaded now prev =>
      if field.load s.conn = prev then
        let ts := nextStamp now prev
        some ({ s.move caller .idle with conn := field.store ts s.conn }, some ts)
      else some (s.move caller (.started now), none)
    | _ => none

/-! ## The fields -/

/-- The atomic field of a `udpConnectIn`. -/
structure UdpStamps where
  lastTS : UInt64

/-- The atomic field of a `tcpConnectIn`. -/
structure TcpStamps where
  sendTS : UInt64

/-- The atomic field of an `httpConnectIn`. -/
structure HttpStamps where
  sendTS : UInt64

/-- The atomic field of an `httpListenOut`. -/
structure AssignStamps where
  assignTS : UInt64

/-- `udpConnectIn.nextTS`. -/
def udpConnectInNextTS := nextTS ⟨UdpStamps.lastTS, fun ts _ => ⟨ts⟩, fun _ _ => rfl⟩

/-- `tcpConnectIn.nextTS`. -/
def tcpConnectInNextTS := nextTS ⟨TcpStamps.sendTS, fun ts _ => ⟨ts⟩, fun _ _ => rfl⟩

/-- `httpConnectIn.nextTS`. -/
def httpConnectInNextTS := nextTS ⟨HttpStamps.sendTS, fun ts _ => ⟨ts⟩, fun _ _ => rfl⟩

/-- `httpListenOut.nextAssignTS`. -/
def nextAssignTS := nextTS ⟨AssignStamps.assignTS, fun ts _ => ⟨ts⟩, fun _ _ => rfl⟩

/-! ## Runs -/

/-- The stamps returned, latest first. -/
def stamps (history : List (StampEvent × Option UInt64)) : List UInt64 := history.filterMap Prod.snd

/-- A stamp is above the counter it replaces, as long as the counter is not at its end. -/
theorem lt_nextStamp {now prev : UInt64} (h : prev.toNat < 2 ^ 64 - 1) :
    prev < nextStamp now prev := by
  unfold nextStamp
  split
  · rw [UInt64.lt_iff_toNat_lt, UInt64.toNat_add]
    simp
    omega
  · rename_i hnow
    exact UInt64.not_le.mp hnow

/-- The counter is the stamp returned last, and the stamps increase. -/
structure Increasing (field : AtomicField σ) (s : Stamping σ) (returned : List UInt64) : Prop where
  counter : field.load s.conn = returned.headD 0
  sorted : returned.Pairwise (· > ·)
  positive : ∀ ts ∈ returned, ts ≠ 0

section Runs

variable {field : AtomicField σ} {s s' : Stamping σ} {returned : List UInt64} {event : StampEvent}
  {out : Option UInt64}

/-- Where the callers are does not matter. -/
theorem Increasing.move (h : Increasing field s returned) (caller : Nat) (c : Caller) :
    Increasing field (s.move caller c) returned := ⟨h.counter, h.sorted, h.positive⟩

/-- No stamp is above the counter. -/
theorem Increasing.le_counter (h : Increasing field s returned) :
    ∀ ts ∈ returned, ts ≤ field.load s.conn := by
  rw [h.counter]
  cases returned with
  | nil => simp
  | cons last earlier =>
    intro ts hts
    obtain rfl | hts := List.mem_cons.mp hts
    · exact UInt64.le_refl _
    · exact UInt64.le_of_lt (List.rel_of_pairwise_cons h.sorted hts)

/-- A swap that succeeds returns a stamp above all earlier ones. -/
theorem Increasing.swap (h : Increasing field s returned) {caller : Nat} {ts : UInt64}
    (hts : field.load s.conn < ts) :
    Increasing field { s.move caller .idle with conn := field.store ts s.conn }
      (ts :: returned) where
  counter := field.load_store ts s.conn
  sorted := List.pairwise_cons.mpr
    ⟨fun earlier hmem => UInt64.lt_of_le_of_lt (h.le_counter earlier hmem) hts, h.sorted⟩
  positive := by
    refine List.forall_mem_cons.mpr ⟨?_, h.positive⟩
    rintro rfl
    exact UInt64.not_lt_zero hts

/-- The steps keep the stamps increasing. -/
theorem Increasing.step (h : Increasing field s returned)
    (hbound : ∀ ts ∈ returned, ts.toNat < 2 ^ 64 - 1)
    (hstep : nextTS field s event = some (s', out)) :
    Increasing field s' (out.toList ++ returned) := by
  cases event with
  | call caller now =>
    simp only [nextTS] at hstep
    split at hstep
    · obtain ⟨rfl, rfl⟩ := pair_inj hstep
      exact h.move caller _
    · cases hstep
  | load caller =>
    simp only [nextTS] at hstep
    split at hstep
    · obtain ⟨rfl, rfl⟩ := pair_inj hstep
      exact h.move caller _
    · cases hstep
  | swap caller =>
    simp only [nextTS] at hstep
    split at hstep
    · split at hstep
      · rename_i now prev _ hprev
        obtain ⟨rfl, rfl⟩ := pair_inj hstep
        -- the counter is still the value that was loaded
        have hend : prev.toNat < 2 ^ 64 - 1 := by
          rw [← hprev, h.counter]
          cases returned with
          | nil => decide
          | cons last earlier => exact hbound last (by simp)
        have hlt : field.load s.conn < nextStamp now prev := by
          rw [hprev]
          exact lt_nextStamp hend
        exact h.swap hlt
      · obtain ⟨rfl, rfl⟩ := pair_inj hstep
        exact h.move caller _
    · cases hstep

end Runs

/-- In every run the stamps that are returned are not zero and each is above all that were swapped
in before it, so that no two are the same. -/
def StrictStamps (step : Stamping σ → StampEvent → Option (Stamping σ × Option UInt64))
    (init : Stamping σ) : Prop :=
  ∀ s history, Reached step (fun _ _ _ => True) init s history →
    (∀ ts ∈ stamps history, ts.toNat < 2 ^ 64 - 1) →
    (∀ ts ∈ stamps history, ts ≠ 0) ∧ (stamps history).Pairwise (· > ·) ∧ (stamps history).Nodup

/-- The stamps taken from a field that is zero at first. -/
theorem strictStamps_nextTS (field : AtomicField σ) {conn : σ} (hzero : field.load conn = 0) :
    StrictStamps (nextTS field) ⟨conn, fun _ => .idle⟩ := by
  intro s history hrun hbound
  have hinit : Increasing field ⟨conn, fun _ => .idle⟩ [] := ⟨hzero, .nil, by simp⟩
  have hall := hrun.invariant
    (fun s history => (∀ ts ∈ stamps history, ts.toNat < 2 ^ 64 - 1) →
      Increasing field s (stamps history))
    (fun _ => hinit)
    (fun s history event s' out ih _ hstep hbound => by
      have hstamps : stamps ((event, out) :: history) = out.toList ++ stamps history := by
        cases out <;> rfl
      rw [hstamps] at hbound ⊢
      have hearlier : ∀ ts ∈ stamps history, ts.toNat < 2 ^ 64 - 1 := fun ts hts =>
        hbound ts (List.mem_append_right _ hts)
      exact (ih hearlier).step hearlier hstep)
    hbound
  exact ⟨hall.positive, hall.sorted, hall.sorted.imp fun hlt => (UInt64.ne_of_lt hlt).symm⟩

/-- The stamps of the four carriers that send them. -/
theorem stamps_increase :
    StrictStamps udpConnectInNextTS ⟨⟨0⟩, fun _ => .idle⟩ ∧
      StrictStamps tcpConnectInNextTS ⟨⟨0⟩, fun _ => .idle⟩ ∧
      StrictStamps httpConnectInNextTS ⟨⟨0⟩, fun _ => .idle⟩ ∧
      StrictStamps nextAssignTS ⟨⟨0⟩, fun _ => .idle⟩ :=
  ⟨strictStamps_nextTS _ rfl, strictStamps_nextTS _ rfl, strictStamps_nextTS _ rfl,
    strictStamps_nextTS _ rfl⟩

/-- Two callers load the counter, the second one with a clock that went back; the first one swaps,
the second one fails, loads again and takes the next stamp. -/
theorem stamps_increase_retry :
    ∃ s history, Reached udpConnectInNextTS (fun _ _ _ => True) ⟨⟨0⟩, fun _ => .idle⟩ s history ∧
      stamps history = [8, 7] ∧ (stamps history).Nodup := by
  obtain ⟨s, history, hplay, hstamps⟩ :
      ∃ s history, play udpConnectInNextTS ⟨⟨0⟩, fun _ => .idle⟩ [] [.call 0 7, .call 1 5, .load 0,
        .load 1, .swap 0, .swap 1, .load 1, .swap 1] = some (s, history) ∧
        stamps history = [8, 7] := ⟨_, _, rfl, rfl⟩
  have hrun := Reached.play .init _ hplay
  refine ⟨s, history, hrun, hstamps, (stamps_increase.1 s history hrun ?_).2.2⟩
  rw [hstamps]
  simp

end Dualnet.Conn
