import Dualnet.Library.Runs

/-!
# The healthcheck driver

`healthcheck.go`: a `Driver` samples the time of the last returned packet at every tick, goes
down when the path was silent for `timeout`, and comes up again after `upGrace` of sustained
liveness. `Seen` and `SentData` run concurrently with the loop, so `init` and `step` are split
at their loads and stores of the shared fields and either can come between any two of them.

Times are nanoseconds and their differences exact; a zero `time.Time` is `none`. The zero
`activeSince` is compared only on a tick that is not active, where the result is not used.
-/

namespace Dualnet.Healthcheck

open Library

/-- The settings of a driver; `interval = 0` is lazy mode. -/
structure Driver where
  interval : Int
  timeout : Int
  upGrace : Int

/-- Where the loop is. -/
inductive Phase where
  /-- Before `Run`. -/
  | created
  /-- Between ticks. -/
  | idle
  /-- In `init`, before it stores `lastSeen`. -/
  | initAt (now : Int)
  /-- In `step`, before it loads `lastSeen`. -/
  | tickAt (now : Int)
  /-- In `step`, before it loads `lastSent`. -/
  | loaded (now seen : Int)
  /-- In `step`, on a down edge, before it stores `lastSeen`. -/
  | down (now : Int)
  /-- In `step`, on a down edge, before it loads `lastSeen` back. -/
  | stored
  /-- In `step`, before it swaps `sentTick`. -/
  | finishing
  deriving DecidableEq

/-- The fields of a driver. The first three are shared. -/
structure State where
  lastSeen : Int := 0
  lastSent : Int := 0
  sentTick : Bool := false
  healthy : Bool := false
  lastObserved : Int := 0
  candidateSince : Option Int := none
  wasActive : Bool := false
  activeSince : Option Int := none
  phase : Phase := .created
  deriving DecidableEq

/-- What a tick sampled and did; `down` is a down edge, on which the links are reconnected. -/
structure Tick where
  now : Int
  seen : Int
  active : Bool
  down : Bool
  deriving DecidableEq

/-- What a step lets the outside see: the call of `onHealth`, the tick that was decided, and
what `step` returned. -/
structure Out where
  fired : Option Bool := none
  tick : Option Tick := none
  probe : Option Bool := none
  deriving DecidableEq

/-- An atomic step of the driver. -/
inductive Event where
  /-- `Seen`. -/
  | seen (now : Int)
  /-- The first store of `SentData`. -/
  | sent (now : Int)
  /-- The second store of `SentData`. -/
  | markSent
  /-- `init` begins. -/
  | init (now : Int)
  /-- `init` stores `lastSeen` and resets the fields of the loop. -/
  | initStore
  /-- `step` begins. -/
  | tick (now : Int)
  /-- `step` loads `lastSeen`. -/
  | loadSeen
  /-- `step` loads `lastSent` and decides. -/
  | decide
  /-- A down edge stores `lastSeen`. -/
  | storeSeen
  /-- A down edge loads `lastSeen` back. -/
  | reloadSeen
  /-- `step` swaps `sentTick` and returns. -/
  | finish
  deriving DecidableEq

/-- `setHealthy`, with the call of `onHealth`. -/
def State.setHealthy (s : State) (h : Bool) : State × Option Bool :=
  if h ≠ s.healthy then ({ s with healthy := h }, some h) else (s, none)

/-- `init`, from its store on. -/
def State.init (s : State) (now : Int) : State × Option Bool :=
  { s with
    lastSeen := now, lastObserved := now, candidateSince := none, wasActive := false
    activeSince := none, phase := .idle }.setHealthy false

namespace Driver

variable (d : Driver)

/-- Whether the loop is probing. -/
def active (s : State) (now : Int) : Bool :=
  0 < d.interval || now - s.lastSent < d.timeout

/-- `activeSince` after a tick: the tick itself if it (re)starts a probing window. -/
def activeSince (s : State) (now : Int) : Option Int :=
  if d.active s now && !s.wasActive then some now else s.activeSince

/-- The time silence is measured from: in lazy mode not before the probing window. -/
def effectiveSeen (s : State) (now seen : Int) : Int :=
  if d.interval = 0 then (d.activeSince s now).elim seen (max · seen) else seen

/-- Whether a tick is a down edge: the loop was probing and heard nothing for `timeout`. -/
def isDown (s : State) (now seen : Int) : Bool :=
  d.active s now && d.timeout < now - d.effectiveSeen s now seen

/-- The up edge of `step`, on a tick that is no down edge. -/
def upEdge (s : State) (now : Int) (fresh : Bool) : State × Option Bool :=
  if s.healthy then (s, none)
  else if fresh then
    let since := s.candidateSince.getD now
    let s := { s with candidateSince := some since }
    if now - since ≥ d.upGrace then s.setHealthy true else (s, none)
  else ({ s with candidateSince := none }, none)

/-- The edges of `step`, once it has taken note of its activity. -/
def edges (s : State) (now seen : Int) (down : Bool) : State × Option Bool :=
  if down then
    let (s, fired) := s.setHealthy false
    ({ s with candidateSince := none, phase := .down now }, fired)
  else
    let fresh := seen ≠ s.lastObserved
    d.upEdge { s with lastObserved := seen, phase := .finishing } now fresh

/-- `step`, from its load of `lastSent` on: up to its end, or on a down edge up to its store of
`lastSeen`. -/
def decide (s : State) (now seen : Int) : State × Out :=
  let active := d.active s now
  let down := d.isDown s now seen
  let (s, fired) :=
    d.edges { s with wasActive := active, activeSince := d.activeSince s now } now seen down
  (s, { fired, tick := some ⟨now, seen, active, down⟩ })

/-- One atomic step; `none` when the loop is elsewhere. -/
def step (s : State) : Event → Option (State × Out)
  | .seen now => some ({ s with lastSeen := now }, {})
  | .sent now => some ({ s with lastSent := now }, {})
  | .markSent => some ({ s with sentTick := true }, {})
  | .init now => match s.phase with
      | .created | .idle => some ({ s with phase := .initAt now }, {})
      | _ => none
  | .initStore => match s.phase with
      | .initAt now => let (s, fired) := s.init now; some (s, { fired })
      | _ => none
  | .tick now => match s.phase with
      | .idle => some ({ s with phase := .tickAt now }, {})
      | _ => none
  | .loadSeen => match s.phase with
      | .tickAt now => some ({ s with phase := .loaded now s.lastSeen }, {})
      | _ => none
  | .decide => match s.phase with
      | .loaded now seen => some (d.decide s now seen)
      | _ => none
  | .storeSeen => match s.phase with
      | .down now => some ({ s with lastSeen := now, phase := .stored }, {})
      | _ => none
  | .reloadSeen => match s.phase with
      | .stored =>
        some ({ s with lastObserved := s.lastSeen, phase := .idle }, { probe := some false })
      | _ => none
  | .finish => match s.phase with
      | .finishing =>
        if 0 < d.interval then some ({ s with phase := .idle }, { probe := some true })
        else some ({ s with sentTick := false, phase := .idle }, { probe := some s.sentTick })
      | _ => none

/-- The runs of a driver. -/
abbrev Run (admits : State → List (Event × Out) → Event → Prop) (s : State)
    (history : List (Event × Out)) : Prop :=
  Reached d.step admits {} s history

end Driver

/-! ## What an observer notes -/

/-- A tick and whether a `Seen` came between the previous sample and its own, after the last
reset of `lastSeen` if there was one in between. -/
structure Noted extends Tick where
  heard : Bool
  deriving DecidableEq

/-- What an observer of the events and outcomes keeps: whether a `Seen` came since the last
sample or reset, whether one came before the last sample, and the ticks decided, latest first. -/
structure Notes where
  heard : Bool := false
  current : Bool := false
  ticks : List Noted := []

def Notes.add (n : Notes) (entry : Event × Out) : Notes :=
  match entry.1, entry.2.tick with
  | .seen _, _ => { n with heard := true }
  | .initStore, _ | .reloadSeen, _ => { n with heard := false }
  | .loadSeen, _ => { n with heard := false, current := n.heard }
  | _, some tick => { n with ticks := ⟨tick, n.current⟩ :: n.ticks }
  | _, none => n

/-- The notes on a run. -/
def notes (history : List (Event × Out)) : Notes := history.foldr (fun entry n => n.add entry) {}

/-- One more note. -/
@[simp] theorem notes_cons (entry : Event × Out) (history : List (Event × Out)) :
    notes (entry :: history) = (notes history).add entry := rfl

/-- The calls of `onHealth`, latest first. -/
def fires (history : List (Event × Out)) : List Bool := history.filterMap fun entry => entry.2.fired

/-- The latest ticks all satisfy `P`, back to one at time `t₀`. -/
def Unbroken (P : Noted → Prop) (t₀ : Int) (ticks : List Noted) : Prop :=
  ∃ run first, run <+: ticks ∧ run.getLast? = some first ∧ first.now = t₀ ∧ ∀ k ∈ run, P k

/-- A period begins. -/
theorem unbroken_start {P : Noted → Prop} {k : Noted} (hk : P k) (ticks : List Noted) :
    Unbroken P k.now (k :: ticks) :=
  ⟨[k], k, by simp, rfl, rfl, by simpa using hk⟩

/-- It goes on. -/
theorem Unbroken.next {P : Noted → Prop} {t₀ : Int} {ticks : List Noted} {k : Noted}
    (h : Unbroken P t₀ ticks) (hk : P k) : Unbroken P t₀ (k :: ticks) := by
  obtain ⟨run, first, hprefix, hlast, hnow, hall⟩ := h
  refine ⟨k :: run, first, (List.prefix_cons_inj k).mpr hprefix, ?_, hnow, ?_⟩
  · rw [List.getLast?_cons, hlast]
    rfl
  · exact List.forall_mem_cons.mpr ⟨hk, hall⟩

end Dualnet.Healthcheck
