import Dualnet.Healthcheck.Driver

/-!
# Health edges

What the runs of a driver guarantee. `recovery_is_sustained`: `onHealth` alternates, and the
driver comes up only after ticks without a break, over at least `upGrace`, before each of which
a packet was seen. `edges_are_justified`: in fixed cadence the driver is healthy only while the
sample is recent, and a down edge comes only after a silence of `timeout`, in lazy mode one
through which the driver was probing.
-/

namespace Dualnet.Healthcheck

open Library

/-- What `setHealthy` does. -/
theorem setHealthy_eq (s : State) (h : Bool) :
    s.setHealthy h = ({ s with healthy := h }, if h ≠ s.healthy then some h else none) := by
  unfold State.setHealthy
  split
  · rfl
  · next heq =>
      obtain rfl := not_not.mp heq
      rfl

namespace Driver

variable (d : Driver)

/-- The state in which a tick looks at the edges. -/
def probing (s : State) (now : Int) : State :=
  { s with wasActive := d.active s now, activeSince := d.activeSince s now }

/-- The ways a tick is decided. -/
inductive Decided (s : State) (now seen : Int) : State → Out → Prop where
  | down (hdown : d.isDown s now seen = true) :
      Decided s now seen
        { d.probing s now with healthy := false, candidateSince := none, phase := .down now }
        { fired := if false ≠ s.healthy then some false else none
          tick := some ⟨now, seen, d.active s now, true⟩ }
  | stays (hdown : d.isDown s now seen = false) (hhealthy : s.healthy = true) :
      Decided s now seen { d.probing s now with lastObserved := seen, phase := .finishing }
        { tick := some ⟨now, seen, d.active s now, false⟩ }
  | recovers {since : Int} (hdown : d.isDown s now seen = false) (hhealthy : s.healthy = false)
      (hfresh : seen ≠ s.lastObserved) (hsince : s.candidateSince.getD now = since)
      (hgrace : now - since ≥ d.upGrace) :
      Decided s now seen
        { d.probing s now with
          lastObserved := seen, healthy := true, candidateSince := some since, phase := .finishing }
        { fired := some true, tick := some ⟨now, seen, d.active s now, false⟩ }
  | waits {since : Int} (hdown : d.isDown s now seen = false) (hhealthy : s.healthy = false)
      (hfresh : seen ≠ s.lastObserved) (hsince : s.candidateSince.getD now = since) :
      Decided s now seen
        { d.probing s now with
          lastObserved := seen, candidateSince := some since, phase := .finishing }
        { tick := some ⟨now, seen, d.active s now, false⟩ }
  | stalls (hdown : d.isDown s now seen = false) (hhealthy : s.healthy = false)
      (hstale : seen = s.lastObserved) :
      Decided s now seen
        { d.probing s now with lastObserved := seen, candidateSince := none, phase := .finishing }
        { tick := some ⟨now, seen, d.active s now, false⟩ }

/-- `decide` decides so. -/
theorem decided_decide (s : State) (now seen : Int) :
    d.Decided s now seen (d.decide s now seen).1 (d.decide s now seen).2 := by
  cases hdown : d.isDown s now seen with
  | true =>
    simp only [Driver.decide, edges, hdown, if_true, setHealthy_eq]
    exact .down hdown
  | false =>
    simp only [Driver.decide, edges, hdown, Bool.false_eq_true, if_false, upEdge]
    split
    · next hhealthy => exact .stays hdown hhealthy
    · next hhealthy =>
        have hhealthy := Bool.eq_false_iff.mpr hhealthy
        split
        · next hfresh =>
            have hfresh := of_decide_eq_true hfresh
            split
            · next hgrace =>
                have hrecovers := Decided.recovers hdown hhealthy hfresh rfl hgrace
                simpa [setHealthy_eq, hhealthy, probing] using hrecovers
            · exact .waits hdown hhealthy hfresh rfl
        · next hstale =>
            have hstale : seen = s.lastObserved := by simpa using hstale
            exact .stalls hdown hhealthy hstale

/-- The steps of a driver, by event. -/
inductive Taken (s : State) : Event → State → Out → Prop where
  | seen (now : Int) : Taken s (.seen now) { s with lastSeen := now } {}
  | sent (now : Int) : Taken s (.sent now) { s with lastSent := now } {}
  | markSent : Taken s .markSent { s with sentTick := true } {}
  | init (now : Int) (hphase : s.phase = .created ∨ s.phase = .idle) :
      Taken s (.init now) { s with phase := .initAt now } {}
  | initStore {now : Int} (hphase : s.phase = .initAt now) :
      Taken s .initStore
        { s with
          lastSeen := now, healthy := false, lastObserved := now, candidateSince := none
          wasActive := false, activeSince := none, phase := .idle }
        { fired := if false ≠ s.healthy then some false else none }
  | tick (now : Int) (hphase : s.phase = .idle) :
      Taken s (.tick now) { s with phase := .tickAt now } {}
  | loadSeen {now : Int} (hphase : s.phase = .tickAt now) :
      Taken s .loadSeen { s with phase := .loaded now s.lastSeen } {}
  | decide {now seen : Int} {s' : State} {out : Out} (hphase : s.phase = .loaded now seen)
      (hdecided : d.Decided s now seen s' out) : Taken s .decide s' out
  | storeSeen {now : Int} (hphase : s.phase = .down now) :
      Taken s .storeSeen { s with lastSeen := now, phase := .stored } {}
  | reloadSeen (hphase : s.phase = .stored) :
      Taken s .reloadSeen { s with lastObserved := s.lastSeen, phase := .idle }
        { probe := some false }
  | finish (hphase : s.phase = .finishing) (sentTick probe : Bool) :
      Taken s .finish { s with sentTick, phase := .idle } { probe := some probe }

variable {d}

/-- Inversion of `step`. -/
theorem taken_of_step {s s' : State} {event : Event} {out : Out}
    (h : d.step s event = some (s', out)) : d.Taken s event s' out := by
  cases event with
  | seen _ | sent _ | markSent =>
    cases h
    constructor
  | init now =>
    simp only [step] at h
    split at h
    next hphase =>
      cases h
      exact .init now (.inl hphase)
    next hphase =>
      cases h
      exact .init now (.inr hphase)
    next => cases h
  | initStore =>
    simp only [step, State.init, setHealthy_eq] at h
    split at h
    next hphase =>
      cases h
      exact .initStore hphase
    next => cases h
  | tick _ | loadSeen | storeSeen | reloadSeen =>
    simp only [step] at h
    split at h
    next hphase =>
      cases h
      constructor
      exact hphase
    next => cases h
  | decide =>
    simp only [step] at h
    split at h
    next now seen hphase =>
      have hdecided := d.decided_decide s now seen
      rw [Option.some.inj h] at hdecided
      exact .decide hphase hdecided
    next => cases h
  | finish =>
    simp only [step] at h
    split at h
    next hphase =>
      split at h
      · cases h
        exact .finish hphase s.sentTick true
      · cases h
        exact .finish hphase false s.sentTick
    next => cases h

/-- `onHealth` is called with the new state, on a change of it. -/
theorem Taken.fired_eq {s s' : State} {event : Event} {out : Out} (h : d.Taken s event s' out) :
    out.fired = if s'.healthy ≠ s.healthy then some s'.healthy else none := by
  cases h with
  | decide hphase hdecided => cases hdecided <;> simp_all [probing]
  | _ => simp

end Driver

/-! ## Recovery -/

/-- The calls of `onHealth` alternate, the first is `true` and the last says the state. -/
structure Alternating (healthy : Bool) (calls : List Bool) : Prop where
  chain : calls.IsChain (· ≠ ·)
  first : ∀ b ∈ calls.getLast?, b = true
  latest : calls.head?.getD false = healthy

/-- A call on a change keeps them alternating. -/
theorem Alternating.fire {healthy : Bool} {calls : List Bool} (h : Alternating healthy calls)
    (healthy' : Bool) :
    Alternating healthy'
      ((if healthy' ≠ healthy then some healthy' else none).toList ++ calls) := by
  by_cases heq : healthy' = healthy
  · subst heq
    simpa using h
  · rw [if_pos heq]
    cases calls with
    | nil =>
      obtain rfl : false = healthy := h.latest
      obtain rfl : healthy' = true := by simpa using heq
      exact ⟨List.isChain_singleton _, by simp, rfl⟩
    | cons b calls =>
      obtain rfl : b = healthy := h.latest
      exact ⟨List.isChain_cons_cons.mpr ⟨heq, h.chain⟩, by simpa using h.first, rfl⟩

/-- A tick that counts towards recovery. -/
def Noted.Live (k : Noted) : Prop := k.down = false ∧ k.heard = true

/-- A difference between `lastSeen` and the last sample comes from a `Seen`. -/
def SampleFits (s : State) (n : Notes) : Prop :=
  match s.phase with
  | .idle | .tickAt _ | .finishing => n.heard = false → s.lastSeen = s.lastObserved
  | .loaded _ seen =>
    (n.heard = false → s.lastSeen = seen) ∧ (n.current = false → seen = s.lastObserved)
  | .created | .initAt _ | .down _ | .stored => True

/-- What holds along every run of a driver. -/
structure Sound (s : State) (history : List (Event × Out)) : Prop where
  alternating : Alternating s.healthy (fires history)
  sample : SampleFits s (notes history)
  candidate : s.healthy = false → ∀ t₀ ∈ s.candidateSince,
    Unbroken Noted.Live t₀ (notes history).ticks

section Recovery

variable {d : Driver} {s s' : State} {history : List (Event × Out)} {event : Event} {out : Out}

/-- A fresh sample continues the unbroken run of ticks, or starts one. -/
theorem Sound.live (h : Sound s history) (hhealthy : s.healthy = false) {now seen : Int}
    (hphase : s.phase = .loaded now seen) (hfresh : seen ≠ s.lastObserved) (active : Bool) :
    Unbroken Noted.Live (s.candidateSince.getD now)
      (⟨⟨now, seen, active, false⟩, (notes history).current⟩ :: (notes history).ticks) := by
  have hsample := h.sample
  simp only [SampleFits, hphase] at hsample
  have hcurrent : (notes history).current = true := by
    by_contra hnot
    exact hfresh (hsample.2 (Bool.eq_false_iff.mpr hnot))
  cases hsince : s.candidateSince with
  | none => exact unbroken_start ⟨rfl, hcurrent⟩ _
  | some t₀ => exact (h.candidate hhealthy t₀ hsince).next ⟨rfl, hcurrent⟩

/-- The sample fits after every step. -/
theorem Sound.sample_step (h : Sound s history) (ht : d.Taken s event s' out) :
    SampleFits s' (notes ((event, out) :: history)) := by
  have hsample := h.sample
  cases ht with
  | seen now =>
    -- the `Seen` is noted, so `lastSeen` may differ from the sample
    unfold SampleFits at hsample ⊢
    cases hphase : s.phase <;> simp_all [Notes.add]
  | sent | markSent => exact hsample
  | init | initStore => simp [SampleFits]
  | tick now hphase => simpa [SampleFits, hphase, Notes.add] using hsample
  | loadSeen hphase =>
    simp only [SampleFits, hphase] at hsample
    simpa [SampleFits, Notes.add] using hsample
  | decide hphase hdecided =>
    simp only [SampleFits, hphase] at hsample
    cases hdecided with
    | down => trivial
    | stays | recovers | waits | stalls => exact hsample.1
  | storeSeen | reloadSeen => simp [SampleFits]
  | finish hphase => simpa [SampleFits, hphase, Notes.add] using hsample

/-- So does the candidate. -/
theorem Sound.candidate_step (h : Sound s history) (ht : d.Taken s event s' out)
    (hhealthy : s'.healthy = false) (t₀ : Int) (hsince : t₀ ∈ s'.candidateSince) :
    Unbroken Noted.Live t₀ (notes ((event, out) :: history)).ticks := by
  cases ht with
  | initStore => cases hsince
  | decide hphase hdecided =>
    cases hdecided with
    -- a down edge and a stale sample both end the window
    | down | stalls => cases hsince
    | stays hdown hup => cases hup.symm.trans hhealthy
    | recovers => cases hhealthy
    | waits hdown hdown' hfresh hwindow =>
      cases hsince
      exact hwindow ▸ h.live hdown' hphase hfresh _
  | seen | sent | markSent | init | tick | loadSeen | storeSeen | reloadSeen | finish =>
    exact h.candidate hhealthy t₀ hsince

/-- Every step keeps what holds along a run. -/
theorem Sound.step (h : Sound s history) (ht : d.Taken s event s' out) :
    Sound s' ((event, out) :: history) := by
  refine ⟨?_, h.sample_step ht, h.candidate_step ht⟩
  have hfires : fires ((event, out) :: history) = out.fired.toList ++ fires history := by
    cases hfired : out.fired <;> simp [fires, hfired]
  rw [hfires, ht.fired_eq]
  exact h.alternating.fire s'.healthy

/-- Every state of a run is sound. -/
theorem sound_of_run {admits : State → List (Event × Out) → Event → Prop}
    (h : d.Run admits s history) : Sound s history := by
  refine h.invariant Sound ?_ fun s history event s' out hs _ htaken => ?_
  · exact ⟨⟨List.isChain_nil, by simp [fires], rfl⟩, trivial, by simp⟩
  · exact hs.step (Driver.taken_of_step htaken)

/-- `onHealth` alternates, starting with `true`. Whenever a step makes the driver healthy, its
tick ends an unbroken run of ticks, none a down edge and each after a `Seen`, that started at
least `upGrace` before. -/
theorem recovery_is_sustained (h : d.Run (fun _ _ _ => True) s history) :
    ((fires history).IsChain (· ≠ ·) ∧ ∀ b ∈ (fires history).getLast?, b = true) ∧
      ∀ event s' out, d.step s event = some (s', out) → s.healthy = false → s'.healthy = true →
        ∃ tick t₀, out.tick = some tick ∧ t₀ ≤ tick.now - d.upGrace ∧
          (notes ((event, out) :: history)).ticks.head?.map Noted.toTick = some tick ∧
          Unbroken (fun k => k.down = false ∧ k.heard = true) t₀
            (notes ((event, out) :: history)).ticks := by
  have hsound := sound_of_run h
  refine ⟨⟨hsound.alternating.chain, hsound.alternating.first⟩, ?_⟩
  intro event s' out htaken hdown hup
  have ht := Driver.taken_of_step htaken
  cases ht with
  | decide hphase hdecided =>
    cases hdecided with
    | recovers hnot hhealthy hfresh hsince hgrace =>
      refine ⟨_, _, rfl, ?_, rfl, hsince ▸ hsound.live hhealthy hphase hfresh _⟩
      simp only
      omega
    | down => cases hup
    | stays hnot hhealthy => cases hhealthy.symm.trans hdown
    | waits | stalls => cases hup.symm.trans hdown
  | initStore => cases hup
  | seen | sent | markSent | init | tick | loadSeen | storeSeen | reloadSeen | finish =>
    cases hup.symm.trans hdown

end Recovery

/-- A driver that probes every second, with a grace of two. -/
def steady : Driver := ⟨1, 10, 2⟩

/-- Two ticks with packets, two apart, make it healthy. -/
theorem recovery_steady : ∃ s history s' out t₀, steady.Run (fun _ _ _ => True) s history ∧
    steady.step s .decide = some (s', out) ∧ s.healthy = false ∧ s'.healthy = true ∧ t₀ ≤ 1 ∧
      Unbroken (fun k => k.down = false ∧ k.heard = true) t₀
        (notes ((.decide, out) :: history)).ticks := by
  have hrun : steady.Run (fun _ _ _ => True) _ _ := Reached.init.play
    [.init 0, .initStore, .seen 1, .tick 1, .loadSeen, .decide, .finish, .seen 3, .tick 3,
      .loadSeen] rfl
  obtain ⟨tick, t₀, htick, ht₀, -, hunbroken⟩ :=
    (recovery_is_sustained hrun).2 .decide _ _ rfl rfl rfl
  cases htick
  exact ⟨_, _, _, _, t₀, hrun, rfl, rfl, rfl, ht₀, hunbroken⟩

/-! ## Down edges -/

/-- The time an event reads from the clock. -/
def Event.time? : Event → Option Int
  | .seen now | .sent now | .init now | .tick now => some now
  | _ => none

/-- Events come at non-decreasing times. -/
def timely (_ : State) (history : List (Event × Out)) (event : Event) : Prop :=
  ∀ now ∈ event.time?, ∀ entry ∈ history, ∀ before ∈ entry.1.time?, before ≤ now

instance (s : State) (history : List (Event × Out)) (event : Event) :
    Decidable (timely s history event) := by
  unfold timely
  infer_instance

/-- A time that is not after the last event. -/
def Past (history : List (Event × Out)) (t : Int) : Prop :=
  ∃ entry ∈ history, ∃ now ∈ entry.1.time?, t ≤ now

/-- What is past stays so. -/
theorem Past.cons {history : List (Event × Out)} {t : Int} (h : Past history t)
    (entry : Event × Out) : Past (entry :: history) t := by
  obtain ⟨before, hmem, now, hnow, hle⟩ := h
  exact ⟨before, List.mem_cons_of_mem entry hmem, now, hnow, hle⟩

/-- The time of the latest event is past. -/
theorem past_now {event : Event} {now : Int} (h : event.time? = some now) (out : Out)
    (history : List (Event × Out)) : Past ((event, out) :: history) now :=
  ⟨_, List.mem_cons_self, now, h, le_refl now⟩

/-- Later events are not before it. -/
theorem Past.le {s : State} {history : List (Event × Out)} {event : Event} {t now : Int}
    (h : Past history t) (htimely : timely s history event) (hnow : event.time? = some now) :
    t ≤ now := by
  obtain ⟨entry, hmem, before, hbefore, hle⟩ := h
  exact hle.trans (htimely now hnow entry hmem before hbefore)

/-- The times a driver holds. -/
def State.times (s : State) : List Int :=
  match s.phase with
  | .created => []
  | .initAt now => [now]
  | .idle | .stored | .finishing => [s.lastSeen]
  | .tickAt now | .down now => [now, s.lastSeen]
  | .loaded now seen => [now, seen, s.lastSeen]

/-- The times no sample is later than, if the timeout is not negative: those the next sample can
be made of. -/
def State.floors (s : State) : List Int :=
  match s.phase with
  | .created => []
  | .initAt now | .down now => [now]
  | .idle | .stored | .finishing | .tickAt _ => [s.lastSeen]
  | .loaded _ seen => [seen, s.lastSeen]

/-- The times of a tick in progress, which no sample is later than. -/
def Phase.tick? : Phase → Option Int
  | .tickAt now | .loaded now _ => some now
  | _ => none

/-- What holds along a run at non-decreasing times. -/
structure Timed (d : Driver) (s : State) (history : List (Event × Out)) : Prop where
  fresh : s.phase = .created → (notes history).ticks = []
  past : ∀ t ∈ s.times, Past history t
  sampled : ∀ k ∈ (notes history).ticks, Past history k.seen
  tick : ∀ now ∈ s.phase.tick?, ∀ k ∈ (notes history).ticks, k.seen ≤ now
  floors : 0 ≤ d.timeout → ∀ t ∈ s.floors, ∀ k ∈ (notes history).ticks, k.seen ≤ t
  loaded : ∀ now seen, s.phase = .loaded now seen → seen ≤ s.lastSeen

/-- The probing window the driver is in goes back to `activeSince`. -/
def Probing (s : State) (history : List (Event × Out)) : Prop :=
  s.wasActive = true → ∃ t₀, s.activeSince = some t₀ ∧
    Unbroken (fun k => k.active = true) t₀ (notes history).ticks

section Down

variable {d : Driver} {s s' : State} {history : List (Event × Out)} {event : Event} {out : Out}

/-- A tick continues the probing window, or starts one. -/
theorem Probing.tick (h : Probing s history) {now seen : Int} {down heard : Bool}
    (hactive : d.active s now = true) :
    ∃ t₀, d.activeSince s now = some t₀ ∧ Unbroken (fun k => k.active = true) t₀
      (⟨⟨now, seen, d.active s now, down⟩, heard⟩ :: (notes history).ticks) := by
  cases hwas : s.wasActive with
  | true =>
    obtain ⟨t₀, hsince, hunbroken⟩ := h hwas
    exact ⟨t₀, by simp [Driver.activeSince, hwas, hsince], hunbroken.next hactive⟩
  | false =>
    exact ⟨now, by simp [Driver.activeSince, hwas, hactive], unbroken_start hactive _⟩

/-- Every step keeps this. -/
theorem Probing.step (h : Probing s history) (ht : d.Taken s event s' out) :
    Probing s' ((event, out) :: history) := by
  cases ht with
  | initStore => simp [Probing]
  | decide hphase hdecided =>
    cases hdecided with
    | down | stays | recovers | waits | stalls => exact fun hactive => h.tick hactive
  | seen | sent | markSent | init | tick | loadSeen | storeSeen | reloadSeen | finish => exact h

/-- A step that decides no tick: the times it brings in are its own, which is not before any
other. -/
theorem Timed.keep (h : Timed d s history) (htimely : timely s history event)
    (hticks : (notes ((event, out) :: history)).ticks = (notes history).ticks)
    (hcreated : s'.phase = .created → s.phase = .created)
    (htimes : ∀ t ∈ s'.times, t ∈ s.times ∨ event.time? = some t)
    (htick : ∀ now ∈ s'.phase.tick?, now ∈ s.phase.tick? ∨ event.time? = some now)
    (hfloors : ∀ t ∈ s'.floors, t ∈ s.floors ∨ event.time? = some t)
    (hloaded : ∀ now seen, s'.phase = .loaded now seen → seen ≤ s'.lastSeen) :
    Timed d s' ((event, out) :: history) := by
  refine ⟨?_, ?_, ?_, ?_, ?_, hloaded⟩
  · rw [hticks]
    exact fun hphase => h.fresh (hcreated hphase)
  · intro t ht
    rcases htimes t ht with ht | ht
    · exact (h.past t ht).cons _
    · exact past_now ht out history
  · rw [hticks]
    exact fun k hk => (h.sampled k hk).cons _
  · rw [hticks]
    intro now hnow k hk
    rcases htick now hnow with hnow | hnow
    · exact h.tick now hnow k hk
    · exact (h.sampled k hk).le htimely hnow
  · rw [hticks]
    intro htimeout t ht k hk
    rcases hfloors t ht with ht | ht
    · exact h.floors htimeout t ht k hk
    · exact (h.sampled k hk).le htimely ht

/-- Silence is not measured from before the sample. -/
theorem seen_le_effectiveSeen (d : Driver) (s : State) (now seen : Int) :
    seen ≤ d.effectiveSeen s now seen := by
  unfold Driver.effectiveSeen
  split
  · cases d.activeSince s now with
    | none => exact le_refl seen
    | some t₀ => exact le_max_right t₀ seen
  · exact le_refl seen

/-- A down edge comes after a silence of more than the timeout. -/
theorem timeout_lt_of_isDown {now seen : Int} (hdown : d.isDown s now seen = true) :
    d.timeout < now - seen := by
  have hsilent : d.timeout < now - d.effectiveSeen s now seen := by
    simp only [Driver.isDown, Bool.and_eq_true, decide_eq_true_eq] at hdown
    exact hdown.2
  have hle := seen_le_effectiveSeen d s now seen
  omega

/-- A tick that is decided. -/
theorem Timed.decide (h : Timed d s history) {now seen : Int}
    (hphase : s.phase = .loaded now seen) (hdecided : d.Decided s now seen s' out) :
    Timed d s' ((.decide, out) :: history) := by
  have hnow := h.past now (by simp [State.times, hphase])
  have hseen := h.past seen (by simp [State.times, hphase])
  have hlast := h.past s.lastSeen (by simp [State.times, hphase])
  have hloaded := h.loaded now seen hphase
  have htick := h.tick now (by simp [Phase.tick?, hphase])
  have hfloor : 0 ≤ d.timeout → ∀ k ∈ (notes history).ticks, k.seen ≤ s.lastSeen :=
    fun htimeout => h.floors htimeout s.lastSeen (by simp [State.floors, hphase])
  cases hdecided with
  | down hdown =>
    have hsilent := timeout_lt_of_isDown hdown
    refine ⟨by simp, ?_, ?_, by simp [Phase.tick?], ?_, by simp⟩
    · simpa [State.times, Driver.probing] using ⟨hnow.cons _, hlast.cons _⟩
    · exact List.forall_mem_cons.mpr ⟨hseen.cons _, fun k hk => (h.sampled k hk).cons _⟩
    · intro htimeout t ht
      obtain rfl : t = now := by simpa [State.floors] using ht
      exact List.forall_mem_cons.mpr ⟨by simp only; omega, htick⟩
  | stays | recovers | waits | stalls =>
    refine ⟨by simp, ?_, ?_, by simp [Phase.tick?], ?_, by simp⟩
    · simpa [State.times, Driver.probing] using hlast.cons _
    · exact List.forall_mem_cons.mpr ⟨hseen.cons _, fun k hk => (h.sampled k hk).cons _⟩
    · intro htimeout t ht
      obtain rfl : t = s.lastSeen := by simpa [State.floors, Driver.probing] using ht
      exact List.forall_mem_cons.mpr ⟨hloaded, hfloor htimeout⟩

/-- Every timely step keeps this. -/
theorem Timed.step (h : Timed d s history) (htimely : timely s history event)
    (ht : d.Taken s event s' out) : Timed d s' ((event, out) :: history) := by
  cases ht with
  | decide hphase hdecided => exact h.decide hphase hdecided
  | seen now =>
    refine h.keep htimely rfl id ?_ (fun _ => .inl) ?_ ?_
    · intro t ht
      unfold State.times at ht ⊢
      cases hphase : s.phase <;> simp_all [Event.time?] <;> tauto
    · intro t ht
      unfold State.floors at ht ⊢
      cases hphase : s.phase <;> simp_all [Event.time?]
      tauto
    · -- what was loaded is an earlier time than that of the `Seen`
      intro t seen hphase
      have hphase : s.phase = .loaded t seen := hphase
      exact (h.past seen (by simp [State.times, hphase])).le htimely rfl
  | sent | markSent =>
    exact h.keep htimely rfl id (fun _ => .inl) (fun _ => .inl) (fun _ => .inl) h.loaded
  | init now hphase =>
    refine h.keep htimely rfl (by simp) ?_ ?_ ?_ (by simp)
    · simp [State.times, Event.time?]
    · simp [Phase.tick?]
    · simp [State.floors, Event.time?]
  | initStore hphase =>
    refine h.keep htimely rfl (by simp) ?_ ?_ ?_ (by simp)
    · simp [State.times, hphase]
    · simp [Phase.tick?]
    · simp [State.floors, hphase]
  | tick now hphase =>
    refine h.keep htimely rfl (by simp) ?_ ?_ ?_ (by simp)
    · simp [State.times, Event.time?, hphase]
    · simp [Phase.tick?, Event.time?]
    · simp [State.floors, hphase]
  | loadSeen hphase =>
    refine h.keep htimely rfl (by simp) ?_ ?_ ?_ ?_
    · simp [State.times, hphase]
    · simp [Phase.tick?, hphase]
    · simp [State.floors, hphase]
    · simp
  | storeSeen hphase | reloadSeen hphase | finish hphase =>
    refine h.keep htimely rfl (by simp) ?_ ?_ ?_ (by simp)
    · simp [State.times, hphase]
    · simp [Phase.tick?]
    · simp [State.floors, hphase]

/-- Every state of a timely run is timed. -/
theorem timed_of_run (h : d.Run timely s history) : Timed d s history ∧ Probing s history := by
  refine h.invariant (fun s history => Timed d s history ∧ Probing s history) ?_ ?_
  · refine ⟨⟨fun _ => rfl, ?_, ?_, ?_, ?_, ?_⟩, ?_⟩ <;>
      simp [State.times, State.floors, Phase.tick?, notes, Probing]
  · rintro s history event s' out ⟨htimed, hprobing⟩ htimely htaken
    have ht := Driver.taken_of_step htaken
    exact ⟨htimed.step htimely ht, hprobing.step ht⟩

/-- In fixed cadence a tick that leaves the driver healthy has a sample at most `timeout` old. A
down edge comes when everything sampled so far is older than `timeout`; in lazy mode every tick
since one before that was active. -/
theorem edges_are_justified (h : d.Run timely s history) (event : Event) (s' : State) (out : Out)
    (tick : Tick) (htaken : d.step s event = some (s', out)) (htick : out.tick = some tick) :
    (0 < d.interval → s'.healthy = true → tick.now - tick.seen ≤ d.timeout) ∧
      (tick.down = true →
        (∀ k ∈ (notes ((event, out) :: history)).ticks, d.timeout < tick.now - k.seen) ∧
        (d.interval = 0 → ∃ t₀ < tick.now - d.timeout,
          Unbroken (fun k => k.active = true) t₀ (notes ((event, out) :: history)).ticks)) := by
  obtain ⟨htimed, hprobing⟩ := timed_of_run h
  have ht := Driver.taken_of_step htaken
  cases ht with
  | @decide now seen _ _ hphase hdecided =>
    have hheard : ∀ k ∈ (notes history).ticks, k.seen ≤ now :=
      htimed.tick now (by simp [Phase.tick?, hphase])
    have hfloor : 0 ≤ d.timeout → ∀ k ∈ (notes history).ticks, k.seen ≤ seen :=
      fun htimeout => htimed.floors htimeout seen (by simp [State.floors, hphase])
    cases hdecided with
    | down hdown =>
      cases htick
      have hsilent := timeout_lt_of_isDown hdown
      refine ⟨by simp, fun _ => ⟨?_, fun hlazy => ?_⟩⟩
      · refine List.forall_mem_cons.mpr ⟨hsilent, fun k hk => ?_⟩
        -- a negative timeout is exceeded by every sample before the tick
        have hnow := hheard k hk
        have hseen := fun htimeout => hfloor htimeout k hk
        simp only
        omega
      · simp only [Driver.isDown, Bool.and_eq_true, decide_eq_true_eq] at hdown
        obtain ⟨t₀, hsince, hunbroken⟩ := hprobing.tick hdown.1
        have heffective : d.effectiveSeen s now seen = max t₀ seen := by
          simp [Driver.effectiveSeen, hlazy, hsince]
        refine ⟨t₀, ?_, hunbroken⟩
        have hle := le_max_left t₀ seen
        simp only
        omega
    | stays hdown | recovers hdown | waits hdown | stalls hdown =>
      cases htick
      refine ⟨fun hfixed _ => ?_, by simp⟩
      -- in fixed cadence every tick is active and silence counts from the sample
      have hactive : d.active s now = true := by simp [Driver.active, hfixed]
      have heffective : d.effectiveSeen s now seen = seen := by
        simp [Driver.effectiveSeen, hfixed.ne']
      simp only [Driver.isDown, hactive, heffective, Bool.true_and,
        decide_eq_false_iff_not] at hdown
      simp only
      omega
  | seen | sent | markSent | init | initStore | tick | loadSeen | storeSeen | reloadSeen | finish =>
    cases htick

end Down

/-- A driver that probes only while there is traffic. -/
def lazy : Driver := ⟨0, 10, 2⟩

/-- Traffic without an answer for longer than the timeout takes it down. -/
theorem lazy_goes_down : ∃ s history s' out tick t₀, lazy.Run timely s history ∧
    lazy.step s .decide = some (s', out) ∧ out.tick = some tick ∧ tick.down = true ∧
      t₀ < tick.now - 10 ∧
      Unbroken (fun k => k.active = true) t₀ (notes ((.decide, out) :: history)).ticks := by
  have hrun : lazy.Run timely _ _ := Reached.init.playIf
    [.init 0, .initStore, .sent 1, .tick 1, .loadSeen, .decide, .finish, .sent 15, .tick 15,
      .loadSeen] rfl
  obtain ⟨t₀, ht₀, hunbroken⟩ := ((edges_are_justified hrun .decide _ _ _ rfl rfl).2 rfl).2 rfl
  exact ⟨_, _, _, _, _, t₀, hrun, rfl, rfl, rfl, ht₀, hunbroken⟩

end Dualnet.Healthcheck
