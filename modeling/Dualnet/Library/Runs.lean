import Mathlib.Tactic

/-!
# Runs of a step function

A component is a step function on its state that takes an event and returns the next state
and what the caller sees; `none` is a call that has not returned. `Reached` collects the
states of the runs whose steps all satisfy a side condition, together with the history of
events and outcomes, latest first. The condition may look at the state before the step and
at the history. `Steps` keeps the states on the way for statements about a part of a run.
-/

namespace Dualnet.Library

variable {σ ε ρ : Type}

/-- The state and the outcome of a step that was taken. -/
theorem pair_inj {s s' : σ} {out out' : ρ} (h : some (s, out) = some (s', out')) :
    s = s' ∧ out = out' := Prod.mk.inj (Option.some.inj h)

/-- The states, with their histories, that the admitted runs from `init` reach. -/
inductive Reached (step : σ → ε → Option (σ × ρ)) (admits : σ → List (ε × ρ) → ε → Prop)
    (init : σ) : σ → List (ε × ρ) → Prop where
  | init : Reached step admits init init []
  | step {s s' : σ} {history : List (ε × ρ)} {event : ε} {out : ρ}
      (before : Reached step admits init s history) (admitted : admits s history event)
      (taken : step s event = some (s', out)) :
      Reached step admits init s' ((event, out) :: history)

/-- A property of state and history that holds at the start and is kept by every admitted
step holds in every state reached. -/
theorem Reached.invariant {step : σ → ε → Option (σ × ρ)}
    {admits : σ → List (ε × ρ) → ε → Prop} {init s : σ} {history : List (ε × ρ)}
    (P : σ → List (ε × ρ) → Prop) (hinit : P init [])
    (hstep : ∀ s history event s' out, P s history → admits s history event →
      step s event = some (s', out) → P s' ((event, out) :: history))
    (h : Reached step admits init s history) : P s history := by
  induction h with
  | init => exact hinit
  | step _ admitted taken ih => exact hstep _ _ _ _ _ ih admitted taken

/-- One more step of a run. -/
theorem Reached.next {step : σ → ε → Option (σ × ρ)} {admits : σ → List (ε × ρ) → ε → Prop}
    {init s s' : σ} {history : List (ε × ρ)} {out : ρ} (h : Reached step admits init s history)
    (event : ε) (hadmitted : admits s history event) (htaken : step s event = some (s', out)) :
    Reached step admits init s' ((event, out) :: history) :=
  .step h hadmitted htaken

/-- Take the events in turn, adding to the history. -/
def play (step : σ → ε → Option (σ × ρ)) : σ → List (ε × ρ) → List ε → Option (σ × List (ε × ρ))
  | s, history, [] => some (s, history)
  | s, history, event :: events =>
    (step s event).bind fun (s', out) => play step s' ((event, out) :: history) events

/-- One part after the other. -/
theorem play_append {step : σ → ε → Option (σ × ρ)} {s s' : σ} {history history' : List (ε × ρ)}
    {events : List ε} (h : play step s history events = some (s', history')) (events' : List ε) :
    play step s history (events ++ events') = play step s' history' events' := by
  induction events generalizing s history with
  | nil =>
    obtain ⟨rfl, rfl⟩ := pair_inj h
    rfl
  | cons event events ih =>
    obtain ⟨⟨s₁, out⟩, htaken, hrest⟩ := Option.bind_eq_some_iff.mp h
    rw [List.cons_append, play, htaken]
    exact ih hrest

/-- Events that can be taken in turn make a run. -/
theorem Reached.play {step : σ → ε → Option (σ × ρ)} {init s s' : σ}
    {history history' : List (ε × ρ)} (hs : Reached step (fun _ _ _ => True) init s history)
    (events : List ε) (h : Library.play step s history events = some (s', history')) :
    Reached step (fun _ _ _ => True) init s' history' := by
  induction events generalizing s history with
  | nil =>
    obtain ⟨rfl, rfl⟩ := pair_inj h
    exact hs
  | cons event events ih =>
    obtain ⟨⟨s₁, out⟩, htaken, hrest⟩ := Option.bind_eq_some_iff.mp h
    exact ih (.step hs trivial htaken) hrest

/-- Take the events in turn as long as they are admitted. -/
def playIf (step : σ → ε → Option (σ × ρ)) (admits : σ → List (ε × ρ) → ε → Prop)
    [∀ s history event, Decidable (admits s history event)] :
    σ → List (ε × ρ) → List ε → Option (σ × List (ε × ρ))
  | s, history, [] => some (s, history)
  | s, history, event :: events =>
    if admits s history event then
      (step s event).bind fun (s', out) => playIf step admits s' ((event, out) :: history) events
    else none

/-- Admitted events that can be taken in turn make a run. -/
theorem Reached.playIf {step : σ → ε → Option (σ × ρ)} {admits : σ → List (ε × ρ) → ε → Prop}
    [∀ s history event, Decidable (admits s history event)] {init s s' : σ}
    {history history' : List (ε × ρ)} (hs : Reached step admits init s history)
    (events : List ε) (h : Library.playIf step admits s history events = some (s', history')) :
    Reached step admits init s' history' := by
  induction events generalizing s history with
  | nil =>
    obtain ⟨rfl, rfl⟩ := pair_inj h
    exact hs
  | cons event events ih =>
    obtain ⟨hadmitted, htaken⟩ := Option.ite_none_right_eq_some.mp h
    obtain ⟨⟨s₁, out⟩, htaken, hrest⟩ := Option.bind_eq_some_iff.mp htaken
    exact ih (.step hs hadmitted htaken) hrest

/-- The steps that lead from `s` to another state, each with the state it was taken in, latest
first. -/
inductive Steps (step : σ → ε → Option (σ × ρ)) (s : σ) : List (σ × ε × ρ) → σ → Prop where
  | refl : Steps step s [] s
  | step {s' s'' : σ} {steps : List (σ × ε × ρ)} {event : ε} {out : ρ}
      (before : Steps step s steps s') (taken : step s' event = some (s'', out)) :
      Steps step s ((s', event, out) :: steps) s''

end Dualnet.Library
