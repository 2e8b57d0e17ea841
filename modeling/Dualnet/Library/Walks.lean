import Mathlib.Tactic

/-!
# Walks of a step function

A step from a place either stops with an outcome or passes on to another place under a label.
`walk` follows the steps for a bounded number of times; `Travels` says that they stop, where and
after which labels, and then every walk with enough steps says so as well.
-/

namespace Dualnet.Library

variable {α ℓ ω : Type} (step : α → ω ⊕ ℓ × α)

/-- Follow at most `fuel` steps: the labels passed, and the outcome if the walk has stopped. -/
def walk : (fuel : Nat) → α → List ℓ × Option ω
  | 0, _ => ([], none)
  | fuel + 1, a =>
    match step a with
    | .inl outcome => ([], some outcome)
    | .inr (label, b) =>
      let (labels, outcome) := walk fuel b
      (label :: labels, outcome)

/-- From a place the steps pass the labels, in order, and stop with the outcome. -/
inductive Travels : α → List ℓ → ω → Prop where
  | stop {a : α} {outcome : ω} (taken : step a = .inl outcome) : Travels a [] outcome
  | pass {a b : α} {label : ℓ} {labels : List ℓ} {outcome : ω} (taken : step a = .inr (label, b))
      (rest : Travels b labels outcome) : Travels a (label :: labels) outcome

variable {step}

/-- A walk with enough steps reports the whole way. -/
theorem Travels.walk_eq {a : α} {labels : List ℓ} {outcome : ω}
    (h : Travels step a labels outcome) {fuel : Nat} (hfuel : labels.length < fuel) :
    walk step fuel a = (labels, some outcome) := by
  induction h generalizing fuel with
  | stop taken =>
    obtain ⟨fuel, rfl⟩ := Nat.exists_eq_add_of_lt hfuel
    simp [walk, taken]
  | pass taken _ ih =>
    cases fuel with
    | zero => cases hfuel
    | succ fuel =>
      rw [List.length_cons, Nat.add_lt_add_iff_right] at hfuel
      simp [walk, taken, ih hfuel]

end Dualnet.Library
