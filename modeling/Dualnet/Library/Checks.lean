import Mathlib.Data.List.Forall2
import Mathlib.Tactic

/-!
# Inverting checked computations

A validator that stops at its first error is a computation in `Except String`. The lemmas
here turn a successful run into the facts it checked: `bind_eq_ok` peels one step off,
`reject_eq_ok` reads a guard, and `forM_eq_ok` and `mapM_eq_ok` read a loop.
-/

namespace Dualnet.Library

variable {α β γ ε : Type}

/-- Fail with `message` when `bad` holds. -/
def reject (bad : Bool) (message : String) : Except String Unit :=
  if bad then .error message else .ok ()

/-- A guard passes exactly when its condition is false. -/
@[simp] theorem reject_eq_ok {bad : Bool} {message : String} {u : Unit} :
    reject bad message = .ok u ↔ bad = false := by
  cases bad <;> simp [reject]

/-- A sequence succeeds exactly when its first step does and its continuation does. -/
theorem bind_eq_ok {x : Except ε α} {f : α → Except ε β} {b : β} :
    (x >>= f) = .ok b ↔ ∃ a, x = .ok a ∧ f a = .ok b := by
  cases x with
  | error e => simp [bind, Except.bind]
  | ok a => simp [bind, Except.bind]

/-- `pure` succeeds with its value only. -/
@[simp] theorem pure_eq_ok {a b : α} : (pure a : Except ε α) = .ok b ↔ a = b := by
  simp [pure, Except.pure]

/-- Prefix the error of a computation, as `fmt.Errorf` with a `%w` verb does. -/
def wrap (context : String) : Except String α → Except String α
  | .error e => .error (context ++ e)
  | .ok a => .ok a

/-- Wrapping the error leaves the successes alone. -/
@[simp] theorem wrap_eq_ok {context : String} {x : Except String α} {a : α} :
    wrap context x = .ok a ↔ x = .ok a := by
  cases x <;> simp [wrap]

/-- A checking loop succeeds exactly when every element passes. -/
theorem forM_eq_ok {l : List α} {f : α → Except ε Unit} {u : Unit} :
    l.forM f = .ok u ↔ ∀ a ∈ l, f a = .ok () := by
  induction l with
  | nil => simp [pure, Except.pure]
  | cons a l ih =>
    simp only [List.forM_eq_forM, List.forM_cons, bind_eq_ok, List.mem_cons, forall_eq_or_imp]
    constructor
    · rintro ⟨_, ha, hl⟩
      exact ⟨ha, ih.mp hl⟩
    · rintro ⟨ha, hl⟩
      exact ⟨(), ha, ih.mpr hl⟩

/-- A collecting loop succeeds exactly when every element does, and then it returns the
elements' results in order. -/
theorem mapM_eq_ok {l : List α} {f : α → Except ε β} {r : List β} :
    l.mapM f = .ok r ↔ List.Forall₂ (fun a b => f a = .ok b) l r := by
  induction l generalizing r with
  | nil =>
    simp only [List.mapM_nil, pure_eq_ok, List.forall₂_nil_left_iff]
    exact eq_comm
  | cons a l ih =>
    simp only [List.mapM_cons, bind_eq_ok, pure_eq_ok]
    constructor
    · rintro ⟨b, hb, bs, hbs, rfl⟩
      exact .cons hb (ih.mp hbs)
    · rintro (_ | ⟨hb, hbs⟩)
      exact ⟨_, hb, _, ih.mpr hbs, rfl⟩

/-- A collecting loop over elements that all succeed returns something. -/
theorem exists_mapM_ok {l : List α} {f : α → Except ε β} (h : ∀ a ∈ l, ∃ b, f a = .ok b) :
    ∃ r, l.mapM f = .ok r := by
  induction l with
  | nil => exact ⟨[], rfl⟩
  | cons a l ih =>
    obtain ⟨b, hb⟩ := h a (by simp)
    obtain ⟨r, hr⟩ := ih fun a' ha' => h a' (by simp [ha'])
    exact ⟨b :: r, by rw [mapM_eq_ok] at hr ⊢; exact .cons hb hr⟩

/-- A collecting loop that transforms each result collects the transformed results. -/
theorem mapM_map (f : α → Except ε β) (g : β → γ) (l : List α) :
    l.mapM (fun a => (f a).map g) = (l.mapM f).map (List.map g) := by
  induction l with
  | nil => rfl
  | cons a l ih =>
    simp only [List.mapM_cons, ih]
    cases f a with
    | error e => rfl
    | ok b => cases l.mapM f <;> rfl

/-- Loops that call functions with the same results collect the same. -/
theorem mapM_congr {f g : α → Except ε β} {l : List α} (h : ∀ a ∈ l, f a = g a) :
    l.mapM f = l.mapM g := by
  induction l with
  | nil => rfl
  | cons a l ih =>
    rw [List.mapM_cons, List.mapM_cons, h a (by simp), ih fun b hb => h b (by simp [hb])]

/-- A collecting loop over transformed elements whose results are known. -/
theorem mapM_map_ok {f : β → Except ε γ} {g : α → β} {h : α → γ} {l : List α}
    (hf : ∀ a ∈ l, f (g a) = .ok (h a)) : (l.map g).mapM f = .ok (l.map h) := by
  rw [mapM_eq_ok, List.forall₂_map_left_iff, List.forall₂_map_right_iff, List.forall₂_same]
  exact hf

/-- Results related element by element split where the inputs are split. -/
theorem forall₂_append_left {R : α → β → Prop} {l₁ l₂ : List α} {r : List β}
    (h : List.Forall₂ R (l₁ ++ l₂) r) :
    ∃ r₁ r₂, r = r₁ ++ r₂ ∧ List.Forall₂ R l₁ r₁ ∧ List.Forall₂ R l₂ r₂ := by
  induction l₁ generalizing r with
  | nil => exact ⟨[], r, rfl, .nil, h⟩
  | cons a l₁ ih =>
    obtain ⟨b, r', hab, htail, rfl⟩ := List.forall₂_cons_left_iff.mp h
    obtain ⟨r₁, r₂, rfl, h₁, h₂⟩ := ih htail
    exact ⟨b :: r₁, r₂, rfl, .cons hab h₁, h₂⟩

/-- Every input has a result. -/
theorem exists_of_forall₂_mem {R : α → β → Prop} {l : List α} {r : List β} {a : α}
    (h : List.Forall₂ R l r) (ha : a ∈ l) : ∃ b ∈ r, R a b := by
  obtain ⟨l₁, l₂, rfl⟩ := List.append_of_mem ha
  obtain ⟨r₁, _, rfl, -, h₂⟩ := forall₂_append_left h
  obtain ⟨b, r₂, hab, -, rfl⟩ := List.forall₂_cons_left_iff.mp h₂
  exact ⟨b, by simp, hab⟩

/-- Results that are a function of their inputs are the inputs' images. -/
theorem eq_map_of_forall₂ {R : α → β → Prop} {g : α → β} {l : List α} {r : List β}
    (h : List.Forall₂ R l r) (hR : ∀ a ∈ l, ∀ b, R a b → b = g a) : r = l.map g := by
  induction h with
  | nil => rfl
  | cons hab _ ih =>
    rw [List.map_cons, ← hR _ (by simp) _ hab, ← ih fun a ha => hR a (by simp [ha])]

/-- A property kept by every successful step of a loop holds of its final state. -/
theorem foldlM_invariant {l : List α} {f : β → α → Except ε β} (P : β → Prop)
    (hstep : ∀ a ∈ l, ∀ b b', f b a = .ok b' → P b → P b')
    {b b' : β} (h : l.foldlM f b = .ok b') (hb : P b) : P b' := by
  induction l generalizing b with
  | nil =>
    rw [List.foldlM_nil, pure_eq_ok] at h
    exact h ▸ hb
  | cons a l ih =>
    rw [List.foldlM_cons, bind_eq_ok] at h
    obtain ⟨c, hc, h⟩ := h
    exact ih (fun a' ha' => hstep a' (List.mem_cons_of_mem a ha')) h
      (hstep a List.mem_cons_self b c hc hb)

/-- A test of what a computation returns, which fails if it fails. -/
theorem any_toOption {x : Except ε α} {f : α → Bool} :
    x.toOption.any f = true ↔ ∃ a, x = .ok a ∧ f a = true := by
  cases x with
  | error e => simp [Except.toOption]
  | ok a => simp [Except.toOption]

/-- Every element of a successful loop was a successful step. -/
theorem foldlM_steps {l : List α} {f : β → α → Except ε β} {b b' : β}
    (h : l.foldlM f b = .ok b') {a : α} (ha : a ∈ l) : ∃ c c', f c a = .ok c' := by
  induction l generalizing b with
  | nil => cases ha
  | cons x l ih =>
    rw [List.foldlM_cons, bind_eq_ok] at h
    obtain ⟨c, hc, h⟩ := h
    rcases List.mem_cons.mp ha with rfl | ha
    · exact ⟨b, c, hc⟩
    · exact ih h ha

end Dualnet.Library
