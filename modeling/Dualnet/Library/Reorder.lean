import Dualnet.Library.Checks
import Dualnet.Library.Maps
import Mathlib.Data.List.Palindrome
import Mathlib.Data.String.Basic

/-!
# Iterating in another order

Two runs of a program that iterate its maps in different orders. `FMap.Same` says that two maps
differ in the order of their entries only; what is looked up or sorted does not see the
difference. `Agree R` says that two checked computations both fail or return values related by
`R`; loops whose rounds agree agree, and a loop whose rounds may be exchanged may run in any
order.
-/

namespace Dualnet.Library

/-- Sorting forgets the order. -/
theorem insertionSort_perm {κ : Type} [LinearOrder κ] {l l' : List κ} (h : l.Perm l') :
    l.insertionSort (· ≤ ·) = l'.insertionSort (· ≤ ·) :=
  (((List.perm_insertionSort (· ≤ ·) l).trans h).trans
    (List.perm_insertionSort (· ≤ ·) l').symm).eq_of_pairwise'
    (List.pairwise_insertionSort (· ≤ ·) l) (List.pairwise_insertionSort (· ≤ ·) l')

/-- Lists of at most one element are equal if they are permutations. -/
theorem perm_eq_of_length_le_one {α : Type} {l l' : List α} (h : l.Perm l')
    (hl : l.length ≤ 1) : l = l' := by
  cases l with
  | nil => exact h.nil_eq
  | cons a l => cases l with
    | nil => exact List.singleton_perm.mp h
    | cons b l => simp at hl

/-- A list of distinct elements that reads the same backwards has at most one. -/
theorem length_le_one_of_reverse {α : Type} {l : List α} (hnodup : l.Nodup) (h : l.reverse = l) :
    l.length ≤ 1 := by
  cases List.Palindrome.of_reverse_eq h with
  | nil => exact Nat.zero_le 1
  | singleton a => exact Nat.le_refl 1
  | cons_concat a _ => simp at hnodup

/-- A round of a loop that collects what is new. -/
def collectNew {α κ : Type} [BEq κ] (skip : α → Bool) (f : α → κ) (out : List κ) (e : α) :
    List κ :=
  if skip e || out.contains (f e) then out else out ++ [f e]

section Collect

variable {α κ : Type} [BEq κ] [LawfulBEq κ]

/-- A round adds at most its own element. -/
theorem mem_collectNew {skip : α → Bool} {f : α → κ} {out : List κ} {e : α} {x : κ} :
    x ∈ collectNew skip f out e ↔ x ∈ out ∨ (skip e = false ∧ f e = x) := by
  unfold collectNew
  cases hskip : skip e with
  | true => simp
  | false =>
    by_cases hseen : f e ∈ out
    · simp only [hseen, Bool.false_or, List.contains_iff_mem, if_true, true_and]
      refine (or_iff_left_of_imp ?_).symm
      rintro rfl
      exact hseen
    · simp [hseen, eq_comm]

/-- Such a loop, by its elements. -/
theorem mem_collect {skip : α → Bool} {f : α → κ} {l : List α} {out : List κ} {x : κ} :
    x ∈ l.foldl (collectNew skip f) out ↔ x ∈ out ∨ ∃ e ∈ l, skip e = false ∧ f e = x := by
  induction l generalizing out with
  | nil => simp
  | cons e l ih => rw [List.foldl_cons, ih, mem_collectNew, List.exists_mem_cons_iff, or_assoc]

/-- Such a loop collects nothing twice. -/
theorem nodup_collect (skip : α → Bool) (f : α → κ) (l : List α) {out : List κ}
    (hout : out.Nodup) : (l.foldl (collectNew skip f) out).Nodup := by
  induction l generalizing out with
  | nil => exact hout
  | cons e l ih =>
    refine ih ?_
    unfold collectNew
    split
    · exact hout
    · rename_i hnew
      rw [Bool.or_eq_true, not_or, List.contains_iff_mem] at hnew
      exact hout.append (List.nodup_singleton _) (by simpa using hnew.2)

end Collect

/-! ## Maps -/

namespace FMap

variable {κ α β : Type}

/-- The same map, up to the order of its entries. -/
def Same (m m' : FMap κ α) : Prop := m.entries.Perm m'.entries

variable {m m' : FMap κ α}

/-- A map is the same as itself. -/
theorem Same.refl (m : FMap κ α) : m.Same m := List.Perm.refl _

/-- The entries in the opposite order. -/
def reverse (m : FMap κ α) : FMap κ α :=
  ⟨m.entries.reverse, (List.perm_nodupKeys m.entries.reverse_perm).mpr m.nodupKeys⟩

/-- The opposite order. -/
theorem same_reverse (m : FMap κ α) : m.Same m.reverse := m.entries.reverse_perm.symm

/-- The same keys. -/
theorem Same.keys (h : m.Same m') : m.keys.Perm m'.keys := List.Perm.map Sigma.fst h

/-- Changing each value alike. -/
theorem Same.mapVals (h : m.Same m') {f g : κ → α → β} (hfg : ∀ k a, f k a = g k a) :
    (m.mapVals f).Same (m'.mapVals g) := by
  obtain rfl : f = g := funext fun k => funext (hfg k)
  exact List.Perm.map _ h

/-- Sorting the keys forgets the order of the entries. -/
theorem Same.sortedKeys [LinearOrder κ] (h : m.Same m') : m.sortedKeys = m'.sortedKeys :=
  insertionSort_perm h.keys

variable [DecidableEq κ]

/-- Look-ups do not depend on the order. -/
theorem Same.lookup (h : m.Same m') (k : κ) : m.lookup k = m'.lookup k := AList.perm_lookup h

end FMap

/-! ## Computations -/

variable {α β γ δ ε : Type}

/-- Related options, mapped by functions that respect the relations. -/
theorem optionRel_map {R : α → β → Prop} {S : γ → δ → Prop} {o : Option α} {o' : Option β}
    (h : Option.Rel R o o') {f : α → γ} {g : β → δ} (hfg : ∀ a b, R a b → S (f a) (g b)) :
    Option.Rel S (o.map f) (o'.map g) := by
  cases h with
  | none => exact .none
  | some h => exact .some (hfg _ _ h)

/-- Reflexivity. -/
theorem optionRel_refl {R : α → α → Prop} (hR : ∀ a, R a a) (o : Option α) : Option.Rel R o o := by
  cases o with
  | none => exact .none
  | some a => exact .some (hR a)

/-- Symmetry. -/
theorem optionRel_symm {R : α → β → Prop} {S : β → α → Prop} {o : Option α} {o' : Option β}
    (hRS : ∀ a b, R a b → S b a) (h : Option.Rel R o o') : Option.Rel S o' o := by
  cases h with
  | none => exact .none
  | some h => exact .some (hRS _ _ h)

/-- Transitivity. -/
theorem optionRel_trans {R : α → α → Prop} (hR : ∀ a b c, R a b → R b c → R a c)
    {o o' o'' : Option α} (h : Option.Rel R o o') (h' : Option.Rel R o' o'') :
    Option.Rel R o o'' := by
  cases h with
  | none => exact h'
  | some h => cases h' with
    | some h' => exact .some (hR _ _ _ h h')

/-- Related options with related values in their place. -/
theorem optionRel_getD {R : α → β → Prop} {o : Option α} {o' : Option β} (h : Option.Rel R o o')
    {d : α} {d' : β} (hd : R d d') : R (o.getD d) (o'.getD d') := by
  cases h with
  | none => exact hd
  | some h => exact h

/-- Related options are present alike. -/
theorem optionRel_isSome {R : α → β → Prop} {o : Option α} {o' : Option β}
    (h : Option.Rel R o o') : o.isSome = o'.isSome := by
  cases h with
  | none => rfl
  | some _ => rfl

/-- What is on the left has something on the right. -/
theorem optionRel_left {R : α → β → Prop} {o : Option α} {o' : Option β} (h : Option.Rel R o o')
    {a : α} (ha : o = some a) : ∃ b, o' = some b ∧ R a b := by
  subst ha
  cases h with
  | some h => exact ⟨_, rfl, h⟩

/-- What is on the right has something on the left. -/
theorem optionRel_right {R : α → β → Prop} {o : Option α} {o' : Option β} (h : Option.Rel R o o')
    {b : β} (hb : o' = some b) : ∃ a, o = some a ∧ R a b := by
  subst hb
  cases h with
  | some h => exact ⟨_, rfl, h⟩

/-- Both fail, or both succeed with related values. -/
inductive Agree (R : α → β → Prop) : Except ε α → Except ε β → Prop where
  | ok {a : α} {b : β} (h : R a b) : Agree R (.ok a) (.ok b)
  | error (e e' : ε) : Agree R (.error e) (.error e')

namespace Agree

variable {R : α → β → Prop} {S : γ → δ → Prop} {x : Except ε α} {y : Except ε β}

/-- A run agrees with itself. -/
theorem refl {R : α → α → Prop} (hR : ∀ a, R a a) (x : Except ε α) : Agree R x x := by
  cases x with
  | error e => exact .error e e
  | ok a => exact .ok (hR a)

/-- Equal runs agree. -/
theorem of_eq {x x' : Except ε α} (h : x = x') : Agree (· = ·) x x' := h ▸ refl (fun _ => rfl) x

/-- A weaker relation of the results. -/
theorem mono {R' : α → β → Prop} (h : Agree R x y) (hR : ∀ a b, R a b → R' a b) :
    Agree R' x y := by
  cases h with
  | ok h => exact .ok (hR _ _ h)
  | error e e' => exact .error e e'

/-- Transitivity. -/
theorem trans {R : α → α → Prop} (hR : ∀ a b c, R a b → R b c → R a c) {x y z : Except ε α}
    (h : Agree R x y) (h' : Agree R y z) : Agree R x z := by
  cases h with
  | ok h => cases h' with
    | ok h' => exact .ok (hR _ _ _ h h')
  | error e _ => cases h' with
    | error _ e' => exact .error e e'

/-- Agreeing computations continued alike. -/
theorem bind_of_ok (h : Agree R x y) {f : α → Except ε γ} {g : β → Except ε δ}
    (hfg : ∀ a b, x = .ok a → y = .ok b → R a b → Agree S (f a) (g b)) :
    Agree S (x >>= f) (y >>= g) := by
  cases h with
  | ok h => exact hfg _ _ rfl rfl h
  | error e e' => exact .error e e'

/-- Runs that agree can be continued. -/
theorem bind (h : Agree R x y) {f : α → Except ε γ} {g : β → Except ε δ}
    (hfg : ∀ a b, R a b → Agree S (f a) (g b)) : Agree S (x >>= f) (y >>= g) :=
  h.bind_of_ok fun a b _ _ => hfg a b

/-- Results that are related. -/
theorem pure {a : α} {b : β} (h : R a b) :
    Agree R (Pure.pure a : Except ε α) (Pure.pure b : Except ε β) := .ok h

/-- The same check, with any messages. -/
theorem reject {bad bad' : Bool} (h : bad = bad') (s s' : String) :
    Agree (fun _ _ => True) (reject bad s) (reject bad' s') := by
  subst h
  cases bad with
  | false => exact .ok trivial
  | true => exact .error _ _

/-- Runs that agree both fail or both succeed. -/
theorem both (h : Agree R x y) :
    (∃ e e', x = .error e ∧ y = .error e') ∨ ∃ a b, x = .ok a ∧ y = .ok b ∧ R a b := by
  cases h with
  | ok h => exact .inr ⟨_, _, rfl, rfl, h⟩
  | error e e' => exact .inl ⟨e, e', rfl, rfl⟩

/-- Computations agree if what either returns the other returns related. -/
theorem of_ok (h : ∀ a, x = .ok a → ∃ b, y = .ok b ∧ R a b)
    (h' : ∀ b, y = .ok b → ∃ a, x = .ok a) : Agree R x y := by
  cases x with
  | ok a =>
    obtain ⟨b, rfl, hab⟩ := h a rfl
    exact .ok hab
  | error e => cases y with
    | ok b =>
      obtain ⟨a, ha⟩ := h' b rfl
      cases ha
    | error e' => exact .error e e'

/-- Symmetry. -/
theorem symm {R' : β → α → Prop} (hR : ∀ a b, R a b → R' b a) (h : Agree R x y) :
    Agree R' y x := by
  cases h with
  | ok h => exact .ok (hR _ _ h)
  | error e e' => exact .error e' e

/-- Checks without a result agree if they pass alike. -/
theorem of_ok_iff {x y : Except ε Unit} (h : x = .ok () ↔ y = .ok ()) :
    Agree (fun _ _ => True) x y := by
  cases x with
  | ok a => rw [h.mp rfl]; exact .ok trivial
  | error e => cases y with
    | ok b => exact absurd (h.mpr rfl) (by simp)
    | error e' => exact .error e e'

/-- A check passes on both or on neither. -/
theorem ok_iff {R : Unit → Unit → Prop} {x y : Except ε Unit} (h : Agree R x y) :
    x = .ok () ↔ y = .ok () := by
  cases h with
  | ok h => simp
  | error e e' => simp

/-- Loops over one list whose rounds agree. -/
theorem foldlM {l : List γ} {f : α → γ → Except ε α} {g : β → γ → Except ε β}
    (hstep : ∀ c ∈ l, ∀ a b, R a b → Agree R (f a c) (g b c)) {a : α} {b : β} (h : R a b) :
    Agree R (l.foldlM f a) (l.foldlM g b) := by
  induction l generalizing a b with
  | nil => exact .ok h
  | cons c l ih =>
    rw [List.foldlM_cons, List.foldlM_cons]
    exact (hstep c (by simp) a b h).bind fun a' b' h' =>
      ih (fun d hd => hstep d (by simp [hd])) h'

/-- A loop may run in another order if any two rounds may be exchanged. -/
theorem foldlM_perm {R : α → α → Prop} {f : α → γ → Except ε α} (hrefl : ∀ a, R a a)
    (htrans : ∀ a b c, R a b → R b c → R a c)
    (hstep : ∀ c a b, R a b → Agree R (f a c) (f b c))
    (hswap : ∀ a c d, Agree R (f a c >>= fun a' => f a' d) (f a d >>= fun a' => f a' c))
    {l l' : List γ} (hl : l.Perm l') (a : α) : Agree R (l.foldlM f a) (l'.foldlM f a) := by
  induction hl generalizing a with
  | nil => exact .ok (hrefl a)
  | cons c _ ih =>
    rw [List.foldlM_cons, List.foldlM_cons]
    cases f a c with
    | error e => exact .error e e
    | ok a' => exact ih a'
  | swap c d l =>
    simp only [List.foldlM_cons]
    rw [← bind_assoc, ← bind_assoc]
    exact (hswap a d c).bind fun a' b' h' => foldlM (fun c _ _ _ => hstep c _ _) h'
  | trans _ _ ih ih' => exact (ih a).trans htrans (ih' a)

end Agree

/-! ## Loops that claim -/

/-- What the rounds of a loop may claim of its state: a claim is taken if it is free, and two
claims may be taken in either order. -/
structure Claiming (σ δ : Type) where
  free : δ → σ → Prop
  take : δ → σ → σ
  /-- The states that grant the same claims. -/
  same : σ → σ → Prop
  refl : ∀ s, same s s
  trans : ∀ s t u, same s t → same t u → same s u
  free_iff : ∀ d s t, same s t → (free d s ↔ free d t)
  take_same : ∀ d s t, same s t → same (take d s) (take d t)
  exchange : ∀ d e s, free d s → free e (take d s) →
    free e s ∧ free d (take e s) ∧ same (take e (take d s)) (take d (take e s))

namespace Claiming

variable {σ τ κ : Type} [DecidableEq κ]

/-- A key of a map may be claimed once. -/
def map : Claiming (FMap κ α) (Option (κ × α)) where
  free d m := ∀ e ∈ d, m.lookup e.1 = none
  take d m := d.elim m fun e => m.insert e.1 e.2
  same m m' := ∀ k, m.lookup k = m'.lookup k
  refl _ _ := rfl
  trans _ _ _ h h' k := (h k).trans (h' k)
  free_iff d m m' h := by simp only [h]
  take_same d m m' h := by
    cases d with
    | none => exact h
    | some e =>
      intro k
      simp only [Option.elim_some, FMap.lookup_insert_ite, h]
  exchange d e m hd he := by
    cases d with
    | none => exact ⟨he, by simp, fun _ => rfl⟩
    | some a => cases e with
      | none => exact ⟨by simp, hd, fun _ => rfl⟩
      | some b =>
        simp only [Option.mem_def, Option.some.injEq, forall_eq', Option.elim_some,
          FMap.lookup_insert_ite] at hd he ⊢
        split at he
        · cases he
        · rename_i hne
          refine ⟨he, by rw [if_neg (Ne.symm hne), hd], fun k => ?_⟩
          by_cases hk : k = a.1
          · simp [hk, Ne.symm hne]
          · simp [hk]

/-- An element of a list may be claimed once. -/
def list : Claiming (List κ) (Option κ) where
  free d l := ∀ k ∈ d, k ∉ l
  take d l := d.toList ++ l
  same l l' := ∀ k, k ∈ l ↔ k ∈ l'
  refl _ _ := Iff.rfl
  trans _ _ _ h h' k := (h k).trans (h' k)
  free_iff d l l' h := by simp only [h]
  take_same d l l' h k := by simp only [List.mem_append, h]
  exchange d e l hd he := by
    simp only [List.mem_append, Option.mem_toList, not_or] at he ⊢
    exact ⟨fun k hk => (he k hk).2, fun k hk => ⟨fun hk' => (he k hk').1 hk, hd k hk⟩,
      fun k => or_left_comm⟩

/-- Claims of two states at once. -/
def prod {δ' : Type} (C : Claiming σ δ) (D : Claiming τ δ') : Claiming (σ × τ) (δ × δ') where
  free d s := C.free d.1 s.1 ∧ D.free d.2 s.2
  take d s := (C.take d.1 s.1, D.take d.2 s.2)
  same s t := C.same s.1 t.1 ∧ D.same s.2 t.2
  refl s := ⟨C.refl s.1, D.refl s.2⟩
  trans s t u h h' := ⟨C.trans _ _ _ h.1 h'.1, D.trans _ _ _ h.2 h'.2⟩
  free_iff d s t h := and_congr (C.free_iff _ _ _ h.1) (D.free_iff _ _ _ h.2)
  take_same d s t h := ⟨C.take_same _ _ _ h.1, D.take_same _ _ _ h.2⟩
  exchange d e s hd he := by
    obtain ⟨he₁, hd₁, hs₁⟩ := C.exchange _ _ _ hd.1 he.1
    obtain ⟨he₂, hd₂, hs₂⟩ := D.exchange _ _ _ hd.2 he.2
    exact ⟨⟨he₁, he₂⟩, ⟨hd₁, hd₂⟩, ⟨hs₁, hs₂⟩⟩

omit [DecidableEq κ] in
/-- A loop whose rounds do nothing but claim may run in any order. -/
theorem foldlM_perm (C : Claiming σ δ) {f : σ → γ → Except ε σ} {claims : γ → δ → Prop}
    (hf : ∀ s c s', f s c = .ok s' ↔ ∃ d, claims c d ∧ C.free d s ∧ s' = C.take d s)
    {l l' : List γ} (hl : l.Perm l') (s : σ) : Agree C.same (l.foldlM f s) (l'.foldlM f s) := by
  have hswap : ∀ s a b last, (f s a >>= fun s => f s b) = .ok last →
      ∃ last', (f s b >>= fun s => f s a) = .ok last' ∧ C.same last last' := by
    intro s a b last h
    rw [bind_eq_ok] at h
    obtain ⟨mid, ha, hb⟩ := h
    obtain ⟨d, hd, hfreeD, rfl⟩ := (hf _ _ _).mp ha
    obtain ⟨e, he, hfreeE, rfl⟩ := (hf _ _ _).mp hb
    obtain ⟨hfreeE', hfreeD', hsame⟩ := C.exchange d e s hfreeD hfreeE
    simp only [bind_eq_ok]
    exact ⟨_, ⟨_, (hf _ _ _).mpr ⟨e, he, hfreeE', rfl⟩,
      (hf _ _ _).mpr ⟨d, hd, hfreeD', rfl⟩⟩, hsame⟩
  refine Agree.foldlM_perm C.refl C.trans (fun c s t hst => ?_) (fun s a b => ?_) hl s
  · refine .of_ok (fun s' hs' => ?_) fun t' ht' => ?_
    · obtain ⟨d, hd, hfree, rfl⟩ := (hf _ _ _).mp hs'
      exact ⟨_, (hf _ _ _).mpr ⟨d, hd, (C.free_iff d s t hst).mp hfree, rfl⟩,
        C.take_same d s t hst⟩
    · obtain ⟨d, hd, hfree, rfl⟩ := (hf _ _ _).mp ht'
      exact ⟨_, (hf _ _ _).mpr ⟨d, hd, (C.free_iff d s t hst).mpr hfree, rfl⟩⟩
  · exact .of_ok (hswap s a b) fun last h => (hswap s b a last h).imp fun _ h => h.1

end Claiming

end Dualnet.Library
