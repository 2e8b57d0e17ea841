import Dualnet.Library.Reorder

/-!
# Orders of iteration

A run of a program that ranges over unordered collections meets the elements of each in some
order. An `Iteration` fixes these orders for one run, loop by loop; two runs differ in nothing
else. What a loop only tests, collects into a map under different keys or sorts by different keys
comes out the same (`FMap.listing_congr`, `forall₂_insertionSort`).
-/

namespace Dualnet.Library

/-- The order in which one run meets the elements of each collection; `σ` names the loops. -/
structure Iteration (σ : Type) where
  visit : ∀ {α : Type}, σ → List α → List α
  perm : ∀ {α : Type} (site : σ) (l : List α), (visit site l).Perm l

namespace Iteration

variable {σ α : Type}

/-- Every collection as it is stored. -/
def inOrder : Iteration σ where
  visit _ l := l
  perm _ l := List.Perm.refl l

/-- The list with its element at place `k`, if there is one, moved to the end. -/
def toEnd (k : Nat) (l : List α) : List α := l.eraseIdx k ++ l[k]?.toList

/-- Moving an element permutes. -/
theorem toEnd_perm (k : Nat) (l : List α) : (toEnd k l).Perm l := by
  unfold toEnd
  by_cases hk : k < l.length
  · rw [List.getElem?_eq_getElem hk, Option.toList_some]
    exact (List.perm_append_singleton _ _).trans (List.getElem_cons_eraseIdx_perm hk)
  · rw [List.eraseIdx_of_length_le (not_lt.mp hk), List.getElem?_eq_none (not_lt.mp hk),
      Option.toList_none, List.append_nil]

/-- Every collection as it is stored, except that one loop meets the element at place `k` last. -/
def lastAt [DecidableEq σ] (site : σ) (k : Nat) : Iteration σ where
  visit s l := if s = site then toEnd k l else l
  perm s l := by
    split
    · exact toEnd_perm k l
    · exact List.Perm.refl l

variable (it it' : Iteration σ) (site : σ)

/-- Visits are permutations. -/
theorem visit_perm {l l' : List α} (h : l.Perm l') : (it.visit site l).Perm (it'.visit site l') :=
  ((it.perm site l).trans h).trans (it'.perm site l').symm

end Iteration

/-! ## Sets -/

/-- The elements of a list, each once, in ascending order. -/
def sortedSet {κ : Type} [DecidableEq κ] [LE κ] [DecidableLE κ] (l : List κ) : List κ :=
  l.dedup.insertionSort (· ≤ ·)

/-- Sorting forgets the order. -/
theorem sortedSet_perm {κ : Type} [LinearOrder κ] {l l' : List κ} (h : l.Perm l') :
    sortedSet l = sortedSet l' :=
  insertionSort_perm h.dedup

/-! ## Maps -/

namespace FMap

variable {κ α β : Type}

/-- Maps with values at the same places have the same keys. -/
theorem keys_perm_of_isSome [DecidableEq κ] {m : FMap κ α} {m' : FMap κ β}
    (h : ∀ k, (m.lookup k).isSome = (m'.lookup k).isSome) : m.keys.Perm m'.keys := by
  rw [List.perm_ext_iff_of_nodup m.keys_nodup m'.keys_nodup]
  intro k
  rw [← AList.mem_keys, ← AList.mem_keys, ← AList.lookup_isSome, ← AList.lookup_isSome, h]

/-- Giving one value to several keys. -/
theorem lookup_foldl_insert [DecidableEq κ] (l : List κ) (v : α) (m : FMap κ α) (k : κ) :
    (l.foldl (fun m k => m.insert k v) m).lookup k = if k ∈ l then some v else m.lookup k := by
  induction l generalizing m with
  | nil => simp
  | cons a l ih =>
    rw [List.foldl_cons, ih, lookup_insert_ite]
    by_cases hk : k ∈ l
    · simp [hk]
    · simp [hk]

/-- A loop whose rounds do not tell maps with the same values apart. -/
theorem lookup_foldl_congr [DecidableEq κ] {f : FMap κ α → β → FMap κ α}
    (hf : ∀ m m' b, (∀ k, m.lookup k = m'.lookup k) → ∀ k, (f m b).lookup k = (f m' b).lookup k)
    (l : List β) {m m' : FMap κ α} (hm : ∀ k, m.lookup k = m'.lookup k) (k : κ) :
    (l.foldl f m).lookup k = (l.foldl f m').lookup k := by
  induction l generalizing m m' with
  | nil => exact hm k
  | cons b l ih => exact ih (hf m m' b hm)

variable [LinearOrder κ]

/-- The same keys are sorted alike. -/
theorem sortedKeys_congr {m : FMap κ α} {m' : FMap κ β}
    (h : ∀ k, (m.lookup k).isSome = (m'.lookup k).isSome) : m.sortedKeys = m'.sortedKeys :=
  insertionSort_perm (keys_perm_of_isSome h)

/-- The entries in the order of their keys. -/
def listing (m : FMap κ α) : List (κ × α) :=
  m.sortedKeys.filterMap fun k => (m.lookup k).map fun v => (k, v)

/-- Listing forgets the order of the entries. -/
theorem listing_congr {m m' : FMap κ α} (h : ∀ k, m.lookup k = m'.lookup k) :
    m.listing = m'.listing := by
  simp only [listing, sortedKeys_congr fun k => congrArg Option.isSome (h k), h]

/-- Copying entries of different keys into a map. -/
theorem lookup_foldl_entries {l : List (Σ _ : κ, α)} (hl : l.NodupKeys) (m : FMap κ α) (k : κ) :
    (l.foldl (fun m e => m.insert e.1 e.2) m).lookup k = (l.dlookup k).or (m.lookup k) := by
  induction l generalizing m with
  | nil => simp
  | cons e l ih =>
    rw [List.nodupKeys_cons] at hl
    rw [List.foldl_cons, ih hl.2, lookup_insert_ite]
    by_cases hk : k = e.1
    · subst hk
      rw [List.dlookup_eq_none.mpr hl.1, List.dlookup_cons_eq]
      simp
    · rw [List.dlookup_cons_ne _ _ hk, if_neg hk]

/-- Copying the entries of one map into another, in any order. -/
theorem lookup_foldl_visit {σ : Type} (it : Iteration σ) (site : σ) (m m' : FMap κ α) (k : κ) :
    ((it.visit site m'.entries).foldl (fun m e => m.insert e.1 e.2) m).lookup k =
      (m'.lookup k).or (m.lookup k) := by
  have hperm := it.perm site m'.entries
  have hkeys := (List.perm_nodupKeys hperm).mpr m'.nodupKeys
  rw [lookup_foldl_entries hkeys, List.perm_dlookup k hkeys hperm]
  rfl

end FMap

/-! ## Lists that correspond -/

/-- Corresponding elements stand at the same places. -/
theorem forall₂_getElem? {α β : Type} {R : α → β → Prop} {l : List α} {l' : List β}
    (h : List.Forall₂ R l l') {i : Nat} {a : α} (ha : l[i]? = some a) :
    ∃ b, l'[i]? = some b ∧ R a b := by
  induction h generalizing i with
  | nil => simp at ha
  | @cons a' b l l' hab _ ih =>
    cases i with
    | zero =>
      obtain rfl : a' = a := by simpa using ha
      exact ⟨b, rfl, hab⟩
    | succ i => exact ih ha

/-- Lists whose elements are numbered and mapped alike. -/
theorem zipIdx_map_congr {α β γ : Type} {R : α → β → Prop} {l : List α} {l' : List β}
    (h : List.Forall₂ R l l') {f : α × Nat → γ} {g : β × Nat → γ}
    (hfg : ∀ a b i, R a b → f (a, i) = g (b, i)) (k : Nat) :
    (l.zipIdx k).map f = (l'.zipIdx k).map g := by
  induction h generalizing k with
  | nil => rfl
  | cons hab _ ih => rw [List.zipIdx_cons, List.zipIdx_cons, List.map_cons, List.map_cons, ih,
      hfg _ _ _ hab]

/-- Lists with the same keys in the same order correspond if every element has its counterpart and
the keys of the second list tell its elements apart. -/
theorem forall₂_of_keys {α β κ : Type} {R : α → β → Prop} {f : α → κ} {g : β → κ} {l : List α}
    {l' : List β} (hkeys : l.map f = l'.map g) (hkey : ∀ a b, R a b → f a = g b)
    (hl : ∀ a ∈ l, ∃ b ∈ l', R a b) (hinj : ∀ b ∈ l', ∀ b' ∈ l', g b = g b' → b = b') :
    List.Forall₂ R l l' := by
  have hzip : List.Forall₂ (· = ·) (l.map f) (l'.map g) := by
    rw [hkeys]
    exact List.forall₂_refl _
  rw [List.forall₂_map_left_iff, List.forall₂_map_right_iff] at hzip
  rw [List.forall₂_iff_zip] at hzip ⊢
  refine ⟨hzip.1, fun {a b} hab => ?_⟩
  obtain ⟨ha, hb⟩ := List.of_mem_zip hab
  obtain ⟨b', hb', hab'⟩ := hl a ha
  have hg : g b' = g b := (hkey _ _ hab').symm.trans (hzip.2 hab)
  rwa [← hinj b' hb' b hb hg]

/-- Lists whose elements correspond under a relation that respects the keys they are sorted by are
sorted alike, if the keys are different. -/
theorem forall₂_insertionSort {α β κ : Type} [LinearOrder κ] {R : α → β → Prop} {f : α → κ}
    {g : β → κ} {l : List α} {l' : List β} (hkey : ∀ a b, R a b → f a = g b)
    (hl : ∀ a ∈ l, ∃ b ∈ l', R a b) (hl' : ∀ b ∈ l', ∃ a ∈ l, R a b)
    (hapart : ∀ a b b', b ∈ l' → b' ∈ l' → R a b → R a b' → b = b')
    (hnodup : (l.map f).Nodup) (hnodup' : l'.Nodup) :
    List.Forall₂ R (l.insertionSort fun a b => f a ≤ f b)
      (l'.insertionSort fun a b => g a ≤ g b) := by
  have hinj : ∀ b ∈ l', ∀ b' ∈ l', g b = g b' → b = b' := by
    intro b hb b' hb' hg
    obtain ⟨a, ha, hab⟩ := hl' b hb
    obtain ⟨a', ha', hab'⟩ := hl' b' hb'
    have hf : f a = f a' := (hkey _ _ hab).trans (hg.trans (hkey _ _ hab').symm)
    obtain rfl := List.inj_on_of_nodup_map hnodup ha ha' hf
    exact hapart a b b' hb hb' hab hab'
  have hkeys : (l.map f).Perm (l'.map g) := by
    rw [List.perm_ext_iff_of_nodup hnodup (hnodup'.map_on hinj)]
    intro k
    simp only [List.mem_map]
    constructor
    · rintro ⟨a, ha, rfl⟩
      obtain ⟨b, hb, hab⟩ := hl a ha
      exact ⟨b, hb, (hkey a b hab).symm⟩
    · rintro ⟨b, hb, rfl⟩
      obtain ⟨a, ha, hab⟩ := hl' b hb
      exact ⟨a, ha, hkey a b hab⟩
  refine forall₂_of_keys ?_ hkey (by simpa using hl) (by simpa using hinj)
  rw [List.map_insertionSort _ (· ≤ ·) f l (fun _ _ _ _ => Iff.rfl),
    List.map_insertionSort _ (· ≤ ·) g l' (fun _ _ _ _ => Iff.rfl)]
  exact insertionSort_perm hkeys

end Dualnet.Library
