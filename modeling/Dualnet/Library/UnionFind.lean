import Dualnet.Library.Maps

/-!
# Union-find

Disjoint sets as a map of parents, without ranks: `find` climbs to the root and halves the path
it took, `union` hangs the root of its first argument under that of its second.

`Above u r n e` says that `r` is the root `n` steps above `e`; in a `Grounded` map every element
has one. Halving a path keeps every root (`Above.halve`), so `find` answers the same before and
after any other `find`, and the sets `componentsIn` collects do not depend on the order in which
it meets the elements (`componentsIn_perm`).
-/

namespace Dualnet.Library

/-- Every element's parent; a root is its own. -/
abbrev UnionFind (α : Type) [DecidableEq α] := FMap α α

namespace UnionFind

variable {α : Type} [DecidableEq α]

/-- The parent of an element; one that was never added is its own. -/
def parent (u : UnionFind α) (e : α) : α := (u.lookup e).getD e

/-- Add an element as a set of its own. -/
def add (u : UnionFind α) (e : α) : UnionFind α :=
  if (u.lookup e).isSome then u else u.insert e e

/-- Climb to the root, pointing every second element of the path at its grandparent. The fuel
bounds the length of the path. -/
def climb : Nat → UnionFind α → α → UnionFind α × α
  | 0, u, e => (u, e)
  | fuel + 1, u, e =>
    if parent u e = e then (u, e)
    else
      let next := parent u (parent u e)
      climb fuel (u.insert e next) next

/-- The root of an element. A path is no longer than there are elements. -/
def find (u : UnionFind α) (e : α) : UnionFind α × α :=
  let u := add u e
  climb (FMap.size u) u e

/-- Join the sets of two elements. -/
def union (u : UnionFind α) (a b : α) : UnionFind α :=
  let (u, ra) := find u a
  let (u, rb) := find u b
  if ra = rb then u else u.insert ra rb

/-- The elements by their roots. -/
def components (u : UnionFind α) : FMap α (List α) :=
  (u.keys.foldl (fun (st : UnionFind α × FMap α (List α)) e =>
    let (u, r) := find st.1 e
    (u, st.2.insert r (((st.2.lookup r).getD []) ++ [e]))) (u, ∅)).2

/-- One round of `components`: put an element to those with its root. -/
def collect (st : UnionFind α × FMap α (List α)) (e : α) : UnionFind α × FMap α (List α) :=
  let (u, r) := find st.1 e
  (u, st.2.insert r (((st.2.lookup r).getD []) ++ [e]))

/-- The elements by their roots, met in a given order. -/
def componentsIn (order : List α) (u : UnionFind α) : FMap α (List α) :=
  (order.foldl collect (u, ∅)).2

/-- Components are met by key. -/
theorem components_eq (u : UnionFind α) : components u = componentsIn u.keys u := rfl

/-! ## Parents -/

/-- What an insertion does to parents. -/
theorem parent_insert (u : UnionFind α) (a b x : α) :
    parent (u.insert a b) x = if x = a then b else parent u x := by
  rw [parent, parent, FMap.lookup_insert_ite]
  split <;> rfl

/-- Adding an element changes no parent. -/
@[simp] theorem parent_add (u : UnionFind α) (e x : α) : parent (add u e) x = parent u x := by
  unfold add
  split
  · rfl
  · rename_i hnew
    rw [parent_insert]
    split
    · rename_i hx
      rw [hx, parent, Option.not_isSome_iff_eq_none.mp hnew, Option.getD_none]
    · rfl

/-- Adding elements one after the other makes those that are new roots. -/
theorem lookup_foldl_add (l : List α) (u : UnionFind α) (x : α) :
    (l.foldl add u).lookup x = (u.lookup x).or (if x ∈ l then some x else none) := by
  induction l generalizing u with
  | nil => simp
  | cons e l ih =>
    rw [List.foldl_cons, ih, add]
    by_cases hold : (u.lookup e).isSome
    · rw [if_pos hold]
      by_cases hx : x = e
      · subst hx
        obtain ⟨p, hp⟩ := Option.isSome_iff_exists.mp hold
        simp [hp]
      · simp [hx]
    · rw [if_neg hold, FMap.lookup_insert_ite]
      by_cases hx : x = e
      · subst hx
        simp [Option.not_isSome_iff_eq_none.mp hold]
      · simp [hx]

/-- Adding elements leaves parents alone. -/
theorem parent_foldl_add (l : List α) (u : UnionFind α) (x : α) :
    parent (l.foldl add u) x = parent u x := by
  induction l generalizing u with
  | nil => rfl
  | cons e l ih => rw [List.foldl_cons, ih, parent_add]

/-! ## Roots -/

/-- `r` is the root, `n` steps above `e`. -/
inductive Above (u : UnionFind α) (r : α) : Nat → α → Prop where
  | root (h : parent u r = r) : Above u r 0 r
  | step {n : Nat} {e : α} (hne : parent u e ≠ e) (h : Above u r n (parent u e)) :
      Above u r (n + 1) e

variable {u u' : UnionFind α} {r s e x : α} {n m : Nat}

/-- There is one root, at one height. -/
theorem Above.unique (h : Above u r n e) (h' : Above u s m e) : r = s ∧ n = m := by
  induction h generalizing m with
  | root h => cases h' with
    | root => exact ⟨rfl, rfl⟩
    | step hne => exact absurd h hne
  | step hne _ ih => cases h' with
    | root h' => exact absurd h' hne
    | step _ h' =>
      obtain ⟨hr, hn⟩ := ih h'
      exact ⟨hr, congrArg (· + 1) hn⟩

/-- A root is its own parent. -/
theorem Above.parent_root (h : Above u r n e) : parent u r = r := by
  induction h with
  | root h => exact h
  | step _ _ ih => exact ih

/-- Roots depend on the parents only. -/
theorem Above.congr (hparent : ∀ x, parent u x = parent u' x) (h : Above u r n e) :
    Above u' r n e := by
  induction h with
  | root h => exact .root (hparent _ ▸ h)
  | step hne _ ih => exact .step (hparent _ ▸ hne) (hparent _ ▸ ih)

/-- The root is also above the grandparent. -/
theorem Above.grandparent (h : Above u r (n + 1) e) :
    ∃ m ≤ n, Above u r m (parent u (parent u e)) := by
  cases h with
  | step _ h =>
    cases h with
    | root h => exact ⟨0, le_rfl, h.symm ▸ .root h⟩
    | step _ h => exact ⟨_, Nat.le_succ _, h⟩

/-- Paths to a root do not turn back. -/
theorem Above.grandparent_ne (h : Above u r n e) (hne : parent u e ≠ e) :
    parent u (parent u e) ≠ e := by
  cases h with
  | root h => exact absurd h hne
  | step _ h =>
    intro hback
    obtain ⟨m, hm, habove⟩ := Above.grandparent (.step hne h)
    rw [hback] at habove
    have := ((Above.step hne h).unique habove).2
    omega

/-- The elements below the root on a path are different keys. -/
theorem Above.path (h : Above u r n e) :
    ∃ l : List α, l.length = n ∧ l.Nodup ∧ ∀ x ∈ l, x ∈ u.keys ∧ ∃ m ≤ n, Above u r m x := by
  induction h with
  | root => exact ⟨[], rfl, List.nodup_nil, by simp⟩
  | @step n e hne h ih =>
    obtain ⟨l, hlength, hnodup, hmem⟩ := ih
    have hkey : e ∈ u.keys := by
      rw [← AList.mem_keys, ← AList.lookup_isSome]
      by_contra hnone
      rw [parent, Option.not_isSome_iff_eq_none.mp hnone] at hne
      exact hne rfl
    have hnew : e ∉ l := by
      intro he
      obtain ⟨-, m, hm, habove⟩ := hmem e he
      have := ((Above.step hne h).unique habove).2
      omega
    refine ⟨e :: l, by simp [hlength], List.nodup_cons.mpr ⟨hnew, hnodup⟩, ?_⟩
    rintro x (_ | ⟨_, hx⟩)
    · exact ⟨hkey, n + 1, le_rfl, .step hne h⟩
    · obtain ⟨hxkey, m, hm, habove⟩ := hmem x hx
      exact ⟨hxkey, m, Nat.le_succ_of_le hm, habove⟩

/-- A path is no longer than there are elements. -/
theorem Above.le_size (h : Above u r n e) : n ≤ FMap.size u := by
  obtain ⟨l, rfl, hnodup, hmem⟩ := h.path
  exact (List.subperm_of_subset hnodup fun x hx => (hmem x hx).1).length_le

/-- An element that points where another one points has its root. -/
theorem Above.sibling {p g : α} (hp : parent u p = g) (he : parent u e = g) (hne : g ≠ e)
    (h : Above u r n p) : ∃ k ≤ n + 1, Above u r k e := by
  subst he
  cases h with
  | root hroot =>
    have hparent : parent u e = r := hp.symm.trans hroot
    exact ⟨1, le_rfl, .step hne (hparent.symm ▸ .root hroot)⟩
  | @step n _ _ h => exact ⟨n + 1, Nat.le_succ _, .step hne (hp ▸ h)⟩

/-- Halving a path keeps the roots. -/
theorem Above.halve (he : Above u r n e) (hne : parent u e ≠ e) (h : Above u s m x) :
    ∃ k ≤ m, Above (u.insert e (parent u (parent u e))) s k x := by
  induction h with
  | root h =>
    have hs : s ≠ e := by
      rintro rfl
      exact hne h
    exact ⟨0, le_rfl, .root (by rw [parent_insert, if_neg hs, h])⟩
  | @step m x _ h ih =>
    obtain ⟨k, hk, habove⟩ := ih
    by_cases hx : x = e
    · -- `e` now points past its parent, to where the parent itself points
      subst hx
      obtain ⟨k', hk', habove⟩ := habove.sibling (e := x) (by rw [parent_insert, if_neg hne])
        (by rw [parent_insert, if_pos rfl]) (he.grandparent_ne hne)
      exact ⟨k', by omega, habove⟩
    · have hsame : parent (u.insert e (parent u (parent u e))) x = parent u x := by
        rw [parent_insert, if_neg hx]
      exact ⟨k + 1, by omega, .step (by rwa [hsame]) (by rwa [hsame])⟩

/-- Climbing from `e` with fuel for its path finds the root and keeps all roots. -/
theorem climb_spec {fuel : Nat} (h : Above u r n e) (hfuel : n ≤ fuel) :
    (climb fuel u e).2 = r ∧
      ∀ s m x, Above u s m x → ∃ k ≤ m, Above (climb fuel u e).1 s k x := by
  induction fuel generalizing u e n with
  | zero =>
    obtain rfl : n = 0 := by omega
    cases h
    exact ⟨rfl, fun s m x hx => ⟨m, le_rfl, hx⟩⟩
  | succ fuel ih =>
    rw [climb]
    split
    · rename_i hroot
      exact ⟨((Above.root hroot).unique h).1, fun s m x hx => ⟨m, le_rfl, hx⟩⟩
    · rename_i hne
      cases n with
      | zero =>
        cases h with
        | root hroot => exact absurd hroot hne
      | succ n =>
        obtain ⟨k, hk, hnext⟩ := h.grandparent
        obtain ⟨k', hk', hnext⟩ := h.halve hne hnext
        obtain ⟨hfound, hkeep⟩ := ih hnext (by omega)
        refine ⟨hfound, fun s m x hx => ?_⟩
        obtain ⟨m', hm', hx⟩ := h.halve hne hx
        obtain ⟨m'', hm'', hx⟩ := hkeep s m' x hx
        exact ⟨m'', by omega, hx⟩

/-! ## Grounded maps -/

/-- Every element has a root. -/
def Grounded (u : UnionFind α) : Prop := ∀ e, ∃ r n, Above u r n e

/-- What `find` answers. -/
def root (u : UnionFind α) (e : α) : α := (find u e).2

/-- The roots of `u` are roots of `u'`. -/
def Keeps (u u' : UnionFind α) : Prop := ∀ s m x, Above u s m x → ∃ k, Above u' s k x

/-- `find` answers the root and keeps the classes. -/
theorem find_spec (h : Above u r n e) : root u e = r ∧ Keeps u (find u e).1 := by
  have hadd : Above (add u e) r n e := h.congr fun x => (parent_add u e x).symm
  obtain ⟨hfound, hkeep⟩ := climb_spec hadd hadd.le_size
  refine ⟨hfound, fun s m x hx => ?_⟩
  obtain ⟨k, -, hk⟩ := hkeep s m x (hx.congr fun y => (parent_add u e y).symm)
  exact ⟨k, hk⟩

/-- Grounded maps stay grounded. -/
theorem Grounded.keeps (hu : Grounded u) (h : Keeps u u') : Grounded u' := by
  intro e
  obtain ⟨r, n, hr⟩ := hu e
  exact ⟨r, h r n e hr⟩

/-- Maps with the same roots answer alike. -/
theorem Grounded.root_keeps (hu : Grounded u) (h : Keeps u u') (e : α) : root u' e = root u e := by
  obtain ⟨r, n, hr⟩ := hu e
  obtain ⟨k, hk⟩ := h r n e hr
  rw [(find_spec hr).1, (find_spec hk).1]

/-- So they do under `find`. -/
theorem Grounded.keeps_find (hu : Grounded u) (e : α) : Keeps u (find u e).1 := by
  obtain ⟨r, n, hr⟩ := hu e
  exact (find_spec hr).2

/-- The same parents keep the classes. -/
theorem Keeps.of_parent (h : ∀ x, parent u x = parent u' x) : Keeps u u' :=
  fun _ m _ hx => ⟨m, hx.congr h⟩

/-- The empty map is grounded. -/
theorem grounded_empty : Grounded (∅ : UnionFind α) := fun e => ⟨e, 0, .root rfl⟩

/-- Added elements are roots. -/
theorem Grounded.foldl_add (hu : Grounded u) (l : List α) : Grounded (l.foldl add u) :=
  hu.keeps (.of_parent fun x => (parent_foldl_add l u x).symm)

/-- Hanging one root under another moves its elements there. -/
theorem Above.hang {a b : α} (ha : parent u a = a) (hb : parent u b = b) (hne : a ≠ b)
    (h : Above u s m x) : ∃ k, Above (u.insert a b) (if s = a then b else s) k x := by
  have hroot : parent (u.insert a b) b = b := by rw [parent_insert, if_neg hne.symm, hb]
  induction h with
  | root h =>
    split
    · rename_i hs
      have hparent : parent (u.insert a b) s = b := by rw [parent_insert, if_pos hs]
      refine ⟨1, .step ?_ (by rw [hparent]; exact .root hroot)⟩
      rw [hparent, hs]
      exact hne.symm
    · rename_i hs
      exact ⟨0, .root (by rw [parent_insert, if_neg hs, h])⟩
  | @step m x hne' h ih =>
    obtain ⟨k, hk⟩ := ih
    have hx : x ≠ a := by
      rintro rfl
      exact hne' ha
    have hparent : parent (u.insert a b) x = parent u x := by rw [parent_insert, if_neg hx]
    exact ⟨k + 1, .step (by rwa [hparent]) (by rwa [hparent])⟩

/-- A union is grounded. -/
theorem Grounded.union (hu : Grounded u) (a b : α) : Grounded (union u a b) := by
  obtain ⟨ra, n, hra⟩ := hu a
  obtain ⟨hfoundA, hkeepA⟩ := find_spec hra
  have hu₁ := hu.keeps hkeepA
  obtain ⟨rb, m, hrb⟩ := hu₁ b
  obtain ⟨hfoundB, hkeepB⟩ := find_spec hrb
  have hu₂ := hu₁.keeps hkeepB
  have hrootA : parent (find (find u a).1 b).1 ra = ra := by
    obtain ⟨k, hk⟩ := hkeepA _ _ _ hra
    obtain ⟨k', hk'⟩ := hkeepB _ _ _ hk
    exact hk'.parent_root
  have hrootB : parent (find (find u a).1 b).1 rb = rb := by
    obtain ⟨k, hk⟩ := hkeepB _ _ _ hrb
    exact hk.parent_root
  have hunion : UnionFind.union u a b = if ra = rb then (find (find u a).1 b).1
      else (find (find u a).1 b).1.insert ra rb := by
    rw [← hfoundA, ← hfoundB]
    rfl
  rw [hunion]
  split
  · exact hu₂
  · rename_i hne
    intro x
    obtain ⟨s, k, hs⟩ := hu₂ x
    exact ⟨_, hs.hang hrootA hrootB hne⟩

/-! ## Components -/

/-- After some rounds of `components`, the map has the roots it had and the elements met so far are
collected by their roots. -/
theorem Grounded.foldl_collect (hu : Grounded u) (order : List α) :
    Keeps u (order.foldl collect (u, ∅)).1 ∧ ∀ r, (order.foldl collect (u, ∅)).2.lookup r =
      if (order.filter (root u · = r)).isEmpty then none
      else some (order.filter (root u · = r)) := by
  induction order using List.reverseRecOn with
  | nil => exact ⟨fun s m x hx => ⟨m, hx⟩, fun r => rfl⟩
  | append_singleton order e ih =>
    obtain ⟨hkeep, hlookup⟩ := ih
    have hfound : (find (order.foldl collect (u, ∅)).1 e).2 = root u e := hu.root_keeps hkeep e
    rw [List.foldl_append, List.foldl_cons, List.foldl_nil, collect]
    refine ⟨fun s m x hx => ?_, fun r => ?_⟩
    · obtain ⟨k, hk⟩ := hkeep s m x hx
      exact (hu.keeps hkeep).keeps_find e s k x hk
    · have hcollected : ((order.foldl collect (u, ∅)).2.lookup r).getD [] =
          order.filter (root u · = r) := by
        rw [hlookup]
        split
        · rename_i hempty
          exact (List.isEmpty_iff.mp hempty).symm
        · rfl
      rw [FMap.lookup_insert_ite, hfound, List.filter_append]
      by_cases hr : root u e = r
      · subst hr
        simp [hcollected]
      · simp [Ne.symm hr, hr, hlookup]

/-- The component of a root: the elements below it, in the order they were met. -/
theorem lookup_componentsIn (hu : Grounded u) (order : List α) (r : α) :
    (componentsIn order u).lookup r = if (order.filter (root u · = r)).isEmpty then none
      else some (order.filter (root u · = r)) :=
  (hu.foldl_collect order).2 r

/-- A component is the class of its root. -/
theorem componentsIn_eq_some (hu : Grounded u) {order l : List α}
    (h : (componentsIn order u).lookup r = some l) :
    l ≠ [] ∧ l = order.filter (root u · = r) := by
  rw [lookup_componentsIn hu] at h
  split at h
  · cases h
  · rename_i hne
    obtain rfl := Option.some.inj h
    exact ⟨fun hnil => hne (List.isEmpty_iff.mpr hnil), rfl⟩

/-- Maps with the same parents, met in any two orders, have the same components. -/
theorem componentsIn_perm (hu : Grounded u) (hparent : ∀ x, parent u x = parent u' x)
    {order order' : List α} (horder : order.Perm order') (r : α) :
    Option.Rel List.Perm ((componentsIn order u).lookup r)
      ((componentsIn order' u').lookup r) := by
  have hkeep : Keeps u u' := .of_parent hparent
  have hroot : ∀ x, root u' x = root u x := hu.root_keeps hkeep
  have hperm := horder.filter (root u · = r)
  rw [lookup_componentsIn hu, lookup_componentsIn (hu.keeps hkeep)]
  simp only [hroot]
  rw [hperm.isEmpty_eq]
  split
  · exact .none
  · exact .some hperm

end UnionFind

end Dualnet.Library
