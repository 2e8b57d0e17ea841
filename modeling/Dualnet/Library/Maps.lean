import Mathlib.Data.List.AList
import Mathlib.Data.List.Sort
import Mathlib.Tactic

/-!
# Finite maps with an iteration order

A map of the source is an association list without duplicate keys; the order of its entries
is the order one iteration happens to visit them in.
-/

namespace Dualnet.Library

/-- A finite map from `κ` to `α`. -/
abbrev FMap (κ α : Type) : Type := AList fun _ : κ => α

namespace FMap

variable {κ α : Type} [DecidableEq κ]

/-- The number of entries. -/
def size (m : FMap κ α) : Nat := m.keys.length

/-- Looking up after an insertion. -/
theorem lookup_insert_ite (m : FMap κ α) (k k' : κ) (v : α) :
    (m.insert k v).lookup k' = if k' = k then some v else m.lookup k' := by
  split
  · rename_i h
    rw [h, AList.lookup_insert]
  · rename_i h
    rw [AList.lookup_insert_ne h]

/-- Looking up after a deletion. -/
theorem lookup_erase_ite (m : FMap κ α) (k k' : κ) :
    (m.erase k).lookup k' = if k' = k then none else m.lookup k' := by
  split
  · rename_i h
    rw [h, AList.lookup_erase]
  · rename_i h
    rw [AList.lookup_erase_ne h]

/-- A deletion only removes. -/
theorem lookup_of_lookup_erase {m : FMap κ α} {k k' : κ} {v : α}
    (h : (m.erase k).lookup k' = some v) : m.lookup k' = some v := by
  rw [lookup_erase_ite] at h
  split at h
  · cases h
  · exact h

/-- An insertion adds an entry unless the key is there. -/
theorem size_insert (m : FMap κ α) (k : κ) (v : α) :
    FMap.size (m.insert k v) = if (m.lookup k).isSome then m.size else m.size + 1 := by
  rw [size, AList.keys_insert, List.length_cons, List.length_erase, size]
  by_cases hk : k ∈ m
  · have hpos : 0 < m.keys.length := List.length_pos_of_mem (AList.mem_keys.mp hk)
    rw [if_pos (AList.lookup_isSome.mpr hk), if_pos (AList.mem_keys.mp hk)]
    omega
  · rw [if_neg (mt AList.lookup_isSome.mp hk), if_neg (mt AList.mem_keys.mpr hk)]

/-- A deletion adds no entry. -/
theorem size_erase_le (m : FMap κ α) (k : κ) : FMap.size (m.erase k) ≤ m.size := by
  rw [size, AList.keys_erase]
  exact List.length_erase_le

/-- A map has as many entries as there are different keys. -/
theorem size_eq_length_dedup {m : FMap κ α} {l : List κ} (h : ∀ k, k ∈ m ↔ k ∈ l) :
    m.size = l.dedup.length := by
  refine ((List.perm_ext_iff_of_nodup m.keys_nodup l.nodup_dedup).mpr fun k => ?_).length_eq
  rw [List.mem_dedup, ← h k, AList.mem_keys]

/-- A map whose entries can be told apart by keys of another map is no larger than that one. -/
theorem size_le_of_injection {ι ι' β β' : Type} {m : FMap ι β} {m' : FMap ι' β'}
    (f : ι → ι') (hmem : ∀ k ∈ m, f k ∈ m') (hinj : ∀ k ∈ m, ∀ k' ∈ m, f k = f k' → k = k') :
    m.size ≤ m'.size := by
  have hnodup : (m.keys.map f).Nodup := m.keys_nodup.map_on fun k hk k' hk' =>
    hinj k (AList.mem_keys.mpr hk) k' (AList.mem_keys.mpr hk')
  have hsub : m.keys.map f ⊆ m'.keys := by
    intro k' hk'
    obtain ⟨k, hk, rfl⟩ := List.mem_map.mp hk'
    exact AList.mem_keys.mp (hmem k (AList.mem_keys.mpr hk))
  have hle := (List.subperm_of_subset hnodup hsub).length_le
  rwa [List.length_map] at hle

/-- One round of a sweep. -/
def sweepEntry (p : κ → α → Bool) (acc : FMap κ α × Nat) (entry : Σ _ : κ, α) : FMap κ α × Nat :=
  if p entry.1 entry.2 then (acc.1.erase entry.1, acc.2 + 1) else acc

/-- Delete, while iterating over the map, the entries that satisfy `p`, and count them. -/
def sweep (p : κ → α → Bool) (m : FMap κ α) : FMap κ α × Nat :=
  m.entries.foldl (sweepEntry p) (m, 0)

/-- A sweep over some entries deletes their keys where `p` is satisfied. -/
theorem lookup_foldl_sweepEntry (p : κ → α → Bool) (entries : List (Σ _ : κ, α))
    (acc : FMap κ α × Nat) (k : κ) (v : α) :
    (entries.foldl (sweepEntry p) acc).1.lookup k = some v ↔
      acc.1.lookup k = some v ∧ ∀ entry ∈ entries, entry.1 = k → p entry.1 entry.2 = false := by
  induction entries generalizing acc with
  | nil => simp
  | cons entry entries ih =>
    rw [List.foldl_cons, ih, List.forall_mem_cons]
    unfold sweepEntry
    split
    · rename_i hp
      rw [lookup_erase_ite]
      by_cases hk : k = entry.1
      · simp [hk, hp]
      · simp [hk, Ne.symm hk]
    · rename_i hp
      simp [hp]

/-- A sweep leaves exactly the entries that do not satisfy `p`. -/
theorem lookup_sweep (p : κ → α → Bool) (m : FMap κ α) (k : κ) :
    (m.sweep p).1.lookup k = (m.lookup k).filter fun v => !p k v := by
  refine Option.ext fun v => ?_
  rw [sweep, lookup_foldl_sweepEntry, Option.filter_eq_some_iff]
  refine and_congr_right fun hv => ?_
  rw [Bool.not_eq_true']
  constructor
  · intro h
    exact h ⟨k, v⟩ (AList.mem_lookup_iff.mp hv) rfl
  · rintro hp ⟨k', v'⟩ hmem rfl
    rwa [Option.some.inj ((AList.mem_lookup_iff.mpr hmem).symm.trans hv)]

/-- A sweep adds no entry. -/
theorem size_sweep_le (p : κ → α → Bool) (m : FMap κ α) : (m.sweep p).1.size ≤ m.size := by
  refine List.foldlRecOn (motive := fun acc : FMap κ α × Nat => acc.1.size ≤ m.size) _ _
    (Nat.le_refl _) ?_
  intro acc hacc entry _
  unfold sweepEntry
  split
  · exact Nat.le_trans (size_erase_le _ _) hacc
  · exact hacc

/-- Replace every value by one computed from it and its key. -/
def mapVals {β : Type} (f : κ → α → β) (m : FMap κ α) : FMap κ β where
  entries := m.entries.map (Sigma.map id f : (Σ _ : κ, α) → Σ _ : κ, β)
  nodupKeys := by
    have hkeys : (m.entries.map (Sigma.map id f : (Σ _ : κ, α) → Σ _ : κ, β)).keys =
        m.entries.keys := by
      simp [List.keys, Function.comp_def, Sigma.map]
    rw [List.NodupKeys, hkeys]
    exact m.nodupKeys

/-- Looking up a replaced value. -/
theorem lookup_mapVals {β : Type} (f : κ → α → β) (m : FMap κ α) (k : κ) :
    (m.mapVals f).lookup k = (m.lookup k).map (f k) :=
  List.dlookup_map₂ k

/-- Change the value at a key; a missing key stays missing. -/
def modify (m : FMap κ α) (k : κ) (f : α → α) : FMap κ α :=
  m.mapVals fun k' v => if k' = k then f v else v

/-- Looking up a changed value. -/
theorem lookup_modify (m : FMap κ α) (k k' : κ) (f : α → α) :
    (m.modify k f).lookup k' = (m.lookup k').map fun v => if k' = k then f v else v :=
  lookup_mapVals _ m k'

/-- The keys stay. -/
theorem mem_modify {m : FMap κ α} {k k' : κ} {f : α → α} : k' ∈ m.modify k f ↔ k' ∈ m := by
  rw [← AList.lookup_isSome, ← AList.lookup_isSome, lookup_modify, Option.isSome_map]

/-- The sum over all entries. -/
def total {M : Type} [AddCommMonoid M] (f : α → M) (m : FMap κ α) : M :=
  (m.entries.map fun entry => f entry.2).sum

/-- A map all of whose entries count for nothing. -/
theorem total_eq_zero {M : Type} [AddCommMonoid M] {f : α → M} {m : FMap κ α}
    (h : ∀ k v, m.lookup k = some v → f v = 0) : m.total f = 0 := by
  refine List.sum_eq_zero fun x hx => ?_
  obtain ⟨entry, hentry, rfl⟩ := List.mem_map.mp hx
  exact h entry.1 entry.2 (AList.mem_lookup_iff.mpr hentry)

/-- A change that leaves what an entry counts for leaves the sum. -/
theorem total_modify_same {M : Type} [AddCommMonoid M] {f : α → M} {g : α → α}
    (hg : ∀ v, f (g v) = f v) (m : FMap κ α) (k : κ) : (m.modify k g).total f = m.total f := by
  simp only [total, modify, mapVals, List.map_map]
  congr 1
  refine List.map_congr_left fun entry _ => ?_
  simp only [Function.comp_apply, Sigma.map]
  split
  · exact hg entry.2
  · rfl

/-- A change that adds `d` to what an entry counts for adds it to the sum. -/
theorem total_modify {M : Type} [AddCommMonoid M] {f : α → M} {g : α → α} {d : M}
    (hg : ∀ v, f (g v) = f v + d) {m : FMap κ α} {k : κ} (hk : k ∈ m) :
    (m.modify k g).total f = m.total f + d := by
  have hlist : ∀ entries : List (Σ _ : κ, α), entries.NodupKeys →
      ((entries.map (Sigma.map id fun k' v => if k' = k then g v else v :
          (Σ _ : κ, α) → Σ _ : κ, α)).map fun entry => f entry.2).sum =
        (entries.map fun entry => f entry.2).sum + if k ∈ entries.keys then d else 0 := by
    intro entries
    induction entries with
    | nil => simp
    | cons entry entries ih =>
      obtain ⟨k', v⟩ := entry
      intro hnodup
      obtain ⟨hnot, hnodup⟩ := List.nodupKeys_cons.mp hnodup
      simp only [List.map_cons, List.sum_cons, ih hnodup, List.keys_cons, List.mem_cons,
        Sigma.map, id_eq]
      by_cases hk : k' = k
      · subst hk
        rw [if_pos rfl, hg, if_neg hnot, if_pos (.inl rfl), add_zero, add_right_comm]
      · rw [if_neg hk, add_assoc]
        simp [Ne.symm hk]
  have hkeys : k ∈ m.entries.keys := AList.mem_keys.mp hk
  have htotal := hlist m.entries m.nodupKeys
  rw [if_pos hkeys] at htotal
  exact htotal

/-- The elements of a list by their keys; a later element replaces an earlier one. -/
def index (key : α → κ) (l : List α) : FMap κ α := l.foldl (fun m a => m.insert (key a) a) ∅

/-- An index holds the last element of each key. -/
theorem lookup_index (key : α → κ) (l : List α) (k : κ) :
    (index key l).lookup k = l.reverse.find? fun a => key a = k := by
  have hfold : ∀ m : FMap κ α, (l.foldl (fun m a => m.insert (key a) a) m).lookup k =
      (l.reverse.find? fun a => key a = k).or (m.lookup k) := by
    induction l with
    | nil => simp
    | cons a l ih =>
      intro m
      rw [List.foldl_cons, ih, lookup_insert_ite, List.reverse_cons, List.find?_append,
        Option.or_assoc]
      by_cases hk : key a = k
      · simp [hk]
      · simp [hk, Ne.symm hk]
  simpa [index] using hfold ∅

/-- What an index returns is an element of that key. -/
theorem mem_of_lookup_index {key : α → κ} {l : List α} {k : κ} {a : α}
    (h : (index key l).lookup k = some a) : a ∈ l ∧ key a = k := by
  rw [lookup_index] at h
  exact ⟨List.mem_reverse.mp (List.mem_of_find?_eq_some h), by simpa using List.find?_some h⟩

/-- Where keys are distinct, an index returns every element. -/
theorem lookup_index_of_mem {key : α → κ} {l : List α} (hnodup : (l.map key).Nodup) {a : α}
    (ha : a ∈ l) : (index key l).lookup (key a) = some a := by
  cases hfound : (index key l).lookup (key a) with
  | none =>
    rw [lookup_index, List.find?_eq_none] at hfound
    exact absurd (decide_eq_true rfl) (hfound a (List.mem_reverse.mpr ha))
  | some b =>
    obtain ⟨hb, hkey⟩ := mem_of_lookup_index hfound
    rw [List.inj_on_of_nodup_map hnodup hb ha hkey]

/-- The keys in ascending order, for iterating in an order that does not depend on the map. -/
def sortedKeys [LE κ] [DecidableLE κ] (m : FMap κ α) : List κ :=
  m.keys.insertionSort (· ≤ ·)

/-- Sorting keeps the keys. -/
theorem mem_sortedKeys [LE κ] [DecidableLE κ] {m : FMap κ α} {k : κ} :
    k ∈ m.sortedKeys ↔ ∃ v, m.lookup k = some v := by
  rw [sortedKeys, List.mem_insertionSort, ← AList.mem_keys, ← AList.lookup_isSome,
    Option.isSome_iff_exists]

omit [DecidableEq κ] in
/-- No key comes twice. -/
theorem nodup_sortedKeys [LE κ] [DecidableLE κ] (m : FMap κ α) : m.sortedKeys.Nodup :=
  (List.perm_insertionSort _ _).nodup_iff.mpr m.keys_nodup

end FMap

end Dualnet.Library
