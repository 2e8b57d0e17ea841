import Dualnet.Schema.Steps

/-!
# The conditions a node's rules refer to

`deriveRoutes` notes by node the conditions its rules name, and `emitConditions` emits these first.
They are the conditions of the branches of the node's path, and where a relay has to tell branches
apart, the sets it tests again; a healthcheck is not among the latter.
-/

namespace Dualnet.Schema

open Library Text

/-- The condition is noted for the node. -/
def Refs.Has (refs : Refs) (v c : String) : Prop := c ∈ (refs.lookup v).getD ∅

/-- The conditions of a network's references, in the order they are emitted. -/
def Refs.pairs (refs : Refs) : List (String × String) :=
  refs.sortedKeys.flatMap fun node =>
    ((refs.lookup node).getD ∅).sortedKeys.map fun cond => (node, cond)

variable {refs : Refs} {v w c d : String}

/-- The references as pairs. -/
theorem Refs.mem_pairs : (v, c) ∈ refs.pairs ↔ refs.Has v c := by
  simp only [Refs.pairs, List.mem_flatMap, FMap.mem_sortedKeys, List.mem_map, Prod.mk.injEq]
  constructor
  · rintro ⟨_, -, _, ⟨u, hc⟩, rfl, rfl⟩
    exact AList.lookup_isSome.mp (Option.isSome_iff_exists.mpr ⟨u, hc⟩)
  · intro hc
    refine ⟨v, ?_, c, Option.isSome_iff_exists.mp (AList.lookup_isSome.mpr hc), rfl, rfl⟩
    cases hlookup : refs.lookup v with
    | none =>
      rw [Refs.Has, hlookup] at hc
      exact absurd hc (AList.notMem_empty c)
    | some conds => exact ⟨conds, rfl⟩

/-- One more reference. -/
theorem Refs.has_add : (refs.add v c).Has w d ↔ (w = v ∧ d = c) ∨ refs.Has w d := by
  rw [Refs.Has, Refs.Has, Refs.add, FMap.lookup_insert_ite]
  by_cases hw : w = v
  · subst hw
    rw [if_pos rfl, Option.getD_some, AList.mem_insert]
    simp
  · simp [hw]

/-- More references of a node. -/
theorem Refs.has_addAll (l : List String) :
    (l.foldl (fun r c => r.add v c) refs).Has w d ↔ (w = v ∧ d ∈ l) ∨ refs.Has w d := by
  induction l generalizing refs with
  | nil => simp
  | cons c l ih =>
    rw [List.foldl_cons, ih, Refs.has_add, List.mem_cons, and_or_left, or_left_comm, or_assoc]

/-! ## The conditions of the schema -/

/-- A condition by its name. -/
theorem condition_eq_entry {n : Network} {e : Σ _ : String, ConditionSpec} (he : e ∈ n.conditions.entries) :
    n.condition e.1 = e.2 := by
  rw [Network.condition, AList.mem_lookup_iff.mpr he]
  rfl

/-- A healthcheck is one of the conditions. -/
theorem exists_entry {n : Network} {hc : HealthcheckSpec} (h : (n.condition c).healthcheck = some hc) :
    ∃ e ∈ n.conditions.entries, e.1 = c ∧ e.2.healthcheck = some hc := by
  unfold Network.condition at h
  cases hlookup : n.conditions.lookup c with
  | none => simp [hlookup] at h
  | some spec =>
    rw [hlookup] at h
    exact ⟨⟨c, spec⟩, AList.mem_lookup_iff.mp hlookup, rfl, h⟩

/-! ## Which conditions are noted -/

/-- A branch of the path of node `v` names the condition. -/
def Network.Names (n : Network) (v c : String) : Prop :=
  ∃ p ∈ n.paths, p.node = v ∧ ∃ br ∈ p.routes, c ∈ br.when

instance (n : Network) (v c : String) : Decidable (n.Names v c) :=
  inferInstanceAs (Decidable (∃ p ∈ n.paths, p.node = v ∧ ∃ br ∈ p.routes, c ∈ br.when))

variable {n : Network} {links : FMap String Link}

/-- What a path refers to. -/
theorem derivePath_refs {st st' : DeriveState} {p : Path} (h : n.derivePath links st p = .ok st') :
    st'.refs.Has w d ↔ (p.node = w ∧ ∃ br ∈ p.routes, d ∈ br.when) ∨ st.refs.Has w d := by
  have hbranches : ∀ (l : List Branch) (refs : Refs),
      (l.foldl (fun refs br => br.when.foldl (fun r c => r.add p.node c) refs) refs).Has w d ↔
        (p.node = w ∧ ∃ br ∈ l, d ∈ br.when) ∨ refs.Has w d := by
    intro l
    induction l with
    | nil => simp
    | cons br l ih =>
      intro refs
      rw [List.foldl_cons, ih, Refs.has_addAll, List.exists_mem_cons_iff, @eq_comm _ w,
        and_or_left, or_left_comm, or_assoc]
  unfold Network.derivePath at h
  dsimp only at h
  split at h
  · cases h
    exact hbranches _ _
  · simp only [bind_eq_ok, pure_eq_ok] at h
    obtain ⟨_, -, rfl⟩ := h
    exact hbranches _ _

/-- What all paths refer to. -/
theorem derivePaths_refs {paths : List Path} {st st' : DeriveState}
    (h : paths.foldlM (n.derivePath links) st = .ok st') :
    st'.refs.Has w d ↔
      (∃ p ∈ paths, p.node = w ∧ ∃ br ∈ p.routes, d ∈ br.when) ∨ st.refs.Has w d := by
  induction paths generalizing st with
  | nil =>
    cases h
    simp
  | cons p paths ih =>
    rw [List.foldlM_cons, bind_eq_ok] at h
    obtain ⟨mid, hstep, hrest⟩ := h
    rw [ih hrest, derivePath_refs hstep, List.exists_mem_cons_iff, or_left_comm, or_assoc]

/-- What a qualified rule refers to. -/
theorem qualifyRule_refs {all : List PendingRule} {pr : PendingRule} {st st' : QualifyState}
    (h : n.qualifyRule all st pr = .ok st') :
    st'.refs.Has w d ↔
      (Diverges all pr ∧ pr.node = w ∧ d ∈ n.restated pr) ∨ st.refs.Has w d := by
  unfold Network.qualifyRule at h
  split at h
  case isTrue hagrees =>
    cases h
    simp [not_diverges_iff.mp hagrees]
  case isFalse hdiverges =>
    have hdiverges : Diverges all pr := not_not.mp (not_diverges_iff.not.mp hdiverges)
    dsimp only at h
    split at h
    case isTrue hempty =>
      simp only [bind_eq_ok, reject_eq_ok, exists_const, pure_eq_ok] at h
      obtain ⟨-, rfl⟩ := h
      simp [List.isEmpty_iff.mp hempty]
    case isFalse =>
      simp only [bind_eq_ok, reject_eq_ok, exists_const, pure_eq_ok] at h
      obtain ⟨-, rfl⟩ := h
      simp only [Refs.has_addAll, hdiverges, true_and, @eq_comm _ w]

/-- Qualification notes what is restated where branches diverge. -/
theorem qualifyLoop_refs {all rest : List PendingRule} {st st' : QualifyState}
    (h : rest.foldlM (n.qualifyRule all) st = .ok st') :
    st'.refs.Has w d ↔
      (∃ pr ∈ rest, Diverges all pr ∧ pr.node = w ∧ d ∈ n.restated pr) ∨ st.refs.Has w d := by
  induction rest generalizing st with
  | nil =>
    cases h
    simp
  | cons pr rest ih =>
    rw [List.foldlM_cons, bind_eq_ok] at h
    obtain ⟨mid, hstep, hrest⟩ := h
    rw [ih hrest, qualifyRule_refs hstep, List.exists_mem_cons_iff, or_left_comm, or_assoc]

/-- It notes sets only. -/
theorem qualifyRules_refs {all rest : List PendingRule} {st st' : QualifyState}
    (hd : (n.condition d).dstIn = none) (h : rest.foldlM (n.qualifyRule all) st = .ok st') :
    st'.refs.Has w d ↔ st.refs.Has w d := by
  rw [qualifyLoop_refs h]
  refine or_iff_right ?_
  rintro ⟨pr, -, -, -, hmem⟩
  simp [Network.restated, hd] at hmem

/-! ## Which conditions are emitted -/

/-- A condition that is emitted is done. -/
theorem emitCondition_done {st st' : ConditionState} (h : n.emitCondition v c st = .ok st') :
    (w, d) ∈ st'.done ↔ (w, d) = (v, c) ∨ (w, d) ∈ st.done := by
  rcases emitCondition_cases h with ⟨hdone, rfl⟩ | ⟨-, cond, -, -, rfl⟩
  · refine (or_iff_right_of_imp ?_).symm
    rintro heq
    exact heq ▸ hdone
  · exact List.mem_cons

/-- So are all that are referred to. -/
theorem emitReferences_done {pairs : List (String × String)} {st st' : ConditionState}
    (h : pairs.foldlM n.emitReference st = .ok st') :
    (w, d) ∈ st'.done ↔ (w, d) ∈ pairs ∨ (w, d) ∈ st.done := by
  induction pairs generalizing st with
  | nil =>
    cases h
    simp
  | cons ref pairs ih =>
    rw [List.foldlM_cons, bind_eq_ok] at h
    obtain ⟨mid, hstep, hrest⟩ := h
    rw [Network.emitReference, bind_eq_ok] at hstep
    obtain ⟨_, -, hstep⟩ := hstep
    rw [ih hrest, emitCondition_done hstep, List.mem_cons, or_left_comm, or_assoc]

end Dualnet.Schema
