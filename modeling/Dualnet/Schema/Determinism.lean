import Dualnet.Schema.References
import Dualnet.Schema.Reorder

/-!
# Compilation in any order

Two compilations of a network that iterate its maps in different orders agree up to the last loop
of `emitConditions`, which ranges over the conditions to add the healthchecks no rule refers to.
What that loop adds is a matter of the healthchecks alone, so only its order can differ:
`Reordered.compile`.
-/

namespace Dualnet.Schema

open Library Text

/-! ## Before and after the last loop -/

/-- `Compile` up to the last loop of `emitConditions`. -/
def Network.front (m : Network) : Except String (Network × ConditionState) := do
  let out := m.nodes.mapVals fun _ nd => m.baseConfig nd
  let out ← m.links.foldlM m.addLinkConnections out
  let n ← m.inferGateways m.linkMap
  let st ← n.paths.foldlM (n.derivePath n.linkMap) { out }
  let qualified ← n.qualifyRules st.pend st.refs
  let out ← emitRules st.out qualified.pend
  let conds ← qualified.refs.pairs.foldlM n.emitReference { out }
  pure (n, conds)

/-- The check at the end of `Compile`. -/
def validateAll (out : Configs) : Except String Unit :=
  out.entries.forM fun e =>
    wrap s!"netschema: generated config for {quote e.1} invalid: " e.2.validate

/-- The rest of `Compile`. -/
def Network.back (n : Network) (st : ConditionState) : Except String Configs := do
  let st ← n.conditions.entries.foldlM n.emitHealthcheck st
  let out := (st.out.mapVals n.sortRoutes).mapVals fun _ cn => cn.defaults
  validateAll out
  pure out

/-- Compilation is its two halves. -/
theorem compile_eq_front_back (m : Network) :
    m.compile = m.front >>= fun r => r.1.back r.2 := by
  simp only [Network.compile, Network.deriveRoutes, Network.emitConditions, Network.front,
    Network.back, validateAll, Refs.pairs, bind_assoc, pure_bind]

variable {m m' n n' : Network}

/-- Two runs of the first part agree. -/
theorem Reordered.front (h : Reordered m m') (hone : ∀ v, (m.node v).OneCapture) :
    Agree (fun r r' => Reordered r.1 r'.1 ∧ SameConditionState r.2 r'.2) m.front m'.front := by
  unfold Network.front
  dsimp only
  rw [← h.links, ← h.linkMap]
  refine (Agree.foldlM (fun l _ _ _ hout => h.addLinkConnections hout l) h.baseConfigs).bind ?_
  intro out out' hout
  refine (h.inferGateways _).bind ?_
  rintro n n' ⟨hn, hnodes⟩
  have hone : ∀ v, (n.node v).OneCapture := by
    intro v
    rw [Network.node, hnodes]
    exact hone v
  have hinit : SameDeriveState { out } { out := out' } := ⟨hout, rfl, rfl⟩
  rw [← hn.paths, ← hn.linkMap]
  refine (Agree.foldlM (fun p _ _ _ hst => hn.derivePath hone _ hst p) hinit).bind ?_
  rintro st st' ⟨hst, hpend, hrefs⟩
  rw [← hpend, ← hrefs, ← hn.qualifyRules]
  refine (Agree.of_eq rfl).bind ?_
  rintro q _ rfl
  refine (emitRules_agree hst _).bind fun out out' hout => ?_
  have hinit : SameConditionState { out } { out := out' } := ⟨hout, rfl⟩
  refine (Agree.foldlM (fun ref _ _ _ hst => hn.emitReference hone hst ref) hinit).bind ?_
  exact fun _ _ hconds => .pure ⟨hn, hconds⟩

/-- What the first part has emitted: of what is not a set to test packets by, the conditions the
branches name. -/
theorem front_eq_ok {r : Network × ConditionState} (h : m.front = .ok r) :
    m.inferGateways m.linkMap = .ok r.1 ∧
      ∀ v c, (r.1.condition c).dstIn = none → ((v, c) ∈ r.2.done ↔ r.1.Names v c) := by
  simp only [Network.front, Network.qualifyRules, bind_eq_ok, pure_eq_ok] at h
  obtain ⟨linked, -, n, hinfer, st, hpaths, q, hqualify, out, -, conds, hconds, rfl⟩ := h
  refine ⟨hinfer, fun v c hc => ?_⟩
  have hnone : ¬ Refs.Has ∅ v c := AList.notMem_empty c
  rw [emitReferences_done hconds, Refs.mem_pairs, qualifyRules_refs hc hqualify,
    derivePaths_refs hpaths, or_iff_left hnone, or_iff_left List.not_mem_nil]
  rfl

/-! ## The last loop -/

/-- The node a healthcheck is emitted on and what it is given, if its path can be probed. -/
def Network.probe (n : Network) (e : Σ _ : String, ConditionSpec) :
    Option (String × Config.Condition) :=
  e.2.healthcheck.bind fun hc => (n.gatewayBranch hc.path hc.gateway).toOption.map fun r =>
    (r.2, { name := e.1
            healthcheck := some ⟨r.1.up,
              if hc.tun = "" then ((n.node r.2).originTun).getD "" else hc.tun,
              n.pathReconnectLinks r.1 r.2⟩ })

/-- What the last loop gives node `v` for an entry, where `done` has been emitted before. -/
def Network.stray (n : Network) (done : List (String × String)) (v : String)
    (e : Σ _ : String, ConditionSpec) : Option Config.Condition :=
  (n.probe e).bind fun r =>
    if r.1 = v then if done.contains (v, e.1) then none else some r.2 else none

/-- What it gives node `v` for the entries `l`. -/
def Network.strays (n : Network) (done : List (String × String)) (v : String)
    (l : List (Σ _ : String, ConditionSpec)) : List Config.Condition :=
  l.filterMap (n.stray done v)

/-- A healthcheck is nothing else. -/
def Network.KindsApart (n : Network) : Prop :=
  ∀ e ∈ n.conditions.entries, e.2.healthcheck.isSome → e.2.dstIn = none ∧ e.2.srcIn = none

/-- Every healthcheck among some entries can be probed. -/
def Network.Probeable (n : Network) (l : List (Σ _ : String, ConditionSpec)) : Prop :=
  ∀ e ∈ l, e.2.healthcheck.isSome → (n.probe e).isSome

/-- Other conditions are passed over. -/
theorem emitHealthcheck_none {e : Σ _ : String, ConditionSpec} (h : e.2.healthcheck = none)
    (st : ConditionState) : n.emitHealthcheck st e = .ok st := by
  rw [Network.emitHealthcheck, h]

/-- A healthcheck without a probe is an error. -/
theorem emitHealthcheck_unprobed {e : Σ _ : String, ConditionSpec} (h : e.2.healthcheck.isSome)
    (hprobe : n.probe e = none) (st : ConditionState) :
    ∃ msg, n.emitHealthcheck st e = .error msg := by
  obtain ⟨hc, hhc⟩ := Option.isSome_iff_exists.mp h
  rw [Network.emitHealthcheck, hhc]
  cases hbranch : n.gatewayBranch hc.path hc.gateway with
  | error msg => simp [hbranch, wrap, bind, Except.bind]
  | ok r => simp [Network.probe, hhc, hbranch, Except.toOption] at hprobe

/-- One with a probe is placed unless it is there. -/
theorem emitHealthcheck_probed (hkinds : n.KindsApart) {e : Σ _ : String, ConditionSpec}
    (he : e ∈ n.conditions.entries) {v : String} {c : Config.Condition}
    (hprobe : n.probe e = some (v, c)) (st : ConditionState) :
    n.emitHealthcheck st e = .ok (if (v, e.1) ∈ st.done then st
      else { out := st.out.modify v (addCondition c), done := (v, e.1) :: st.done }) := by
  rw [Network.probe, Option.bind_eq_some_iff] at hprobe
  obtain ⟨hc, hhc, hprobe⟩ := hprobe
  obtain ⟨hdst, hsrc⟩ := hkinds e he (by simp [hhc])
  cases hbranch : n.gatewayBranch hc.path hc.gateway with
  | error msg => simp [hbranch, Except.toOption] at hprobe
  | ok r =>
    rw [hbranch] at hprobe
    cases hprobe
    have hemit : n.emitHealthcheck st e = n.emitCondition r.2 e.1 st := by
      rw [Network.emitHealthcheck, hhc]
      dsimp only
      rw [hbranch]
      rfl
    rw [hemit, Network.emitCondition]
    split
    · rfl
    · dsimp only
      rw [condition_eq_entry he, hdst, hsrc, hhc]
      dsimp only
      rw [hbranch]
      simp [wrap, reject, bind, Except.bind, pure, Except.pure]

/-- The last loop fails if a healthcheck cannot be probed. -/
theorem emitHealthchecks_error (hkinds : n.KindsApart) {l : List (Σ _ : String, ConditionSpec)}
    (hl : ∀ e ∈ l, e ∈ n.conditions.entries) (h : ¬ n.Probeable l) (st : ConditionState) :
    ∃ msg, l.foldlM n.emitHealthcheck st = .error msg := by
  induction l generalizing st with
  | nil => exact absurd (fun e he => absurd he List.not_mem_nil) h
  | cons e l ih =>
    rw [List.forall_mem_cons] at hl
    rw [List.foldlM_cons]
    have hrest : (e.2.healthcheck.isSome → (n.probe e).isSome) → ¬ n.Probeable l :=
      fun he hall => h (List.forall_mem_cons.mpr ⟨he, hall⟩)
    cases hhc : e.2.healthcheck with
    | none =>
      rw [emitHealthcheck_none hhc]
      exact ih hl.2 (hrest (by simp [hhc])) st
    | some hc => cases hprobe : n.probe e with
      | none =>
        obtain ⟨msg, hmsg⟩ := emitHealthcheck_unprobed (by simp [hhc]) hprobe st
        rw [hmsg]
        exact ⟨msg, rfl⟩
      | some r =>
        rw [emitHealthcheck_probed hkinds hl.1 hprobe]
        exact ih hl.2 (hrest (by simp [hprobe])) _

/-- A round that does not fail adds to every node what `stray` says, and emits nothing of another
name. -/
theorem emitHealthcheck_ok (hkinds : n.KindsApart) {e : Σ _ : String, ConditionSpec}
    (he : e ∈ n.conditions.entries) (h : e.2.healthcheck.isSome → (n.probe e).isSome)
    (st : ConditionState) :
    ∃ st', n.emitHealthcheck st e = .ok st' ∧
      (∀ v, st'.out.lookup v = (st.out.lookup v).map fun cn =>
        { cn with conditions := cn.conditions ++ (n.stray st.done v e).toList }) ∧
      ∀ v name, name ≠ e.1 → ((v, name) ∈ st'.done ↔ (v, name) ∈ st.done) := by
  cases hprobe : n.probe e with
  | none =>
    have hhc : e.2.healthcheck = none := by
      by_contra hne
      simp [hprobe, Option.isSome_iff_ne_none, hne] at h
    refine ⟨st, emitHealthcheck_none hhc st, fun v => ?_, fun _ _ _ => Iff.rfl⟩
    simp [Network.stray, hprobe]
  | some r =>
    refine ⟨_, emitHealthcheck_probed hkinds he hprobe st, fun v => ?_, fun v name hname => ?_⟩
    · by_cases hdone : (r.1, e.1) ∈ st.done
      · rw [if_pos hdone]
        by_cases hv : r.1 = v
        · subst hv
          simp [Network.stray, hprobe, hdone]
        · simp [Network.stray, hprobe, hv]
      · rw [if_neg hdone, FMap.lookup_modify]
        by_cases hv : r.1 = v
        · subst hv
          simp [Network.stray, hprobe, hdone, addCondition]
        · simp [Network.stray, hprobe, hv, Ne.symm hv]
    · split
      · exact Iff.rfl
      · simp [hname]

/-- Strays depend on what is done at their node. -/
theorem strays_congr {done done' : List (String × String)} {v : String}
    {l : List (Σ _ : String, ConditionSpec)}
    (h : ∀ e ∈ l, (v, e.1) ∈ done' ↔ (v, e.1) ∈ done) : n.strays done' v l = n.strays done v l :=
  List.filterMap_congr fun e he => by simp only [Network.stray, List.contains_iff_mem, h e he]

/-- Else it adds to every node the healthchecks that were not emitted before. -/
theorem emitHealthchecks_ok (hkinds : n.KindsApart) {l : List (Σ _ : String, ConditionSpec)}
    (hl : ∀ e ∈ l, e ∈ n.conditions.entries) (hnodup : (l.map Sigma.fst).Nodup)
    (h : n.Probeable l) (st : ConditionState) :
    ∃ st', l.foldlM n.emitHealthcheck st = .ok st' ∧
      ∀ v, st'.out.lookup v = (st.out.lookup v).map fun cn =>
        { cn with conditions := cn.conditions ++ n.strays st.done v l } := by
  induction l generalizing st with
  | nil => exact ⟨st, rfl, fun v => by simp [Network.strays]⟩
  | cons e l ih =>
    rw [List.forall_mem_cons] at hl
    rw [List.map_cons, List.nodup_cons] at hnodup
    obtain ⟨he, hrest⟩ := List.forall_mem_cons.mp h
    obtain ⟨mid, hmid, hadded, hdone⟩ := emitHealthcheck_ok hkinds hl.1 he st
    obtain ⟨st', hst', hout⟩ := ih hl.2 hnodup.2 hrest mid
    refine ⟨st', ?_, fun v => ?_⟩
    · rw [List.foldlM_cons, hmid]
      exact hst'
    · -- the names of the rest are others, so what the round emitted does not matter to them
      have hsame : n.strays mid.done v l = n.strays st.done v l := by
        refine strays_congr fun e' he' => hdone v e'.1 ?_
        intro heq
        exact hnodup.1 (heq ▸ List.mem_map_of_mem he')
      have hcons : n.strays st.done v (e :: l) =
          (n.stray st.done v e).toList ++ n.strays st.done v l := by
        rw [Network.strays, List.filterMap_cons]
        cases n.stray st.done v e <;> rfl
      rw [hout v, hadded v, hsame, hcons, Option.map_map]
      simp only [Function.comp_def, List.append_assoc]

/-! ## The end of the compilation -/

/-- The configuration a node ends with, given what the last loop adds. -/
def Network.finish (n : Network) (v : String) (strays : List Config.Condition)
    (cn : Config.Node) : Config.Node :=
  (n.sortRoutes v { cn with conditions := cn.conditions ++ strays }).defaults

/-- The last loop keeps configurations the same. -/
theorem SameConfig.finish {cn cn' : Config.Node} (h : SameConfig cn cn') (v : String)
    (strays : List Config.Condition) :
    SameConfig (n.finish v strays cn) (n.finish v strays cn') := by
  have hsorted : SameConfig (n.sortRoutes v { cn with conditions := cn.conditions ++ strays })
      (n.sortRoutes v { cn' with conditions := cn'.conditions ++ strays }) := by
    refine h.map
      (f := fun cn => n.sortRoutes v { cn with conditions := cn.conditions ++ strays }) ?_
    intro cn eg
    unfold Network.sortRoutes
    split <;> rfl
  refine ⟨?_, ?_⟩
  · unfold Network.finish
    rw [hsorted.fields]
    rfl
  · unfold Network.finish
    rw [hsorted.fields]
    exact hsorted.egresses.mapVals fun _ _ => rfl

/-- What the last loop adds stays where it was put. -/
theorem finish_eq (n : Network) (v : String) (strays : List Config.Condition) (cn : Config.Node) :
    n.finish v strays cn = { n.finish v [] cn with conditions := cn.conditions ++ strays } := by
  unfold Network.finish Network.sortRoutes
  split <;> rfl

/-- It adds the strays at the end. -/
@[simp] theorem finish_conditions (n : Network) (v : String) (strays : List Config.Condition)
    (cn : Config.Node) : (n.finish v strays cn).conditions = cn.conditions ++ strays := by
  rw [finish_eq]

/-- Strays in another order permute the conditions. -/
theorem SameConfig.finish_permuted {cn cn' : Config.Node} (h : SameConfig cn cn') (v : String)
    {strays strays' : List Config.Condition} (hstrays : strays.Perm strays') :
    (n.finish v strays cn).Permuted (n.finish v strays' cn') := by
  have hsame := h.finish (n := n) v []
  have hconditions : cn.conditions = cn'.conditions := by rw [h.fields]
  refine ⟨?_, ?_, ?_⟩
  · rw [finish_eq n v strays', finish_eq n v strays, hsame.fields]
  · rw [finish_conditions, finish_conditions, hconditions]
    exact hstrays.append_left _
  · rw [finish_eq n v strays', finish_eq n v strays]
    exact hsame.egresses

/-- Without a probe for every healthcheck, compilation fails. -/
theorem back_error (hkinds : n.KindsApart) (h : ¬ n.Probeable n.conditions.entries)
    (st : ConditionState) : ∃ msg, n.back st = .error msg := by
  obtain ⟨msg, hmsg⟩ := emitHealthchecks_error hkinds (fun _ he => he) h st
  rw [Network.back, hmsg]
  exact ⟨msg, rfl⟩

/-- Else the last loop and the check of the configurations remain. -/
theorem back_ok (hkinds : n.KindsApart) (h : n.Probeable n.conditions.entries)
    (st : ConditionState) :
    ∃ out, n.back st = (do validateAll out; pure out) ∧
      ∀ v, out.lookup v =
        (st.out.lookup v).map (n.finish v (n.strays st.done v n.conditions.entries)) := by
  obtain ⟨st', hst', hout⟩ :=
    emitHealthchecks_ok hkinds (fun _ he => he) n.conditions.nodupKeys h st
  refine ⟨(st'.out.mapVals n.sortRoutes).mapVals fun _ cn => cn.defaults, ?_, fun v => ?_⟩
  · rw [Network.back, hst']
    rfl
  · rw [FMap.lookup_mapVals, FMap.lookup_mapVals, hout v, Option.map_map, Option.map_map]
    rfl

/-- What the last loop leaves at each node. -/
theorem back_eq_ok (hkinds : n.KindsApart) {st : ConditionState} {out : Configs}
    (h : n.back st = .ok out) (v : String) : out.lookup v =
      (st.out.lookup v).map (n.finish v (n.strays st.done v n.conditions.entries)) := by
  by_cases hprobe : n.Probeable n.conditions.entries
  · obtain ⟨out', hback, hout⟩ := back_ok hkinds hprobe st
    rw [hback] at h
    simp only [bind_eq_ok, pure_eq_ok] at h
    obtain ⟨_, -, rfl⟩ := h
    exact hout v
  · obtain ⟨msg, hmsg⟩ := back_error hkinds hprobe st
    rw [hmsg] at h
    cases h

/-! ## Two orders -/

/-- The same configurations up to the order of their conditions. -/
def PermutedConfigs (out out' : Configs) : Prop :=
  ∀ v, Option.Rel Config.Node.Permuted (out.lookup v) (out'.lookup v)

/-- Every configuration is valid. -/
theorem validateAll_eq_ok {out : Configs} :
    validateAll out = .ok () ↔ ∀ v, ∀ cn ∈ out.lookup v, cn.validate = .ok () := by
  simp only [validateAll, forM_eq_ok, wrap_eq_ok, AList.mem_lookup_iff]
  exact ⟨fun h v cn hcn => h ⟨v, cn⟩ hcn, fun h e he => h e.1 e.2 he⟩

/-- Validation does not depend on the order of conditions. -/
theorem PermutedConfigs.validateAll {out out' : Configs} (h : PermutedConfigs out out') :
    Agree (fun _ _ => True) (validateAll out) (validateAll out') := by
  refine Agree.of_ok_iff ?_
  rw [validateAll_eq_ok, validateAll_eq_ok]
  refine forall_congr' fun v => ?_
  have hv := h v
  generalize out.lookup v = o at hv ⊢
  generalize out'.lookup v = o' at hv ⊢
  cases hv with
  | none => simp
  | some hcn => simpa using hcn.validate.ok_iff

section Reordered

variable (h : Reordered n n') (hone : ∀ v, (n.node v).OneCapture)

include h hone

/-- The probe of a condition. -/
theorem Reordered.probe (e : Σ _ : String, ConditionSpec) : n.probe e = n'.probe e := by
  simp only [Network.probe, Network.pathReconnectLinks, h.gatewayBranch, h.linkMap,
    fun v => (h.node v).originTun (hone v)]

/-- Whether all healthchecks have probes. -/
theorem Reordered.probeable :
    n.Probeable n.conditions.entries ↔ n'.Probeable n'.conditions.entries := by
  simp only [Network.Probeable, h.probe hone, h.conditions.mem_iff]

/-- The strays of a list of conditions. -/
theorem Reordered.strays (done : List (String × String)) (v : String) :
    n.strays done v = n'.strays done v := by
  funext l
  refine List.filterMap_congr fun e _ => ?_
  rw [Network.stray, Network.stray, h.probe hone]

omit hone in
/-- The strays in either order. -/
theorem Reordered.strays_perm (done : List (String × String)) (v : String) :
    (n.strays done v n.conditions.entries).Perm (n.strays done v n'.conditions.entries) :=
  h.conditions.filterMap _

/-- What the last loop does to a node. -/
theorem Reordered.finish (v : String) (strays : List Config.Condition) :
    n.finish v strays = n'.finish v strays := by
  funext cn
  simp only [Network.finish, Network.sortRoutes, (h.node v).originTun (hone v)]

/-- The ends of two runs agree up to the order of the conditions. -/
theorem Reordered.back (hkinds : n.KindsApart) {st st' : ConditionState}
    (hst : SameConditionState st st') : Agree PermutedConfigs (n.back st) (n'.back st') := by
  have hkinds' : n'.KindsApart := fun e he => hkinds e (h.conditions.mem_iff.mpr he)
  by_cases hprobe : n.Probeable n.conditions.entries
  · obtain ⟨out, hback, hout⟩ := back_ok hkinds hprobe st
    obtain ⟨out', hback', hout'⟩ := back_ok hkinds' ((h.probeable hone).mp hprobe) st'
    have hpermuted : PermutedConfigs out out' := by
      intro v
      rw [hout, hout', ← h.finish hone, ← h.strays hone, ← hst.2]
      exact optionRel_map (hst.1 v) fun _ _ hcn => hcn.finish_permuted v (h.strays_perm _ v)
    rw [hback, hback']
    exact hpermuted.validateAll.bind fun _ _ _ => .pure hpermuted
  · obtain ⟨msg, hmsg⟩ := back_error hkinds hprobe st
    obtain ⟨msg', hmsg'⟩ := back_error hkinds' (mt (h.probeable hone).mpr hprobe) st'
    rw [hmsg, hmsg']
    exact .error _ _

end Reordered

/-! ## Accepted networks -/

/-- A round of the connection loop counts the tuns that capture the default route. -/
theorem validateConn_captures {name : String} {nd : Node} {k k' : Nat}
    {e : Σ _ : String, Conn} (h : validateConn name nd k e = .ok k') :
    k' = k + ([e].filter captures).length := by
  simp only [validateConn, bind_eq_ok, reject_eq_ok, exists_const] at h
  obtain ⟨-, h⟩ := h
  split at h
  · rename_i htype
    simp only [bind_eq_ok, reject_eq_ok, exists_const, pure_eq_ok] at h
    simp [captures, Conn.isTun, htype, h.2.2]
  · split at h
    · rename_i htype
      simp only [bind_eq_ok, reject_eq_ok, exists_const, pure_eq_ok] at h
      rw [← h.2.2.2]
      cases hcapture : e.2.captureDefault <;> simp [captures, Conn.isTun, htype, hcapture]
    · cases h

/-- The loop counts the tuns that capture. -/
theorem validateConns_captures {name : String} {nd : Node} {l : List (Σ _ : String, Conn)}
    {k k' : Nat} (h : l.foldlM (validateConn name nd) k = .ok k') :
    k' = k + (l.filter captures).length := by
  induction l generalizing k with
  | nil =>
    cases h
    rfl
  | cons e l ih =>
    rw [List.foldlM_cons, bind_eq_ok] at h
    obtain ⟨mid, hstep, hrest⟩ := h
    have hmid := validateConn_captures hstep
    have hsplit : ((e :: l).filter captures).length =
        ([e].filter captures).length + (l.filter captures).length := by
      rw [← List.length_append, ← List.filter_append]
      rfl
    rw [ih hrest, hmid, hsplit, Nat.add_assoc]

/-- A validated node has one capturing tun at most. -/
theorem oneCapture_of_validate (h : n.validate = .ok m) (v : String) : (m.node v).OneCapture := by
  simp only [Network.validate, bind_eq_ok, reject_eq_ok, exists_const, pure_eq_ok] at h
  obtain ⟨-, _, hnodes, _, -, links, -, m', hinfer, _, -, _, -, _, -, _, -, _, -, rfl⟩ := h
  simp only [Network.inferGateways, bind_eq_ok, pure_eq_ok] at hinfer
  obtain ⟨paths, -, rfl⟩ := hinfer
  rw [forM_eq_ok] at hnodes
  rw [Network.node]
  cases hv : n.nodes.lookup v with
  | none => exact Nat.zero_le 1
  | some nd =>
    have hnd := hnodes ⟨v, nd⟩ (AList.mem_lookup_iff.mp hv)
    simp only [validateNode, bind_eq_ok, reject_eq_ok] at hnd
    obtain ⟨_, -, k, hk, hcount⟩ := hnd
    rw [validateConns_captures hk, Nat.zero_add, decide_eq_false_iff_not, not_lt] at hcount
    exact hcount

/-- A validated condition is of one kind. -/
theorem kindsApart_of_validate (h : n.validate = .ok m) : m.KindsApart := by
  simp only [Network.validate, bind_eq_ok, reject_eq_ok, exists_const, pure_eq_ok] at h
  obtain ⟨-, _, -, _, -, links, -, m', -, ⟨names, nodes⟩, -, kinds, hkinds, _, -, _, -, _, -,
    rfl⟩ := h
  intro e he hhc
  obtain ⟨c, c', hround⟩ := foldlM_steps hkinds he
  unfold validateCondition at hround
  split at hround
  · rename_i hhealth
    rw [hhealth] at hhc
    cases hhc
  · rename_i hhealth
    rw [hhealth] at hhc
    cases hhc
  · exact ⟨‹_›, ‹_›⟩
  · cases hround

/-- Two runs of `Compile` on an accepted network both fail, or return the same configurations up to
the order of their conditions. -/
theorem Reordered.compile (hvalid : n.validate = .ok m) (h : Reordered m m') :
    Agree PermutedConfigs m.compile m'.compile := by
  have hone := oneCapture_of_validate hvalid
  rw [compile_eq_front_back, compile_eq_front_back]
  refine (h.front hone).bind_of_ok ?_
  rintro ⟨n, st⟩ ⟨n', st'⟩ hfront - ⟨hn, hst⟩
  obtain rfl : m = n := Except.ok.inj
    ((inferGateways_idem (gateways_of_validate hvalid)).symm.trans (front_eq_ok hfront).1)
  exact hn.back hone (kindsApart_of_validate hvalid) hst

end Dualnet.Schema
