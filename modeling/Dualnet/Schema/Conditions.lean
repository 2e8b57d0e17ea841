import Dualnet.Schema.References
import Dualnet.Schema.UpLeg

/-!
# Each node has the conditions it needs

`emitConditions` gives a node the conditions noted for it while the rules were derived, and the
healthchecks of the paths that start there. `conditions_exact`: these are the conditions that the
node's rules and forwarding name, and those healthchecks, each once, if different rules of a node
have different texts.

`emitRules` leaves a rule out if another rule of its node has the same text, which joins the names
of its conditions by commas and its parts by bars. Its conditions stay on the node all the same.
-/

namespace Dualnet.Schema

open Library Text
open Config (Forward)

/-- The condition is a healthcheck of a path that starts at node `v`. -/
def Network.ProbedFrom (n : Network) (v c : String) : Prop :=
  ∃ hc ∈ (n.condition c).healthcheck, ∃ p ∈ n.paths, p.name = hc.path ∧ p.node = v

instance (n : Network) (v c : String) : Decidable (n.ProbedFrom v c) :=
  inferInstanceAs (Decidable (∃ hc ∈ (n.condition c).healthcheck, _))

/-- Node `v` has the conditions it needs. -/
structure ConditionsExact (m : Network) (v : String) (cn : Config.Node) : Prop where
  once : (cn.conditions.map Config.Condition.name).Nodup
  named : ∀ c, c ∈ cn.conditions.map Config.Condition.name ↔
    (∃ r ∈ cn.routes, c ∈ r.on.conditions) ∨ (∃ f ∈ cn.forward, c ∈ f.when) ∨ m.ProbedFrom v c
  carried : ∀ c ∈ cn.conditions, m.CarriedAt v c

variable {m n : Network} {out : Configs} {v w c d : String}

/-! ## Forwarding -/

/-- What the path of a kernel node has the node forward. -/
def Network.forwardOf (n : Network) (v : String) (p : Path) : List Forward :=
  if (n.node p.node).datapath = "kernel" then
    if p.node = v then p.routes.map fun br => ⟨br.when, br.egress⟩ else []
  else []

/-- What a node forwards. -/
def Network.forwardAt (n : Network) (v : String) : List Forward := n.paths.flatMap (n.forwardOf v)

/-- The conditions of a kernel path. -/
theorem exists_mem_forwardOf {p : Path} :
    (∃ f ∈ n.forwardOf v p, c ∈ f.when) ↔
      ¬ n.Userspace p ∧ p.node = v ∧ ∃ br ∈ p.routes, c ∈ br.when := by
  unfold Network.forwardOf Network.Userspace
  split
  case isTrue hkernel =>
    by_cases hv : p.node = v
    · subst hv
      simp [hkernel]
    · simp [hv]
  case isFalse hkernel => simp [hkernel]

/-- What of a node the condition loops start from. -/
def startOf (cn : Config.Node) : List Forward × List Config.Condition :=
  (cn.forward, cn.conditions)

/-- What a path leaves for the conditions. -/
theorem derivePath_start {links : FMap String Link} {st st' : DeriveState} {p : Path}
    (h : n.derivePath links st p = .ok st') (v : String) :
    (st'.out.lookup v).map startOf =
      (st.out.lookup v).map fun cn => (cn.forward ++ n.forwardOf v p, cn.conditions) := by
  unfold Network.derivePath at h
  unfold Network.forwardOf
  dsimp only at h
  split at h
  case isTrue hkernel =>
    cases h
    rw [if_pos hkernel, FMap.lookup_modify, Option.map_map]
    by_cases hv : p.node = v
    · simp [hv, startOf, Function.comp_def]
    · simp [hv, Ne.symm hv, startOf, Function.comp_def]
  case isFalse hkernel =>
    simp only [bind_eq_ok, pure_eq_ok] at h
    obtain ⟨_, -, rfl⟩ := h
    simp only [hkernel, if_false, List.append_nil]
    rfl

/-- What all paths leave for them. -/
theorem derivePaths_start {links : FMap String Link} {paths : List Path} {st st' : DeriveState}
    (h : paths.foldlM (n.derivePath links) st = .ok st') (v : String) :
    (st'.out.lookup v).map startOf = (st.out.lookup v).map fun cn =>
      (cn.forward ++ paths.flatMap (n.forwardOf v), cn.conditions) := by
  induction paths generalizing st with
  | nil =>
    cases h
    simp only [List.flatMap_nil, List.append_nil]
    rfl
  | cons p paths ih =>
    rw [List.foldlM_cons, bind_eq_ok] at h
    obtain ⟨mid, hstep, hrest⟩ := h
    have hmid := congrArg (Option.map (Prod.map (· ++ paths.flatMap (n.forwardOf v)) id))
      (derivePath_start hstep v)
    simp only [Option.map_map, Function.comp_def, startOf, Prod.map, List.append_assoc,
      id] at hmid
    rw [ih hrest, hmid, List.flatMap_cons]

/-! ## The condition loops -/

/-- What has been emitted: each condition of `done` once on its node, as the node needs it. What
the nodes forward is complete. -/
structure Emitted (n : Network) (st : ConditionState) : Prop where
  once : st.done.Nodup
  forward : ∀ v cn, st.out.lookup v = some cn → cn.forward = n.forwardAt v
  names : ∀ v cn, st.out.lookup v = some cn →
    cn.conditions.map Config.Condition.name = (seenAt st.done v).reverse
  carried : ∀ v cn, st.out.lookup v = some cn → ∀ c ∈ cn.conditions, n.CarriedAt v c

/-- Emitting a condition keeps this. -/
theorem Emitted.emitCondition {st st' : ConditionState} (hst : Emitted n st)
    (h : n.emitCondition v c st = .ok st') : Emitted n st' := by
  rcases emitCondition_cases h with ⟨-, rfl⟩ | ⟨hnew, cond, rfl, hcarried, rfl⟩
  · exact hst
  have hlookup : ∀ w cn, (st.out.modify v (addCondition cond)).lookup w = some cn →
      ∃ cn', st.out.lookup w = some cn' ∧ cn.forward = cn'.forward ∧
        cn.conditions = cn'.conditions ++ if w = v then [cond] else [] := by
    intro w cn hcn
    rw [FMap.lookup_modify, Option.map_eq_some_iff] at hcn
    obtain ⟨cn', hcn', rfl⟩ := hcn
    refine ⟨cn', hcn', ?_⟩
    split
    · exact ⟨rfl, rfl⟩
    · exact ⟨rfl, (List.append_nil _).symm⟩
  refine ⟨List.nodup_cons.mpr ⟨hnew, hst.once⟩, fun w cn hcn => ?_, fun w cn hcn => ?_,
    fun w cn hcn c hc => ?_⟩
  · obtain ⟨cn', hcn', hforward, -⟩ := hlookup w cn hcn
    exact hforward.trans (hst.forward w cn' hcn')
  · obtain ⟨cn', hcn', -, heq⟩ := hlookup w cn hcn
    rw [heq, List.map_append, hst.names w cn' hcn']
    by_cases hw : w = v
    · simp [seenAt, hw]
    · simp [seenAt, hw, Ne.symm hw]
  · obtain ⟨cn', hcn', -, heq⟩ := hlookup w cn hcn
    rw [heq, List.mem_append] at hc
    rcases hc with hc | hc
    · exact hst.carried w cn' hcn' c hc
    · split at hc
      · rename_i hw
        rw [List.mem_singleton.mp hc, hw]
        exact hcarried
      · cases hc

/-- The names on a node are those emitted there. -/
theorem Emitted.mem_names {st : ConditionState} (hst : Emitted n st) {cn : Config.Node}
    (hcn : st.out.lookup v = some cn) :
    c ∈ cn.conditions.map Config.Condition.name ↔ (v, c) ∈ st.done := by
  rw [hst.names v cn hcn, List.mem_reverse, mem_seenAt]

/-- Each condition is there once. -/
theorem Emitted.nodup_names {st : ConditionState} (hst : Emitted n st) {cn : Config.Node}
    (hcn : st.out.lookup v = some cn) : (cn.conditions.map Config.Condition.name).Nodup := by
  rw [hst.names v cn hcn, List.nodup_reverse, seenAt]
  refine (hst.once.filter _).map_on ?_
  rintro ⟨_, c⟩ hx ⟨_, d⟩ hy rfl
  simp only [List.mem_filter, decide_eq_true_eq] at hx hy
  rw [hx.2, hy.2]

/-- The healthchecks that are done. -/
theorem emitHealthchecks_done {l : List (Σ _ : String, ConditionSpec)} {st st' : ConditionState}
    (h : l.foldlM n.emitHealthcheck st = .ok st') :
    (w, d) ∈ st'.done ↔
      (∃ e ∈ l, e.1 = d ∧ ∃ hc br, e.2.healthcheck = some hc ∧
        n.gatewayBranch hc.path hc.gateway = .ok (br, w)) ∨ (w, d) ∈ st.done := by
  induction l generalizing st with
  | nil =>
    cases h
    simp
  | cons e l ih =>
    rw [List.foldlM_cons, bind_eq_ok] at h
    obtain ⟨mid, hstep, hrest⟩ := h
    rw [ih hrest, List.exists_mem_cons_iff, or_assoc, or_left_comm]
    refine or_congr_right ?_
    rcases emitHealthcheck_eq_ok hstep with ⟨hnone, rfl⟩ | ⟨hc, br, v, hsome, hbranch, hemit⟩
    · simp [hnone]
    · rw [emitCondition_done hemit, Prod.mk.injEq]
      refine or_congr_left ⟨?_, ?_⟩
      · rintro ⟨rfl, rfl⟩
        exact ⟨rfl, hc, br, hsome, hbranch⟩
      · rintro ⟨rfl, hc', br', hsome', hbranch'⟩
        obtain rfl := Option.some.inj (hsome.symm.trans hsome')
        cases hbranch.symm.trans hbranch'
        exact ⟨rfl, rfl⟩

/-! ## Healthchecks -/

/-- The branch a healthcheck selects is one of the first path of the name. -/
theorem gatewayBranch_eq_ok {name gateway : String} {br : Branch}
    (h : n.gatewayBranch name gateway = .ok (br, v)) :
    ∃ p, n.paths.find? (·.name == name) = some p ∧ p.node = v := by
  unfold Network.gatewayBranch at h
  split at h
  · cases h
  · rename_i p hp
    split at h
    · cases h
    · cases h
      exact ⟨p, hp, rfl⟩
    · cases h

/-- The header loop accepts one path of each name, but the empty one. -/
theorem validatePathHeaders_names {l : List Path} {st st' : List String × List String}
    (h : l.foldlM validatePathHeader st = .ok st') :
    l.Pairwise (fun p q => p.name = q.name → p.name = "") ∧
      (∀ p ∈ l, p.name ∈ st.1 → p.name = "") ∧ ∀ x ∈ st'.1, x ∈ st.1 ∨ x ≠ "" := by
  induction l generalizing st with
  | nil =>
    cases h
    exact ⟨.nil, by simp, fun _ => .inl⟩
  | cons p l ih =>
    rw [List.foldlM_cons, bind_eq_ok] at h
    obtain ⟨next, hstep, hrest⟩ := h
    simp only [validatePathHeader, bind_eq_ok, reject_eq_ok, exists_const, pure_eq_ok] at hstep
    obtain ⟨-, -, hnew, rfl⟩ := hstep
    obtain ⟨hpairs, hfresh, hnames⟩ := ih hrest
    have hnew : p.name ∈ st.1 → p.name = "" := by
      intro hmem
      simpa [hmem] using hnew
    dsimp only at hfresh hnames
    by_cases hempty : p.name = ""
    · rw [if_neg (not_not.mpr hempty)] at hfresh hnames
      exact ⟨List.pairwise_cons.mpr ⟨fun _ _ _ => hempty, hpairs⟩,
        List.forall_mem_cons.mpr ⟨hnew, hfresh⟩, hnames⟩
    · rw [if_pos hempty] at hfresh hnames
      refine ⟨List.pairwise_cons.mpr ⟨fun q hq hname => ?_, hpairs⟩,
        List.forall_mem_cons.mpr ⟨hnew, fun q hq hmem => hfresh q hq (.tail _ hmem)⟩,
        fun x hx => ?_⟩
      · rw [hname]
        exact hfresh q hq (hname ▸ List.mem_cons_self)
      · rcases hnames x hx with hmem | hne
        · rcases List.mem_cons.mp hmem with rfl | hmem
          · exact .inr hempty
          · exact .inl hmem
        · exact .inr hne

/-- A healthcheck of a valid network names one path. -/
theorem probed_path_unique (hvalid : n.validate = .ok m) {hc : HealthcheckSpec}
    (hhc : (m.condition c).healthcheck = some hc) {p q : Path} (hp : p ∈ m.paths)
    (hq : q ∈ m.paths) (hpname : p.name = hc.path) (hqname : q.name = hc.path) : p = q := by
  simp only [Network.validate, bind_eq_ok, reject_eq_ok, exists_const, pure_eq_ok] at hvalid
  obtain ⟨-, _, -, _, -, links, -, m', -, ⟨names, nodes⟩, hheaders, kinds, hkinds, _, -, _, -, _,
    -, rfl⟩ := hvalid
  obtain ⟨hpairs, -, hnames⟩ := validatePathHeaders_names hheaders
  obtain ⟨e, he, -, hsome⟩ := exists_entry hhc
  have hknown : hc.path ∈ names := by
    obtain ⟨c, c', hround⟩ := foldlM_steps hkinds he
    rw [validateCondition, hsome] at hround
    split at hround
    · cases ‹some hc = none›
    · cases ‹some hc = none›
    · cases ‹some hc = some _›
      simp only [bind_eq_ok, reject_eq_ok, exists_const] at hround
      simpa using hround.1
    · cases hround
  have hnonempty : hc.path ≠ "" := (hnames _ hknown).resolve_left List.not_mem_nil
  by_contra hne
  have : Std.Symm fun p q : Path => p.name = q.name → p.name = "" :=
    ⟨fun a b hab hname => hname ▸ hab hname.symm⟩
  exact hnonempty (hpname ▸ hpairs.forall hp hq hne (hpname.trans hqname.symm))

/-- The last loop emits the healthchecks of the paths that start at a node. -/
theorem probedFrom_iff (hvalid : n.validate = .ok m) {st st' : ConditionState}
    (h : m.conditions.entries.foldlM m.emitHealthcheck st = .ok st') :
    (∃ e ∈ m.conditions.entries, e.1 = c ∧ ∃ hc br, e.2.healthcheck = some hc ∧
      m.gatewayBranch hc.path hc.gateway = .ok (br, v)) ↔ m.ProbedFrom v c := by
  constructor
  · rintro ⟨e, he, rfl, hc, br, hhc, hbranch⟩
    obtain ⟨p, hfound, rfl⟩ := gatewayBranch_eq_ok hbranch
    refine ⟨hc, by rw [condition_eq_entry he]; exact hhc, p, List.mem_of_find?_eq_some hfound, ?_,
      rfl⟩
    simpa using List.find?_some hfound
  · rintro ⟨hc, hhc, p, hp, hname, rfl⟩
    obtain ⟨e, he, rfl, hsome⟩ := exists_entry hhc
    obtain ⟨st₁, st₂, hround⟩ := foldlM_steps h he
    rcases emitHealthcheck_eq_ok hround with ⟨hnone, -⟩ | ⟨hc', br, w, hsome', hbranch, -⟩
    · rw [hsome] at hnone
      cases hnone
    · obtain rfl := Option.some.inj (hsome.symm.trans hsome')
      obtain ⟨q, hfound, rfl⟩ := gatewayBranch_eq_ok hbranch
      have hqname : q.name = hc.path := by simpa using List.find?_some hfound
      obtain rfl := probed_path_unique hvalid hhc hp (List.mem_of_find?_eq_some hfound) hname hqname
      exact ⟨e, he, rfl, hc, br, hsome, hbranch⟩

/-! ## The conditions of an accepted network -/

/-- The first step of a branch has its conditions. -/
theorem exists_first_step (m : Network) (p : Path) (tun : String) (br : Branch) :
    ∃ s ∈ branchSteps m.linkMap p tun br, s.relay = false ∧ s.node = p.node ∧
      s.route.on.conditions = br.when := by
  by_cases hgateway : br.gateway = ""
  · refine ⟨localStep p tun br, List.mem_append_left _ ?_, rfl, rfl, rfl⟩
    simp [upSteps, hgateway]
  · exact ⟨originStep m.linkMap p tun br,
      List.mem_append_left _ ((mem_upSteps hgateway).mpr (.inl rfl)), rfl, rfl, rfl⟩

/-- What is noted for a node is what the rules it was to have and its forwarding name. -/
theorem Accepted.noted_iff (h : Accepted m out) :
    ((∃ s ∈ m.steps, Diverges m.steps s ∧ s.node = v ∧ c ∈ m.restated s) ∨ m.Names v c) ↔
      (∃ r ∈ m.stepRoutes v, c ∈ r.on.conditions) ∨ ∃ f ∈ m.forwardAt v, c ∈ f.when := by
  have hforward : (∃ f ∈ m.forwardAt v, c ∈ f.when) ↔
      ∃ p ∈ m.paths, ¬ m.Userspace p ∧ p.node = v ∧ ∃ br ∈ p.routes, c ∈ br.when := by
    simp only [Network.forwardAt, List.mem_flatMap, ← exists_mem_forwardOf]
    exact ⟨fun ⟨f, ⟨p, hp, hf⟩, hc⟩ => ⟨p, hp, f, hf, hc⟩,
      fun ⟨p, hp, f, hf, hc⟩ => ⟨f, ⟨p, hp, hf⟩, hc⟩⟩
  rw [hforward]
  constructor
  · rintro (⟨s, hs, hdiverges, rfl, hc⟩ | ⟨p, hp, rfl, br, hbr, hc⟩)
    · refine .inl ⟨_, mem_stepRoutes.mpr ⟨s, hs, rfl, rfl⟩, ?_⟩
      rw [Network.stepRoute, Network.qualified, if_pos hdiverges]
      exact hc
    · by_cases huser : m.Userspace p
      · obtain ⟨s, hs, hrelay, hnode, hwhen⟩ := exists_first_step m p (m.tunOf p) br
        have hs : s ∈ m.steps :=
          List.mem_flatMap.mpr ⟨p, hp, mem_pathSteps.mpr ⟨huser, br, hbr, hs⟩⟩
        refine .inl ⟨_, mem_stepRoutes.mpr ⟨s, hs, hnode, rfl⟩, ?_⟩
        rw [stepRoute_of_not_relay hrelay, hwhen]
        exact hc
      · exact .inr ⟨p, hp, huser, rfl, br, hbr, hc⟩
  · rintro (⟨r, hr, hc⟩ | ⟨p, hp, -, rfl, br, hbr, hc⟩)
    · obtain ⟨s, hs, rfl, rfl⟩ := mem_stepRoutes.mp hr
      obtain ⟨p, hp, hpath⟩ := List.mem_flatMap.mp hs
      obtain ⟨huser, br, hbr, hbranch⟩ := mem_pathSteps.mp hpath
      -- a condition stands on the branch's first rule, or was restated for a relay
      rcases h.step_kinds hp huser hbr hbranch with ⟨hrelay, hnode, hon⟩ | ⟨-, -, l, -, -, hon⟩ |
        ⟨hrelay, l, -, -, hon⟩
      · rw [stepRoute_of_not_relay hrelay, hon] at hc
        exact .inr ⟨p, hp, hnode.symm, br, hbr, hc⟩
      · unfold Network.stepRoute Network.qualified at hc
        split at hc
        · exact .inl ⟨s, hs, ‹_›, rfl, hc⟩
        · rw [hon] at hc
          cases hc
      · rw [stepRoute_of_not_relay hrelay, hon] at hc
        cases hc
    · exact .inr ⟨p, hp, rfl, br, hbr, hc⟩

/-- What the last two stages of the compilation leave on the nodes. -/
theorem compile_emitted (hvalid : n.validate = .ok m) (hcompile : m.compile = .ok out) :
    ∃ st, Emitted m st ∧
      (∀ v c, (v, c) ∈ st.done ↔ m.ProbedFrom v c ∨
        (∃ s ∈ m.steps, Diverges m.steps s ∧ s.node = v ∧ c ∈ m.restated s) ∨ m.Names v c) ∧
      ∀ v cn, out.lookup v = some cn → ∃ cn', st.out.lookup v = some cn' ∧
        cn.conditions = cn'.conditions ∧ cn.forward = cn'.forward := by
  have hgateways := gateways_of_validate hvalid
  simp only [Network.compile, Network.deriveRoutes, Network.qualifyRules, Network.emitConditions,
    emitRules, bind_eq_ok, pure_eq_ok] at hcompile
  obtain ⟨linked, hlinks, m', hinfer, _, ⟨st, hpaths, q, hqualify, _, ⟨placed, hplaced, rfl⟩, _,
    ⟨refd, hrefs, final, hhealth, rfl⟩, rfl⟩, _, -, rfl⟩ := hcompile
  obtain rfl := Except.ok.inj ((inferGateways_idem hgateways).symm.trans hinfer)
  obtain ⟨-, rules, hrules, hpend⟩ := derivePaths_eq_ok hpaths
  have hsteps : st.pend = m.steps := by
    rw [← pathRules_flatten hrules]
    simpa using hpend
  have hstart : Emitted m { out := placed.out } := by
    have hnode : ∀ v cn, placed.out.lookup v = some cn → startOf cn = (m.forwardAt v, []) := by
      intro v cn hcn
      rw [emitLoop_eq_ok hplaced v, Option.map_eq_some_iff] at hcn
      obtain ⟨cn', hcn', rfl⟩ := hcn
      have hderived := derivePaths_start hpaths v
      rw [hcn', addLinks_eq_ok hlinks v, FMap.lookup_mapVals, Option.map_map, Option.map_map,
        Option.map_some, eq_comm, Option.map_eq_some_iff] at hderived
      obtain ⟨nd, -, hderived⟩ := hderived
      exact hderived.symm
    refine ⟨.nil, fun v cn hcn => congrArg Prod.fst (hnode v cn hcn), fun v cn hcn => ?_,
      fun v cn hcn c hc => ?_⟩
    · rw [show cn.conditions = [] from congrArg Prod.snd (hnode v cn hcn)]
      rfl
    · rw [show cn.conditions = [] from congrArg Prod.snd (hnode v cn hcn)] at hc
      cases hc
  have hemitted : Emitted m final :=
    emitLoops_invariant (fun _ _ _ _ hstep hst => hst.emitCondition hstep) hrefs hhealth hstart
  refine ⟨final, hemitted, fun v c => ?_, fun v cn hcn => ?_⟩
  · have hnone : ¬ Refs.Has ∅ v c := AList.notMem_empty c
    rw [hsteps] at hqualify
    rw [emitHealthchecks_done hhealth, probedFrom_iff hvalid hhealth]
    refine or_congr_right ((emitReferences_done hrefs).trans ?_)
    rw [or_iff_left List.not_mem_nil]
    refine Refs.mem_pairs.trans ?_
    rw [qualifyLoop_refs hqualify, derivePaths_refs hpaths, or_iff_left hnone]
    rfl
  · rw [FMap.lookup_mapVals, FMap.lookup_mapVals, Option.map_map, Option.map_eq_some_iff] at hcn
    obtain ⟨cn', hcn', rfl⟩ := hcn
    refine ⟨cn', hcn', ?_⟩
    simp only [Function.comp_apply, Network.sortRoutes]
    split <;> exact ⟨rfl, rfl⟩

/-- A node has what its rules were to name, once, as it needs it. -/
theorem compile_conditions (hvalid : n.validate = .ok m) (hcompile : m.compile = .ok out)
    {cn : Config.Node} (hcn : out.lookup v = some cn) :
    (cn.conditions.map Config.Condition.name).Nodup ∧ cn.forward = m.forwardAt v ∧
    (∀ c ∈ cn.conditions, m.CarriedAt v c) ∧
    ∀ c, c ∈ cn.conditions.map Config.Condition.name ↔
      (∃ r ∈ m.stepRoutes v, c ∈ r.on.conditions) ∨ (∃ f ∈ cn.forward, c ∈ f.when) ∨
        m.ProbedFrom v c := by
  obtain ⟨st, hemitted, hdone, hnodes⟩ := compile_emitted hvalid hcompile
  obtain ⟨cn', hcn', hconditions, hforward⟩ := hnodes v cn hcn
  have hforward : cn.forward = m.forwardAt v := hforward.trans (hemitted.forward v cn' hcn')
  rw [hconditions]
  refine ⟨hemitted.nodup_names hcn', hforward, hemitted.carried v cn' hcn', fun c => ?_⟩
  rw [hemitted.mem_names hcn', hdone, (accepted_of_compile hvalid hcompile).noted_iff, hforward,
    or_comm, or_assoc]

/-- A rule with conditions is not left out where the rules of a node have texts of their own. -/
theorem Accepted.keeps_conditions (h : Accepted m out) (htexts : m.TextsApart false)
    {cn : Config.Node} (hcn : out.lookup v = some cn) {r : Config.Route} (hr : r ∈ m.stepRoutes v)
    (hc : c ∈ r.on.conditions) : r ∈ cn.routes := by
  have hflag : r.on.processed = some false := by
    obtain ⟨s, hs, rfl, rfl⟩ := mem_stepRoutes.mp hr
    obtain ⟨p, hp, hpath⟩ := List.mem_flatMap.mp hs
    obtain ⟨huser, br, hbr, hbranch⟩ := mem_pathSteps.mp hpath
    rw [stepRoute_processed]
    rcases h.step_kinds hp huser hbr hbranch with ⟨-, -, hon⟩ | ⟨-, -, l, -, -, hon⟩ |
      ⟨hrelay, l, -, -, hon⟩
    · rw [hon]
    · rw [hon]
    · rw [stepRoute_of_not_relay hrelay, hon] at hc
      cases hc
  obtain ⟨r', hr', hkey⟩ := h.exists_route hcn hr
  obtain ⟨s, hs, hnode, hroute⟩ := h.exists_step hcn hr'
  rw [htexts v r hr hflag r' (mem_stepRoutes.mpr ⟨s, hs, hnode, hroute⟩) hkey.symm]
  exact hr'

/-- Each node of a compiled network has exactly the conditions it needs, if the rules that the
branches call for have texts of their own. -/
theorem conditions_exact (hvalid : n.validate = .ok m) (hcompile : m.compile = .ok out)
    (htexts : m.TextsApart false) {cn : Config.Node} (hcn : out.lookup v = some cn) :
    ConditionsExact m v cn := by
  have h := accepted_of_compile hvalid hcompile
  obtain ⟨honce, -, hcarried, hnames⟩ := compile_conditions hvalid hcompile hcn
  refine ⟨honce, fun c => (hnames c).trans ⟨.imp_left ?_, .imp_left ?_⟩, hcarried⟩
  · rintro ⟨r, hr, hc⟩
    exact ⟨r, h.keeps_conditions htexts hcn hr hc, hc⟩
  · rintro ⟨r, hr, hc⟩
    obtain ⟨s, hs, hnode, hroute⟩ := h.exists_step hcn hr
    exact ⟨r, mem_stepRoutes.mpr ⟨s, hs, hnode, hroute⟩, hc⟩

/-- A leaf that sends what is on a list out by an egress of its own, for each of some lists and
egresses, and whose way to the gateway is probed. -/
def listedNetwork (branches : List (String × String)) : Network :=
  { leafNetwork "" with
    nodes := (leafNetwork "").nodes.modify "leaf" fun nd =>
      { nd with
        egresses := branches.foldl
          (fun egresses br => egresses.insert br.2 { mode := "kernel", extIface := "eth0" }) ∅ }
    conditions := branches.foldl
      (fun conds br => conds.insert br.1 { dstIn := some { list := ["10.9.0.0/16"] } })
      ((∅ : FMap String ConditionSpec).insert "alive" { healthcheck := some { path := "leaf" } })
    paths := [{ name := "leaf", node := "leaf",
                routes := branches.map (fun br => { when := [br.1], egress := br.2 }) ++
                  [{ egress := "a", up := ["leaf-up"], down := ["gw-leaf"] }] }] }

/-- With a list for each of two branches, all nodes have the conditions they need. -/
theorem conditions_exact_two_lists : ∃ m out cn,
    (listedNetwork [("a", "own"), ("b", "own")]).validate = .ok m ∧ m.compile = .ok out ∧
    out.lookup "leaf" = some cn ∧ ConditionsExact m "leaf" cn ∧
    cn.conditions.map Config.Condition.name = ["a", "b", "alive"] := by
  have hcheck : (listedNetwork [("a", "own"), ("b", "own")]).compilesTo (fun m out =>
      decide (m.TextsApart false) && (out.lookup "leaf").any fun cn =>
        cn.conditions.map Config.Condition.name == ["a", "b", "alive"]) = true := by
    decide +kernel
  obtain ⟨m, out, hvalid, hcompile, hm⟩ := compilesTo_iff.mp hcheck
  simp only [Bool.and_eq_true, decide_eq_true_eq, Option.any_eq_true, beq_iff_eq] at hm
  obtain ⟨htexts, cn, hcn, hnames⟩ := hm
  exact ⟨m, out, cn, hvalid, hcompile, hcn, conditions_exact hvalid hcompile htexts hcn, hnames⟩

/-- A branch for the list `c` with the egress `e|x` and one for the list `c|e` with the egress `x`
have rules of the same text. The second rule is left out, and the leaf has a condition that nothing
on it names. -/
theorem unnamed_conditions : ∃ m out cn,
    (listedNetwork [("c", "e|x"), ("c|e", "x")]).validate = .ok m ∧ m.compile = .ok out ∧
    out.lookup "leaf" = some cn ∧ ¬ ConditionsExact m "leaf" cn ∧
    cn.conditions.map Config.Condition.name = ["c", "c|e", "alive"] ∧
    cn.forward = [] ∧ cn.routes.flatMap (fun r => r.on.conditions) = ["c"] := by
  have hcheck : (listedNetwork [("c", "e|x"), ("c|e", "x")]).compilesTo (fun m out =>
      !decide (m.ProbedFrom "leaf" "c|e") && (out.lookup "leaf").any fun cn =>
        cn.conditions.map Config.Condition.name == ["c", "c|e", "alive"] &&
        cn.forward == [] && cn.routes.flatMap (fun r => r.on.conditions) == ["c"]) = true := by
    decide +kernel
  obtain ⟨m, out, hvalid, hcompile, hm⟩ := compilesTo_iff.mp hcheck
  simp only [Bool.and_eq_true, Bool.not_eq_true', decide_eq_false_iff_not, Option.any_eq_true,
    beq_iff_eq] at hm
  obtain ⟨hprobed, cn, hcn, ⟨hnames, hforward⟩, hroutes⟩ := hm
  refine ⟨m, out, cn, hvalid, hcompile, hcn, fun hexact => ?_, hnames, hforward, hroutes⟩
  have hmem : "c|e" ∈ cn.conditions.map Config.Condition.name := by simp [hnames]
  rcases (hexact.named "c|e").mp hmem with hrule | ⟨f, hf, -⟩ | hprobe
  · have hrule : "c|e" ∈ cn.routes.flatMap fun r => r.on.conditions := List.mem_flatMap.mpr hrule
    simp [hroutes] at hrule
  · rw [hforward] at hf
    cases hf
  · exact hprobed hprobe

end Dualnet.Schema
