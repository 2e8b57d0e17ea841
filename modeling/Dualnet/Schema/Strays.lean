import Dualnet.Schema.Determinism
import Dualnet.Schema.LinkEnds

/-!
# Stray healthchecks

A healthcheck that no branch of its node's path names is emitted by the last loop of
`emitConditions`, in the order of the map. `compile_order_iff`: compilation depends on the order of
the maps exactly if it succeeds and some node has two of them.
-/

namespace Dualnet.Schema

open Library Text

variable {m m' n : Network}

/-- The condition is a healthcheck that probes a path of node `v`, and no branch of the node's path
names it. -/
def Network.Stray (n : Network) (v c : String) : Prop :=
  ∃ hc br, (n.condition c).healthcheck = some hc ∧
    n.gatewayBranch hc.path hc.gateway = .ok (br, v) ∧ ¬ n.Names v c

/-- What a probe is made of. -/
theorem probe_eq_some {e : Σ _ : String, ConditionSpec} {r : String × Config.Condition}
    (h : n.probe e = some r) : r.2.name = e.1 ∧
      ∃ hc br, e.2.healthcheck = some hc ∧ n.gatewayBranch hc.path hc.gateway = .ok (br, r.1) := by
  rw [Network.probe, Option.bind_eq_some_iff] at h
  obtain ⟨hc, hhc, h⟩ := h
  cases hbranch : n.gatewayBranch hc.path hc.gateway with
  | error msg => simp [hbranch, Except.toOption] at h
  | ok b =>
    rw [hbranch] at h
    cases h
    exact ⟨rfl, hc, b.1, hhc, hbranch⟩

/-- What a stray is. -/
theorem stray_eq_some {done : List (String × String)} {v : String}
    {e : Σ _ : String, ConditionSpec} {cond : Config.Condition} :
    n.stray done v e = some cond ↔ n.probe e = some (v, cond) ∧ (v, e.1) ∉ done := by
  simp only [Network.stray, Option.bind_eq_some_iff, List.contains_iff_mem]
  constructor
  · rintro ⟨⟨w, _⟩, hprobe, h⟩
    obtain ⟨rfl, h⟩ := Option.ite_none_right_eq_some.mp h
    obtain ⟨hnew, heq⟩ := Option.ite_none_left_eq_some.mp h
    cases heq
    exact ⟨hprobe, hnew⟩
  · rintro ⟨hprobe, hnew⟩
    exact ⟨_, hprobe, by rw [if_pos rfl, if_neg hnew]⟩

/-- The loop adds at most one condition of each name. -/
theorem strays_sublist (n : Network) (done : List (String × String)) (v : String)
    (l : List (Σ _ : String, ConditionSpec)) :
    ((n.strays done v l).map Config.Condition.name).Sublist (l.map Sigma.fst) := by
  induction l with
  | nil => exact .refl _
  | cons e l ih =>
    rw [Network.strays]
    cases hstray : n.stray done v e with
    | none =>
      rw [List.filterMap_cons_none hstray]
      exact ih.cons _
    | some cond =>
      rw [List.filterMap_cons_some hstray, List.map_cons, List.map_cons,
        (probe_eq_some (stray_eq_some.mp hstray).1).1]
      exact ih.cons_cons _

/-- Each stray is there once. -/
theorem nodup_strays (n : Network) (done : List (String × String)) (v : String) :
    ((n.strays done v n.conditions.entries).map Config.Condition.name).Nodup :=
  (strays_sublist n done v _).nodup n.conditions.nodupKeys

/-- The conditions of the last loop are the stray ones. -/
theorem mem_strays (hkinds : n.KindsApart) {done : List (String × String)} {v : String}
    (hdone : ∀ c, (n.condition c).dstIn = none → ((v, c) ∈ done ↔ n.Names v c)) {c : String} :
    c ∈ (n.strays done v n.conditions.entries).map Config.Condition.name ↔ n.Stray v c := by
  simp only [List.mem_map, Network.strays, List.mem_filterMap, stray_eq_some]
  constructor
  · rintro ⟨cond, ⟨e, he, hprobe, hnew⟩, rfl⟩
    obtain ⟨hname, hc, br, hhc, hbranch⟩ := probe_eq_some hprobe
    obtain ⟨hdst, -⟩ := hkinds e he (by simp [hhc])
    rw [← condition_eq_entry he] at hdst hhc
    dsimp only at hname
    rw [hname]
    exact ⟨hc, br, hhc, hbranch, mt (hdone e.1 hdst).mpr hnew⟩
  · rintro ⟨hc, br, hhc, hbranch, hnames⟩
    obtain ⟨e, he, rfl, hsome⟩ := exists_entry hhc
    obtain ⟨hdst, -⟩ := hkinds _ he (by simp [hsome])
    have hprobe : ∃ cond, n.probe e = some (v, cond) := by
      simp [Network.probe, hsome, hbranch, Except.toOption]
    obtain ⟨cond, hprobe⟩ := hprobe
    refine ⟨cond, ⟨_, he, hprobe, mt (hdone e.1 ?_).mp hnames⟩, (probe_eq_some hprobe).1⟩
    rw [condition_eq_entry he]
    exact hdst

/-- How two runs of `Compile` on an accepted network come to their results. -/
theorem Reordered.two_runs (hvalid : n.validate = .ok m) (h : Reordered m m') {out out' : Configs}
    (hok : m.compile = .ok out) (hok' : m'.compile = .ok out') :
    ∃ st st', SameConditionState st st' ∧
      (∀ v c, (m.condition c).dstIn = none → ((v, c) ∈ st.done ↔ m.Names v c)) ∧
      (∀ v, out.lookup v =
        (st.out.lookup v).map (m.finish v (m.strays st.done v m.conditions.entries))) ∧
      ∀ v, out'.lookup v =
        (st'.out.lookup v).map (m.finish v (m.strays st.done v m'.conditions.entries)) := by
  have hone := oneCapture_of_validate hvalid
  have hkinds := kindsApart_of_validate hvalid
  have hgateways := gateways_of_validate hvalid
  rw [compile_eq_front_back, bind_eq_ok] at hok hok'
  obtain ⟨⟨r, st⟩, hfront, hback⟩ := hok
  obtain ⟨⟨r', st'⟩, hfront', hback'⟩ := hok'
  -- both networks have their gateways already
  obtain ⟨hinfer, hdone⟩ := front_eq_ok hfront
  obtain rfl : m = r := Except.ok.inj ((inferGateways_idem hgateways).symm.trans hinfer)
  rw [h.paths, h.linkMap] at hgateways
  obtain rfl : m' = r' :=
    Except.ok.inj ((inferGateways_idem hgateways).symm.trans (front_eq_ok hfront').1)
  have hst := h.front hone
  rw [hfront, hfront'] at hst
  cases hst with
  | ok hst =>
    refine ⟨st, st', hst.2, hdone, back_eq_ok hkinds hback, fun v => ?_⟩
    rw [back_eq_ok (fun e he => hkinds e (h.conditions.mem_iff.mpr he)) hback' v,
      ← h.finish hone, ← h.strays hone, ← hst.2.2]

/-- A stray is one of the conditions. -/
theorem Network.Stray.mem_keys {v c : String} (h : n.Stray v c) : c ∈ n.conditions.keys := by
  obtain ⟨hc, br, hhc, -⟩ := h
  by_contra hmem
  rw [Network.condition, AList.lookup_eq_none.mpr hmem] at hhc
  cases hhc

/-- A stray healthcheck's node has a configuration. -/
theorem Network.Stray.lookup {v c : String} (h : m.Stray v c) (hvalid : n.validate = .ok m)
    {out : Configs} (hok : m.compile = .ok out) : ∃ cn, out.lookup v = some cn := by
  obtain ⟨hc, br, -, hbranch, -⟩ := h
  obtain ⟨p, hp, rfl⟩ : ∃ p ∈ m.paths, p.node = v := by
    unfold Network.gatewayBranch at hbranch
    split at hbranch
    · cases hbranch
    · rename_i p hp
      split at hbranch
      · cases hbranch
      · cases hbranch
        exact ⟨p, List.mem_of_find?_eq_some hp, rfl⟩
      · cases hbranch
  obtain ⟨nd, hnd⟩ := ((valid_of_validate hvalid).path_known p hp).2
  exact (accepted_of_compile hvalid hok).nodes _ nd hnd

/-! ## The order of the maps -/

/-- The network with its conditions in the opposite order. -/
def Network.reversed (m : Network) : Network := { m with conditions := m.conditions.reverse }

/-- The opposite order is an order. -/
theorem reordered_reversed (m : Network) : Reordered m m.reversed := by
  refine ⟨rfl, fun v => ?_, FMap.same_reverse _⟩
  show Option.Rel SameNode (m.nodes.lookup v) (m.nodes.lookup v)
  cases m.nodes.lookup v with
  | none => exact .none
  | some nd => exact .some (.refl nd)

/-- With at most one stray healthcheck at each node, the order does not matter. -/
theorem Reordered.same_of_one_stray (hvalid : n.validate = .ok m) (h : Reordered m m')
    (hstray : ∀ v c c', m.Stray v c → m.Stray v c' → c = c') :
    Agree SameConfigs m.compile m'.compile := by
  rcases (h.compile hvalid).both with ⟨e, e', herr, herr'⟩ | ⟨out, out', hok, hok', -⟩
  · rw [herr, herr']
    exact .error e e'
  · obtain ⟨st, st', hst, hdone, hout, hout'⟩ := h.two_runs hvalid hok hok'
    rw [hok, hok']
    refine .ok fun v => ?_
    have hlength : (m.strays st.done v m.conditions.entries).length ≤ 1 := by
      rw [← List.length_map Config.Condition.name,
        ← List.toFinset_card_of_nodup (nodup_strays m st.done v), Finset.card_le_one]
      intro c hc c' hc'
      rw [List.mem_toFinset, mem_strays (kindsApart_of_validate hvalid) (hdone v)] at hc hc'
      exact hstray v c c' hc hc'
    rw [hout, hout', ← perm_eq_of_length_le_one (h.strays_perm st.done v) hlength]
    exact optionRel_map (hst.1 v) fun _ _ hcn => hcn.finish v _

/-- If the order does not matter, no node has two stray healthchecks. -/
theorem one_stray_of_same (hvalid : n.validate = .ok m) {out : Configs}
    (hok : m.compile = .ok out) (h : Agree SameConfigs m.compile m.reversed.compile)
    {v c c' : String} (hc : m.Stray v c) (hc' : m.Stray v c') : c = c' := by
  rcases h.both with ⟨e, e', herr, -⟩ | ⟨_, out', hok₀, hok', hsame⟩
  · rw [hok] at herr
    cases herr
  obtain rfl := Except.ok.inj (hok₀.symm.trans hok)
  obtain ⟨st, st', hst, hdone, hout, hout'⟩ := (reordered_reversed m).two_runs hvalid hok hok'
  -- the two runs add the same conditions at `v`, one in the order opposite to the other
  have hreverse : (m.strays st.done v m.conditions.entries).reverse =
      m.strays st.done v m.conditions.entries := by
    obtain ⟨cn, hcn⟩ := hc.lookup hvalid hok
    have hv := hsame v
    rw [hout, hout'] at hv
    rw [hout, Option.map_eq_some_iff] at hcn
    obtain ⟨cn₀, hcn₀, -⟩ := hcn
    have hv₀ := hst.1 v
    rw [hcn₀] at hv hv₀
    generalize st'.out.lookup v = o at hv hv₀
    cases hv₀ with
    | some hcn₀' =>
      cases hv with
      | some hfinal =>
        have hconditions := hfinal.conditions
        rw [finish_conditions, finish_conditions, hcn₀'.conditions] at hconditions
        exact List.filterMap_reverse.symm.trans (List.append_cancel_left hconditions).symm
  have hlength := length_le_one_of_reverse (List.Nodup.of_map _ (nodup_strays m st.done v)) hreverse
  rw [← List.length_map Config.Condition.name,
    ← List.toFinset_card_of_nodup (nodup_strays m st.done v)] at hlength
  rw [← mem_strays (kindsApart_of_validate hvalid) (hdone v), ← List.mem_toFinset] at hc hc'
  exact Finset.card_le_one.mp hlength c hc c' hc'

/-- Runs of `Compile` that iterate the maps of an accepted network in any two orders agree exactly
if compilation fails or no node has two stray healthchecks. -/
theorem compile_order_iff (hvalid : n.validate = .ok m) :
    (∀ m₁ m₂, Reordered m m₁ → Reordered m m₂ → Agree SameConfigs m₁.compile m₂.compile) ↔
      (∃ msg, m.compile = .error msg) ∨ ∀ v c c', m.Stray v c → m.Stray v c' → c = c' := by
  constructor
  · intro h
    cases hok : m.compile with
    | error msg => exact .inl ⟨msg, rfl⟩
    | ok out =>
      exact .inr fun v c c' =>
        one_stray_of_same hvalid hok (h _ _ (.refl m) (reordered_reversed m))
  · intro h m₁ m₂ h₁ h₂
    have hsame : ∀ m', Reordered m m' → Agree SameConfigs m.compile m'.compile := by
      intro m' hm'
      rcases h with ⟨msg, herr⟩ | hstray
      · have hagree := hm'.compile hvalid
        rw [herr] at hagree ⊢
        generalize m'.compile = r at hagree ⊢
        cases hagree
        exact .error _ _
      · exact hm'.same_of_one_stray hvalid hstray
    have hsame₁ : Agree SameConfigs m₁.compile m.compile :=
      (hsame m₁ h₁).symm fun _ _ => SameConfigs.symm
    exact Agree.trans (R := SameConfigs) (fun _ _ _ => .trans) hsame₁ (hsame m₂ h₂)

/-- The leaf's network with a second tun on the leaf and a healthcheck of its path for each of some
tuns, which no branch names. -/
def probedNetwork (tuns : List String) : Network :=
  { leafNetwork "" with
    nodes := (leafNetwork "").nodes.modify "leaf" fun nd =>
      { nd with connections := nd.connections.insert "U" { type := "tun", ip := "10.0.0.3" } }
    conditions := tuns.foldl (fun conds tun =>
      conds.insert ("alive-" ++ tun) { healthcheck := some { path := "leaf", tun } }) ∅ }

/-- With one healthcheck the order does not matter. -/
theorem compile_order_one_probe : ∃ m out, (probedNetwork ["T"]).validate = .ok m ∧
    m.compile = .ok out ∧
    ∀ m₁ m₂, Reordered m m₁ → Reordered m m₂ → Agree SameConfigs m₁.compile m₂.compile := by
  have hcheck : (probedNetwork ["T"]).compilesTo (fun m _ => m.conditions.keys == ["alive-T"]) =
      true := by
    decide +kernel
  obtain ⟨m, out, hvalid, hcompile, hkeys⟩ := compilesTo_iff.mp hcheck
  have hone : ∀ v c, m.Stray v c → c = "alive-T" := by
    intro v c hc
    have hmem := hc.mem_keys
    rw [beq_iff_eq.mp hkeys] at hmem
    exact List.mem_singleton.mp hmem
  refine ⟨m, out, hvalid, hcompile, (compile_order_iff hvalid).mpr (.inr ?_)⟩
  intro v c c' hc hc'
  rw [hone v c hc, hone v c' hc']

/-- The conditions of a node, by name. -/
def conditionNames (out : Configs) (v : String) : List String :=
  ((out.lookup v).map fun cn => cn.conditions.map Config.Condition.name).getD []

/-- The names of the conditions. -/
theorem SameConfigs.conditionNames {out out' : Configs} (h : SameConfigs out out') (v : String) :
    conditionNames out v = conditionNames out' v := by
  have hv := h v
  unfold Schema.conditionNames
  generalize out.lookup v = o at hv ⊢
  generalize out'.lookup v = o' at hv ⊢
  cases hv with
  | none => rfl
  | some hcn => simp [hcn.conditions]

/-- With two, the leaf's conditions come in the order of the map. -/
theorem probes_in_map_order : ∃ m out out', (probedNetwork ["T", "U"]).validate = .ok m ∧
    Reordered m m.reversed ∧ m.compile = .ok out ∧ m.reversed.compile = .ok out' ∧
    conditionNames out "leaf" = ["alive-U", "alive-T"] ∧
    conditionNames out' "leaf" = ["alive-T", "alive-U"] ∧ ¬ SameConfigs out out' := by
  have hcheck : (probedNetwork ["T", "U"]).compilesTo (fun m out =>
      m.reversed.compile.toOption.any fun out' =>
        conditionNames out "leaf" == ["alive-U", "alive-T"] &&
        conditionNames out' "leaf" == ["alive-T", "alive-U"]) = true := by
    decide +kernel
  obtain ⟨m, out, hvalid, hcompile, hcheck⟩ := compilesTo_iff.mp hcheck
  obtain ⟨out', hcompile', hcheck⟩ := any_toOption.mp hcheck
  rw [Bool.and_eq_true, beq_iff_eq, beq_iff_eq] at hcheck
  obtain ⟨hnames, hnames'⟩ := hcheck
  refine ⟨m, out, out', hvalid, reordered_reversed m, hcompile, hcompile', hnames, hnames', ?_⟩
  intro hsame
  have heq := hsame.conditionNames "leaf"
  rw [hnames, hnames'] at heq
  exact absurd heq (by decide)

end Dualnet.Schema
