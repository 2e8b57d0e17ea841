import Dualnet.Library.KeepFirst
import Dualnet.Schema.Compile

/-!
# What a compiled network consists of

`compile_eq_ok` describes the configuration of each node of a compiled network: its
connections are its tuns and the ends of its links, and its routes are the rules the paths
derive for it, qualified, without repetition and sorted. The stages of `Compile` change one
part of a configuration each, so each is described by its effect on the `view` of a node.
-/

namespace Dualnet.Schema

open Library Text
open Config (Route Connection)

variable {n : Network}

/-- The parts of a configuration that forwarding and condition placement leave alone. -/
def view (cn : Config.Node) : String × String × List Connection × List Route :=
  (cn.psk, cn.datapath, cn.connections, cn.routes)

/-- Two stages agree on the views of all nodes. -/
def SameViews (out out' : Configs) : Prop :=
  ∀ v, (out'.lookup v).map view = (out.lookup v).map view

/-- Transitivity. -/
theorem SameViews.trans {out out' out'' : Configs} (h : SameViews out out')
    (h' : SameViews out' out'') : SameViews out out'' :=
  fun v => (h' v).trans (h v)

/-- A change that keeps the view of one node keeps all views. -/
theorem sameViews_modify (out : Configs) (v : String) {f : Config.Node → Config.Node}
    (hf : ∀ cn, view (f cn) = view cn) : SameViews out (out.modify v f) := by
  intro w
  rw [FMap.lookup_modify]
  cases out.lookup w with
  | none => rfl
  | some cn =>
    simp only [Option.map_some]
    split <;> simp [hf]

/-! ## Connections -/

/-- The connections a link adds to a node. -/
def Network.linkConnections (n : Network) (v : String) (l : Link) : List Connection :=
  (if v = l.dialer then [n.dialerConnection l] else []) ++
    if v = l.acceptor then [n.acceptorConnection l] else []

/-- A link adds its two connections. -/
theorem addLinkConnections_eq_ok {out out' : Configs} {l : Link}
    (h : n.addLinkConnections out l = .ok out') (v : String) :
    out'.lookup v = (out.lookup v).map fun cn =>
      { cn with connections := cn.connections ++ n.linkConnections v l } := by
  simp only [Network.addLinkConnections, bind_eq_ok, reject_eq_ok, exists_const, pure_eq_ok] at h
  obtain ⟨-, -, -, rfl⟩ := h
  rw [FMap.lookup_modify, FMap.lookup_modify]
  cases out.lookup v with
  | none => rfl
  | some cn =>
    simp only [Option.map_some, Network.linkConnections, addConnection]
    split <;> split <;> simp

/-- The link loop appends to each node the ends of its links, in order. -/
theorem addLinks_eq_ok {links : List Link} {out out' : Configs}
    (h : links.foldlM n.addLinkConnections out = .ok out') (v : String) :
    out'.lookup v = (out.lookup v).map fun cn =>
      { cn with connections := cn.connections ++ links.flatMap (n.linkConnections v) } := by
  induction links generalizing out with
  | nil =>
    rw [List.foldlM_nil, pure_eq_ok] at h
    subst h
    simp
  | cons l links ih =>
    rw [List.foldlM_cons, bind_eq_ok] at h
    obtain ⟨next, hstep, hrest⟩ := h
    rw [ih hrest, addLinkConnections_eq_ok hstep, Option.map_map]
    simp [Function.comp_def]

/-! ## Rules -/

/-- The rules derived for a userspace path; a kernel path has none. -/
def Network.pathRules (n : Network) (links : FMap String Link) (p : Path) :
    Except String (List PendingRule) :=
  if (n.node p.node).datapath = "kernel" then .ok []
  else do
    let rules ← p.routes.mapM (branchRules links p (((n.node p.node).originTun).getD ""))
    pure rules.flatten

/-- A path adds its rules. -/
theorem derivePath_eq_ok {links : FMap String Link} {st st' : DeriveState} {p : Path}
    (h : n.derivePath links st p = .ok st') :
    SameViews st.out st'.out ∧
      ∃ rules, n.pathRules links p = .ok rules ∧ st'.pend = st.pend ++ rules := by
  unfold Network.derivePath at h
  unfold Network.pathRules
  split at h
  case isTrue hkernel =>
    cases h
    exact ⟨sameViews_modify _ _ fun _ => rfl, [], by simp [hkernel], by simp⟩
  case isFalse hkernel =>
    simp only [bind_eq_ok, pure_eq_ok] at h
    obtain ⟨rules, hrules, rfl⟩ := h
    refine ⟨fun _ => rfl, rules.flatten, ?_, rfl⟩
    simp only [hkernel, if_false, bind_eq_ok, pure_eq_ok]
    exact ⟨rules, hrules, rfl⟩

/-- The path loop collects the rules of all paths, in order. -/
theorem derivePaths_eq_ok {links : FMap String Link} {paths : List Path} {st st' : DeriveState}
    (h : paths.foldlM (n.derivePath links) st = .ok st') :
    SameViews st.out st'.out ∧
      ∃ rules, paths.mapM (n.pathRules links) = .ok rules ∧
        st'.pend = st.pend ++ rules.flatten := by
  induction paths generalizing st with
  | nil =>
    rw [List.foldlM_nil, pure_eq_ok] at h
    subst h
    exact ⟨fun _ => rfl, [], rfl, by simp⟩
  | cons p paths ih =>
    rw [List.foldlM_cons, bind_eq_ok] at h
    obtain ⟨next, hstep, hrest⟩ := h
    obtain ⟨hviews, rules, hrules, hpend⟩ := derivePath_eq_ok hstep
    obtain ⟨hviews', rest, hrest, hpend'⟩ := ih hrest
    refine ⟨hviews.trans hviews', rules :: rest, ?_, ?_⟩
    · simp only [List.mapM_cons, bind_eq_ok, pure_eq_ok]
      exact ⟨rules, hrules, rest, hrest, rfl⟩
    · rw [hpend', hpend, List.flatten_cons, List.append_assoc]

/-- The rules downstream of the origin disagree at this rule's arrival point. -/
def Diverges (all : List PendingRule) (pr : PendingRule) : Prop :=
  pr.relay = true ∧ 2 ≤ (actionsAt all pr.arrival).length

instance (all : List PendingRule) (pr : PendingRule) : Decidable (Diverges all pr) :=
  inferInstanceAs (Decidable (_ ∧ _))

/-- The test `qualifyRules` makes. -/
theorem not_diverges_iff {all : List PendingRule} {pr : PendingRule} :
    (!pr.relay || decide ((actionsAt all pr.arrival).length < 2)) = true ↔ ¬ Diverges all pr := by
  simp only [Diverges, Bool.or_eq_true, Bool.not_eq_true', decide_eq_true_eq, not_and, not_le]
  cases pr.relay <;> simp

/-- The rule as `qualifyRules` leaves it. -/
def Network.qualified (n : Network) (all : List PendingRule) (pr : PendingRule) : PendingRule :=
  if Diverges all pr then { pr with route.on.conditions := n.restated pr } else pr

/-- What a round of `qualifyRules` requires and does. -/
theorem qualifyRule_eq_ok {all : List PendingRule} {st st' : QualifyState} {pr : PendingRule}
    (hpr : pr.relay = true → pr.route.on.conditions = []) (h : n.qualifyRule all st pr = .ok st') :
    st'.pend = st.pend ++ [n.qualified all pr] ∧
    (Diverges all pr → n.restated pr = [] →
      pr.when = [] ∧ st'.catchAll = pr.arrival :: st.catchAll) ∧
    (Diverges all pr → n.restated pr ≠ [] → pr.arrival ∉ st.catchAll) ∧
    st.catchAll ⊆ st'.catchAll := by
  unfold Network.qualifyRule at h
  split at h
  case isTrue hagrees =>
    have hnot := not_diverges_iff.mp hagrees
    cases h
    exact ⟨by simp [Network.qualified, hnot], fun hd => absurd hd hnot, fun hd => absurd hd hnot,
      fun _ => id⟩
  case isFalse hdiverges =>
    have hd : Diverges all pr := not_not.mp (not_diverges_iff.not.mp hdiverges)
    dsimp only at h
    split at h
    case isTrue hempty =>
      have hempty : n.restated pr = [] := List.isEmpty_iff.mp hempty
      simp only [bind_eq_ok, reject_eq_ok, exists_const, pure_eq_ok] at h
      obtain ⟨hwhen, rfl⟩ := h
      refine ⟨?_, fun _ _ => ⟨by simpa using hwhen, rfl⟩, fun _ hne => absurd hempty hne,
        List.subset_cons_self _ _⟩
      simp only [Network.qualified, hd, if_true, hempty]
      rw [← hpr hd.1]
    case isFalse hnonempty =>
      have hne : n.restated pr ≠ [] := fun h => hnonempty (List.isEmpty_iff.mpr h)
      simp only [bind_eq_ok, reject_eq_ok, exists_const, pure_eq_ok] at h
      obtain ⟨hfree, rfl⟩ := h
      exact ⟨by simp [Network.qualified, hd], fun _ hempty => absurd hempty hne,
        fun _ _ => by simpa using hfree, fun _ => id⟩

/-- What `qualifyRules` requires: a divergence is told apart by conditions that can be
restated, and nothing conditional comes after an unconditional rule at a divergence. -/
structure Qualifies (n : Network) (all : List PendingRule) (rest : List PendingRule) : Prop where
  restates : ∀ pr ∈ rest, Diverges all pr → n.restated pr = [] → pr.when = []
  default_last : rest.Pairwise fun a b => a.arrival = b.arrival → Diverges all a →
    Diverges all b → n.restated a = [] → n.restated b = []

/-- The qualification loop qualifies each rule in place. -/
theorem qualifyLoop_eq_ok {all rest : List PendingRule} {st st' : QualifyState}
    (hrest : ∀ pr ∈ rest, pr.relay = true → pr.route.on.conditions = [])
    (h : rest.foldlM (n.qualifyRule all) st = .ok st') :
    st'.pend = st.pend ++ rest.map (n.qualified all) ∧ Qualifies n all rest ∧
    ∀ pr ∈ rest, Diverges all pr → pr.arrival ∈ st.catchAll → n.restated pr = [] := by
  induction rest generalizing st with
  | nil =>
    rw [List.foldlM_nil, pure_eq_ok] at h
    subst h
    exact ⟨by simp, ⟨by simp, .nil⟩, by simp⟩
  | cons pr rest ih =>
    rw [List.foldlM_cons, bind_eq_ok] at h
    obtain ⟨next, hstep, htail⟩ := h
    obtain ⟨hpend, hdefault, hcond, hsub⟩ := qualifyRule_eq_ok (hrest pr (by simp)) hstep
    obtain ⟨hpend', hqual, hcaught⟩ := ih (fun q hq => hrest q (by simp [hq])) htail
    refine ⟨by rw [hpend', hpend, List.map_cons, List.append_assoc]; rfl, ⟨?_, ?_⟩, ?_⟩
    · exact List.forall_mem_cons.mpr ⟨fun hd he => (hdefault hd he).1, hqual.restates⟩
    · refine List.pairwise_cons.mpr ⟨fun q hq harr hd hdq hempty => ?_, hqual.default_last⟩
      refine hcaught q hq hdq ?_
      rw [(hdefault hd hempty).2, ← harr]
      exact List.mem_cons_self
    · refine List.forall_mem_cons.mpr ⟨fun hd hmem => ?_, fun q hq hdq hmem =>
        hcaught q hq hdq (hsub hmem)⟩
      by_contra hne
      exact hcond hd hne hmem

/-- The rules placed on a node: each once, by the text of its key. -/
def placed (pend : List PendingRule) (v : String) (seen : List String) : List Route :=
  keepFirst ruleKey seen ((pend.filter fun pr => pr.node = v).map (·.route))

/-- A rule is added unless it was seen. -/
theorem emitRule_eq_ok {st st' : EmitState} {pr : PendingRule} (h : emitRule st pr = .ok st') :
    if (pr.node, ruleKey pr.route) ∈ st.seen then st'.out = st.out ∧ st'.seen = st.seen
    else st'.out = st.out.modify pr.node (addRoute pr.route) ∧
      st'.seen = (pr.node, ruleKey pr.route) :: st.seen := by
  simp only [emitRule, bind_eq_ok, reject_eq_ok, exists_const] at h
  obtain ⟨-, h⟩ := h
  split at h <;> rename_i hseen <;> rw [pure_eq_ok] at h <;> subst h <;> simp [hseen]

/-- The texts of the rules placed on a node so far. -/
def seenAt (seen : List (String × String)) (v : String) : List String :=
  (seen.filter fun e => e.1 = v).map Prod.snd

/-- What was seen at a node. -/
theorem mem_seenAt {seen : List (String × String)} {v key : String} :
    key ∈ seenAt seen v ↔ (v, key) ∈ seen := by
  simp [seenAt]

/-- The placement loop appends to each node the rules for it whose texts are new. -/
theorem emitLoop_eq_ok {pend : List PendingRule} {st st' : EmitState}
    (h : pend.foldlM emitRule st = .ok st') (v : String) :
    st'.out.lookup v = (st.out.lookup v).map fun cn =>
      { cn with routes := cn.routes ++ placed pend v (seenAt st.seen v) } := by
  induction pend generalizing st with
  | nil =>
    rw [List.foldlM_nil, pure_eq_ok] at h
    subst h
    simp [placed, keepFirst]
  | cons pr pend ih =>
    rw [List.foldlM_cons, bind_eq_ok] at h
    obtain ⟨next, hstep, hrest⟩ := h
    have hnext := emitRule_eq_ok hstep
    rw [ih hrest]
    by_cases hv : pr.node = v
    · by_cases hseen : (pr.node, ruleKey pr.route) ∈ st.seen
      · rw [if_pos hseen] at hnext
        rw [hnext.1, hnext.2]
        have hkey : ruleKey pr.route ∈ seenAt st.seen v := mem_seenAt.mpr (hv ▸ hseen)
        simp [placed, hv, keepFirst, hkey]
      · rw [if_neg hseen] at hnext
        have hkey : ruleKey pr.route ∉ seenAt st.seen v := fun hmem =>
          hseen (hv ▸ mem_seenAt.mp hmem)
        have hseenAt : seenAt next.seen v = ruleKey pr.route :: seenAt st.seen v := by
          simp [hnext.2, seenAt, hv]
        rw [hnext.1, FMap.lookup_modify, Option.map_map, hseenAt]
        simp [placed, hv, keepFirst, hkey, addRoute, Function.comp_def]
    · have hseenAt : seenAt next.seen v = seenAt st.seen v := by
        split at hnext <;> simp [hnext.2, seenAt, hv]
      have hlookup : next.out.lookup v = st.out.lookup v := by
        split at hnext
        · rw [hnext.1]
        · rw [hnext.1, FMap.lookup_modify]
          simp [Ne.symm hv]
      rw [hlookup, hseenAt]
      simp [placed, hv]

/-! ## Conditions -/

/-- What node `v` carries for a condition of the schema: a set with its file relocated, or the
round trip over the branch that a healthcheck selects. -/
inductive Network.CarriedAt (n : Network) (v : String) : Config.Condition → Prop where
  | dst {cond : String} {set : Config.IPSet} (h : (n.condition cond).dstIn = some set) :
      n.CarriedAt v { name := cond, dstIn := some (n.relocateSet v set) }
  | src {cond : String} {set : Config.IPSet} (hdst : (n.condition cond).dstIn = none)
      (h : (n.condition cond).srcIn = some set) :
      n.CarriedAt v { name := cond, srcIn := some (n.relocateSet v set) }
  | health {cond : String} {hc : HealthcheckSpec} {br : Branch}
      (hdst : (n.condition cond).dstIn = none) (hsrc : (n.condition cond).srcIn = none)
      (h : (n.condition cond).healthcheck = some hc)
      (hbranch : n.gatewayBranch hc.path hc.gateway = .ok (br, v)) :
      n.CarriedAt v
        { name := cond
          healthcheck := some ⟨br.up,
            if hc.tun = "" then ((n.node v).originTun).getD "" else hc.tun,
            n.pathReconnectLinks br v⟩ }

/-- `emit` does nothing for a condition the node has, and gives it one it does not have. -/
theorem emitCondition_cases {node cond : String} {st st' : ConditionState}
    (h : n.emitCondition node cond st = .ok st') :
    ((node, cond) ∈ st.done ∧ st' = st) ∨
    ((node, cond) ∉ st.done ∧ ∃ c, c.name = cond ∧ n.CarriedAt node c ∧
      st' = { out := st.out.modify node (addCondition c), done := (node, cond) :: st.done }) := by
  unfold Network.emitCondition at h
  split at h
  case isTrue hdone =>
    cases h
    exact .inl ⟨hdone, rfl⟩
  case isFalse hnew =>
    refine .inr ⟨hnew, ?_⟩
    dsimp only at h
    split at h
    · cases h
      exact ⟨_, rfl, .dst ‹_›, rfl⟩
    · cases h
      exact ⟨_, rfl, .src ‹_› ‹_›, rfl⟩
    · simp only [bind_eq_ok, wrap_eq_ok, reject_eq_ok, exists_const, pure_eq_ok, Prod.exists] at h
      obtain ⟨br, tunNode, hbranch, hnode, rfl⟩ := h
      obtain rfl : node = tunNode := by simpa using hnode
      exact ⟨_, rfl, .health ‹_› ‹_› ‹_› hbranch, rfl⟩
    · cases h

/-- A condition adds no rule. -/
theorem emitCondition_eq_ok {node cond : String} {st st' : ConditionState}
    (h : n.emitCondition node cond st = .ok st') : SameViews st.out st'.out := by
  rcases emitCondition_cases h with ⟨-, rfl⟩ | ⟨-, c, -, -, rfl⟩
  · exact fun _ => rfl
  · exact sameViews_modify _ _ fun _ => rfl

/-- A healthcheck is passed over or emitted. -/
theorem emitHealthcheck_eq_ok {st st' : ConditionState} {e : Σ _ : String, ConditionSpec}
    (h : n.emitHealthcheck st e = .ok st') :
    (e.2.healthcheck = none ∧ st' = st) ∨
    ∃ hc br w, e.2.healthcheck = some hc ∧ n.gatewayBranch hc.path hc.gateway = .ok (br, w) ∧
      n.emitCondition w e.1 st = .ok st' := by
  unfold Network.emitHealthcheck at h
  split at h
  · cases h
    exact .inl ⟨‹_›, rfl⟩
  · simp only [bind_eq_ok, wrap_eq_ok, Prod.exists] at h
    obtain ⟨br, w, hbranch, h⟩ := h
    exact .inr ⟨_, br, w, ‹_›, hbranch, h⟩

/-- What `emit` keeps, the two condition loops keep. -/
theorem emitLoops_invariant {P : ConditionState → Prop}
    (hemit : ∀ node cond st st', n.emitCondition node cond st = .ok st' → P st → P st')
    {pairs : List (String × String)} {l : List (Σ _ : String, ConditionSpec)}
    {st mid st' : ConditionState} (hrefs : pairs.foldlM n.emitReference st = .ok mid)
    (hhealth : l.foldlM n.emitHealthcheck mid = .ok st') (hst : P st) : P st' := by
  have hmid : P mid := by
    refine foldlM_invariant P ?_ hrefs hst
    intro ref _ s s' hstep hs
    rw [Network.emitReference, bind_eq_ok] at hstep
    obtain ⟨_, -, hstep⟩ := hstep
    exact hemit _ _ _ _ hstep hs
  refine foldlM_invariant P ?_ hhealth hmid
  intro e _ s s' hstep hs
  rcases emitHealthcheck_eq_ok hstep with ⟨-, rfl⟩ | ⟨_, _, _, -, -, hstep⟩
  · exact hs
  · exact hemit _ _ _ _ hstep hs

/-- The condition loops leave the views of all nodes alone. -/
theorem emitConditions_eq_ok {out out' : Configs} {refs : Refs}
    (h : n.emitConditions out refs = .ok out') : SameViews out out' := by
  simp only [Network.emitConditions, bind_eq_ok, pure_eq_ok] at h
  obtain ⟨st, hrefs, st', hhealth, rfl⟩ := h
  exact emitLoops_invariant (P := fun s => SameViews out s.out)
    (fun _ _ _ _ hstep hs => hs.trans (emitCondition_eq_ok hstep)) hrefs hhealth fun _ => rfl

/-! ## The whole compilation -/

/-- The routes of a node after the final sort. -/
def Network.sorted (n : Network) (v : String) (routes : List Route) : List Route :=
  match (n.node v).originTun with
  | none => routes
  | some tun => tunFirst tun routes

/-- What the configuration `cn` of node `v` is, given the rules `pend` of the whole network. -/
structure NodeConfig (n : Network) (pend : List PendingRule) (v : String) (nd : Node)
    (cn : Config.Node) : Prop where
  psk : cn.psk = if nd.psk = "" then n.psk else nd.psk
  datapath : cn.datapath = if nd.datapath = "kernel" then "kernel" else ""
  connections : cn.connections =
    ((n.baseConfig nd).connections ++ n.links.flatMap (n.linkConnections v)).map
      Connection.defaults
  routes : cn.routes = n.sorted v (placed pend v [])
  valid : cn.validate = .ok ()

/-- What a compiled network consists of. -/
structure Compiled (m n : Network) (pend : List PendingRule) (out : Configs) : Prop where
  inferred : m.inferGateways m.linkMap = .ok n
  derived : ∃ rules, n.paths.mapM (n.pathRules n.linkMap) = .ok rules ∧ pend = rules.flatten
  qualifies : (∀ pr ∈ pend, pr.relay = true → pr.route.on.conditions = []) → Qualifies n pend pend
  nodes : ∀ v nd, n.nodes.lookup v = some nd → ∃ cn, out.lookup v = some cn
  configs : (∀ pr ∈ pend, pr.relay = true → pr.route.on.conditions = []) →
    ∀ v cn, out.lookup v = some cn →
      ∃ nd, n.nodes.lookup v = some nd ∧ NodeConfig n (pend.map (n.qualified pend)) v nd cn

/-- A successful compilation in its parts. -/
theorem compile_eq_ok {m : Network} {out : Configs} (h : m.compile = .ok out) :
    ∃ n pend, Compiled m n pend out := by
  simp only [Network.compile, Network.deriveRoutes, Network.qualifyRules, emitRules, bind_eq_ok,
    pure_eq_ok] at h
  obtain ⟨linked, hlinks, n, hinfer, _, ⟨st, hpaths, q, hqualify, _, ⟨emitted, hemit, rfl⟩, conds,
    hconds, rfl⟩, _, hvalid, rfl⟩ := h
  obtain ⟨hviews, rules, hrules, hpend⟩ := derivePaths_eq_ok hpaths
  have hpend : st.pend = rules.flatten := by simpa using hpend
  have hsame := emitConditions_eq_ok hconds
  have hinferred := hinfer
  simp only [Network.inferGateways, bind_eq_ok, pure_eq_ok] at hinfer
  obtain ⟨paths, -, rfl⟩ := hinfer
  -- a node's configuration, followed back through the stages
  have hstages : ∀ v, (conds.lookup v).map view = (m.nodes.lookup v).map fun nd =>
      view { m.baseConfig nd with
        connections := (m.baseConfig nd).connections ++ m.links.flatMap (m.linkConnections v)
        routes := placed q.pend v [] } := by
    intro v
    have hbase : linked.lookup v = (m.nodes.lookup v).map fun nd => { m.baseConfig nd with
        connections :=
          (m.baseConfig nd).connections ++ m.links.flatMap (m.linkConnections v) } := by
      rw [addLinks_eq_ok hlinks v, FMap.lookup_mapVals, Option.map_map]
      rfl
    have hviewed := hviews v
    rw [hbase] at hviewed
    rw [hsame v, emitLoop_eq_ok hemit v]
    cases hnd : m.nodes.lookup v with
    | none =>
      rw [hnd] at hviewed
      simp only [Option.map_none, Option.map_eq_none_iff] at hviewed
      simp [hviewed]
    | some nd =>
      rw [hnd, Option.map_some, Option.map_some, Option.map_eq_some_iff] at hviewed
      obtain ⟨c, hc, hview⟩ := hviewed
      simp only [view, Prod.mk.injEq] at hview
      obtain ⟨hpsk, hdatapath, hconnections, hroutes⟩ := hview
      simp [hc, view, hpsk, hdatapath, hconnections, hroutes, Network.baseConfig, seenAt]
  refine ⟨_, st.pend, hinferred, ⟨rules, hrules, hpend⟩, ?_, ?_, ?_⟩
  · intro hrelay
    exact (qualifyLoop_eq_ok hrelay hqualify).2.1
  · intro v nd hnd
    have hstage := hstages v
    rw [show m.nodes.lookup v = some nd from hnd, Option.map_some, Option.map_eq_some_iff] at hstage
    obtain ⟨c, hc, -⟩ := hstage
    exact ⟨_, by rw [FMap.lookup_mapVals, FMap.lookup_mapVals, hc]; rfl⟩
  · intro hrelay v cn hcn
    have hq : q.pend = st.pend.map (Network.qualified { m with paths } st.pend) := by
      simpa using (qualifyLoop_eq_ok hrelay hqualify).1
    have hvalid := forM_eq_ok.mp hvalid ⟨v, cn⟩ (AList.mem_lookup_iff.mp hcn)
    rw [FMap.lookup_mapVals, FMap.lookup_mapVals, Option.map_map, Option.map_eq_some_iff] at hcn
    obtain ⟨c, hc, rfl⟩ := hcn
    have hstage := hstages v
    rw [hc, Option.map_some, eq_comm, Option.map_eq_some_iff] at hstage
    obtain ⟨nd, hnd, hview⟩ := hstage
    simp only [view, Prod.mk.injEq] at hview
    obtain ⟨hpsk, hdatapath, hconnections, hroutes⟩ := hview
    refine ⟨nd, hnd, ?_⟩
    -- the sort touches the routes only, the defaults the connections and egresses only
    cases htun : (Network.node { m with paths } v).originTun with
    | none =>
      simp only [Function.comp_apply, Network.sortRoutes, htun] at hvalid ⊢
      exact ⟨hpsk.symm, hdatapath.symm, congrArg (List.map Connection.defaults) hconnections.symm,
        by rw [Network.sorted, htun, ← hq]; exact hroutes.symm, by simpa using hvalid⟩
    | some tun =>
      simp only [Function.comp_apply, Network.sortRoutes, htun] at hvalid ⊢
      exact ⟨hpsk.symm, hdatapath.symm, congrArg (List.map Connection.defaults) hconnections.symm,
        by rw [Network.sorted, htun, ← hq]; exact congrArg (tunFirst tun) hroutes.symm,
        by simpa using hvalid⟩

end Dualnet.Schema
