import Dualnet.Kernel.Policy

/-!
# What `lower` emits

The plan of a policy in closed form, band by band: `lower_eq_ok`. The loops of `lower` only
append to the plan, so each is described by what it appends (`Extends`).
-/

namespace Dualnet.Kernel

open Library Text Netip Config

/-- A command that adds a route to the main table. -/
def MainCommand (argv : Argv) : Prop :=
  ∃ dst gw dev, argv = ["ip", "route", "add", dst] ++ nextHop gw dev

/-- A host route. -/
theorem mainCommand_hostRoute (u : UnderlayRoute) : MainCommand (hostRoute u) := ⟨_, _, _, rfl⟩

/-- An on-link route. -/
theorem mainCommand_onLinkRoute (cidr lan : String) : MainCommand (onLinkRoute cidr lan) :=
  ⟨cidr, "", lan, rfl⟩

/-- One plan extends another by the given commands. -/
structure Extends (p p' : Plan) (tables : List Nat) (tableRoutes rules : List Argv)
    (geo : List GeoBinding) : Prop where
  tables_eq : p'.tables = p.tables ++ tables
  tableRoutes_eq : p'.tableRoutes = p.tableRoutes ++ tableRoutes
  rules_eq : p'.rules = p.rules ++ rules
  geo_eq : p'.geo = p.geo ++ geo
  mainRoutes : (∀ a ∈ p.mainRoutes, MainCommand a) → ∀ a ∈ p'.mainRoutes, MainCommand a

/-- Nothing is added. -/
theorem Extends.refl (p : Plan) : Extends p p [] [] [] [] :=
  ⟨by simp, by simp, by simp, by simp, id⟩

/-- One addition after the other. -/
theorem Extends.trans {p q r : Plan} {t t' : List Nat} {tr tr' ru ru' : List Argv}
    {g g' : List GeoBinding} (h : Extends p q t tr ru g) (h' : Extends q r t' tr' ru' g') :
    Extends p r (t ++ t') (tr ++ tr') (ru ++ ru') (g ++ g') :=
  ⟨by rw [h'.tables_eq, h.tables_eq, List.append_assoc],
    by rw [h'.tableRoutes_eq, h.tableRoutes_eq, List.append_assoc],
    by rw [h'.rules_eq, h.rules_eq, List.append_assoc],
    by rw [h'.geo_eq, h.geo_eq, List.append_assoc], fun hp => h'.mainRoutes (h.mainRoutes hp)⟩

section Lower

variable {files : String → Except String String} {cfg : Node} {wans : String → Wan}

/-- Pinning an endpoint only adds a main route. -/
theorem pinEndpoint_eq_ok {st st' : EgressState} {ep : Option UnderlayRoute}
    (h : pinEndpoint st ep = .ok st') :
    st'.egTable = st.egTable ∧ Extends st.plan st'.plan [] [] [] [] := by
  unfold pinEndpoint at h
  split at h
  next =>
    cases h
    exact ⟨rfl, .refl _⟩
  next ep =>
    split at h
    next prev =>
      simp only [bind_eq_ok, reject_eq_ok, exists_const, pure_eq_ok] at h
      obtain ⟨-, rfl⟩ := h
      exact ⟨rfl, .refl _⟩
    next =>
      cases h
      refine ⟨rfl, by simp, by simp, by simp, by simp, ?_⟩
      intro hmain a ha
      rcases List.mem_append.mp ha with ha | ha
      · exact hmain a ha
      · rw [List.mem_singleton.mp ha]
        exact mainCommand_hostRoute ep

/-- The egress loop gives each egress the table of its position. -/
theorem lowerEgresses_eq_ok {names : List String} {i : Nat} {st st' : EgressState}
    (hnodup : names.Nodup)
    (h : (names.zipIdx i).foldlM (lowerEgress cfg wans) st = .ok st') :
    Extends st.plan st'.plan ((names.zipIdx i).map fun e => tableEgressBase + e.2)
      ((names.zipIdx i).map fun e => defaultRoute (wans e.1) (tableEgressBase + e.2)) [] [] ∧
    (∀ e ∈ names, st'.egTable.lookup e = some (tableEgressBase + i + names.idxOf e)) ∧
    ∀ e ∉ names, st'.egTable.lookup e = st.egTable.lookup e := by
  induction names generalizing i st with
  | nil =>
    rw [List.zipIdx_nil, List.foldlM_nil, pure_eq_ok] at h
    subst h
    exact ⟨.refl _, by simp, by simp⟩
  | cons name names ih =>
    rw [List.zipIdx_cons, List.foldlM_cons, bind_eq_ok] at h
    obtain ⟨next, hstep, hrest⟩ := h
    obtain ⟨hname, hnodup⟩ := List.nodup_cons.mp hnodup
    obtain ⟨htable, hpin⟩ := pinEndpoint_eq_ok hstep
    obtain ⟨hext, hin, hout⟩ := ih hnodup hrest
    refine ⟨?_, ?_, ?_⟩
    · have hfirst : Extends st.plan next.plan [tableEgressBase + i]
          [defaultRoute (wans name) (tableEgressBase + i)] [] [] :=
        ⟨by simpa using hpin.tables_eq, by simpa using hpin.tableRoutes_eq,
          by simpa using hpin.rules_eq, by simpa using hpin.geo_eq, hpin.mainRoutes⟩
      simpa using hfirst.trans hext
    · intro e he
      by_cases heq : e = name
      · subst heq
        rw [hout e hname, htable, FMap.lookup_insert_ite, if_pos rfl, List.idxOf_cons_self,
          Nat.add_zero]
      · rw [hin e ((List.mem_cons.mp he).resolve_left heq),
          List.idxOf_cons_ne _ (Ne.symm heq)]
        congr 1
        omega
    · intro e he
      obtain ⟨hne, hnotin⟩ := not_or.mp (List.mem_cons.not.mp he)
      rw [hout e hnotin, htable, FMap.lookup_insert_ite, if_neg hne]

/-- The source prefixes of a branch become rules of consecutive priorities. -/
theorem foldl_lowerLeg (table : Nat) (lan : String) (ips : List String) (st : BranchState) :
    Extends st.plan (ips.foldl (lowerLeg table lan) st).plan [] []
      ((ips.zipIdx st.srcPrio).map fun e => ruleFrom e.2 e.1 table) [] ∧
    (ips.foldl (lowerLeg table lan) st).srcPrio = st.srcPrio + ips.length ∧
    (ips.foldl (lowerLeg table lan) st).dstIdx = st.dstIdx := by
  induction ips generalizing st with
  | nil => exact ⟨.refl _, rfl, rfl⟩
  | cons ip ips ih =>
    obtain ⟨hext, hprio, hidx⟩ := ih (lowerLeg table lan st ip)
    have hfirst : Extends st.plan (lowerLeg table lan st ip).plan [] []
        [ruleFrom st.srcPrio ip table] [] := by
      refine ⟨by simp [lowerLeg], by simp [lowerLeg], rfl, by simp [lowerLeg], ?_⟩
      intro hmain a ha
      rcases List.mem_append.mp ha with ha | ha
      · exact hmain a ha
      · split at ha
        · rw [List.mem_singleton.mp ha]
          exact mainCommand_onLinkRoute ip lan
        · cases ha
    refine ⟨?_, ?_, hidx⟩
    · rw [List.foldl_cons, List.zipIdx_cons, List.map_cons]
      exact hfirst.trans hext
    · rw [List.foldl_cons, hprio, List.length_cons]
      simp only [lowerLeg]
      omega

/-- The set of the branch. -/
theorem Tests.branchSet_eq {field other : Condition → Option IPSet} {f : Forward} {s : IPSet}
    (h : Tests cfg field other f s) : branchSet cfg field f = some s := by
  obtain ⟨name, c, hwhen, hcond, -, hfield, -⟩ := h.named
  simp [branchSet, hwhen, hcond, hfield]

/-- The source prefixes of some branches, each with its branch's egress. -/
def srcLegs (files : String → Except String String) (cfg : Node) (fs : List Forward) :
    List (String × Prefix) :=
  fs.flatMap fun f => (legs files cfg f).map fun p => (f.egress, p)

/-- The rule of a source prefix at a priority. -/
def legRule (table : String → Nat) (e : (String × Prefix) × Nat) : Argv :=
  ruleFrom e.2 e.1.2.masked.toString (table e.1.1)

/-- The table of an egress, as the branch loop looks it up. -/
def tableOf (egTable : FMap String Nat) (egress : String) : Nat := (egTable.lookup egress).getD 0

variable {egTable : FMap String Nat} {lan : String}

/-- A source branch emits a rule for each of its prefixes. -/
theorem lowerBranch_src {f : Forward} {s : IPSet} {st st' : BranchState}
    (hf : Tests cfg Condition.srcIn Condition.dstIn f s)
    (h : lowerBranch files wans egTable (condByName cfg.conditions) lan st f = .ok st') :
    Extends st.plan st'.plan [] []
      (((srcLegs files cfg [f]).zipIdx st.srcPrio).map (legRule (tableOf egTable))) [] ∧
    st'.srcPrio = st.srcPrio + (srcLegs files cfg [f]).length ∧ st'.dstIdx = st.dstIdx := by
  have hset := hf.branchSet_eq
  obtain ⟨name, c, hwhen, -, hlookup, hsrc, -⟩ := hf.named
  simp only [lowerBranch, hwhen, hlookup, Option.bind_some, hsrc, bind_eq_ok, wrap_eq_ok,
    pure_eq_ok, readPrefixes_eq] at h
  obtain ⟨texts, htexts, rfl⟩ := h
  cases hps : prefixes files s with
  | error e => simp [hps, Except.map] at htexts
  | ok ps =>
    obtain rfl : ps.map (fun p => p.masked.toString) = texts := by
      simpa [hps, Except.map] using htexts
    have hlegs : srcLegs files cfg [f] = ps.map fun p => (f.egress, p) := by
      simp [srcLegs, legs, branchPrefixes, hset, hps, Except.toOption]
    have hloop := foldl_lowerLeg (tableOf egTable f.egress) lan
      (ps.map fun p => p.masked.toString) st
    simpa [hlegs, List.zipIdx_map, legRule, Function.comp_def, tableOf] using hloop

/-- The source branches emit their rules in order, from the next free priority on. -/
theorem lowerBranches_src {fs : List Forward} {st st' : BranchState}
    (hfs : ∀ f ∈ fs, ∃ s, Tests cfg Condition.srcIn Condition.dstIn f s)
    (h : fs.foldlM (lowerBranch files wans egTable (condByName cfg.conditions) lan) st = .ok st') :
    Extends st.plan st'.plan [] []
      (((srcLegs files cfg fs).zipIdx st.srcPrio).map (legRule (tableOf egTable))) [] ∧
    st'.dstIdx = st.dstIdx := by
  induction fs generalizing st with
  | nil =>
    rw [List.foldlM_nil, pure_eq_ok] at h
    subst h
    exact ⟨.refl _, rfl⟩
  | cons f fs ih =>
    rw [List.foldlM_cons, bind_eq_ok] at h
    obtain ⟨next, hstep, hrest⟩ := h
    obtain ⟨s, hf⟩ := hfs f (by simp)
    obtain ⟨hfirst, hprio, hidx⟩ := lowerBranch_src hf hstep
    obtain ⟨hext, hidx'⟩ := ih (fun g hg => hfs g (by simp [hg])) hrest
    refine ⟨?_, hidx'.trans hidx⟩
    have hlegs : srcLegs files cfg (f :: fs) = srcLegs files cfg [f] ++ srcLegs files cfg fs := by
      simp [srcLegs]
    rw [hlegs, List.zipIdx_append, List.map_append, ← hprio]
    simpa using hfirst.trans hext

/-- The geo table of a destination branch at a position. -/
def geoOf (cfg : Node) (wans : String → Wan) (e : Forward × Nat) : GeoBinding :=
  ⟨e.1.when.headD "", (branchSet cfg Condition.dstIn e.1).getD {}, tableGeoBase + e.2,
    wans e.1.egress⟩

/-- A destination branch emits one rule and one geo table. -/
theorem lowerBranch_dst {f : Forward} {s : IPSet} {st st' : BranchState}
    (hf : Tests cfg Condition.dstIn Condition.srcIn f s)
    (h : lowerBranch files wans egTable (condByName cfg.conditions) lan st f = .ok st') :
    Extends st.plan st'.plan [tableGeoBase + st.dstIdx] []
      [ruleLookup (prioDstBase + st.dstIdx) "" (tableGeoBase + st.dstIdx)]
      [geoOf cfg wans (f, st.dstIdx)] ∧ st'.dstIdx = st.dstIdx + 1 := by
  have hset := hf.branchSet_eq
  obtain ⟨name, c, hwhen, -, hlookup, hdst, hsrc⟩ := hf.named
  simp only [lowerBranch, hwhen, hlookup, Option.bind_some, hsrc, hdst, Except.ok.injEq] at h
  subst h
  exact ⟨⟨rfl, (List.append_nil _).symm, rfl, by simp [geoOf, hwhen, hset], id⟩, rfl⟩

/-- The destination branches emit one rule and one geo table each, in order. -/
theorem lowerBranches_dst {fs : List Forward} {st st' : BranchState}
    (hfs : ∀ f ∈ fs, ∃ s, Tests cfg Condition.dstIn Condition.srcIn f s)
    (h : fs.foldlM (lowerBranch files wans egTable (condByName cfg.conditions) lan) st = .ok st') :
    Extends st.plan st'.plan ((fs.zipIdx st.dstIdx).map fun e => tableGeoBase + e.2) []
      ((fs.zipIdx st.dstIdx).map fun e => ruleLookup (prioDstBase + e.2) "" (tableGeoBase + e.2))
      ((fs.zipIdx st.dstIdx).map (geoOf cfg wans)) := by
  induction fs generalizing st with
  | nil =>
    rw [List.foldlM_nil, pure_eq_ok] at h
    subst h
    exact .refl _
  | cons f fs ih =>
    rw [List.foldlM_cons, bind_eq_ok] at h
    obtain ⟨next, hstep, hrest⟩ := h
    obtain ⟨s, hf⟩ := hfs f (by simp)
    obtain ⟨hfirst, hidx⟩ := lowerBranch_dst hf hstep
    have hext := ih (fun g hg => hfs g (by simp [hg])) hrest
    rw [hidx] at hext
    simpa using hfirst.trans hext

/-- What a lowered policy is, band by band. -/
structure Lowered (files : String → Except String String) (cfg : Node) (wans : String → Wan)
    (b : Bands cfg) (plan : Plan) : Prop where
  rules : plan.rules = ruleMainSuppress prioMain ::
    (((srcLegs files cfg b.srcs).zipIdx prioSrcBase).map
        (legRule fun e => tableEgressBase + cfg.egresses.sortedKeys.idxOf e) ++
      (b.dsts.zipIdx.map fun e => ruleLookup (prioDstBase + e.2) "" (tableGeoBase + e.2)) ++
      [ruleLookup prioDefault "" (tableEgressBase + cfg.egresses.sortedKeys.idxOf b.last.egress)])
  tables : plan.tables = (cfg.egresses.sortedKeys.zipIdx.map fun e => tableEgressBase + e.2) ++
    b.dsts.zipIdx.map fun e => tableGeoBase + e.2
  tableRoutes : plan.tableRoutes = cfg.egresses.sortedKeys.zipIdx.map fun e =>
    defaultRoute (wans e.1) (tableEgressBase + e.2)
  mainRoutes : ∀ a ∈ plan.mainRoutes, MainCommand a
  geo : plan.geo = b.dsts.zipIdx.map (geoOf cfg wans)

/-- `lower` succeeds only with the plan of the bands. -/
theorem lower_eq_ok (b : Bands cfg) {plan : Plan} (h : lower files cfg wans = .ok plan) :
    Lowered files cfg wans b plan := by
  simp only [lower, bind_eq_ok, pure_eq_ok] at h
  obtain ⟨eg, hegress, st, hbranches, rfl⟩ := h
  obtain ⟨heg, hin, -⟩ := lowerEgresses_eq_ok (FMap.nodup_sortedKeys _) hegress
  have htable : ∀ e ∈ cfg.egresses.sortedKeys,
      tableOf eg.egTable e = tableEgressBase + cfg.egresses.sortedKeys.idxOf e := by
    intro e he
    rw [tableOf, hin e he]
    rfl
  rw [b.forward_eq, List.append_assoc, List.foldlM_append, bind_eq_ok] at hbranches
  obtain ⟨st₁, hsrcs, hbranches⟩ := hbranches
  rw [List.foldlM_append, bind_eq_ok] at hbranches
  obtain ⟨st₂, hdsts, hlast⟩ := hbranches
  obtain ⟨hsrc, hidx⟩ := lowerBranches_src b.src hsrcs
  have hdst := lowerBranches_dst b.dst hdsts
  rw [hidx] at hdst
  rw [List.foldlM_cons, bind_eq_ok] at hlast
  obtain ⟨_, hlast, hst⟩ := hlast
  rw [List.foldlM_nil, pure_eq_ok] at hst
  subst hst
  simp only [lowerBranch, b.last_when, Except.ok.injEq] at hlast
  subst hlast
  have hmain : Extends eg.plan { eg.plan with rules := eg.plan.rules ++ [ruleMainSuppress prioMain] }
      [] [] [ruleMainSuppress prioMain] [] := ⟨by simp, by simp, rfl, by simp, id⟩
  have hall := (heg.trans hmain).trans (hsrc.trans hdst)
  have hrules : ((srcLegs files cfg b.srcs).zipIdx prioSrcBase).map (legRule (tableOf eg.egTable)) =
      ((srcLegs files cfg b.srcs).zipIdx prioSrcBase).map
        (legRule fun e => tableEgressBase + cfg.egresses.sortedKeys.idxOf e) := by
    refine List.map_congr_left fun e he => ?_
    obtain ⟨f, hf, p, -, hp⟩ : ∃ f ∈ b.srcs, ∃ p ∈ legs files cfg f, (f.egress, p) = e.1 := by
      simpa [srcLegs] using List.fst_mem_of_mem_zipIdx he
    rw [legRule, legRule, ← hp, htable f.egress (b.known f (by simp [b.forward_eq, hf]))]
  have hdefault := htable b.last.egress (b.known b.last (by simp [b.forward_eq]))
  refine ⟨?_, by simpa using hall.tables_eq, by simpa using hall.tableRoutes_eq,
    hall.mainRoutes (by simp), by simpa using hall.geo_eq⟩
  have hsplit := hall.rules_eq
  rw [tableOf] at hdefault
  simp only [hdefault, hsplit, hrules]
  simp

end Lower

end Dualnet.Kernel
