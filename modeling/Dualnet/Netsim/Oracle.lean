import Dualnet.Library.Search
import Dualnet.Netsim.Scenarios
import Dualnet.Schema.LinkEnds

/-!
# The oracle of the simulation

What a probe should see is decided by the routing semantics: the packet takes the first branch
whose conditions hold, where `dst_in` holds for the destination in the generated prefix files and
a healthcheck while the branch's gateway is not paused. The scenarios decide it by a rule of their
own, one branch at a time. `oracle_right_iff` says for which paths the two agree.
-/

namespace Dualnet.Netsim

open Library Text Schema
open Config (CondKind)

/-! ## The semantics -/

/-- A condition of a branch with this gateway holds for a destination while some nodes are paused;
a userspace path has conditions of these two kinds only. -/
def condHolds (net : Network) (paused : List String) (dst gateway cond : String) : Bool :=
  match condKind net cond with
  | some .dst => dst == iranDst
  | some .health => !paused.contains gateway
  | _ => true

/-- The conditions of a branch hold. -/
def holds (net : Network) (paused : List String) (dst : String) (br : Branch) : Bool :=
  br.when.all (condHolds net paused dst br.gateway)

/-- The branch a packet takes. -/
def chosen (net : Network) (p : Path) (paused : List String) (dst : String) : Option Branch :=
  p.routes.find? (holds net paused dst)

/-- The probe expects the address of the branch its packet takes. -/
def Expects (net : Network) (sp : SimPlan) (p : Path) (paused : List String) (probe : ProbeStep) :
    Prop :=
  ∃ br, chosen net p paused probe.dst = some br ∧ probe.expectSrc = branchEgressIP sp p.node br

/-- Every probe of some steps satisfies `judge`, given the nodes paused by the steps before. -/
def EachProbe (judge : List String → ProbeStep → Prop) : List String → List Step → Prop
  | _, [] => True
  | paused, .probe p :: rest => judge paused p ∧ EachProbe judge paused rest
  | paused, .pause t :: rest => EachProbe judge (t :: paused) rest
  | paused, .unpause t :: rest => EachProbe judge (paused.filter (· ≠ t)) rest
  | paused, .signal _ _ :: rest => EachProbe judge paused rest
  | paused, .appendFile _ _ _ :: rest => EachProbe judge paused rest
  | paused, .sleep _ :: rest => EachProbe judge paused rest

/-- Every probe of every routing and failover scenario of a path expects what the routing
semantics says. -/
def OracleRight (net : Network) (sp : SimPlan) (p : Path) : Prop :=
  ∀ sc ∈ pathScenarios net sp p, EachProbe (Expects net sp p) [] sc.steps

instance (net : Network) (sp : SimPlan) (p : Path) (paused : List String) (probe : ProbeStep) :
    Decidable (Expects net sp p paused probe) :=
  decidable_of_iff ((chosen net p paused probe.dst).any fun br =>
    probe.expectSrc == branchEgressIP sp p.node br) (by simp [Expects, Option.any_eq_true])

instance decideEachProbe (judge : List String → ProbeStep → Prop)
    [∀ paused probe, Decidable (judge paused probe)] :
    (paused : List String) → (steps : List Step) → Decidable (EachProbe judge paused steps)
  | _, [] => .isTrue trivial
  | paused, .probe p :: rest =>
    @instDecidableAnd _ _ (inferInstanceAs (Decidable (judge paused p)))
      (decideEachProbe judge paused rest)
  | paused, .pause t :: rest => decideEachProbe judge (t :: paused) rest
  | paused, .unpause t :: rest => decideEachProbe judge (paused.filter (· ≠ t)) rest
  | paused, .signal _ _ :: rest => decideEachProbe judge paused rest
  | paused, .appendFile _ _ _ :: rest => decideEachProbe judge paused rest
  | paused, .sleep _ :: rest => decideEachProbe judge paused rest

instance (net : Network) (sp : SimPlan) (p : Path) : Decidable (OracleRight net sp p) := by
  unfold OracleRight
  infer_instance

/-! ## When the oracle is right -/

/-- The scenario of branch `br`, which pauses `pause`, takes it that branch `b` is passed over. -/
def passedOver (net : Network) (pause : List String) (br b : Branch) : Bool :=
  (hasHealthcheck net b.when && pause.contains b.gateway) ||
    (usesDstInWhen net b.when && !usesDstInWhen net br.when)

/-- The scenario of the branch `br` after the branches `earlier` is right: the first branch that is
not passed over has the address of `br`; and if a gateway is paused for a branch that uses
`dst_in`, the first branch of the path has the address of its first branch that does. -/
structure ScenarioFits (net : Network) (sp : SimPlan) (p : Path) (earlier : List Branch)
    (br : Branch) : Prop where
  down : ∃ b, p.routes.find? (fun b => !passedOver net (pauseGWs net earlier) br b) = some b ∧
    branchEgressIP sp p.node br = branchEgressIP sp p.node b
  healed : pauseGWs net earlier ≠ [] → usesDstInWhen net br.when = true →
    ∃ geo first, p.routes.find? (fun b => usesDstInWhen net b.when) = some geo ∧
      p.routes.head? = some first ∧ branchEgressIP sp p.node geo = branchEgressIP sp p.node first

/-! ## Reading the scenarios -/

section Steps

variable {judge : List String → ProbeStep → Prop}

/-- Probes after some pauses. -/
theorem eachProbe_pauses (gws : List String) (paused : List String) (rest : List Step) :
    EachProbe judge paused (gws.map .pause ++ rest) ↔
      EachProbe judge (gws.reverse ++ paused) rest := by
  induction gws generalizing paused with
  | nil => rfl
  | cons gw gws ih =>
    rw [List.map_cons, List.cons_append, EachProbe, ih, List.reverse_cons, List.append_assoc]
    rfl

/-- Resuming every paused node leaves none paused. -/
theorem eachProbe_unpauses (gws : List String) (paused : List String)
    (h : ∀ t ∈ paused, t ∈ gws) (rest : List Step) :
    EachProbe judge paused (gws.map .unpause ++ rest) ↔ EachProbe judge [] rest := by
  induction gws generalizing paused with
  | nil =>
    obtain rfl : paused = [] := List.eq_nil_iff_forall_not_mem.mpr fun t ht => by cases h t ht
    rfl
  | cons gw gws ih =>
    rw [List.map_cons, List.cons_append, EachProbe]
    refine ih _ fun t ht => ?_
    obtain ⟨ht, hne⟩ := List.mem_filter.mp ht
    exact (List.mem_cons.mp (h t ht)).resolve_left (by simpa using hne)

end Steps

section Reading

variable {net : Network} {sp : SimPlan} {p : Path}

/-- Conditions hold together unless one is for another destination or the gateway is paused. -/
theorem all_condHolds (paused : List String) (dst gateway : String) (conds : List String) :
    conds.all (condHolds net paused dst gateway) =
      ((!usesDstInWhen net conds || dst == iranDst) &&
        (!hasHealthcheck net conds || !paused.contains gateway)) := by
  induction conds with
  | nil => rfl
  | cons c conds ih =>
    rw [List.all_cons, ih]
    simp only [usesDstInWhen, hasHealthcheck, List.any_cons, condHolds]
    cases condKind net c with
    | none => simp
    | some kind =>
      cases kind
      · cases dst == iranDst <;> simp [beq_eq_decide]
      · simp [beq_eq_decide]
      · cases paused.contains gateway <;> simp [beq_eq_decide]

/-- While `paused` are paused, a packet to the destination of `br` takes the first branch not passed
over. -/
theorem holds_probeDst (hworld : sp.worldDst = worldDst) (hiran : sp.iranDst = iranDst)
    (paused : List String) (br b : Branch) :
    holds net paused (probeDst net sp br) b = !passedOver net paused br b := by
  have hdst : (probeDst net sp br == iranDst) = usesDstInWhen net br.when := by
    rw [probeDst, hworld, hiran]
    cases usesDstInWhen net br.when <;> decide
  rw [holds, all_condHolds, hdst, passedOver]
  cases usesDstInWhen net b.when <;> cases hasHealthcheck net b.when <;>
    cases usesDstInWhen net br.when <;> cases paused.contains b.gateway <;> rfl

/-- The order in which nodes were paused does not matter. -/
theorem passedOver_reverse (pause : List String) (br b : Branch) :
    passedOver net pause.reverse br b = passedOver net pause br b := by
  rw [passedOver, passedOver, List.contains_reverse]

/-- Once all is healed, the probe for branch `br` is right unless `br` uses `dst_in`; then the
packet takes the first branch, and the probe expects the first that uses `dst_in`. -/
theorem healed_iff (hworld : sp.worldDst = worldDst) (hiran : sp.iranDst = iranDst) {br : Branch}
    (hbr : br ∈ p.routes) :
    Expects net sp p [] (probeFor net sp p.node (probeDst net sp br) (branchEgressIP sp p.node
        (p.routes.getD (firstHealthyBranch net p (probeDst net sp br)) { egress := "" }))
        false false) ↔
      (usesDstInWhen net br.when = true →
        ∃ geo first, p.routes.find? (fun b => usesDstInWhen net b.when) = some geo ∧
          p.routes.head? = some first ∧
          branchEgressIP sp p.node geo = branchEgressIP sp p.node first) := by
  have hholds : ∀ b, holds net [] (probeDst net sp br) b =
      (!usesDstInWhen net b.when || usesDstInWhen net br.when) := by
    intro b
    rw [holds_probeDst hworld hiran, passedOver]
    cases usesDstInWhen net b.when <;> cases usesDstInWhen net br.when <;> simp
  have hdst : (probeDst net sp br == iranDst) = usesDstInWhen net br.when := by
    rw [probeDst, hworld, hiran]
    cases usesDstInWhen net br.when <;> decide
  obtain ⟨restore, hrestore⟩ : ∃ restore, p.routes.find?
      (fun b => usesDstInWhen net b.when == usesDstInWhen net br.when) = some restore :=
    Option.isSome_iff_exists.mp (List.find?_isSome.mpr ⟨br, hbr, by simp⟩)
  have hfirst : p.routes.getD (firstHealthyBranch net p (probeDst net sp br)) { egress := "" } =
      restore := by
    rw [firstHealthyBranch, hdst]
    exact getD_findIdx? hrestore _ _
  have hchosen : chosen net p [] (probeDst net sp br) =
      p.routes.find? fun b => !usesDstInWhen net b.when || usesDstInWhen net br.when := by
    rw [chosen]
    congr 1
    exact funext hholds
  simp only [Expects, probeFor, hfirst, hchosen]
  cases huses : usesDstInWhen net br.when with
  | false =>
    -- the packet takes the branch the scenario expects
    rw [huses] at hrestore
    simp only [beq_false, Bool.or_false, Bool.false_eq_true, false_implies,
      iff_true] at hrestore ⊢
    exact ⟨restore, hrestore, rfl⟩
  | true =>
    have hhead : (p.routes.find? fun _ => true) = p.routes.head? := by
      cases p.routes <;> rfl
    rw [huses] at hrestore
    simp only [beq_true, Bool.or_true, true_implies] at hrestore ⊢
    rw [hhead]
    constructor
    · rintro ⟨first, hhead, heq⟩
      exact ⟨restore, first, hrestore, hhead, heq⟩
    · rintro ⟨geo, first, hgeo, hhead, heq⟩
      obtain rfl := Option.some.inj (hrestore.symm.trans hgeo)
      exact ⟨first, hhead, heq⟩

/-- What the scenario of branch `i` asks of its probes. -/
theorem branchScenario_right_iff (hworld : sp.worldDst = worldDst) (hiran : sp.iranDst = iranDst)
    {i : Nat} {br : Branch} (hbr : p.routes[i]? = some br) :
    EachProbe (Expects net sp p) [] (branchScenario net sp p br i).steps ↔
      ScenarioFits net sp p (p.routes.take i) br := by
  set pause := pauseGWs net (p.routes.take i) with hpause
  have hmem : br ∈ p.routes := List.mem_of_getElem? hbr
  -- the probe while the gateways are paused
  have hdown : ∀ paused, (∀ b, passedOver net paused br b = passedOver net pause br b) →
      ∀ probe : ProbeStep, probe.dst = probeDst net sp br →
        probe.expectSrc = branchEgressIP sp p.node br →
        (Expects net sp p paused probe ↔
          ∃ b, p.routes.find? (fun b => !passedOver net pause br b) = some b ∧
            branchEgressIP sp p.node br = branchEgressIP sp p.node b) := by
    intro paused hpaused probe hdst hexpect
    have hchosen : chosen net p paused probe.dst =
        p.routes.find? fun b => !passedOver net pause br b := by
      rw [chosen, hdst]
      congr 1
      funext b
      rw [holds_probeDst hworld hiran, hpaused]
    rw [Expects, hchosen, hexpect]
  unfold branchScenario
  dsimp only
  rw [← hpause]
  split
  · rename_i hempty
    have hnil : pause = [] := List.isEmpty_iff.mp hempty
    have hprobe := hdown [] (fun b => by rw [hnil])
      (probeFor net sp p.node (probeDst net sp br) (branchEgressIP sp p.node br) false true) rfl rfl
    simp only [routingScenario, EachProbe, and_true]
    rw [hprobe]
    exact ⟨fun h => ⟨h, fun hne => absurd hnil hne⟩, fun h => h.down⟩
  · rename_i hnonempty
    have hne : pause ≠ [] := fun h => hnonempty (List.isEmpty_iff.mpr h)
    simp only [failoverScenario, List.append_assoc]
    rw [eachProbe_pauses]
    simp only [List.cons_append, List.nil_append, EachProbe]
    rw [eachProbe_unpauses _ _ (fun t ht => by simpa using ht)]
    simp only [EachProbe, and_true]
    rw [hdown _ (fun b => by rw [List.append_nil, passedOver_reverse]) _ rfl rfl]
    rw [healed_iff hworld hiran hmem]
    exact ⟨fun h => ⟨h.1, fun _ => h.2⟩, fun h => ⟨h.down, h.healed hne⟩⟩

end Reading

/-- Whatever the order in which a run of `Plan` meets the maps, the oracle of its plan is right for
a path exactly if the scenario of each branch fits. -/
theorem oracle_right_iff {order : Orders} {keys : String → String × String} {net : Network}
    {opts : SimOptions} {plan : FullPlan} (hplan : fullPlan order keys net opts = .ok plan)
    (p : Path) :
    OracleRight net plan.toSimPlan p ↔
      ∀ i br, p.routes[i]? = some br →
        ScenarioFits net plan.toSimPlan p (p.routes.take i) br := by
  simp only [fullPlan, assemble, bind_eq_ok, pure_eq_ok] at hplan
  obtain ⟨nodes, -, _, -, _, -, _, -, _, -, _, -, rfl⟩ := hplan
  simp only [OracleRight, pathScenarios, List.forall_mem_map, Prod.forall,
    List.mk_mem_zipIdx_iff_getElem?]
  constructor
  · intro h i br hbr
    exact (branchScenario_right_iff rfl rfl hbr).mp (h br i hbr)
  · intro h br i hbr
    exact (branchScenario_right_iff rfl rfl hbr).mpr (h i br hbr)

/-- The order of branches the scenarios are written for, whatever the addresses: every earlier
branch is passed over, the branch itself is not, and where a gateway is paused for a branch that
uses `dst_in`, the first branch uses it too. -/
def aligned (net : Network) (p : Path) : Bool :=
  p.routes.zipIdx.all fun (br, i) =>
    let earlier := p.routes.take i
    let pause := pauseGWs net earlier
    earlier.all (passedOver net pause br) && !passedOver net pause br br &&
      (pause.isEmpty || !usesDstInWhen net br.when ||
        p.routes.head?.any fun first => usesDstInWhen net first.when)

/-- In that order all scenarios fit. -/
theorem scenarioFits_of_aligned {net : Network} {p : Path} (h : aligned net p = true) (sp : SimPlan)
    {i : Nat} {br : Branch} (hbr : p.routes[i]? = some br) :
    ScenarioFits net sp p (p.routes.take i) br := by
  have hi := List.all_eq_true.mp h (br, i) (List.mk_mem_zipIdx_iff_getElem?.mpr hbr)
  simp only [Bool.and_eq_true, List.all_eq_true, Bool.or_eq_true, Bool.not_eq_true',
    List.isEmpty_iff] at hi
  obtain ⟨⟨hearlier, hself⟩, hfirst⟩ := hi
  obtain ⟨hlt, hget⟩ := List.getElem?_eq_some_iff.mp hbr
  have hfind : ∀ q : Branch → Bool, (∀ b ∈ p.routes.take i, q b = false) → q br = true →
      p.routes.find? q = some br := by
    intro q hfront hq
    have hsplit : p.routes = p.routes.take i ++ br :: p.routes.drop (i + 1) := by
      rw [← hget, ← List.drop_eq_getElem_cons hlt, List.take_append_drop]
    rw [hsplit, List.find?_append, List.find?_eq_none.mpr fun b hb => by simp [hfront b hb],
      Option.none_or, List.find?_cons_of_pos hq]
  refine ⟨⟨br, hfind _ (fun b hb => by simp [hearlier b hb]) (by simp [hself]), rfl⟩,
    fun hpause huses => ?_⟩
  have hfirst := hfirst.resolve_left (by simp [hpause, huses])
  simp only [Option.any_eq_true] at hfirst
  obtain ⟨first, hhead, huse⟩ := hfirst
  cases hroutes : p.routes with
  | nil => simp [hroutes] at hhead
  | cons b rest =>
    obtain rfl : b = first := by simpa [hroutes] using hhead
    exact ⟨b, b, List.find?_cons_of_pos huse, rfl, rfl⟩

/-- A network that validates and is planned so that a check passes. -/
def plansTo (n : Network) (check : Network → SimPlan → Bool) : Bool :=
  n.validate.toOption.any fun m =>
    (fullPlan .inOrder namedKeys m {}).toOption.any fun plan => check m plan.toSimPlan

/-- What the check of an example says. -/
theorem plansTo_iff {n : Network} {check : Network → SimPlan → Bool} :
    plansTo n check = true ↔ ∃ m plan, n.validate = .ok m ∧
      fullPlan .inOrder namedKeys m {} = .ok plan ∧ check m plan.toSimPlan = true := by
  simp only [plansTo, any_toOption]
  constructor
  · rintro ⟨m, hm, plan, hplan, hcheck⟩
    exact ⟨m, plan, hm, hplan, hcheck⟩
  · rintro ⟨m, plan, hm, hplan, hcheck⟩
    exact ⟨m, hm, plan, hplan, hcheck⟩

/-- The leaf's network with an exit on the leaf itself, a list of domestic destinations and a
healthcheck of the way through the gateway. -/
def healthNetwork (routes : List Branch) : Network :=
  { leafNetwork "" with
    nodes := (leafNetwork "").nodes.modify "leaf" fun nd =>
      { nd with
        egresses := (∅ : FMap String Config.Egress).insert "b"
          { mode := "direct", extIface := "wlan0" } }
    conditions := (∅ : FMap String ConditionSpec).insert "alive"
        { healthcheck := some { path := "leaf" } }
      |>.insert "domestic" { dstIn := some { file := "domestic.txt" } }
    paths := [{ name := "leaf", node := "leaf", routes }] }

/-- The three ways of the leaf's traffic. -/
def whileAlive : Branch :=
  { when := ["alive"], egress := "a", up := ["leaf-up"], down := ["gw-leaf"] }
def whenDomestic : Branch := { when := ["domestic"], egress := "b" }
def otherwise : Branch := { egress := "b" }

/-- With the domestic destinations first, the oracle is right. -/
theorem oracle_right_domestic_first :
    ∃ m plan p, (healthNetwork [whenDomestic, whileAlive, otherwise]).validate = .ok m ∧
      fullPlan .inOrder namedKeys m {} = .ok plan ∧ p ∈ m.paths ∧
      (pathScenarios m plan.toSimPlan p).length = 3 ∧ OracleRight m plan.toSimPlan p := by
  have hcheck : plansTo (healthNetwork [whenDomestic, whileAlive, otherwise]) (fun m _ =>
      m.paths.any fun p => p.routes.length == 3 && aligned m p) = true := by
    decide +kernel
  obtain ⟨m, plan, hvalid, hplan, hcheck⟩ := plansTo_iff.mp hcheck
  simp only [List.any_eq_true, Bool.and_eq_true, beq_iff_eq] at hcheck
  obtain ⟨p, hp, hlength, haligned⟩ := hcheck
  refine ⟨m, plan, p, hvalid, hplan, hp, by simpa [pathScenarios] using hlength, ?_⟩
  exact (oracle_right_iff hplan p).mpr fun i br hbr => scenarioFits_of_aligned haligned _ hbr

/-- With the healthcheck first, the failover to the domestic branch ends with a probe of a domestic
destination that expects the leaf's own address, although all is well again and the packet leaves
through the gateway. -/
theorem healed_probe_wrong :
    ∃ m plan sp p gw geo sc,
      (healthNetwork [whileAlive, whenDomestic, otherwise]).validate = .ok m ∧
      fullPlan .inOrder namedKeys m {} = .ok plan ∧ plan.toSimPlan = sp ∧ p ∈ m.paths ∧ (m.node p.node).datapath ≠ "kernel" ∧
      p.routes[0]? = some gw ∧ gw.gateway = "gw" ∧ p.routes[1]? = some geo ∧ geo.gateway = "" ∧
      sc ∈ pathScenarios m sp p ∧ sc.name = "failover/leaf/egress-b" ∧
      sc.steps.getLast? = some (.probe (probeFor m sp p.node iranDst
        (branchEgressIP sp p.node geo) false false)) ∧
      chosen m p [] iranDst = some gw ∧ branchEgressIP sp p.node gw = "172.30.3.2" ∧
      branchEgressIP sp p.node geo = "172.30.4.2" ∧ ¬ OracleRight m sp p := by
  have hcheck : plansTo (healthNetwork [whileAlive, whenDomestic, otherwise]) (fun m sp =>
      m.paths.any fun p => (m.node p.node).datapath != "kernel" &&
        p.routes[0]?.any fun gw => p.routes[1]?.any fun geo =>
          (pathScenarios m sp p).any fun sc => sc.name == "failover/leaf/egress-b" &&
            decide (sc.steps.getLast? = some (.probe (probeFor m sp p.node iranDst
              (branchEgressIP sp p.node geo) false false))) && gw.gateway == "gw" &&
            geo.gateway == "" && holds m [] iranDst gw &&
            branchEgressIP sp p.node gw == "172.30.3.2" &&
            branchEgressIP sp p.node geo == "172.30.4.2" &&
            !decide (OracleRight m sp p)) = true := by
    decide +kernel
  obtain ⟨m, plan, hvalid, hplan, hcheck⟩ := plansTo_iff.mp hcheck
  simp only [List.any_eq_true, Bool.and_eq_true, bne_iff_ne, Option.any_eq_true, beq_iff_eq,
    decide_eq_true_eq, Bool.not_eq_true', decide_eq_false_iff_not] at hcheck
  obtain ⟨p, hp, huser, gw, hgw, geo, hgeo, sc, hsc,
    ⟨⟨⟨⟨⟨⟨hname, hlast⟩, hgateway⟩, hlocal⟩, hholds⟩, hgwIP⟩, hgeoIP⟩, hwrong⟩ := hcheck
  have hchosen : chosen m p [] iranDst = some gw := by
    rw [chosen]
    cases hroutes : p.routes with
    | nil => simp [hroutes] at hgw
    | cons b rest =>
      obtain rfl : b = gw := by simpa [hroutes] using hgw
      exact List.find?_cons_of_pos hholds
  exact ⟨m, plan, _, p, gw, geo, sc, hvalid, hplan, rfl, hp, huser, hgw, hgateway, hgeo, hlocal, hsc, hname,
    hlast, hchosen, hgwIP, hgeoIP, hwrong⟩

end Dualnet.Netsim
