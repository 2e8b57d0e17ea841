import Dualnet.Schema.LinkEnds

/-!
# Physically possible rules

A rule makes sense on a node that can receive packets on its source and can send on its target.
`routes_possible_iff`: this holds of every compiled rule, except for the rule of a gateway whose
branch has no down-links. That rule answers on the name of the origin's tun, which another node
may use for a tun of its own.
-/

namespace Dualnet.Schema

open Library Text
open Config (Route)

section Possible

variable (m : Network)

/-- Node `v` receives packets on `source`: its origin tun, or a link that delivers to it. -/
def Network.Receives (v source : String) : Prop :=
  (m.node v).originTun = some source ∨ ∃ l ∈ m.links, l.name = source ∧ targetOf l = v

/-- Node `v` sends packets of path `p` on `target`: a link it is the sender of, or its tun where
the path starts. -/
def Network.Sends (p : Path) (v target : String) : Prop :=
  ((m.node v).originTun = some target ∧ p.node = v) ∨
    ∃ l ∈ m.links, l.name = target ∧ senderOf l = v

instance (p : Path) (v target : String) : Decidable (m.Sends p v target) :=
  inferInstanceAs (Decidable (_ ∨ _))

/-- Path `p` calls for rule `r` on node `v`. -/
def Network.CallsFor (p : Path) (v : String) (r : Route) : Prop :=
  ∃ s ∈ m.pathSteps p, s.node = v ∧ m.stepRoute s = r

/-- A rule of node `v` is there for some path, and the node can follow it for each such path. -/
structure Possible (v : String) (r : Route) : Prop where
  flow : ∃ p ∈ m.paths, m.CallsFor p v r
  source : m.Receives v r.on.source
  target : ∀ p ∈ m.paths, m.CallsFor p v r → m.Sends p v r.action.target

/-- Every compiled rule is possible. -/
def RoutesPossible (out : Configs) : Prop :=
  ∀ v cn, out.lookup v = some cn → ∀ r ∈ cn.routes, Possible m v r

/-- A gateway that has no down-link to answer on is the origin itself, or it is the sender of a
link with the name of the origin's tun. -/
def Network.AnswersPossible : Prop :=
  ∀ p ∈ m.paths, m.Userspace p → ∀ br ∈ p.routes, br.gateway ≠ "" → br.down = [] →
    m.Sends p br.gateway (m.tunOf p)

instance : Decidable m.AnswersPossible :=
  inferInstanceAs (Decidable (∀ p ∈ m.paths, _))

/-- Of the rules the paths call for on one node, those for processed packets (or those for
unprocessed ones) share their texts with no other rule. -/
def Network.TextsApart (processed : Bool) : Prop :=
  ∀ v, ∀ r ∈ m.stepRoutes v, r.on.processed = some processed →
    ∀ r' ∈ m.stepRoutes v, ruleKey r = ruleKey r' → r = r'

/-- It is enough to compare the rules of the steps. -/
theorem Network.textsApart_iff {m : Network} {processed : Bool} :
    m.TextsApart processed ↔ ∀ s ∈ m.steps, s.route.on.processed = some processed →
      ∀ s' ∈ m.steps, s'.node = s.node → ruleKey (m.stepRoute s) = ruleKey (m.stepRoute s') →
        m.stepRoute s = m.stepRoute s' := by
  simp only [Network.TextsApart, mem_stepRoutes]
  constructor
  · intro h s hs hflag s' hs' hnode hkey
    exact h s.node _ ⟨s, hs, rfl, rfl⟩ (by simpa using hflag) _
      ⟨s', hs', hnode, rfl⟩ hkey
  · rintro h v _ ⟨s, hs, rfl, rfl⟩ hflag _ ⟨s', hs', hnode, rfl⟩ hkey
    exact h s hs (by simpa using hflag) s' hs' hnode hkey

instance (processed : Bool) : Decidable (m.TextsApart processed) :=
  decidable_of_iff _ Network.textsApart_iff.symm

end Possible

section Steps

variable {m : Network} {out : Configs} {p : Path} {br : Branch}

/-- A node can receive packets on the source of each of its steps. -/
theorem Accepted.step_receives (h : Accepted m out) (hp : p ∈ m.paths) (huser : m.Userspace p)
    (hbr : br ∈ p.routes) {s : PendingRule}
    (hs : s ∈ branchSteps m.linkMap p (m.tunOf p) br) : m.Receives s.node s.route.on.source := by
  rcases h.step_kinds hp huser hbr hs with ⟨-, hnode, hon⟩ | ⟨-, -, l, hl, hnode, hon⟩ |
    ⟨-, l, hl, hnode, hon⟩
  · exact .inl (by rw [hnode, hon]; exact h.originTun hp huser)
  · exact .inr ⟨l, h.up_mem hp huser hbr hl, by rw [hon], hnode.symm⟩
  · exact .inr ⟨l, h.down_mem hp huser hbr hl, by rw [hon], hnode.symm⟩

/-- A node can send on the target of each of its steps, except possibly where a gateway has no
down-link to answer on. -/
theorem Accepted.step_sends (h : Accepted m out) (hp : p ∈ m.paths) (huser : m.Userspace p)
    (hbr : br ∈ p.routes) {s : PendingRule}
    (hs : s ∈ branchSteps m.linkMap p (m.tunOf p) br) :
    m.Sends p s.node s.route.action.target ∨
      br.gateway ≠ "" ∧ br.down = [] ∧ s = gatewayStep m.linkMap p (m.tunOf p) br := by
  have htun := h.originTun hp huser
  rcases branchSteps_cases hs with ⟨-, rfl⟩ | ⟨hgateway, hs⟩
  · exact .inl (.inl ⟨htun, rfl⟩)
  have htrip := h.trips p hp huser br hbr hgateway
  obtain ⟨last, hlast, hgw, hfirst⟩ := h.gateway_links hp hbr hgateway
  rcases hs with rfl | ⟨e, he, rfl⟩ | rfl | ⟨e, he, rfl⟩ | ⟨l, hl, rfl⟩
  case inl =>
    -- leaving the tun on the first up-link
    refine .inl (.inr ⟨(linksOf m.linkMap br.up).headD {}, ?_, rfl, htrip.leaves⟩)
    cases hlinks : linksOf m.linkMap br.up with
    | nil => simp [hlinks] at hlast
    | cons l ls => exact h.up_mem hp huser hbr (by simp [hlinks])
  case inr.inl =>
    exact .inl (.inr ⟨e.2, h.up_mem hp huser hbr (mem_of_hops he).2, rfl, htrip.up e he⟩)
  case inr.inr.inl =>
    cases hlinks : linksOf m.linkMap br.down with
    | nil => exact .inr ⟨hgateway, by simpa [linksOf] using hlinks, rfl⟩
    | cons d ds =>
      refine .inl (.inr ⟨d, h.down_mem hp huser hbr (by simp [hlinks]), ?_,
        hfirst d (by simp [hlinks])⟩)
      simp [gatewayStep, rule, replyTarget, hlinks]
  case inr.inr.inr.inl =>
    exact .inl (.inr ⟨e.2, h.down_mem hp huser hbr (mem_of_hops he).2, rfl, htrip.down e he⟩)
  case inr.inr.inr.inr => exact .inl (.inl ⟨htun, rfl⟩)

/-- What a gateway without down-links answers on. -/
theorem gatewayStep_target (links : FMap String Link) (tun : String) (hdown : br.down = []) :
    (gatewayStep links p tun br).route.action.target = tun := by
  simp [gatewayStep, rule, replyTarget, linksOf, hdown]

end Steps

/-- Every compiled rule is possible where the gateways without down-links can answer. Conversely,
where the texts of the rules do not clash, all rules are possible only then. -/
theorem routes_possible_iff {n m : Network} {out : Configs} (hvalid : n.validate = .ok m)
    (hcompile : m.compile = .ok out) :
    (m.AnswersPossible → RoutesPossible m out) ∧
      (m.TextsApart false → (RoutesPossible m out ↔ m.AnswersPossible)) := by
  have h := accepted_of_compile hvalid hcompile
  have hsufficient : m.AnswersPossible → RoutesPossible m out := by
    intro hanswers v cn hcn r hr
    have hcalls : ∀ p ∈ m.paths, m.CallsFor p v r →
        m.Receives v r.on.source ∧ m.Sends p v r.action.target := by
      rintro p hp ⟨s, hs, rfl, rfl⟩
      obtain ⟨huser, br, hbr, hs⟩ := mem_pathSteps.mp hs
      rw [stepRoute_source, stepRoute_action]
      refine ⟨h.step_receives hp huser hbr hs, (h.step_sends hp huser hbr hs).elim id ?_⟩
      rintro ⟨hgateway, hdown, rfl⟩
      rw [gatewayStep_target _ _ hdown]
      exact hanswers p hp huser br hbr hgateway hdown
    obtain ⟨s, hs, hv, hroute⟩ := h.exists_step hcn hr
    obtain ⟨p, hp, hs⟩ := List.mem_flatMap.mp hs
    have hflow : m.CallsFor p v r := ⟨s, hs, hv, hroute⟩
    exact ⟨⟨p, hp, hflow⟩, (hcalls p hp hflow).1, fun q hq hq' => (hcalls q hq hq').2⟩
  refine ⟨hsufficient, fun hapart => ⟨fun hpossible => ?_, hsufficient⟩⟩
  intro p hp huser br hbr hgateway hdown
  -- the gateway's rule is among the compiled ones: a rule placed instead of it would have its text
  obtain ⟨last, hlast, hgw, -⟩ := h.gateway_links hp hbr hgateway
  have hlink := h.up_mem hp huser hbr (List.mem_of_getLast? hlast)
  obtain ⟨nd, cn, -, hcn, -⟩ := h.end_node hlink (targetOf_eq_or last)
  rw [hgw] at hcn
  have hstep : gatewayStep m.linkMap p (m.tunOf p) br ∈ m.pathSteps p :=
    mem_pathSteps.mpr ⟨huser, br, hbr, gatewayStep_mem hgateway⟩
  have hroute : m.stepRoute (gatewayStep m.linkMap p (m.tunOf p) br) ∈ m.stepRoutes br.gateway :=
    mem_stepRoutes.mpr ⟨_, List.mem_flatMap.mpr ⟨p, hp, hstep⟩, rfl, rfl⟩
  obtain ⟨r, hr, hkey⟩ := h.exists_route hcn hroute
  have hr' : r ∈ m.stepRoutes br.gateway := mem_stepRoutes.mpr (h.exists_step hcn hr)
  obtain rfl := hapart br.gateway _ hroute (by simp [gatewayStep, rule]) r hr'
    hkey.symm
  have hsends := (hpossible br.gateway cn hcn _ hr).target p hp ⟨_, hstep, rfl, rfl⟩
  rwa [stepRoute_action, gatewayStep_target _ _ hdown] at hsends

/-- All rules of the leaf's network are possible. -/
theorem routes_possible_leaf : ∃ m out, (leafNetwork "").validate = .ok m ∧
    m.compile = .ok out ∧ RoutesPossible m out := by
  have hcheck : (leafNetwork "").compilesTo (fun m _ => decide m.AnswersPossible) = true := by
    decide +kernel
  obtain ⟨m, out, hvalid, hcompile, hanswers⟩ := compilesTo_iff.mp hcheck
  exact ⟨m, out, hvalid, hcompile,
    (routes_possible_iff hvalid hcompile).1 (of_decide_eq_true hanswers)⟩

/-- The leaf's network with a gateway that has a tun of the same name as the leaf's, and a branch
without down-links. -/
def unansweredNetwork : Network :=
  { leafNetwork "" with
    nodes := (leafNetwork "").nodes.modify "gw" fun gw =>
      { gw with
        connections := (∅ : FMap String Conn).insert "T"
          { type := "tun", ip := "10.0.0.3", captureDefault := true } }
    paths := [{ name := "leaf", node := "leaf", routes := [{ egress := "a", up := ["leaf-up"] }] }] }

/-- The gateway of that network is given a rule for the leaf's packets that hands the answers to
its own tun. -/
theorem gateway_answers_own_tun : ∃ m out cn p r, unansweredNetwork.validate = .ok m ∧
    m.compile = .ok out ∧ out.lookup "gw" = some cn ∧ r ∈ cn.routes ∧ p ∈ m.paths ∧
    p.node = "leaf" ∧ m.CallsFor p "gw" r ∧ (m.node "gw").originTun = some r.action.target ∧
    ¬ RoutesPossible m out := by
  have hcheck : unansweredNetwork.compilesTo (fun m out => (out.lookup "gw").any fun cn =>
      cn.routes.any fun r => m.paths.any fun p => p.node == "leaf" &&
        (m.pathSteps p).any (fun s => s.node == "gw" && m.stepRoute s == r) &&
        (m.node "gw").originTun == some r.action.target &&
        !decide (m.Sends p "gw" r.action.target)) = true := by
    decide +kernel
  obtain ⟨m, out, hvalid, hcompile, hgw⟩ := compilesTo_iff.mp hcheck
  simp only [Option.any_eq_true, List.any_eq_true, Bool.and_eq_true, beq_iff_eq,
    Bool.not_eq_true', decide_eq_false_iff_not] at hgw
  obtain ⟨cn, hcn, r, hr, p, hp, ⟨⟨hnode, s, hs, hv, hroute⟩, htun⟩, hsends⟩ := hgw
  have hcalls : m.CallsFor p "gw" r := ⟨s, hs, hv, hroute⟩
  exact ⟨m, out, cn, p, r, hvalid, hcompile, hcn, hr, hp, hnode, hcalls, htun,
    fun hpossible => hsends ((hpossible "gw" cn hcn r hr).target p hp hcalls)⟩

end Dualnet.Schema
