import Dualnet.Schema.Compiled
import Dualnet.Schema.Valid

/-!
# The routing steps of a path

A branch of a path is a round trip: from the origin's tun along the up-links to the gateway,
which finalizes the packet, and from there along the down-links back to the tun. `branchSteps`
lists the rules that carry a packet along it, and `pend_eq` says that the pending rules of a
compiled network are the steps of its paths' branches, in order.
-/

namespace Dualnet.Schema

open Library Text
open Config (Route Connection)

/-- The consecutive links of a list. -/
def hops (l : List Link) : List (Link × Link) := l.zip l.tail

/-- Every link of a list but the last starts a hop. -/
theorem map_hops {β : Type} (g : Link → β) (l : List Link) :
    (hops l).map (fun e => g e.1) ++ (l.getLast?.map g).toList = l.map g := by
  induction l with
  | nil => rfl
  | cons a l ih =>
    cases l with
    | nil => rfl
    | cons b l =>
      rw [List.map_cons, ← ih, List.getLast?_cons_cons]
      rfl

/-- Neighbours in a list make a hop. -/
theorem hop_mem (front back : List Link) (a b : Link) : (a, b) ∈ hops (front ++ a :: b :: back) := by
  induction front with
  | nil => simp [hops]
  | cons c front ih =>
    have hcons : hops (c :: (front ++ a :: b :: back)) =
        (c, (front ++ a :: b :: back).headD c) :: hops (front ++ a :: b :: back) := by
      cases front <;> rfl
    rw [List.cons_append, hcons]
    exact .tail _ ih

section Steps

variable (links : FMap String Link) (p : Path) (tun : String) (br : Branch)

/-- Leaving the origin's tun on the first up-link. -/
def originStep : PendingRule :=
  { node := p.node
    route := rule false tun br.when { target := ((linksOf links br.up).headD {}).name } }

/-- Going on from one up-link to the next. -/
def relayStep (h : Link × Link) : PendingRule :=
  { node := targetOf h.1, route := rule false h.1.name [] { target := h.2.name }
    relay := true, when := br.when, path := p.label }

/-- Where the gateway sends the replies: the first down-link, or a name like the tun's. -/
def replyTarget : String :=
  match linksOf links br.down with
  | [] => tun
  | d :: _ => d.name

/-- Finalizing at the gateway. -/
def gatewayStep : PendingRule :=
  { node := br.gateway
    route := rule false ((linksOf links br.up).getLastD {}).name []
      ⟨br.egress, replyTarget links tun br⟩
    relay := true, when := br.when, path := p.label }

/-- Going on from one down-link to the next. -/
def replyStep (h : Link × Link) : PendingRule :=
  { node := targetOf h.1, route := rule true h.1.name [] { target := h.2.name } }

/-- Delivering a reply to the origin's tun. -/
def homeStep (last : Link) : PendingRule :=
  { node := p.node, route := rule true last.name [] { target := tun } }

/-- Finalizing at the origin. -/
def localStep : PendingRule :=
  { node := p.node, route := rule false tun br.when ⟨br.egress, tun⟩ }

/-- The steps of the way up. -/
def upSteps : List PendingRule :=
  if br.gateway = "" then [localStep p tun br]
  else originStep links p tun br :: (hops (linksOf links br.up)).map (relayStep p br) ++
    [gatewayStep links p tun br]

/-- The steps of the way down. -/
def downSteps : List PendingRule :=
  if br.gateway = "" then []
  else (hops (linksOf links br.down)).map replyStep ++
    ((linksOf links br.down).getLast?.map (homeStep p tun)).toList

/-- The steps of a branch. -/
def branchSteps : List PendingRule := upSteps links p tun br ++ downSteps links p tun br

end Steps

/-- Each link is sent by the node the one before delivers to. -/
def Chained (l : List Link) : Prop := ∀ h ∈ hops l, senderOf h.2 = targetOf h.1

/-- What is checked of a gateway branch when its rules are derived. -/
structure RoundTrip (links : FMap String Link) (p : Path) (br : Branch) : Prop where
  leaves : senderOf ((linksOf links br.up).headD {}) = p.node
  up : Chained (linksOf links br.up)
  down : Chained (linksOf links br.down)
  returns : ∀ l, (linksOf links br.down).getLast? = some l → targetOf l = p.node

/-- Relays are derived for links that are chained. -/
theorem relayRules_eq_ok {context : String} {make : String → Route → PendingRule}
    {processed : Bool} {l : List Link} {rules : List PendingRule}
    (h : relayRules context make processed l = .ok rules) :
    Chained l ∧ rules = (hops l).map fun h =>
      make (targetOf h.1) (rule processed h.1.name [] { target := h.2.name }) := by
  rw [relayRules, mapM_eq_ok] at h
  have hstep : ∀ (e : Link × Link) r, (do
      let mid ← wrap context (relayNode e.1 e.2)
      pure (make mid (rule processed e.1.name [] { target := e.2.name }))) = .ok r →
      senderOf e.2 = targetOf e.1 ∧
        r = make (targetOf e.1) (rule processed e.1.name [] { target := e.2.name }) := by
    intro e r hr
    simp only [relayNode, bind_eq_ok, wrap_eq_ok, reject_eq_ok, exists_const, pure_eq_ok] at hr
    obtain ⟨_, ⟨hsender, rfl⟩, rfl⟩ := hr
    exact ⟨by simpa using hsender, rfl⟩
  refine ⟨fun e he => ?_, eq_map_of_forall₂ h fun e _ r hr => (hstep e r hr).2⟩
  obtain ⟨r, -, hr⟩ := exists_of_forall₂_mem h he
  exact (hstep e r hr).1

/-- The rules of a branch are its steps. -/
theorem branchRules_eq_ok {links : FMap String Link} {p : Path} {tun : String} {br : Branch}
    {rules : List PendingRule} (h : branchRules links p tun br = .ok rules) :
    rules = branchSteps links p tun br ∧ (br.gateway ≠ "" → RoundTrip links p br) := by
  unfold branchRules at h
  split at h
  case isTrue hlocal =>
    rw [pure_eq_ok] at h
    subst h
    exact ⟨by simp [branchSteps, upSteps, downSteps, hlocal, localStep], fun hne =>
      absurd hlocal hne⟩
  case isFalse hgateway =>
    simp only [gatewayRules, bind_eq_ok, reject_eq_ok, exists_const] at h
    obtain ⟨hleaves, ups, hups, h⟩ := h
    obtain ⟨hup, rfl⟩ := relayRules_eq_ok hups
    have hleaves : senderOf ((linksOf links br.up).headD {}) = p.node := by simpa using hleaves
    split at h
    next hnone =>
      rw [pure_eq_ok] at h
      subst h
      have hdown : linksOf links br.down = [] := by simpa using hnone
      refine ⟨?_, fun _ => ⟨hleaves, hup, ?_, ?_⟩⟩
      · simp [branchSteps, upSteps, downSteps, hgateway, originStep, relayStep, gatewayStep,
          replyTarget, hdown, hops]
      · simp [Chained, hdown, hops]
      · simp [hdown]
    next lastDown hlast =>
      simp only [bind_eq_ok, reject_eq_ok, exists_const, pure_eq_ok] at h
      obtain ⟨downs, hdowns, hhome, rfl⟩ := h
      obtain ⟨hdown, rfl⟩ := relayRules_eq_ok hdowns
      refine ⟨?_, fun _ => ⟨hleaves, hup, hdown, ?_⟩⟩
      · cases hdowns : linksOf links br.down with
        | nil => simp [hdowns] at hlast
        | cons d ds =>
          rw [hdowns] at hlast
          simp [branchSteps, upSteps, downSteps, hgateway, originStep, gatewayStep, replyTarget,
            homeStep, hdowns, hlast]
          rfl
      · intro l hl
        obtain rfl := Option.some.inj (hlast.symm.trans hl)
        simpa using hhome

/-- The origin tun of a path. -/
def Network.tunOf (n : Network) (p : Path) : String := ((n.node p.node).originTun).getD ""

/-- A path whose origin routes packets itself. -/
def Network.Userspace (n : Network) (p : Path) : Prop := (n.node p.node).datapath ≠ "kernel"

instance (n : Network) (p : Path) : Decidable (n.Userspace p) :=
  inferInstanceAs (Decidable (_ ≠ _))

/-- The steps of a path. -/
def Network.pathSteps (n : Network) (p : Path) : List PendingRule :=
  if n.Userspace p then p.routes.flatMap (branchSteps n.linkMap p (n.tunOf p)) else []

/-- The steps of all paths. -/
def Network.steps (n : Network) : List PendingRule := n.paths.flatMap n.pathSteps

/-- A relay's rule has no condition of its own. -/
theorem relay_conditions {links : FMap String Link} {p : Path} {tun : String} {br : Branch}
    {pr : PendingRule} (h : pr ∈ branchSteps links p tun br) (hrelay : pr.relay = true) :
    pr.route.on.conditions = [] := by
  have hor : pr ∈ upSteps links p tun br ∨ pr ∈ downSteps links p tun br := List.mem_append.mp h
  unfold upSteps downSteps at hor
  split at hor
  · rcases hor with hpr | hpr
    · rw [List.mem_singleton.mp hpr] at hrelay
      cases hrelay
    · cases hpr
  · simp only [List.cons_append, List.mem_cons, List.mem_append, List.mem_map, List.not_mem_nil,
      or_false, Option.mem_toList, Option.map_eq_some_iff] at hor
    rcases hor with (rfl | ⟨e, -, rfl⟩ | rfl) | ⟨e, -, rfl⟩ | ⟨l, -, rfl⟩ <;>
      first | rfl | cases hrelay

/-- The rules of a path are its steps, of round trips only. -/
theorem pathRules_eq_ok {n : Network} {p : Path} {rules : List PendingRule}
    (h : n.pathRules n.linkMap p = .ok rules) :
    rules = n.pathSteps p ∧
      (n.Userspace p → ∀ br ∈ p.routes, br.gateway ≠ "" → RoundTrip n.linkMap p br) := by
  unfold Network.pathRules at h
  split at h
  case isTrue hkernel =>
    cases h
    exact ⟨by simp [Network.pathSteps, Network.Userspace, hkernel], fun hu => absurd hkernel hu⟩
  case isFalse huser =>
    simp only [bind_eq_ok, pure_eq_ok, mapM_eq_ok] at h
    obtain ⟨parts, hparts, rfl⟩ := h
    have huser : n.Userspace p := huser
    have hparts' := eq_map_of_forall₂ hparts fun br _ r hr => (branchRules_eq_ok hr).1
    refine ⟨?_, fun _ br hbr => ?_⟩
    · rw [hparts', Network.pathSteps, if_pos huser, List.flatMap_def]
      rfl
    · obtain ⟨r, -, hr⟩ := exists_of_forall₂_mem hparts hbr
      exact (branchRules_eq_ok hr).2

/-- The rules derived for all paths are the steps. -/
theorem pathRules_flatten {n : Network} {rules : List (List PendingRule)}
    (h : n.paths.mapM (n.pathRules n.linkMap) = .ok rules) : rules.flatten = n.steps := by
  rw [mapM_eq_ok] at h
  rw [Network.steps, List.flatMap_def,
    ← eq_map_of_forall₂ h fun p _ r hr => (pathRules_eq_ok hr).1]

/-! ## Accepted networks -/

/-- What holds of a network that validates and compiles. -/
structure Accepted (m : Network) (out : Configs) : Prop where
  valid : Valid m
  gateways : ∀ p ∈ m.paths, ∀ br ∈ p.routes, gatewayOf br m.linkMap = .ok br.gateway
  trips : ∀ p ∈ m.paths, m.Userspace p → ∀ br ∈ p.routes, br.gateway ≠ "" →
    RoundTrip m.linkMap p br
  qualifies : Qualifies m m.steps m.steps
  nodes : ∀ v nd, m.nodes.lookup v = some nd → ∃ cn, out.lookup v = some cn
  configs : ∀ v cn, out.lookup v = some cn →
    ∃ nd, m.nodes.lookup v = some nd ∧ NodeConfig m (m.steps.map (m.qualified m.steps)) v nd cn

/-- Inference fills in what `gatewayOf` says. -/
theorem inferGateways_gateways {n m : Network} {links : FMap String Link}
    (h : n.inferGateways links = .ok m) :
    ∀ p ∈ m.paths, ∀ br ∈ p.routes, gatewayOf br links = .ok br.gateway := by
  simp only [Network.inferGateways, bind_eq_ok, pure_eq_ok, mapM_eq_ok, wrap_eq_ok] at h
  obtain ⟨paths, hpaths, rfl⟩ := h
  intro p hp br hbr
  obtain ⟨p', -, routes, hroutes, rfl⟩ := exists_of_forall₂_mem hpaths.flip hp
  obtain ⟨br', -, hinfer⟩ := exists_of_forall₂_mem hroutes.flip hbr
  simp only [Branch.infer] at hinfer
  cases hgw : gatewayOf br' links with
  | error e => simp [hgw, Except.map] at hinfer
  | ok gw =>
    obtain rfl : { br' with gateway := gw } = br := by simpa [hgw, Except.map] using hinfer
    exact hgw

/-- Inferring the gateways again changes nothing. -/
theorem inferGateways_idem {m : Network} {links : FMap String Link}
    (h : ∀ p ∈ m.paths, ∀ br ∈ p.routes, gatewayOf br links = .ok br.gateway) :
    m.inferGateways links = .ok m := by
  have hpaths : m.paths.mapM (fun p => do
      let routes ← wrap s!"netschema: path for node {quote p.node}: "
        (p.routes.mapM (Branch.infer links))
      pure { p with routes }) = .ok m.paths := by
    rw [mapM_eq_ok, List.forall₂_same]
    intro p hp
    have hroutes : p.routes.mapM (Branch.infer links) = .ok p.routes := by
      rw [mapM_eq_ok, List.forall₂_same]
      intro br hbr
      rw [Branch.infer, h p hp br hbr]
      rfl
    rw [hroutes]
    rfl
  rw [Network.inferGateways, hpaths]
  rfl

/-- The gateways of a network that validates have been inferred. -/
theorem gateways_of_validate {n m : Network} (hvalid : n.validate = .ok m) :
    ∀ p ∈ m.paths, ∀ br ∈ p.routes, gatewayOf br m.linkMap = .ok br.gateway := by
  simp only [Network.validate, bind_eq_ok, reject_eq_ok, exists_const, pure_eq_ok] at hvalid
  obtain ⟨-, _, -, _, -, links, hlinks, m', hinfer, _, -, _, -, _, -, _, -, _, -, rfl⟩ := hvalid
  obtain ⟨-, -, -, rfl⟩ := validateLinks_eq_ok hlinks
  have hlinkMap : m'.links = n.links := by
    simp only [Network.inferGateways, bind_eq_ok, pure_eq_ok] at hinfer
    obtain ⟨paths, -, rfl⟩ := hinfer
    rfl
  rw [Network.linkMap, hlinkMap]
  exact inferGateways_gateways hinfer

/-- A network that validates and compiles is accepted. -/
theorem accepted_of_compile {n m : Network} {out : Configs} (hvalid : n.validate = .ok m)
    (hcompile : m.compile = .ok out) : Accepted m out := by
  have hgateways := gateways_of_validate hvalid
  obtain ⟨m', pend, hcompiled⟩ := compile_eq_ok hcompile
  obtain rfl := Except.ok.inj ((inferGateways_idem hgateways).symm.trans hcompiled.inferred)
  obtain ⟨rules, hrules, rfl⟩ := hcompiled.derived
  have hsteps := pathRules_flatten hrules
  rw [mapM_eq_ok] at hrules
  have hrelay : ∀ pr ∈ m.steps, pr.relay = true → pr.route.on.conditions = [] := by
    intro pr hpr
    obtain ⟨p, -, hpr⟩ := List.mem_flatMap.mp hpr
    unfold Network.pathSteps at hpr
    split at hpr
    · obtain ⟨br, -, hpr⟩ := List.mem_flatMap.mp hpr
      exact relay_conditions hpr
    · cases hpr
  have hqualifies := hcompiled.qualifies
  have hconfigs := hcompiled.configs
  rw [hsteps] at hqualifies hconfigs
  refine ⟨valid_of_validate hvalid, hgateways, fun p hp => ?_, hqualifies hrelay, hcompiled.nodes,
    hconfigs hrelay⟩
  obtain ⟨r, -, hr⟩ := exists_of_forall₂_mem hrules hp
  exact (pathRules_eq_ok hr).2

/-! ## What the steps are made of -/

section Facts

variable {m : Network} {out : Configs} {p : Path} {br : Branch} {links : FMap String Link}

/-- The steps of the way up of a gateway branch. -/
theorem mem_upSteps {tun : String} {s : PendingRule} (hgateway : br.gateway ≠ "") :
    s ∈ upSteps links p tun br ↔ s = originStep links p tun br ∨
      (∃ e ∈ hops (linksOf links br.up), s = relayStep p br e) ∨
      s = gatewayStep links p tun br := by
  simp [upSteps, hgateway, eq_comm]

/-- The steps of the way down. -/
theorem mem_downSteps {tun : String} {s : PendingRule} :
    s ∈ downSteps links p tun br ↔ br.gateway ≠ "" ∧
      ((∃ e ∈ hops (linksOf links br.down), s = replyStep e) ∨
        ∃ l, (linksOf links br.down).getLast? = some l ∧ s = homeStep p tun l) := by
  by_cases hgateway : br.gateway = ""
  · simp [downSteps, hgateway]
  · simp only [downSteps, hgateway, if_false, List.mem_append, List.mem_map, Option.mem_toList,
      Option.map_eq_some_iff, not_false_eq_true, true_and, ne_eq, @eq_comm _ s]

/-- The kinds of steps. -/
theorem branchSteps_cases {tun : String} {s : PendingRule}
    (h : s ∈ branchSteps links p tun br) :
    (br.gateway = "" ∧ s = localStep p tun br) ∨
    (br.gateway ≠ "" ∧ (s = originStep links p tun br ∨
      (∃ e ∈ hops (linksOf links br.up), s = relayStep p br e) ∨
      s = gatewayStep links p tun br ∨
      (∃ e ∈ hops (linksOf links br.down), s = replyStep e) ∨
      ∃ l, (linksOf links br.down).getLast? = some l ∧ s = homeStep p tun l)) := by
  rcases List.mem_append.mp h with hup | hdown
  · by_cases hgateway : br.gateway = ""
    · exact .inl ⟨hgateway, by simpa [upSteps, hgateway] using hup⟩
    · rw [mem_upSteps hgateway] at hup
      exact .inr ⟨hgateway, hup.imp id (.imp id .inl)⟩
  · obtain ⟨hgateway, hdown⟩ := mem_downSteps.mp hdown
    exact .inr ⟨hgateway, .inr (.inr (.inr hdown))⟩

/-- The steps of the way up are for unprocessed packets. -/
theorem upSteps_processed {tun : String} {s : PendingRule} (hs : s ∈ upSteps links p tun br) :
    s.route.on.processed = some false := by
  by_cases hgateway : br.gateway = ""
  · obtain rfl : s = localStep p tun br := by simpa [upSteps, hgateway] using hs
    rfl
  · rcases (mem_upSteps hgateway).mp hs with rfl | ⟨_, -, rfl⟩ | rfl <;> rfl

/-- The steps of the way down are for processed packets. -/
theorem downSteps_processed {tun : String} {s : PendingRule} (hs : s ∈ downSteps links p tun br) :
    s.route.on.processed = some true := by
  rcases (mem_downSteps.mp hs).2 with ⟨_, -, rfl⟩ | ⟨_, -, rfl⟩ <;> rfl

/-- A step of a network is a step of a branch of a userspace path. -/
theorem mem_pathSteps {s : PendingRule} :
    s ∈ m.pathSteps p ↔
      m.Userspace p ∧ ∃ br ∈ p.routes, s ∈ branchSteps m.linkMap p (m.tunOf p) br := by
  unfold Network.pathSteps
  split
  · simp [*]
  · simp [*]

/-- The steps of a network with one path. -/
theorem steps_of_single (hsingle : m.paths = [p]) (huser : m.Userspace p) :
    m.steps = p.routes.flatMap (branchSteps m.linkMap p (m.tunOf p)) := by
  simp [Network.steps, hsingle, Network.pathSteps, huser]

/-- What inference says about the gateway of a branch. -/
theorem gatewayOf_eq_ok {gw : String} (h : gatewayOf br links = .ok gw) :
    (br.up = [] ∧ br.down = [] ∧ gw = "") ∨
    ∃ last, (linksOf links br.up).getLast? = some last ∧ gw = targetOf last ∧
      ∀ d, (linksOf links br.down).head? = some d → senderOf d = gw := by
  unfold gatewayOf at h
  split at h
  next hup =>
    simp only [bind_eq_ok, reject_eq_ok, exists_const, pure_eq_ok] at h
    exact .inl ⟨by simpa using hup, by simpa using h.1, h.2.symm⟩
  next lastUp hup =>
    split at h
    next => cases h
    next last hlast =>
      have hlast' : (linksOf links br.up).getLast? = some last := by
        simp [linksOf, List.getLast?_map, hup, hlast]
      refine .inr ⟨last, hlast', ?_⟩
      dsimp only at h
      split at h
      next hdown =>
        cases h
        exact ⟨rfl, by simp [linksOf, hdown]⟩
      next firstDown rest hdown =>
        split at h
        next => cases h
        next first hfirst =>
          simp only [bind_eq_ok, reject_eq_ok, exists_const, pure_eq_ok] at h
          obtain ⟨hsender, rfl⟩ := h
          refine ⟨rfl, fun d hd => ?_⟩
          obtain rfl : first = d := by simpa [linksOf, hdown, hfirst] using hd
          simpa using hsender

/-- The links a branch names are links of the network. -/
theorem Accepted.linksOf_mem (h : Accepted m out) (hp : p ∈ m.paths) (huser : m.Userspace p)
    (hbr : br ∈ p.routes) {names : List String} (hnames : names ⊆ br.up ++ br.down)
    {l : Link} (hl : l ∈ linksOf m.linkMap names) : l ∈ m.links := by
  obtain ⟨name, hname, rfl⟩ := List.mem_map.mp hl
  obtain ⟨l, hl⟩ := ((h.valid.paths p hp huser).branches br hbr).known name (hnames hname)
  rw [hl]
  exact (FMap.mem_of_lookup_index hl).1

/-- The links of a way up are links of the network. -/
theorem Accepted.up_mem (h : Accepted m out) (hp : p ∈ m.paths) (huser : m.Userspace p)
    (hbr : br ∈ p.routes) {l : Link} (hl : l ∈ linksOf m.linkMap br.up) : l ∈ m.links :=
  h.linksOf_mem hp huser hbr (List.subset_append_left _ _) hl

/-- So are those of a way down. -/
theorem Accepted.down_mem (h : Accepted m out) (hp : p ∈ m.paths) (huser : m.Userspace p)
    (hbr : br ∈ p.routes) {l : Link} (hl : l ∈ linksOf m.linkMap br.down) : l ∈ m.links :=
  h.linksOf_mem hp huser hbr (List.subset_append_right _ _) hl

/-- The links a branch names have these names. -/
theorem Accepted.linksOf_names (h : Accepted m out) (hp : p ∈ m.paths) (huser : m.Userspace p)
    (hbr : br ∈ p.routes) {names : List String} (hnames : names ⊆ br.up ++ br.down) :
    (linksOf m.linkMap names).map Link.name = names := by
  rw [linksOf, List.map_map]
  conv_rhs => rw [← List.map_id names]
  refine List.map_congr_left fun name hname => ?_
  obtain ⟨l, hl⟩ := ((h.valid.paths p hp huser).branches br hbr).known name (hnames hname)
  rw [Function.comp_apply, hl]
  exact (FMap.mem_of_lookup_index hl).2

/-- A hop goes from one link of the list to another. -/
theorem mem_of_hops {l : List Link} {e : Link × Link} (h : e ∈ hops l) : e.1 ∈ l ∧ e.2 ∈ l :=
  ⟨(List.of_mem_zip h).1, List.mem_of_mem_tail (List.of_mem_zip h).2⟩

/-- The origin tun of a userspace path. -/
theorem Accepted.originTun (h : Accepted m out) (hp : p ∈ m.paths) (huser : m.Userspace p) :
    (m.node p.node).originTun = some (m.tunOf p) := by
  obtain ⟨tun, htun⟩ := (h.valid.paths p hp huser).tun
  rw [Network.tunOf, htun]
  rfl

/-- The last up-link of a gateway branch delivers to the gateway, which is the sender of the
first down-link. -/
theorem Accepted.gateway_links (h : Accepted m out) (hp : p ∈ m.paths) (hbr : br ∈ p.routes)
    (hgateway : br.gateway ≠ "") :
    ∃ last, (linksOf m.linkMap br.up).getLast? = some last ∧ targetOf last = br.gateway ∧
      ∀ d, (linksOf m.linkMap br.down).head? = some d → senderOf d = br.gateway := by
  rcases gatewayOf_eq_ok (h.gateways p hp br hbr) with ⟨-, -, hempty⟩ | ⟨last, hlast, hgw, hdown⟩
  · exact absurd hempty hgateway
  · exact ⟨last, hlast, hgw.symm, hdown⟩

/-- What a step matches: packets from the origin's tun under the branch's conditions, packets
from an up-link, or replies from a down-link. -/
theorem Accepted.step_kinds (h : Accepted m out) (hp : p ∈ m.paths) (huser : m.Userspace p)
    (hbr : br ∈ p.routes) {s : PendingRule}
    (hs : s ∈ branchSteps m.linkMap p (m.tunOf p) br) :
    (s.relay = false ∧ s.node = p.node ∧ s.route.on = ⟨some false, m.tunOf p, br.when⟩) ∨
    (s.relay = true ∧ s.when = br.when ∧ ∃ l ∈ linksOf m.linkMap br.up,
      s.node = targetOf l ∧ s.route.on = ⟨some false, l.name, []⟩) ∨
    (s.relay = false ∧ ∃ l ∈ linksOf m.linkMap br.down,
      s.node = targetOf l ∧ s.route.on = ⟨some true, l.name, []⟩) := by
  rcases branchSteps_cases hs with ⟨-, rfl⟩ | ⟨hgateway, hs⟩
  · exact .inl ⟨rfl, rfl, rfl⟩
  rcases hs with rfl | ⟨e, he, rfl⟩ | rfl | ⟨e, he, rfl⟩ | ⟨l, hl, rfl⟩
  · exact .inl ⟨rfl, rfl, rfl⟩
  · exact .inr (.inl ⟨rfl, rfl, e.1, (mem_of_hops he).1, rfl, rfl⟩)
  · obtain ⟨last, hlast, hgw, -⟩ := h.gateway_links hp hbr hgateway
    refine .inr (.inl ⟨rfl, rfl, last, List.mem_of_getLast? hlast, hgw.symm, ?_⟩)
    simp [gatewayStep, rule, List.getLastD_eq_getLast?, hlast]
  · exact .inr (.inr ⟨rfl, e.1, (mem_of_hops he).1, rfl, rfl⟩)
  · exact .inr (.inr ⟨rfl, l, List.mem_of_getLast? hl,
      ((h.trips p hp huser br hbr hgateway).returns l hl).symm, rfl⟩)

/-- A node that takes part in a link is a userspace node. -/
theorem Accepted.end_node (h : Accepted m out) {l : Link} (hl : l ∈ m.links) {v : String}
    (hv : v = l.dialer ∨ v = l.acceptor) :
    ∃ nd cn, m.nodes.lookup v = some nd ∧ out.lookup v = some cn ∧
      NodeConfig m (m.steps.map (m.qualified m.steps)) v nd cn ∧ cn.datapath = "" := by
  have hend : ∃ nd, m.nodes.lookup v = some nd ∧ nd.datapath ≠ "kernel" := by
    rcases hv with rfl | rfl
    · exact (h.valid.links l hl).dialer
    · exact (h.valid.links l hl).acceptor
  obtain ⟨nd, hnd, huser⟩ := hend
  obtain ⟨cn, hcn⟩ := h.nodes v nd hnd
  obtain ⟨nd', hnd', hconfig⟩ := h.configs v cn hcn
  obtain rfl := Option.some.inj (hnd.symm.trans hnd')
  exact ⟨nd, cn, hnd, hcn, hconfig, by rw [hconfig.datapath, if_neg huser]⟩

/-- Qualifying leaves the node. -/
@[simp]
theorem qualified_node (n : Network) (all : List PendingRule) (pr : PendingRule) :
    (n.qualified all pr).node = pr.node := by
  unfold Network.qualified
  split <;> rfl

/-- It leaves the source. -/
@[simp]
theorem qualified_source (n : Network) (all : List PendingRule) (pr : PendingRule) :
    (n.qualified all pr).route.on.source = pr.route.on.source := by
  unfold Network.qualified
  split <;> rfl

/-- It leaves the direction. -/
@[simp]
theorem qualified_processed (n : Network) (all : List PendingRule) (pr : PendingRule) :
    (n.qualified all pr).route.on.processed = pr.route.on.processed := by
  unfold Network.qualified
  split <;> rfl

/-- It leaves the action. -/
@[simp]
theorem qualified_action (n : Network) (all : List PendingRule) (pr : PendingRule) :
    (n.qualified all pr).route.action = pr.route.action := by
  unfold Network.qualified
  split <;> rfl

/-- The final sort keeps all rules. -/
@[simp]
theorem mem_sorted {v : String} {routes : List Route} {r : Route} :
    r ∈ m.sorted v routes ↔ r ∈ routes := by
  unfold Network.sorted
  split
  · rfl
  · simp only [tunFirst, List.mem_append, List.mem_filter, ← and_or_left]
    simp

/-- The rule of a step as it stands on its node. -/
def Network.stepRoute (m : Network) (s : PendingRule) : Route := (m.qualified m.steps s).route

/-- A step's rule has its direction. -/
@[simp]
theorem stepRoute_processed (s : PendingRule) :
    (m.stepRoute s).on.processed = s.route.on.processed := qualified_processed m m.steps s

/-- It has its source. -/
@[simp]
theorem stepRoute_source (s : PendingRule) : (m.stepRoute s).on.source = s.route.on.source :=
  qualified_source m m.steps s

/-- It has its action. -/
@[simp]
theorem stepRoute_action (s : PendingRule) : (m.stepRoute s).action = s.route.action :=
  qualified_action m m.steps s

/-- The rules a node is to have: those of its steps, in order. -/
def Network.stepRoutes (m : Network) (v : String) : List Route :=
  (m.steps.filter fun s => s.node = v).map m.stepRoute

/-- The rules of a node's steps. -/
theorem mem_stepRoutes {v : String} {r : Route} :
    r ∈ m.stepRoutes v ↔ ∃ s ∈ m.steps, s.node = v ∧ m.stepRoute s = r := by
  simp [Network.stepRoutes, and_assoc]

/-- The rules on a node are those of its steps, each text once, in the final order. -/
theorem Accepted.routes_eq (h : Accepted m out) {v : String} {cn : Config.Node}
    (hcn : out.lookup v = some cn) :
    cn.routes = m.sorted v (keepFirst ruleKey [] (m.stepRoutes v)) := by
  obtain ⟨nd, -, hconfig⟩ := h.configs v cn hcn
  rw [hconfig.routes, placed, List.filter_map, List.map_map]
  simp only [Network.stepRoutes, Function.comp_def, qualified_node]
  rfl

/-- Every rule on a node is that of a step. -/
theorem Accepted.exists_step (h : Accepted m out) {v : String} {cn : Config.Node}
    (hcn : out.lookup v = some cn) {r : Route} (hr : r ∈ cn.routes) :
    ∃ s ∈ m.steps, s.node = v ∧ m.stepRoute s = r := by
  rw [h.routes_eq hcn, mem_sorted] at hr
  exact mem_stepRoutes.mp ((keepFirst_sublist _ _).subset hr)

/-- Every rule a node is to have is there, or another of the same text is. -/
theorem Accepted.exists_route (h : Accepted m out) {v : String} {cn : Config.Node}
    (hcn : out.lookup v = some cn) {r : Route} (hr : r ∈ m.stepRoutes v) :
    ∃ r' ∈ cn.routes, ruleKey r' = ruleKey r := by
  rw [h.routes_eq hcn]
  simp only [mem_sorted]
  exact exists_mem_keepFirst hr (by simp)

/-- The data of a link go to one of its ends. -/
theorem targetOf_eq_or (l : Link) : targetOf l = l.dialer ∨ targetOf l = l.acceptor := by
  unfold targetOf
  split
  · exact .inr rfl
  · exact .inl rfl

/-- The data of a link come from one of its ends. -/
theorem senderOf_eq_or (l : Link) : senderOf l = l.dialer ∨ senderOf l = l.acceptor := by
  unfold senderOf
  split
  · exact .inl rfl
  · exact .inr rfl

/-- The gateway's step is one of the branch. -/
theorem gatewayStep_mem {tun : String} (hgateway : br.gateway ≠ "") :
    gatewayStep links p tun br ∈ branchSteps links p tun br :=
  List.mem_append_left _ ((mem_upSteps hgateway).mpr (.inr (.inr rfl)))

end Facts

/-- A network that validates and compiles to configurations passing a check. -/
def Network.compilesTo (n : Network) (check : Network → Configs → Bool) : Bool :=
  n.validate.toOption.any fun m => m.compile.toOption.any (check m)

/-- What the check of an example says. -/
theorem compilesTo_iff {n : Network} {check : Network → Configs → Bool} :
    n.compilesTo check = true ↔
      ∃ m out, n.validate = .ok m ∧ m.compile = .ok out ∧ check m out = true := by
  simp only [Network.compilesTo, any_toOption]
  constructor
  · rintro ⟨m, hm, out, hout, hcheck⟩
    exact ⟨m, out, hm, hout, hcheck⟩
  · rintro ⟨m, out, hm, hout, hcheck⟩
    exact ⟨m, hm, out, hout, hcheck⟩

/-- The same for a network with one path. -/
theorem exists_of_compilesTo_single {n : Network} {check : Network → Configs → Path → Bool}
    (h : n.compilesTo (fun m out => m.paths.length == 1 && m.paths.all (check m out)) = true) :
    ∃ m out p, n.validate = .ok m ∧ m.compile = .ok out ∧ m.paths = [p] ∧
      check m out p = true := by
  obtain ⟨m, out, hvalid, hcompile, hpaths⟩ := compilesTo_iff.mp h
  rw [Bool.and_eq_true, beq_iff_eq, List.length_eq_one_iff] at hpaths
  obtain ⟨⟨p, hsingle⟩, hall⟩ := hpaths
  exact ⟨m, out, p, hvalid, hcompile, hsingle, by simpa [hsingle] using hall⟩

end Dualnet.Schema
