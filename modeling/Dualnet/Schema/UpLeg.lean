import Dualnet.Schema.Walk

/-!
# The way up

`up_leg_preserved`: in a compiled network with one path, a packet from the origin's tun travels
the up-links of the first branch whose condition holds and is finalized at that branch's gateway.
A node's rules for the different branches are told apart by the link a packet arrives on or by the
conditions restated there; where neither does, the branches agree on the action.

This needs the texts by which `emitRules` and `qualifyRules` compare rules and actions to stand
for one rule and one action each, and no up-link to end at a node with the empty name, which
`deriveRoutes` takes for a local branch.
-/

namespace Dualnet.Schema

open Library Text
open Config (Route Action)

/-- The networks the way up is about: one path, from a userspace node, with at most one condition
and no repeated up-link in a branch, and a way back wherever there is a way up. -/
structure OnePath (m : Network) (p : Path) : Prop where
  single : m.paths = [p]
  userspace : m.Userspace p
  conditions : ∀ br ∈ p.routes, br.when.length ≤ 1
  up_nodup : ∀ br ∈ p.routes, br.up.Nodup
  down : ∀ br ∈ p.routes, br.up ≠ [] → br.down ≠ []

/-- Different actions downstream of the origin, for packets arriving at one place, have different
texts. -/
def Network.ActionsApart (m : Network) : Prop :=
  ∀ s ∈ m.steps, ∀ s' ∈ m.steps, s.relay = true → s'.relay = true → SameArrival s s' →
    actionKey s.route.action = actionKey s'.route.action → s.route.action = s'.route.action

instance (m : Network) : Decidable m.ActionsApart :=
  inferInstanceAs (Decidable (∀ s ∈ m.steps, _))

/-- What the compilation takes for granted of the names in the network. -/
structure NamesClear (m : Network) (p : Path) : Prop where
  texts : m.TextsApart false
  actions : m.ActionsApart
  gateways : ∀ br ∈ p.routes, br.up ≠ [] → br.gateway ≠ ""

section Agreement

variable {m : Network} {out : Configs} {p : Path} {br : Branch} {holds : String → Bool}

/-- The place a step is about. -/
def PendingRule.place (s : PendingRule) : String × String := (s.node, s.route.on.source)

/-- The places of the way up: the origin's tun, and the end of each up-link. -/
theorem Accepted.up_places (h : Accepted m out) (hp : p ∈ m.paths) (hbr : br ∈ p.routes)
    (hgateway : br.gateway ≠ "") :
    (upSteps m.linkMap p (m.tunOf p) br).map PendingRule.place =
      (p.node, m.tunOf p) :: (linksOf m.linkMap br.up).map fun l => (targetOf l, l.name) := by
  obtain ⟨last, hlast, hgw, -⟩ := h.gateway_links hp hbr hgateway
  rw [← map_hops, hlast]
  simp only [upSteps, hgateway, if_false, List.map_cons, List.map_append, List.map_map,
    List.cons_append]
  simp [PendingRule.place, originStep, gatewayStep, relayStep, rule, List.getLastD_eq_getLast?,
    hlast, hgw, Function.comp_def]

/-- The way up passes every place once. -/
theorem Accepted.up_places_nodup (h : Accepted m out) (hp : p ∈ m.paths) (huser : m.Userspace p)
    (hbr : br ∈ p.routes) (hnodup : br.up.Nodup) :
    ((upSteps m.linkMap p (m.tunOf p) br).map PendingRule.place).Nodup := by
  by_cases hgateway : br.gateway = ""
  · simp [upSteps, hgateway]
  rw [h.up_places hp hbr hgateway, List.nodup_cons]
  constructor
  · intro hmem
    obtain ⟨l, hl, heq⟩ := List.mem_map.mp hmem
    rw [Prod.mk.injEq] at heq
    exact h.tun_ne_link (h.up_mem hp huser hbr hl) (heq.1 ▸ targetOf_eq_or l)
      (h.originTun hp huser) heq.2
  · refine List.Nodup.of_map Prod.snd ?_
    rw [List.map_map, Function.comp_def,
      h.linksOf_names hp huser hbr (List.subset_append_left _ _)]
    exact hnodup

/-- A step that is no relay keeps its conditions. -/
theorem stepRoute_of_not_relay {s : PendingRule} (hs : s.relay = false) :
    m.stepRoute s = s.route := by
  simp [Network.stepRoute, Network.qualified, Diverges, hs]

/-- Where the branches do not diverge, they take one action. -/
theorem Network.ActionsApart.agree (hactions : m.ActionsApart) {s x : PendingRule}
    (hs : s ∈ m.steps) (hx : x ∈ m.steps) (hrelay : s.relay = true) (hrelay' : x.relay = true)
    (harrival : SameArrival x s) (hdiverges : ¬ Diverges m.steps s) :
    x.route.action = s.route.action := by
  have hsame : x.arrival = s.arrival := by
    rw [PendingRule.arrival, PendingRule.arrival, harrival.1, harrival.2.2]
  have hmem : ∀ y ∈ m.steps, y.relay = true → y.arrival = s.arrival →
      actionKey y.route.action ∈ actionsAt m.steps s.arrival := by
    intro y hy hyrelay hyarrival
    exact List.mem_dedup.mpr (List.mem_map.mpr
      ⟨y, List.mem_filter.mpr ⟨hy, by simp [hyrelay, hyarrival]⟩, rfl⟩)
  refine hactions x hx s hs hrelay' hrelay harrival ?_
  have hxmem := hmem x hx hrelay' hsame
  have hsmem := hmem s hs hrelay rfl
  have hone := not_and.mp hdiverges hrelay
  generalize actionsAt m.steps s.arrival = texts at hxmem hsmem hone
  match texts with
  | [] => cases hxmem
  | [text] => rw [List.mem_singleton.mp hxmem, List.mem_singleton.mp hsmem]
  | _ :: _ :: _ => simp at hone

/-- A branch with one condition that fails has no rule that fires at a divergence. -/
theorem Accepted.diverging_conditions (h : Accepted m out) {x : PendingRule} (hx : x ∈ m.steps)
    (hdiverges : Diverges m.steps x) (hwhen : x.when.length ≤ 1)
    (hconds : (m.stepRoute x).on.conditions.all holds = true) : x.when.all holds = true := by
  have hrestated : (m.stepRoute x).on.conditions = m.restated x := by
    simp [Network.stepRoute, Network.qualified, hdiverges]
  rcases hlist : x.when with _ | ⟨c, _ | ⟨c', rest⟩⟩
  · rfl
  · cases hdst : (m.condition c).dstIn.isSome with
    | true => simpa [hrestated, Network.restated, hlist, hdst] using hconds
    | false =>
      have hempty : m.restated x = [] := by simp [Network.restated, hlist, hdst]
      simp [h.qualifies.restates x hx hdiverges hempty] at hlist
  · simp [hlist] at hwhen

/-- The conditions under which a branch's step is placed hold when the branch's do. -/
theorem Accepted.own_conditions (h : Accepted m out) (hp : p ∈ m.paths) (huser : m.Userspace p)
    (hbr : br ∈ p.routes) {s : PendingRule} (hs : s ∈ branchSteps m.linkMap p (m.tunOf p) br)
    (hholds : br.when.all holds = true) : (m.stepRoute s).on.conditions.all holds = true := by
  rcases h.step_kinds hp huser hbr hs with ⟨hrelay, -, hon⟩ | ⟨-, hwhen, l, -, -, hon⟩ |
    ⟨hrelay, l, -, -, hon⟩
  · rw [stepRoute_of_not_relay hrelay, hon]
    exact hholds
  · unfold Network.stepRoute Network.qualified
    split
    · rw [List.all_eq_true] at hholds ⊢
      exact fun c hc => hholds c (hwhen ▸ List.mem_of_mem_filter hc)
    · simp [hon]
  · simp [stepRoute_of_not_relay hrelay, hon]

/-- Within a branch, no other step is about the place of a step of the way up. -/
theorem Accepted.up_step_unique (h : Accepted m out) (hp : p ∈ m.paths) (huser : m.Userspace p)
    (hbr : br ∈ p.routes) (hnodup : br.up.Nodup) {s x : PendingRule}
    (hs : s ∈ upSteps m.linkMap p (m.tunOf p) br)
    (hx : x ∈ branchSteps m.linkMap p (m.tunOf p) br) (harrival : SameArrival x s) : x = s := by
  obtain ⟨hnode, hflag, hsource⟩ := harrival
  rcases List.mem_append.mp hx with hx | hx
  · exact List.inj_on_of_nodup_map (h.up_places_nodup hp huser hbr hnodup) hx hs
      (Prod.ext hnode hsource)
  · rw [downSteps_processed hx, upSteps_processed hs] at hflag
    cases hflag

/-- Of the steps for unprocessed packets, those at the origin's tun have their branch's conditions
and the others are relays. -/
theorem Accepted.unprocessed_kinds (h : Accepted m out) (hp : p ∈ m.paths)
    (huser : m.Userspace p) (hbr : br ∈ p.routes) {s : PendingRule}
    (hs : s ∈ branchSteps m.linkMap p (m.tunOf p) br)
    (hflag : s.route.on.processed = some false) :
    if s.place = (p.node, m.tunOf p) then s.relay = false ∧ s.route.on.conditions = br.when
    else s.relay = true ∧ s.when = br.when := by
  rcases h.step_kinds hp huser hbr hs with ⟨hrelay, hnode, hon⟩ |
    ⟨hrelay, hwhen, l, hl, hnode, hon⟩ | ⟨-, l, -, -, hon⟩
  · simp [PendingRule.place, hrelay, hnode, hon]
  · -- a link delivering to the origin is not named like its tun
    have hplace : s.place ≠ (p.node, m.tunOf p) := by
      intro heq
      simp only [PendingRule.place, hnode, hon, Prod.mk.injEq] at heq
      exact h.tun_ne_link (h.up_mem hp huser hbr hl) (heq.1 ▸ targetOf_eq_or l)
        (h.originTun hp huser) heq.2
    rw [if_neg hplace]
    exact ⟨hrelay, hwhen⟩
  · simp [hon] at hflag

/-- A rule that fires where a branch's packets pass takes the branch's action there, if it comes
from that branch or from one before it whose conditions fail. -/
theorem Accepted.up_agree (h : Accepted m out) (hone : OnePath m p) (hactions : m.ActionsApart)
    {pre post : List Branch} (hroutes : p.routes = pre ++ br :: post)
    (hfail : ∀ b ∈ pre, b.when.all holds = false) {s x : PendingRule}
    (hs : s ∈ upSteps m.linkMap p (m.tunOf p) br)
    (hx : x ∈ (pre ++ [br]).flatMap (branchSteps m.linkMap p (m.tunOf p)))
    (harrival : SameArrival x s)
    (hconds : (m.stepRoute x).on.conditions.all holds = true) :
    x.route.action = s.route.action := by
  have hp : p ∈ m.paths := by simp [hone.single]
  have huser := hone.userspace
  have hbr : br ∈ p.routes := by simp [hroutes]
  obtain ⟨b, hb, hx⟩ := List.mem_flatMap.mp hx
  rcases List.mem_append.mp hb with hpre | hlast
  case inr =>
    rw [List.mem_singleton.mp hlast] at hx
    rw [h.up_step_unique hp huser hbr (hone.up_nodup br hbr) hs hx harrival]
  have hb' : b ∈ p.routes := by simp [hroutes, hpre]
  have hs : s ∈ branchSteps m.linkMap p (m.tunOf p) br ∧ s.route.on.processed = some false :=
    ⟨List.mem_append_left _ hs, upSteps_processed hs⟩
  have hskinds := h.unprocessed_kinds hp huser hbr hs.1 hs.2
  have hxkinds := h.unprocessed_kinds hp huser hb' hx (harrival.2.1.trans hs.2)
  have hplace : x.place = s.place := Prod.ext harrival.1 harrival.2.2
  rw [hplace] at hxkinds
  have hsteps : s ∈ m.steps ∧ x ∈ m.steps := by
    rw [steps_of_single hone.single huser]
    exact ⟨List.mem_flatMap.mpr ⟨br, hbr, hs.1⟩, List.mem_flatMap.mpr ⟨b, hb', hx⟩⟩
  have hfails : ¬ b.when.all holds = true := by simp [hfail b hpre]
  split at hxkinds
  case isTrue =>
    -- at the origin's tun the other branch's own conditions stand
    rw [stepRoute_of_not_relay hxkinds.1, hxkinds.2] at hconds
    exact absurd hconds hfails
  case isFalse hdownstream =>
    rw [if_neg hdownstream] at hskinds
    by_cases hdiverges : Diverges m.steps s
    · have hxdiverges : Diverges m.steps x := by
        refine ⟨hxkinds.1, ?_⟩
        rw [PendingRule.arrival, harrival.1, harrival.2.2]
        exact hdiverges.2
      rw [← hxkinds.2] at hfails
      exact absurd (h.diverging_conditions hsteps.2 hxdiverges
        (hxkinds.2 ▸ hone.conditions b hb') hconds) hfails
    · exact hactions.agree hsteps.1 hsteps.2 hskinds.1 hxkinds.1 harrival hdiverges

end Agreement

section Travel

variable {m : Network} {out : Configs} {p : Path} {br : Branch} {holds : String → Bool}

/-- At each place of the way up of the first branch whose conditions hold, a packet is treated as
the branch's step there says. -/
theorem Accepted.hop_up (h : Accepted m out) (hone : OnePath m p) (hclear : NamesClear m p)
    {pre post : List Branch} (hroutes : p.routes = pre ++ br :: post)
    (hfail : ∀ b ∈ pre, b.when.all holds = false) (hholds : br.when.all holds = true)
    {s : PendingRule} (hs : s ∈ upSteps m.linkMap p (m.tunOf p) br) :
    ∃ cn, out.lookup s.node = some cn ∧
      m.hop out p holds false s.place = m.follow s.node cn s.route.action := by
  have hp : p ∈ m.paths := by simp [hone.single]
  have huser := hone.userspace
  have hbr : br ∈ p.routes := by simp [hroutes]
  have hbranch : s ∈ branchSteps m.linkMap p (m.tunOf p) br := List.mem_append_left _ hs
  have hsteps : m.steps = (pre ++ [br]).flatMap (branchSteps m.linkMap p (m.tunOf p)) ++
      post.flatMap (branchSteps m.linkMap p (m.tunOf p)) := by
    rw [steps_of_single hone.single huser, hroutes, ← List.flatMap_append, List.append_assoc]
    rfl
  have hfront : s ∈ (pre ++ [br]).flatMap (branchSteps m.linkMap p (m.tunOf p)) :=
    List.mem_flatMap.mpr ⟨br, by simp, hbranch⟩
  obtain ⟨⟨cn, hcn⟩, -⟩ := h.step_on (hsteps ▸ List.mem_append_left _ hfront)
  have hsends : m.Sends p s.node s.route.action.target := by
    refine (h.step_sends hp huser hbr hbranch).resolve_right ?_
    rintro ⟨hgateway, hdown, -⟩
    obtain ⟨last, hlast, -⟩ := h.gateway_links hp hbr hgateway
    refine hone.down br hbr (fun hup => ?_) hdown
    simp [linksOf, hup] at hlast
  refine ⟨cn, hcn, hop_eq_follow hcn ?_⟩
  rw [h.routes_eq hcn, find_sorted_unprocessed]
  exact h.find_step hclear.texts hsteps hfront (upSteps_processed hs)
    (h.taken_of_sends hp huser hcn hsends) (h.own_conditions hp huser hbr hbranch hholds)
    fun x hx => h.up_agree hone hclear.actions hroutes hfail hs hx

/-- From the end of any up-link the packet travels the rest of the up-links to the gateway. -/
theorem Accepted.travels_up (h : Accepted m out) (hone : OnePath m p) (hclear : NamesClear m p)
    {pre post : List Branch} (hroutes : p.routes = pre ++ br :: post)
    (hfail : ∀ b ∈ pre, b.when.all holds = false) (hholds : br.when.all holds = true)
    (hgateway : br.gateway ≠ "") {front rest : List Link} {l : Link}
    (hup : linksOf m.linkMap br.up = front ++ l :: rest) :
    Travels (m.hop out p holds false) (targetOf l, l.name) (rest.map Link.name)
      (.finalized br.gateway br.egress (replyTarget m.linkMap (m.tunOf p) br)) := by
  have hp : p ∈ m.paths := by simp [hone.single]
  have huser := hone.userspace
  have hbr : br ∈ p.routes := by simp [hroutes]
  induction rest generalizing front l with
  | nil =>
    obtain ⟨last, hlast, hgw, -⟩ := h.gateway_links hp hbr hgateway
    obtain rfl : l = last := by simpa [hup] using hlast
    have hplace : (gatewayStep m.linkMap p (m.tunOf p) br).place = (targetOf l, l.name) := by
      simp [PendingRule.place, gatewayStep, rule, hgw, hup]
    obtain ⟨cn, -, hhop⟩ := h.hop_up hone hclear hroutes hfail hholds
      ((mem_upSteps hgateway).mpr (.inr (.inr rfl)))
    rw [hplace, follow_finalize ((h.valid.paths p hp huser).branches br hbr).egress] at hhop
    exact .stop hhop
  | cons next rest ih =>
    have hhops : (l, next) ∈ hops (linksOf m.linkMap br.up) := hup ▸ hop_mem front rest l next
    obtain ⟨cn, hcn, hhop⟩ := h.hop_up hone hclear hroutes hfail hholds
      ((mem_upSteps hgateway).mpr (.inr (.inl ⟨_, hhops, rfl⟩)))
    have hnext : next ∈ m.links := h.up_mem hp huser hbr (by simp [hup])
    have hsender := (h.trips p hp huser br hbr hgateway).up _ hhops
    refine .pass (hhop.trans (h.follow_link hnext hsender hcn)) (@ih (front ++ [l]) next ?_)
    rw [hup, List.append_assoc]
    rfl

/-- The gateway answers on the branch's first down-link, or else on the tun. -/
theorem Accepted.replyTarget_eq (h : Accepted m out) (hp : p ∈ m.paths) (huser : m.Userspace p)
    (hbr : br ∈ p.routes) : replyTarget m.linkMap (m.tunOf p) br = br.down.headD (m.tunOf p) := by
  have hnames := h.linksOf_names hp huser hbr (List.subset_append_right br.up br.down)
  unfold replyTarget
  conv_rhs => rw [← hnames]
  split <;> rename_i hdown <;> rw [hdown] <;> rfl

/-- From the origin's tun the packet travels the branch's up-links and is finalized. -/
theorem Accepted.travels_branch (h : Accepted m out) (hone : OnePath m p)
    (hclear : NamesClear m p) {pre post : List Branch} (hroutes : p.routes = pre ++ br :: post)
    (hfail : ∀ b ∈ pre, b.when.all holds = false) (hholds : br.when.all holds = true) :
    Travels (m.hop out p holds false) (p.node, m.tunOf p) br.up
      (.finalized (if br.up = [] then p.node else br.gateway) br.egress
        (br.down.headD (m.tunOf p))) := by
  have hp : p ∈ m.paths := by simp [hone.single]
  have huser := hone.userspace
  have hbr : br ∈ p.routes := by simp [hroutes]
  have hegress := ((h.valid.paths p hp huser).branches br hbr).egress
  rw [← h.replyTarget_eq hp huser hbr]
  by_cases hup : br.up = []
  · obtain ⟨-, hdown, hgateway⟩ : br.up = [] ∧ br.down = [] ∧ br.gateway = "" :=
      (gatewayOf_eq_ok (h.gateways p hp br hbr)).resolve_right fun ⟨last, hlast, _⟩ => by
        simp [linksOf, hup] at hlast
    obtain ⟨cn, -, hhop⟩ := h.hop_up hone hclear hroutes hfail hholds
      (s := localStep p (m.tunOf p) br) (by simp [upSteps, hgateway])
    rw [follow_finalize hegress] at hhop
    rw [if_pos hup, hup]
    simp only [replyTarget, linksOf, hdown, List.map_nil]
    exact .stop hhop
  · have hgateway := hclear.gateways br hbr hup
    obtain ⟨cn, hcn, hhop⟩ := h.hop_up hone hclear hroutes hfail hholds
      ((mem_upSteps hgateway).mpr (.inl rfl))
    have hnames := h.linksOf_names hp huser hbr (List.subset_append_left br.up br.down)
    rw [if_neg hup, ← hnames]
    cases hlinks : linksOf m.linkMap br.up with
    | nil => exact absurd (by simpa [hlinks] using hnames.symm) hup
    | cons l rest =>
      have hsplit : linksOf m.linkMap br.up = [] ++ l :: rest := hlinks
      have hl : l ∈ m.links := h.up_mem hp huser hbr (by simp [hlinks])
      have hleaves := (h.trips p hp huser br hbr hgateway).leaves
      simp only [originStep, rule, hlinks, List.headD_cons] at hleaves hhop hcn
      exact .pass (hhop.trans (h.follow_link hl hleaves hcn))
        (h.travels_up hone hclear hroutes hfail hholds hgateway hsplit)

end Travel

/-- A packet from the origin's tun travels exactly the up-links of the first branch whose
condition holds. It is finalized at that branch's gateway, or at the origin for a local branch,
through the branch's egress, with the first down-link, or the tun, as the reply target. -/
theorem up_leg_preserved {n m : Network} {out : Configs} (hvalid : n.validate = .ok m)
    (hcompile : m.compile = .ok out) {p : Path} (hone : OnePath m p) (hclear : NamesClear m p)
    (holds : String → Bool) :
    ∃ br, p.routes.find? (fun b => b.when.all holds) = some br ∧
      ∀ fuel, br.up.length < fuel →
        walk (m.hop out p holds false) fuel (p.node, m.tunOf p) =
          (br.up, some (.finalized (if br.up = [] then p.node else br.gateway) br.egress
            (br.down.headD (m.tunOf p)))) := by
  have h := accepted_of_compile hvalid hcompile
  obtain ⟨default, hdefault, hwhen⟩ := (h.valid.paths p (by simp [hone.single])
    hone.userspace).default
  cases hfound : p.routes.find? (fun b => b.when.all holds) with
  | none =>
    have hnone := List.find?_eq_none.mp hfound default hdefault
    simp [hwhen] at hnone
  | some br =>
    obtain ⟨hholds, pre, post, hroutes, hfail⟩ := List.find?_eq_some_iff_append.mp hfound
    refine ⟨br, rfl, fun fuel hfuel => ?_⟩
    refine (h.travels_branch hone hclear hroutes (fun b hb => ?_) hholds).walk_eq hfuel
    simpa using hfail b hb

/-- The decidable part of what the way up needs. -/
def upLegCheck (m : Network) (p : Path) : Bool :=
  decide (m.Userspace p) && decide (m.TextsApart false) && decide m.ActionsApart &&
    p.routes.all fun br => decide (br.when.length ≤ 1) && decide br.up.Nodup &&
      decide (br.up ≠ [] → br.down ≠ [] ∧ br.gateway ≠ "")

/-- What the check of an example says. -/
theorem of_upLegCheck {m : Network} {p : Path} (hsingle : m.paths = [p])
    (h : upLegCheck m p = true) : OnePath m p ∧ NamesClear m p := by
  simp only [upLegCheck, Bool.and_eq_true, decide_eq_true_eq, List.all_eq_true] at h
  obtain ⟨⟨⟨huser, htexts⟩, hactions⟩, hroutes⟩ := h
  exact ⟨⟨hsingle, huser, fun br hbr => (hroutes br hbr).1.1, fun br hbr => (hroutes br hbr).1.2,
      fun br hbr hup => ((hroutes br hbr).2 hup).1⟩,
    ⟨htexts, hactions, fun br hbr hup => ((hroutes br hbr).2 hup).2⟩⟩

/-- A path whose two branches go to one relay and part there, and come back through it. -/
def forkedNetwork : Network where
  psk := "shared"
  mtu := 1360
  subnet := "10.0.0.0/24"
  protocols := (∅ : FMap String ProtocolSpec).insert "udp" { transport := "udp" }
  conditions := (∅ : FMap String ConditionSpec).insert "near"
    { dstIn := some { list := ["10.9.0.0/16"] } }
  nodes := (∅ : FMap String Node).insert "g"
      { ip := "1.1.1.1"
        egresses := (∅ : FMap String Config.Egress).insert "a"
          { mode := "kernel", extIface := "eth0" } }
    |>.insert "h"
      { ip := "1.1.1.2"
        egresses := (∅ : FMap String Config.Egress).insert "b"
          { mode := "kernel", extIface := "eth0" } }
    |>.insert "v" { ip := "1.1.1.3" }
    |>.insert "o"
      { ip := "1.1.1.4"
        connections := (∅ : FMap String Conn).insert "T"
          { type := "tun", ip := "10.0.0.2", captureDefault := true } }
  links := [("ov", "o", "v", 1), ("vg", "v", "g", 2), ("vh", "v", "h", 3), ("gv", "g", "v", 4),
      ("hv", "h", "v", 5), ("vo", "v", "o", 6)].map fun (name, dialer, acceptor, port) =>
    { name, dialer, acceptor, port, dataflow := toAcceptor, protocol := "udp" }
  paths := [{ name := "o", node := "o", routes := [
    { when := ["near"], egress := "a", up := ["ov", "vg"], down := ["gv", "vo"] },
    { egress := "b", up := ["ov", "vh"], down := ["hv", "vo"] }] }]

/-- The packets of that path go up to the gateway of their branch and are finalized there. -/
theorem up_leg_preserved_forked : ∃ m out p, forkedNetwork.validate = .ok m ∧
    m.compile = .ok out ∧ m.paths = [p] ∧
    walk (m.hop out p (fun _ => true) false) 3 ("o", "T") =
      (["ov", "vg"], some (.finalized "g" "a" "gv")) ∧
    walk (m.hop out p (fun _ => false) false) 3 ("o", "T") =
      (["ov", "vh"], some (.finalized "h" "b" "hv")) := by
  have hcheck : forkedNetwork.compilesTo (fun m _ => m.paths.length == 1 && m.paths.all fun p =>
      upLegCheck m p && decide ((p.node, m.tunOf p) = ("o", "T")) && decide (p.routes = [
        { when := ["near"], egress := "a", up := ["ov", "vg"], down := ["gv", "vo"],
          gateway := "g" },
        { egress := "b", up := ["ov", "vh"], down := ["hv", "vo"], gateway := "h" }])) = true := by
    decide +kernel
  obtain ⟨m, out, p, hvalid, hcompile, hsingle, hp⟩ := exists_of_compilesTo_single hcheck
  simp only [Bool.and_eq_true, decide_eq_true_eq] at hp
  obtain ⟨⟨hcheck, hstart⟩, hroutes⟩ := hp
  obtain ⟨hone, hclear⟩ := of_upLegCheck hsingle hcheck
  obtain ⟨near, hnear, hwalk⟩ := up_leg_preserved hvalid hcompile hone hclear fun _ => true
  obtain ⟨far, hfar, hwalk'⟩ := up_leg_preserved hvalid hcompile hone hclear fun _ => false
  rw [hroutes] at hnear hfar
  obtain rfl := Option.some.inj hnear
  obtain rfl := Option.some.inj hfar
  rw [hstart] at hwalk hwalk'
  refine ⟨m, out, p, hvalid, hcompile, hsingle, ?_, ?_⟩
  · exact hwalk 3 (by decide)
  · exact hwalk' 3 (by decide)

/-- A path through one node twice, on links whose names run together when they are joined by
bars. -/
def barNetwork : Network where
  psk := "shared"
  mtu := 1360
  subnet := "10.0.0.0/24"
  protocols := (∅ : FMap String ProtocolSpec).insert "udp" { transport := "udp" }
  nodes := (∅ : FMap String Node).insert "g"
      { ip := "1.1.1.1"
        egresses := (∅ : FMap String Config.Egress).insert "a"
          { mode := "kernel", extIface := "eth0" } }
    |>.insert "v" { ip := "1.1.1.2" }
    |>.insert "w" { ip := "1.1.1.3" }
    |>.insert "o"
      { connections := (∅ : FMap String Conn).insert "T"
          { type := "tun", ip := "10.0.0.2", captureDefault := true } }
  links := [
    { name := "x", dialer := "o", acceptor := "v", dataflow := toAcceptor, protocol := "udp",
      port := 1 },
    { name := "|y", dialer := "v", acceptor := "w", dataflow := toAcceptor, protocol := "udp",
      port := 2 },
    { name := "x|", dialer := "w", acceptor := "v", dataflow := toAcceptor, protocol := "udp",
      port := 3 },
    { name := "y", dialer := "v", acceptor := "g", dataflow := toAcceptor, protocol := "udp",
      port := 4 },
    { name := "d", dialer := "o", acceptor := "g", dataflow := toDialer, protocol := "udp",
      port := 5, multiple := true, idSetter := "T" }]
  paths := [{ name := "o", node := "o",
              routes := [{ egress := "a", up := ["x", "|y", "x|", "y"], down := ["d"] }] }]

/-- The packets of that path are dropped on their second visit: the rule for it has the text of
the rule for the first visit, and is left out. -/
theorem second_visit_dropped : ∃ m out p br, barNetwork.validate = .ok m ∧ m.compile = .ok out ∧
    m.paths = [p] ∧ p.routes = [br] ∧ br.up = ["x", "|y", "x|", "y"] ∧
    walk (m.hop out p (fun _ => true) false) 5 (p.node, m.tunOf p) =
      (["x", "|y", "x|"], some .dropped) := by
  have hcheck : barNetwork.compilesTo (fun m out => m.paths.length == 1 && m.paths.all fun p =>
      p.routes.length == 1 && p.routes.all (fun br => br.up == ["x", "|y", "x|", "y"]) &&
      walk (m.hop out p (fun _ => true) false) 5 (p.node, m.tunOf p) ==
        (["x", "|y", "x|"], some .dropped)) = true := by
    decide +kernel
  obtain ⟨m, out, p, hvalid, hcompile, hsingle, hp⟩ := exists_of_compilesTo_single hcheck
  simp only [Bool.and_eq_true, beq_iff_eq, List.length_eq_one_iff] at hp
  obtain ⟨⟨⟨br, hbr⟩, hup⟩, hwalk⟩ := hp
  exact ⟨m, out, p, br, hvalid, hcompile, hsingle, hbr, by simpa [hbr] using hup, hwalk⟩

end Dualnet.Schema
