import Dualnet.Schema.DownLeg

/-!
# Dead rules

A rule is dead when an earlier one for the same packets, with no condition that it does not have
itself, takes another action and sends on a connection that accepts every packet.
`no_dead_rule_iff`: no rule of a compiled network is dead if the branches are told apart wherever
two rules that they call for meet and part. Branches of one path that part are told apart by their
conditions, downstream of the origin by the `dst_in` ones. Nothing tells apart two paths that share
an up-link, two default branches, or replies: the rules for a down-link that two branches share and
leave differently both stand, and the first decides.
-/

namespace Dualnet.Schema

open Library Text
open Config (Route Connection)

/-- Rule `r`, where it comes first, takes all packets of rule `r'` and does something else with
them: its target is an outgoing connect connection, which accepts every packet. -/
structure Kills (cn : Config.Node) (r r' : Route) : Prop where
  processed : r.on.processed = r'.on.processed
  source : r.on.source = r'.on.source
  conditions : r.on.conditions ⊆ r'.on.conditions
  action : r.action ≠ r'.action
  connect : ∃ c, connectionNamed cn r.action.target = some c ∧ c.type = "connect" ∧
    c.direction = "outgoing"

/-- No rule of a node is dead. -/
def NoDeadRule (out : Configs) : Prop :=
  ∀ v cn, out.lookup v = some cn → cn.routes.Pairwise fun r r' => ¬ Kills cn r r'

section Condition

variable (m : Network)

/-- Node `v` dials the link of this name and sends on it. -/
def Network.Dials (v name : String) : Prop :=
  ∃ l ∈ m.links, l.name = name ∧ l.dialer = v ∧ l.dataflow = toAcceptor

/-- What tells the packets of a step from others: the conditions of its branch at the origin, the
`dst_in` conditions of its branch downstream, and nothing for replies. -/
def Network.told (s : PendingRule) : List String :=
  if s.relay then m.restated s else s.route.on.conditions

/-- Two steps meet and part, the first sends on a link it dials, and nothing that tells its packets
is missing from what tells those of the second. -/
@[mk_iff]
structure Shadows (s s' : PendingRule) : Prop where
  arrival : SameArrival s s'
  told : m.told s ⊆ m.told s'
  action : s.route.action ≠ s'.route.action
  dials : m.Dials s.node s.route.action.target

/-- A step that delivers a reply to the tun of its node. Its rule is moved to the front. -/
def Network.GoesHome (s : PendingRule) : Prop :=
  s.route.on.processed = some true ∧ (m.node s.node).originTun = some s.route.action.target

/-- Two steps that call for the same rule. -/
def Network.CallAlike (s s' : PendingRule) : Prop :=
  SameArrival s s' ∧ m.told s = m.told s' ∧ s.route.action = s'.route.action

/-- A step that is shadowed by an earlier one delivers a reply to its node's tun, or its rule is
called for before the earlier one already. -/
def Network.ToldApart : Prop :=
  ∀ pre s post, m.steps = pre ++ s :: post → ∀ s' ∈ post, Shadows m s s' →
    m.GoesHome s' ∨ ∃ t ∈ pre, m.CallAlike t s'

instance (v name : String) : Decidable (m.Dials v name) :=
  inferInstanceAs (Decidable (∃ l ∈ m.links, _))

instance (s s' : PendingRule) : Decidable (Shadows m s s') :=
  @decidable_of_iff _ _ (shadows_iff m s s').symm inferInstance

instance (s : PendingRule) : Decidable (m.GoesHome s) := inferInstanceAs (Decidable (_ ∧ _))

instance (s s' : PendingRule) : Decidable (m.CallAlike s s') := inferInstanceAs (Decidable (_ ∧ _))

instance : Decidable m.ToldApart := decidable_of_iff _ forall_splits_iff.symm

end Condition

section Steps

/-- Symmetry. -/
theorem SameArrival.symm {s s' : PendingRule} (h : SameArrival s s') : SameArrival s' s :=
  ⟨h.1.symm, h.2.1.symm, h.2.2.symm⟩

/-- Transitivity. -/
theorem SameArrival.trans {s s' t : PendingRule} (h : SameArrival s s') (h' : SameArrival s' t) :
    SameArrival s t := ⟨h.1.trans h'.1, h.2.1.trans h'.2.1, h.2.2.trans h'.2.2⟩

variable {m : Network} {out : Configs} {v : String} {cn : Config.Node} {s s' t : PendingRule}

/-- The connect connections a node sends on are those of the links it dials. -/
theorem Accepted.connects_iff (h : Accepted m out) (hcn : out.lookup v = some cn) (name : String) :
    (∃ c, connectionNamed cn name = some c ∧ c.type = "connect" ∧ c.direction = "outgoing") ↔
      m.Dials v name := by
  constructor
  · rintro ⟨c, hc, htype, hdirection⟩
    obtain ⟨nd, -, hconfig⟩ := h.configs v cn hcn
    have hname : c.name = name := by simpa using List.find?_some hc
    have hmem := List.mem_of_find?_eq_some hc
    rw [hconfig.connections] at hmem
    obtain ⟨own, hown, rfl⟩ := List.mem_map.mp hmem
    rw [Connection.defaults_eq] at hname htype hdirection
    rcases List.mem_append.mp hown with hbase | hlink
    · unfold Network.baseConfig Node.tunConnections at hbase
      dsimp only at hbase
      split at hbase
      · cases hbase
      · obtain ⟨tn, -, htun⟩ := List.mem_filterMap.mp hbase
        obtain ⟨-, htun⟩ := Option.ite_none_right_eq_some.mp htun
        obtain rfl := Option.some.inj htun
        simp at htype
    · obtain ⟨l, hl, hc⟩ := List.mem_flatMap.mp hlink
      rcases List.mem_append.mp hc with hc | hc
      · obtain ⟨hv, rfl⟩ := List.mem_ite_nil_right.mp hc |>.imp id List.mem_singleton.mp
        refine ⟨l, hl, hname, hv.symm, by_contra fun hflow => ?_⟩
        simp [Network.dialerConnection, hflow] at hdirection
      · obtain ⟨-, rfl⟩ := List.mem_ite_nil_right.mp hc |>.imp id List.mem_singleton.mp
        exact absurd htype (by simp [Network.acceptorConnection])
  · rintro ⟨l, hl, rfl, rfl, hflow⟩
    have hc : m.dialerConnection l ∈ m.linkConnections l.dialer l := by
      simp [Network.linkConnections]
    obtain ⟨cn', hcn', -, hfound⟩ := h.end_connection hl (.inl rfl) hc
    obtain rfl := Option.some.inj (hcn.symm.trans hcn')
    refine ⟨_, hfound, ?_⟩
    rw [Connection.defaults_eq]
    exact ⟨rfl, if_pos hflow⟩

/-- Packets arriving at a relay arrive at no origin. -/
theorem Accepted.relay_of_arrival (h : Accepted m out) (hs : s ∈ m.steps) (hs' : s' ∈ m.steps)
    (harrival : SameArrival s s') (hrelay : s.relay = true) : s'.relay = true := by
  obtain ⟨hnode, hflag, hsource⟩ := harrival
  obtain ⟨p, hp, hs⟩ := List.mem_flatMap.mp hs
  obtain ⟨huser, br, hbr, hs⟩ := mem_pathSteps.mp hs
  obtain ⟨p', hp', hs'⟩ := List.mem_flatMap.mp hs'
  obtain ⟨huser', br', hbr', hs'⟩ := mem_pathSteps.mp hs'
  rcases h.step_kinds hp huser hbr hs with ⟨hno, -⟩ | ⟨-, -, l, hl, hsnode, hon⟩ | ⟨hno, -⟩
  case inl | inr.inr => exact absurd hrelay (by simp [hno])
  rcases h.step_kinds hp' huser' hbr' hs' with ⟨-, hsnode', hon'⟩ | ⟨hyes, -⟩ | ⟨-, l', -, -, hon'⟩
  · rw [hsnode, hsnode'] at hnode
    rw [hon, hon'] at hsource
    exact absurd hsource (h.tun_ne_link (h.up_mem hp huser hbr hl)
      (hnode ▸ targetOf_eq_or l) (h.originTun hp' huser'))
  · exact hyes
  · simp [hon, hon'] at hflag

/-- Where two steps meet and part, each has the conditions that tell its packets. -/
theorem Accepted.conditions_eq_told (h : Accepted m out) (hactions : m.ActionsApart)
    (hs : s ∈ m.steps) (hs' : s' ∈ m.steps) (harrival : SameArrival s s')
    (haction : s.route.action ≠ s'.route.action) :
    (m.stepRoute s).on.conditions = m.told s := by
  unfold Network.told
  split
  case isFalse hrelay => rw [stepRoute_of_not_relay (by simpa using hrelay)]
  case isTrue hrelay =>
    have hrelay' := h.relay_of_arrival hs hs' harrival hrelay
    have hdiverges : Diverges m.steps s := by_contra fun hno =>
      haction (hactions.agree hs hs' hrelay hrelay' harrival.symm hno).symm
    rw [Network.stepRoute, Network.qualified, if_pos hdiverges]

/-- The rule of one step kills that of another one if it shadows it. -/
theorem Accepted.kills_iff (h : Accepted m out) (hactions : m.ActionsApart) (hs : s ∈ m.steps)
    (hs' : s' ∈ m.steps) (hnode : s.node = s'.node) (hcn : out.lookup s.node = some cn) :
    Kills cn (m.stepRoute s) (m.stepRoute s') ↔ Shadows m s s' := by
  constructor
  · rintro ⟨hflag, hsource, hsub, haction, hconnect⟩
    rw [stepRoute_processed, stepRoute_processed] at hflag
    rw [stepRoute_source, stepRoute_source] at hsource
    rw [stepRoute_action, stepRoute_action] at haction
    rw [stepRoute_action, h.connects_iff hcn] at hconnect
    have harrival : SameArrival s s' := ⟨hnode, hflag, hsource⟩
    rw [h.conditions_eq_told hactions hs hs' harrival haction,
      h.conditions_eq_told hactions hs' hs harrival.symm haction.symm] at hsub
    exact ⟨harrival, hsub, haction, hconnect⟩
  · rintro ⟨harrival, htold, haction, hdials⟩
    refine ⟨?_, ?_, ?_, ?_, ?_⟩
    · rw [stepRoute_processed, stepRoute_processed, harrival.2.1]
    · rw [stepRoute_source, stepRoute_source, harrival.2.2]
    · rwa [h.conditions_eq_told hactions hs hs' harrival haction,
        h.conditions_eq_told hactions hs' hs harrival.symm haction.symm]
    · rwa [stepRoute_action, stepRoute_action]
    · rwa [stepRoute_action, h.connects_iff hcn]

/-- Of the steps that part from `s` where they meet it, those with one rule are those that call
alike. -/
theorem Accepted.callAlike_iff (h : Accepted m out) (hactions : m.ActionsApart)
    (hs : s ∈ m.steps) (hs' : s' ∈ m.steps) (ht : t ∈ m.steps) (harrival : SameArrival s s')
    (haction : s.route.action ≠ s'.route.action) :
    m.CallAlike t s' ↔ t.node = s'.node ∧ m.stepRoute t = m.stepRoute s' := by
  have htold' := h.conditions_eq_told hactions hs' hs harrival.symm haction.symm
  have htold : SameArrival t s' → t.route.action = s'.route.action →
      (m.stepRoute t).on.conditions = m.told t := fun hmeets heq =>
    h.conditions_eq_told hactions ht hs (hmeets.trans harrival.symm) (heq ▸ haction.symm)
  have hroute : m.stepRoute t = m.stepRoute s' ↔
      t.route.on.processed = s'.route.on.processed ∧ t.route.on.source = s'.route.on.source ∧
        (m.stepRoute t).on.conditions = (m.stepRoute s').on.conditions ∧
        t.route.action = s'.route.action := by
    rw [← stepRoute_processed t, ← stepRoute_processed s', ← stepRoute_source t,
      ← stepRoute_source s', ← stepRoute_action t, ← stepRoute_action s']
    generalize m.stepRoute t = r
    generalize m.stepRoute s' = r'
    obtain ⟨⟨_, _, _⟩, _⟩ := r
    obtain ⟨⟨_, _, _⟩, _⟩ := r'
    simp [and_assoc]
  constructor
  · rintro ⟨hmeets, heq, hact⟩
    exact ⟨hmeets.1, hroute.mpr
      ⟨hmeets.2.1, hmeets.2.2, by rw [htold hmeets hact, heq, htold'], hact⟩⟩
  · rintro ⟨hnode, heq⟩
    obtain ⟨hflag, hsource, hconditions, hact⟩ := hroute.mp heq
    have hmeets : SameArrival t s' := ⟨hnode, hflag, hsource⟩
    exact ⟨hmeets, by rw [← htold hmeets hact, hconditions, htold'], hact⟩

variable (m v) in
/-- The final sort moves this rule to the front. -/
def Network.movedFirst (r : Route) : Bool :=
  (m.node v).originTun.any fun tun => isProcessedTun tun r

/-- What holds from the rules moved to the front to every rule holds along the sorted rules if it
holds along the rules as they were, up to those that are moved. -/
theorem pairwise_sorted_iff {R : Route → Route → Prop} {routes : List Route}
    (hfirst : ∀ r r', m.movedFirst v r = true → R r r') :
    (m.sorted v routes).Pairwise R ↔
      routes.Pairwise fun r r' => m.movedFirst v r' = false → R r r' := by
  unfold Network.sorted
  unfold Network.movedFirst at hfirst ⊢
  cases htun : (m.node v).originTun with
  | none => simp
  | some tun =>
    simp only [htun, Option.any_some] at hfirst
    simp only [Option.any_some, tunFirst, List.pairwise_append, List.pairwise_filter, Bool.not_eq_true']
    constructor
    · rintro ⟨-, hrest, -⟩
      refine hrest.imp fun {r r'} hpair hstays => ?_
      cases hmoved : isProcessedTun tun r with
      | true => exact hfirst r r' hmoved
      | false => exact hpair hmoved hstays
    · intro hpairs
      refine ⟨List.pairwise_of_forall fun r r' hmoved _ => hfirst r r' hmoved,
        hpairs.imp fun hpair _ hstays => hpair hstays, fun r hr r' _ => ?_⟩
      exact hfirst r r' (List.mem_filter.mp hr).2

/-- The rules moved to the front kill nothing: no link that a node dials has the name of its
tun. -/
theorem Accepted.not_kills_of_movedFirst (h : Accepted m out) (hcn : out.lookup v = some cn)
    (r r' : Route) (hmoved : m.movedFirst v r = true) : ¬ Kills cn r r' := by
  intro hkills
  obtain ⟨l, hl, hname, hdialer, -⟩ := (h.connects_iff hcn _).mp hkills.connect
  obtain ⟨tun, htun, hhome⟩ := (Option.any_eq_true _ _).mp hmoved
  have htarget : r.action.target = tun := by
    simp only [isProcessedTun, Bool.and_eq_true, beq_iff_eq] at hhome
    exact hhome.2
  exact h.tun_ne_link hl (.inl hdialer.symm) htun (hname.trans htarget)

/-- The rule of a step is moved to the front if it delivers to the tun of its node. -/
theorem movedFirst_stepRoute (s : PendingRule) :
    m.movedFirst s.node (m.stepRoute s) = true ↔ m.GoesHome s := by
  simp only [Network.movedFirst, Option.any_eq_true, isProcessedTun, Bool.and_eq_true, beq_iff_eq,
    stepRoute_processed, stepRoute_action, Network.GoesHome]
  exact ⟨fun ⟨tun, htun, hflag, htarget⟩ => ⟨hflag, htarget ▸ htun⟩,
    fun ⟨hflag, htun⟩ => ⟨_, htun, hflag, rfl⟩⟩

/-- On one node, no rule is dead if its steps are told apart. -/
theorem Accepted.alive_of_toldApart (h : Accepted m out) (hactions : m.ActionsApart)
    (htold : m.ToldApart) (hcn : out.lookup v = some cn) :
    cn.routes.Pairwise fun r r' => ¬ Kills cn r r' := by
  rw [h.routes_eq hcn, pairwise_sorted_iff (h.not_kills_of_movedFirst hcn)]
  refine pairwise_keepFirst fun pre r post hroutes r' hr' _ hpre hstays hkills => ?_
  obtain ⟨before, s, after, hsteps, hnode, rfl, rfl, rfl⟩ := exists_split_of_map_filter hroutes
  obtain ⟨s', hs', rfl⟩ := List.mem_map.mp hr'
  obtain ⟨hafter, hnode'⟩ := List.mem_filter.mp hs'
  rw [decide_eq_true_eq] at hnode hnode'
  have hmem : s ∈ m.steps := by simp [hsteps]
  have hmem' : s' ∈ m.steps := by simp [hsteps, hafter]
  subst hnode
  have hshadows := (h.kills_iff hactions hmem hmem' hnode'.symm hcn).mp hkills
  rcases htold before s after hsteps s' hafter hshadows with hhome | ⟨t, ht, halike⟩
  · rw [← movedFirst_stepRoute, hnode', hstays] at hhome
    cases hhome
  · have htmem : t ∈ m.steps := by simp [hsteps, ht]
    obtain ⟨htnode, heq⟩ := (h.callAlike_iff hactions hmem hmem' htmem hshadows.arrival
      hshadows.action).mp halike
    refine hpre (m.stepRoute t) (List.mem_map_of_mem (List.mem_filter.mpr ⟨ht, ?_⟩)) (by rw [heq])
    rw [htnode, hnode', decide_eq_true rfl]

/-- Where the texts of the rules do not clash and no rule is dead, the steps are told apart. -/
theorem Accepted.toldApart_of_alive (h : Accepted m out) (hactions : m.ActionsApart)
    (hforward : m.TextsApart false) (hreply : m.TextsApart true) (halive : NoDeadRule out) :
    m.ToldApart := by
  intro pre s post hsteps s' hs' hshadows
  by_contra hneither
  rw [not_or] at hneither
  obtain ⟨hstays, hfirst⟩ := hneither
  have hmem : s ∈ m.steps := by simp [hsteps]
  have hmem' : s' ∈ m.steps := by simp [hsteps, hs']
  obtain ⟨⟨cn, hcn⟩, -, -⟩ := h.step_on hmem
  have hnode := hshadows.arrival.1
  have hkey : ∀ x ∈ m.steps, ∀ y ∈ m.steps, x.node = y.node →
      ruleKey (m.stepRoute x) = ruleKey (m.stepRoute y) → m.stepRoute x = m.stepRoute y := by
    intro x hx y hy hxy
    obtain ⟨-, ⟨flag, hflag⟩, -⟩ := h.step_on hx
    have hx' := mem_stepRoutes.mpr ⟨x, hx, rfl, rfl⟩
    have hy' := mem_stepRoutes.mpr ⟨y, hy, hxy.symm, rfl⟩
    rw [← stepRoute_processed (m := m)] at hflag
    cases flag with
    | false => exact hforward _ _ hx' hflag _ hy'
    | true => exact hreply _ _ hx' hflag _ hy'
  have hpairs := halive _ cn hcn
  have hsplit : m.stepRoutes s.node = ((pre.filter fun t => t.node = s.node).map m.stepRoute) ++
      m.stepRoute s :: ((post.filter fun t => t.node = s.node).map m.stepRoute) := by
    simp [Network.stepRoutes, hsteps]
  rw [h.routes_eq hcn, pairwise_sorted_iff (h.not_kills_of_movedFirst hcn), hsplit] at hpairs
  have hlater : m.stepRoute s' ∈ (post.filter fun t => t.node = s.node).map m.stepRoute :=
    List.mem_map_of_mem (List.mem_filter.mpr ⟨hs', by simp [hnode]⟩)
  have hdiffer : ruleKey (m.stepRoute s) ≠ ruleKey (m.stepRoute s') := by
    intro heq
    refine hshadows.action ?_
    rw [← stepRoute_action (m := m), hkey s hmem s' hmem' hnode heq, stepRoute_action]
  have hbefore : ∀ r ∈ (pre.filter fun t => t.node = s.node).map m.stepRoute,
      ruleKey r ≠ ruleKey (m.stepRoute s') := by
    intro r hr heq
    obtain ⟨t, ht, rfl⟩ := List.mem_map.mp hr
    obtain ⟨ht, htnode⟩ := List.mem_filter.mp ht
    have htmem : t ∈ m.steps := by simp [hsteps, ht]
    have htnode : t.node = s'.node := (of_decide_eq_true htnode).trans hnode
    exact hfirst ⟨t, ht, (h.callAlike_iff hactions hmem hmem' htmem hshadows.arrival
      hshadows.action).mpr ⟨htnode, hkey t htmem s' hmem' htnode heq⟩⟩
  obtain ⟨r, hr, r', hr', hkeyr, hkeyr', hpair⟩ := exists_pair_keepFirst hpairs hlater hdiffer
    hbefore List.not_mem_nil List.not_mem_nil
  rw [← hsplit] at hr hr'
  obtain ⟨x, hx, hxnode, rfl⟩ := mem_stepRoutes.mp hr
  obtain ⟨x', hx', hxnode', rfl⟩ := mem_stepRoutes.mp hr'
  rw [hkey x hx s hmem hxnode hkeyr, hkey x' hx' s' hmem' (hxnode'.trans hnode) hkeyr'] at hpair
  refine hpair ?_ ((h.kills_iff hactions hmem hmem' hnode hcn).mpr hshadows)
  rw [← Bool.not_eq_true, hnode, movedFirst_stepRoute]
  exact hstays

end Steps

/-- No rule of a compiled network is dead if its steps are told apart. Conversely, where the texts
of the rules do not clash, no rule is dead only then. -/
theorem no_dead_rule_iff {n m : Network} {out : Configs} (hvalid : n.validate = .ok m)
    (hcompile : m.compile = .ok out) (hactions : m.ActionsApart) :
    (m.ToldApart → NoDeadRule out) ∧
      (m.TextsApart false → m.TextsApart true → (NoDeadRule out ↔ m.ToldApart)) := by
  have h := accepted_of_compile hvalid hcompile
  have henough : m.ToldApart → NoDeadRule out := fun htold _ _ hcn =>
    h.alive_of_toldApart hactions htold hcn
  exact ⟨henough, fun hforward hreply =>
    ⟨h.toldApart_of_alive hactions hforward hreply, henough⟩⟩

/-- No rule is dead on the relay where two branches of a path part. -/
theorem no_dead_rule_forked : ∃ m out cn, forkedNetwork.validate = .ok m ∧
    m.compile = .ok out ∧ NoDeadRule out ∧ out.lookup "v" = some cn ∧
    cn.routes.map (fun r => (r.on.source, r.on.conditions, r.action.target)) =
      [("ov", ["near"], "vg"), ("gv", [], "vo"), ("ov", [], "vh"), ("hv", [], "vo")] := by
  have hcheck : forkedNetwork.compilesTo (fun m out => decide m.ActionsApart &&
      decide m.ToldApart && (out.lookup "v").any fun cn => decide
        (cn.routes.map (fun r => (r.on.source, r.on.conditions, r.action.target)) =
          [("ov", ["near"], "vg"), ("gv", [], "vo"), ("ov", [], "vh"), ("hv", [], "vo")])) =
      true := by
    decide +kernel
  obtain ⟨m, out, hvalid, hcompile, hm⟩ := compilesTo_iff.mp hcheck
  simp only [Bool.and_eq_true, decide_eq_true_eq, Option.any_eq_true] at hm
  obtain ⟨⟨hactions, htold⟩, cn, hcn, hroutes⟩ := hm
  exact ⟨m, out, cn, hvalid, hcompile, (no_dead_rule_iff hvalid hcompile hactions).1 htold, hcn,
    hroutes⟩

/-- A path whose two branches come back on one link and part at its end. -/
def forkedReturnNetwork : Network :=
  { forkedNetwork with
    nodes := forkedNetwork.nodes.erase "h"
    links := [("up1", "o", "g", 1), ("up2", "o", "g", 2), ("back", "g", "v", 3),
        ("home1", "v", "o", 4), ("home2", "v", "o", 5)].map fun (name, dialer, acceptor, port) =>
      { name, dialer, acceptor, port, dataflow := toAcceptor, protocol := "udp" }
    paths := [{ name := "o", node := "o", routes := [
      { when := ["near"], egress := "a", up := ["up1"], down := ["back", "home1"] },
      { egress := "a", up := ["up2"], down := ["back", "home2"] }] }] }

/-- Where that path's ways back part, the rule of the second branch is dead: it follows a rule for
the same replies whose target is a connect connection. -/
theorem dead_reply_rule : ∃ m out cn r r', forkedReturnNetwork.validate = .ok m ∧
    m.compile = .ok out ∧
    (∀ p ∈ m.paths, p.routes.Pairwise fun b b' => ∀ c ∈ b.when, c ∉ b'.when) ∧
    out.lookup "v" = some cn ∧ cn.routes = [r, r'] ∧ Kills cn r r' := by
  have hcheck : forkedReturnNetwork.compilesTo (fun m out =>
      decide (∀ p ∈ m.paths, p.routes.Pairwise fun b b' => ∀ c ∈ b.when, c ∉ b'.when) &&
      (out.lookup "v").any fun cn => cn.routes.any fun r => cn.routes.any fun r' =>
        decide (cn.routes = [r, r']) && r.on == r'.on && r.action != r'.action &&
          (connectionNamed cn r.action.target).any fun c =>
            c.type == "connect" && c.direction == "outgoing") = true := by
    decide +kernel
  obtain ⟨m, out, hvalid, hcompile, hm⟩ := compilesTo_iff.mp hcheck
  simp only [Bool.and_eq_true, decide_eq_true_eq, Option.any_eq_true, List.any_eq_true, beq_iff_eq,
    bne_iff_ne] at hm
  obtain ⟨hconditions, cn, hcn, r, -, r', -, ⟨⟨hroutes, hon⟩, haction⟩, hconnect⟩ := hm
  exact ⟨m, out, cn, r, r', hvalid, hcompile, hconditions, hcn, hroutes, by rw [hon], by rw [hon],
    by rw [hon]; exact List.Subset.refl _, haction, hconnect⟩

end Dualnet.Schema
