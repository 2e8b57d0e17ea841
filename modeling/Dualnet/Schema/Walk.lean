import Dualnet.Library.Search
import Dualnet.Library.Walks
import Dualnet.Routing.FirstMatch
import Dualnet.Schema.Possible

/-!
# Walking a packet through a compiled network

`Network.hop` is what happens to a packet of a path's origin at one node: the node's router acts
by the first rule that fires (`route_firstRule`), and the packet is finalized, delivered to a tun
or sent on a link to its other end. Conditions hold or fail alike on all nodes; a tun takes only
the packets of its own owner, and every other connection that can send takes everything.
-/

namespace Dualnet.Schema

open Library Text Wire
open Config (Route Action Connection)

/-! ## One hop -/

/-- `compileRules`: a configured route as the router takes it. -/
def compileRule (r : Route) : Routing.Rule :=
  ⟨r.on.processed, r.on.source, r.on.conditions, r.action.egress, r.action.target⟩

/-- `compileRules`. -/
def compileRules (cn : Config.Node) : List Routing.Rule := cn.routes.map compileRule

/-- The connection is a `Sender`: a tun, or an outgoing connection. -/
def isSender (c : Connection) : Bool := c.type == "tun" || c.direction == "outgoing"

/-- What becomes of a packet. -/
inductive Fate where
  | dropped
  | finalized (node egress reply : String)
  | delivered (node tun : String)
  deriving DecidableEq

section Hop

variable (m : Network) (out : Configs) (p : Path) (holds : String → Bool) (processed : Bool)

/-- Whether a connection of node `v` takes the packets that belong to the origin tun of `p`. -/
def Network.takes (v : String) (c : Connection) : Bool :=
  c.type != "tun" || v == p.node && c.name == m.tunOf p

/-- The rule that acts on a packet received on `source` at node `v`. -/
def Network.firstRule (v source : String) (cn : Config.Node) : Option Routing.Rule :=
  (compileRules cn).find?
    (Routing.Rule.fires isSender (connectionNamed cn) some (m.takes p v) holds processed source)

/-- Take an action at node `v`: finalize, deliver to a tun, or send on a link. -/
def Network.follow (v : String) (cn : Config.Node) (a : Action) :
    Fate ⊕ String × String × String :=
  if a.egress ≠ "" then .inl (.finalized v a.egress a.target)
  else if (connectionNamed cn a.target).any (·.type == "tun") then .inl (.delivered v a.target)
  else match m.linkMap.lookup a.target with
    | none => .inl .dropped
    | some l => .inr (l.name, targetOf l, l.name)

/-- What happens to a packet at a node it arrived at on a connection. -/
def Network.hop (place : String × String) : Fate ⊕ String × String × String :=
  match out.lookup place.1 with
  | none => .inl .dropped
  | some cn =>
    match m.firstRule p holds processed place.1 place.2 cn with
    | none => .inl .dropped
    | some ru => m.follow place.1 cn ⟨ru.egress, ru.target⟩

end Hop

/-- The compiled router of a node disposes of a packet by the rule `firstRule` finds. -/
theorem route_firstRule {F : Type} {m : Network} {p : Path} {holds : String → Bool}
    {v source : String} {cn : Config.Node} {sources : List String} {finalizers : String → Option F}
    {r : Routing.Router Connection String F}
    (h : Routing.compile isSender (compileRules cn) (connectionNamed cn) sources some finalizers
      = .ok r) (hempty : finalizers "" = none) (hsource : source ∈ sources) (e : Envelope)
    (payload : Bytes) :
    (r.route (Routing.steady (m.takes p v) holds) Connection.name source e payload).1.find?
        Routing.Event.delivers =
      (m.firstRule p holds e.processed v source cn).bind
        (Routing.Rule.disposal (connectionNamed cn) finalizers e payload) :=
  Routing.route_steady h hempty hsource

/-! ## The connections of a node -/

/-- The node has a tun of this name. -/
def Node.HasTun (nd : Node) (tun : String) : Prop :=
  ∃ c, nd.connections.lookup tun = some c ∧ c.isTun = true

/-- The names the loop of `originTun` holds are those of tuns. -/
structure TunState.Of (nd : Node) (st : TunState) : Prop where
  capture : st.capture = "" ∨ nd.HasTun st.capture
  sole : st.count = 0 ∨ nd.HasTun st.sole

/-- The loop keeps this. -/
theorem TunState.Of.visit {nd : Node} {st : TunState} {e : Σ _ : String, Conn} (h : st.Of nd)
    (he : e ∈ nd.connections.entries) : (st.visit e).Of nd := by
  unfold TunState.visit
  split
  case isTrue htun =>
    have hmem : nd.HasTun e.1 := ⟨e.2, AList.mem_lookup_iff.mpr he, htun⟩
    refine ⟨?_, .inr hmem⟩
    dsimp only
    split
    · exact .inr hmem
    · exact h.capture
  case isFalse => exact h

/-- The origin tun is a tun of the node. -/
theorem originTun_hasTun {nd : Node} {tun : String} (h : nd.originTun = some tun) :
    nd.HasTun tun := by
  have hloop : (nd.connections.entries.foldl TunState.visit {}).Of nd :=
    List.foldlRecOn _ TunState.visit ⟨.inl rfl, .inl rfl⟩ fun _ hst _ he => hst.visit he
  simp only [Node.originTun] at h
  split at h
  case isTrue hne => exact Option.some.inj h ▸ hloop.capture.resolve_left hne
  case isFalse =>
    split at h
    case isTrue hone => exact Option.some.inj h ▸ hloop.sole.resolve_left (by omega)
    case isFalse => cases h

section Connections

variable {m : Network} {out : Configs} {v tun : String} {nd : Node} {cn : Config.Node}

/-- The origin tun of a node is among its tun connections. -/
theorem exists_tunConnection (htun : nd.originTun = some tun) :
    ∃ c ∈ nd.tunConnections, c.name = tun ∧ c.type = "tun" := by
  obtain ⟨conn, hconn, histun⟩ := originTun_hasTun htun
  have hkey : tun ∈ nd.connections.sortedKeys := FMap.mem_sortedKeys.mpr ⟨conn, hconn⟩
  exact ⟨_, List.mem_filterMap.mpr ⟨tun, hkey, if_pos (by simpa [hconn] using histun)⟩, rfl, rfl⟩

/-- The names of a userspace node's connections: its tuns' and its links'. -/
theorem NodeConfig.connection_names {pend : List PendingRule} (h : NodeConfig m pend v nd cn)
    (huser : nd.datapath ≠ "kernel") :
    cn.connections.map Connection.name = nd.tunConnections.map Connection.name ++
      (m.links.flatMap (m.linkConnections v)).map Connection.name := by
  have hname : Connection.name ∘ Connection.defaults = Connection.name := by
    funext c
    rw [Function.comp_apply, Connection.defaults_eq]
  rw [h.connections, List.map_map, hname, List.map_append]
  simp [Network.baseConfig, huser]

/-- A link's name is the name of a connection at each of its ends. -/
theorem linkConnection_name {l : Link} (hl : l ∈ m.links) (hv : v = l.dialer ∨ v = l.acceptor) :
    l.name ∈ (m.links.flatMap (m.linkConnections v)).map Connection.name := by
  rw [List.map_flatMap]
  refine List.mem_flatMap.mpr ⟨l, hl, ?_⟩
  rcases hv with rfl | rfl <;>
    simp [Network.linkConnections, Network.dialerConnection, Network.acceptorConnection]

/-- A node's origin tun has a name different from those of the node's links. -/
theorem Accepted.tun_ne_link (h : Accepted m out) {l : Link} (hl : l ∈ m.links)
    (hv : v = l.dialer ∨ v = l.acceptor) (htun : (m.node v).originTun = some tun) :
    l.name ≠ tun := by
  obtain ⟨nd, cn, hnd, hcn, hconfig, hdatapath⟩ := h.end_node hl hv
  have huser : nd.datapath ≠ "kernel" := by
    intro hkernel
    simp [hconfig.datapath, hkernel] at hdatapath
  rw [Network.node, hnd] at htun
  obtain ⟨c, hc, rfl, -⟩ := exists_tunConnection htun
  have hnodup := (Config.Node.connection_names hconfig.valid hdatapath).1
  rw [hconfig.connection_names huser] at hnodup
  exact fun heq => (List.nodup_append.mp hnodup).2.2 _ (List.mem_map_of_mem hc) _
    (linkConnection_name hl hv) heq.symm

/-- A link's connection at its sender is found by name and can send. -/
theorem Accepted.sender_connection (h : Accepted m out) {l : Link} (hl : l ∈ m.links)
    (hv : senderOf l = v) (hcn : out.lookup v = some cn) :
    ∃ c, connectionNamed cn l.name = some c ∧ c.type ≠ "tun" ∧ isSender c = true := by
  unfold senderOf at hv
  split at hv
  case isTrue hflow =>
    have hc : m.dialerConnection l ∈ m.linkConnections v l := by
      simp [Network.linkConnections, hv]
    obtain ⟨cn', hcn', -, hfound⟩ := h.end_connection hl (.inl hv.symm) hc
    obtain rfl := Option.some.inj (hcn.symm.trans hcn')
    refine ⟨_, hfound, ?_⟩
    simp [Connection.defaults_eq, Network.dialerConnection, isSender, hflow]
  case isFalse hflow =>
    have hc : m.acceptorConnection l ∈ m.linkConnections v l := by
      simp [Network.linkConnections, hv]
    obtain ⟨cn', hcn', -, hfound⟩ := h.end_connection hl (.inr hv.symm) hc
    obtain rfl := Option.some.inj (hcn.symm.trans hcn')
    refine ⟨_, hfound, ?_⟩
    simp [Connection.defaults_eq, Network.acceptorConnection, isSender, hflow]

/-- The origin tun of a path is found by name and has a name. -/
theorem Accepted.tun_connection (h : Accepted m out) {p : Path} (hp : p ∈ m.paths)
    (huser : m.Userspace p) (hcn : out.lookup p.node = some cn) :
    m.tunOf p ≠ "" ∧
      ∃ c, connectionNamed cn (m.tunOf p) = some c ∧ c.type = "tun" ∧ c.name = m.tunOf p := by
  have htun := h.originTun hp huser
  obtain ⟨nd, hnd, hconfig⟩ := h.configs p.node cn hcn
  have hnode : m.node p.node = nd := by rw [Network.node, hnd]; rfl
  rw [Network.Userspace, hnode] at huser
  rw [hnode] at htun
  obtain ⟨c, hc, hname, htype⟩ := exists_tunConnection htun
  have hmem : c.defaults ∈ cn.connections := by
    rw [hconfig.connections]
    exact List.mem_map_of_mem (List.mem_append_left _ (by simp [Network.baseConfig, huser, hc]))
  have hdefaults : c.defaults.name = m.tunOf p := by rw [Connection.defaults_eq]; exact hname
  obtain ⟨hnodup, hnamed⟩ := Config.Node.connection_names hconfig.valid
    (by rw [hconfig.datapath, if_neg huser])
  refine ⟨hdefaults ▸ hnamed _ hmem, c.defaults, ?_, ?_, hdefaults⟩
  · rw [← hdefaults]
    exact connectionNamed_of_mem hnodup hmem
  · rw [Connection.defaults_eq]
    exact htype

end Connections

/-! ## The rule that acts -/

section Search

variable {m : Network} {out : Configs} {p : Path} {holds : String → Bool} {processed : Bool}
  {v source : String} {cn : Config.Node}

variable (m p v cn) in
/-- Node `v` can send packets of `p` on the connection of this name. -/
def Taken (target : String) : Prop :=
  ∃ c, connectionNamed cn target = some c ∧ isSender c = true ∧ m.takes p v c = true

/-- A node takes packets where it can send. -/
theorem Accepted.taken_of_sends (h : Accepted m out) (hp : p ∈ m.paths) (huser : m.Userspace p)
    (hcn : out.lookup v = some cn) {target : String} (hsends : m.Sends p v target) :
    Taken m p v cn target := by
  rcases hsends with ⟨htun, rfl⟩ | ⟨l, hl, rfl, hsender⟩
  · obtain rfl := Option.some.inj ((h.originTun hp huser).symm.trans htun)
    obtain ⟨-, c, hc, htype, hname⟩ := h.tun_connection hp huser hcn
    exact ⟨c, hc, by simp [isSender, htype], by simp [Network.takes, hname]⟩
  · obtain ⟨c, hc, htype, hsend⟩ := h.sender_connection hl hsender hcn
    exact ⟨c, hc, hsend, by simp [Network.takes, htype]⟩

variable (m p holds processed v source cn) in
/-- A configured rule fires on a packet. -/
def Network.fires (r : Route) : Bool :=
  (compileRule r).fires isSender (connectionNamed cn) some (m.takes p v) holds processed source

/-- When the rule of a step fires. -/
theorem fires_iff {r : Route} {flag : Bool} (hflag : r.on.processed = some flag)
    (hsource : r.on.source ≠ "") :
    m.fires p holds processed v source cn r = true ↔
      flag = processed ∧ r.on.source = source ∧ Taken m p v cn r.action.target ∧
        r.on.conditions.all holds = true := by
  simp only [Network.fires, Routing.Rule.fires, Routing.Rule.matches, compileRule, hflag,
    List.filterMap_some, Bool.and_eq_true, Bool.or_eq_true, beq_iff_eq, hsource, false_or,
    Option.any_eq_true, Option.filter_eq_some_iff, Option.some.injEq, reduceCtorEq, Taken, and_assoc]

/-- The first rule that fires. -/
theorem firstRule_eq_map :
    m.firstRule p holds processed v source cn =
      (cn.routes.find? (m.fires p holds processed v source cn)).map compileRule := by
  rw [Network.firstRule, compileRules, List.find?_map]
  rfl

/-- A hop takes the action of the rule that fires first. -/
theorem hop_eq_follow {a : Action} (hcn : out.lookup v = some cn)
    (hfirst : (cn.routes.find? (m.fires p holds processed v source cn)).map Route.action
      = some a) :
    m.hop out p holds processed (v, source) = m.follow v cn a := by
  obtain ⟨r, hr, rfl⟩ := Option.map_eq_some_iff.mp hfirst
  simp only [Network.hop, hcn, firstRule_eq_map, hr, Option.map_some]
  rfl

/-- A rule with an egress ends the walk. -/
theorem follow_finalize {a : Action} (hegress : a.egress ≠ "") :
    m.follow v cn a = .inl (.finalized v a.egress a.target) := if_pos hegress

/-- Forwarding on a link takes the packet to its other end. -/
theorem Accepted.follow_link (h : Accepted m out) {l : Link} (hl : l ∈ m.links)
    (hsender : senderOf l = v) (hcn : out.lookup v = some cn) :
    m.follow v cn { target := l.name } = .inr (l.name, targetOf l, l.name) := by
  obtain ⟨c, hc, htype, -⟩ := h.sender_connection hl hsender hcn
  have hlookup : m.linkMap.lookup l.name = some l :=
    FMap.lookup_index_of_mem h.valid.link_names hl
  simp [Network.follow, hc, htype, hlookup]

/-- Forwarding to the origin's tun delivers. -/
theorem Accepted.follow_tun (h : Accepted m out) (hp : p ∈ m.paths) (huser : m.Userspace p)
    (hcn : out.lookup p.node = some cn) :
    m.follow p.node cn { target := m.tunOf p } = .inl (.delivered p.node (m.tunOf p)) := by
  obtain ⟨-, c, hc, htype, -⟩ := h.tun_connection hp huser hcn
  simp [Network.follow, hc, htype]

/-- The origin of a path is configured. -/
theorem Accepted.origin_config (h : Accepted m out) (hp : p ∈ m.paths) :
    ∃ cn, out.lookup p.node = some cn := by
  obtain ⟨-, nd, hnd⟩ := h.valid.path_known p hp
  exact h.nodes p.node nd hnd

/-- The node of a step is configured, and the step says which packets it is for. -/
theorem Accepted.step_on (h : Accepted m out) {s : PendingRule} (hs : s ∈ m.steps) :
    (∃ cn, out.lookup s.node = some cn) ∧ (∃ flag, s.route.on.processed = some flag) ∧
      s.route.on.source ≠ "" := by
  obtain ⟨p, hp, hs⟩ := List.mem_flatMap.mp hs
  obtain ⟨huser, br, hbr, hs⟩ := mem_pathSteps.mp hs
  have hlink : ∀ l ∈ m.links, (∃ cn, out.lookup (targetOf l) = some cn) ∧ l.name ≠ "" := by
    intro l hl
    obtain ⟨_, cn, -, hcn, -⟩ := h.end_node hl (targetOf_eq_or l)
    exact ⟨⟨cn, hcn⟩, (h.valid.links l hl).named⟩
  rcases h.step_kinds hp huser hbr hs with ⟨-, hnode, hon⟩ | ⟨-, -, l, hl, hnode, hon⟩ |
    ⟨-, l, hl, hnode, hon⟩
  · obtain ⟨cn, hcn⟩ := h.origin_config hp
    exact ⟨⟨cn, hnode ▸ hcn⟩, ⟨false, by rw [hon]⟩, hon ▸ (h.tun_connection hp huser hcn).1⟩
  · obtain ⟨hcn, hname⟩ := hlink l (h.up_mem hp huser hbr hl)
    exact ⟨hnode ▸ hcn, ⟨false, by rw [hon]⟩, hon ▸ hname⟩
  · obtain ⟨hcn, hname⟩ := hlink l (h.down_mem hp huser hbr hl)
    exact ⟨hnode ▸ hcn, ⟨true, by rw [hon]⟩, hon ▸ hname⟩

/-- When the rule of a step fires. -/
theorem Accepted.step_fires (h : Accepted m out) {s : PendingRule} (hs : s ∈ m.steps) :
    m.fires p holds processed v source cn (m.stepRoute s) = true ↔
      s.route.on.processed = some processed ∧ s.route.on.source = source ∧
        Taken m p v cn s.route.action.target ∧
        (m.stepRoute s).on.conditions.all holds = true := by
  obtain ⟨-, ⟨flag, hflag⟩, hsource⟩ := h.step_on hs
  rw [fires_iff (by simpa using hflag) (by simpa)]
  simp [hflag]

/-- The rules of a node whose texts are their own, searched in the order of the steps. -/
theorem Accepted.find_placed (h : Accepted m out) (hapart : m.TextsApart processed) :
    (keepFirst ruleKey [] (m.stepRoutes v)).find? (m.fires p holds processed v source cn) =
      (m.steps.find? fun s => decide (s.node = v) &&
        m.fires p holds processed v source cn (m.stepRoute s)).map m.stepRoute := by
  have hown : ∀ r ∈ m.stepRoutes v, m.fires p holds processed v source cn r = true →
      ∀ r' ∈ m.stepRoutes v, ruleKey r = ruleKey r' → r = r' := by
    intro r hr hfires
    obtain ⟨s, hs, -, rfl⟩ := mem_stepRoutes.mp hr
    refine hapart v _ hr ?_
    rw [stepRoute_processed]
    exact ((h.step_fires hs).mp hfires).1
  rw [find_keepFirst hown (by simp), Network.stepRoutes, List.find?_map, List.find?_filter]
  simp only [Function.comp_apply, Bool.decide_and, Bool.decide_eq_true]

/-- Two steps whose rules match the same packets at the same place. -/
def SameArrival (s s' : PendingRule) : Prop :=
  s.node = s'.node ∧ s.route.on.processed = s'.route.on.processed ∧
    s.route.on.source = s'.route.on.source

instance (s s' : PendingRule) : Decidable (SameArrival s s') := inferInstanceAs (Decidable (_ ∧ _))

/-- The first rule that fires at the arrival of a step takes the step's action, if its own rule
fires and every rule that fires there takes this action, up to the end of a part `front` of the
steps that contains it. -/
theorem Accepted.find_step (h : Accepted m out) (hapart : m.TextsApart processed)
    {front back : List PendingRule} (hsteps : m.steps = front ++ back) {s : PendingRule}
    (hs : s ∈ front) (hflag : s.route.on.processed = some processed)
    (htaken : Taken m p s.node cn s.route.action.target)
    (hconds : (m.stepRoute s).on.conditions.all holds = true)
    (hagree : ∀ x ∈ front, SameArrival x s → (m.stepRoute x).on.conditions.all holds = true →
      x.route.action = s.route.action) :
    ((keepFirst ruleKey [] (m.stepRoutes s.node)).find?
      (m.fires p holds processed s.node s.route.on.source cn)).map Route.action =
      some s.route.action := by
  have haction : Route.action ∘ m.stepRoute = fun x => x.route.action := by
    funext x
    exact stepRoute_action x
  have hmem : ∀ x ∈ front, x ∈ m.steps := fun x hx => hsteps ▸ List.mem_append_left _ hx
  rw [h.find_placed hapart, Option.map_map, haction, hsteps]
  refine find_agrees hs ?_ ?_
  · simp [h.step_fires (hmem s hs), hflag, htaken, hconds]
  · intro x hx hfires
    rw [Bool.and_eq_true, decide_eq_true_eq, h.step_fires (hmem x hx)] at hfires
    obtain ⟨hnode, hflag', hsource, -, hconds'⟩ := hfires
    exact hagree x hx ⟨hnode, hflag'.trans hflag.symm, hsource⟩ hconds'

/-- The final sort does not change which rule acts on an unprocessed packet. -/
theorem find_sorted_unprocessed (routes : List Route) :
    (m.sorted v routes).find? (m.fires p holds false v source cn) =
      routes.find? (m.fires p holds false v source cn) := by
  unfold Network.sorted
  split
  · rfl
  · refine find_moved_first fun r _ hfires => ?_
    simp only [Network.fires, Routing.Rule.fires, Routing.Rule.matches, compileRule,
      Bool.and_eq_true, Bool.or_eq_true, beq_iff_eq] at hfires
    obtain ⟨⟨⟨hnone | hfalse, -⟩, -⟩, -⟩ := hfires
    · simp [isProcessedTun, hnone]
    · simp [isProcessedTun, hfalse]

end Search

end Dualnet.Schema
