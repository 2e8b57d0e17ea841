import Dualnet.Schema.Validate

/-!
# Compilation of a network

`netschema/compile.go`: one node configuration for each node. Rules are derived path by path
into a list of pending rules, qualified where branches diverge, and then placed on their nodes
without repetition. A Go map of node pointers is an `FMap` changed in place by `modify`; the
nodes it is indexed with are checked to exist by `validate`.
-/

namespace Dualnet.Schema

open Library Text
open Config (Route Match Action Forward Connection)

/-- The generated configurations by node. -/
abbrev Configs := FMap String Config.Node

/-! ## Connections -/

/-- The tun connections of a node, in the order of their names. -/
def Node.tunConnections (nd : Node) : List Connection :=
  nd.connections.sortedKeys.filterMap fun tn =>
    let c := (nd.connections.lookup tn).getD {}
    if c.isTun then
      some { name := tn, type := "tun", iface := c.iface, address := c.ip,
             captureDefault := c.captureDefault, lanIface := nd.resolveIface c.lan }
    else none

/-- The configuration a node starts with. -/
def Network.baseConfig (n : Network) (nd : Node) : Config.Node where
  psk := if nd.psk = "" then n.psk else nd.psk
  mtu := n.mtu
  subnet := n.subnet
  egresses := nd.egresses.mapVals fun _ eg => { eg with extIface := nd.resolveIface eg.extIface }
  datapath := if nd.datapath = "kernel" then "kernel" else ""
  lanIfaces := if nd.datapath = "kernel" then nd.kernelLANIfaces else []
  connections := if nd.datapath = "kernel" then [] else nd.tunConnections

/-- The protocol of a link. -/
def Network.protocolOf (n : Network) (l : Link) : ProtocolSpec :=
  (n.protocols.lookup l.protocol).getD {}

/-- The connect connection of a link. -/
def Network.dialerConnection (n : Network) (l : Link) : Connection :=
  let proto := n.protocolOf l
  let source := (n.node l.dialer).resolveSource l.dialerSource
  { name := l.name, type := "connect"
    direction := if l.dataflow = toAcceptor then "outgoing" else "incoming"
    transport := proto.transport, port := l.port, ip := (n.node l.acceptor).ip
    iface := source.1, sourceIP := source.2, warpped := proto.warpped, cipher := proto.cipher
    http := proto.httpConfig, psk := l.psk, idSetter := l.idSetter }

/-- The listen connection of a link. -/
def Network.acceptorConnection (n : Network) (l : Link) : Connection :=
  let proto := n.protocolOf l
  let source := (n.node l.acceptor).resolveSource l.acceptorSource
  { name := l.name, type := "listen"
    direction := if l.dataflow = toAcceptor then "incoming" else "outgoing"
    transport := proto.transport, port := l.port, iface := source.1, sourceIP := source.2
    cipher := proto.cipher, http := proto.httpConfig, psk := l.psk
    multiple := l.dataflow == toDialer && l.multiple }

/-- Append a connection to a node's. -/
def addConnection (c : Connection) (cn : Config.Node) : Config.Node :=
  { cn with connections := cn.connections ++ [c] }

/-- `addLinkConnections`. -/
def Network.addLinkConnections (n : Network) (out : Configs) (l : Link) : Except String Configs := do
  let set := l.idSetter != ""
  reject (set && l.dataflow != toDialer)
    s!"netschema: link {quote l.name} assigns an id-setter tun but is not a downlink (use the `<...-` arrow)"
  reject (set && !l.multiple)
    s!"netschema: link {quote l.name} assigns id-setter tun {quote l.idSetter} but is not `multiple` — a non-multiple acceptor never mints an owner id, so the tun would hang forever (use the `<<...-` arrow)"
  reject (set && !((n.node l.dialer).connections.lookup l.idSetter).any Conn.isTun)
    s!"netschema: link {quote l.name} id-setter {quote l.idSetter} is not a tun connection on dialer {quote l.dialer}"
  pure ((out.modify l.dialer (addConnection (n.dialerConnection l))).modify l.acceptor
    (addConnection (n.acceptorConnection l)))

/-! ## Pending rules -/

/-- `pendingRule`: a derived route before it is placed on its node. -/
structure PendingRule where
  node : String
  route : Route
  relay : Bool := false
  when : List String := []
  path : String := ""
  deriving DecidableEq

/-- The conditions each node refers to. -/
abbrev Refs := FMap String (FMap String Unit)

/-- `ref`. -/
def Refs.add (refs : Refs) (node cond : String) : Refs :=
  refs.insert node (((refs.lookup node).getD ∅).insert cond ())

/-- `relayNode`: the node that receives on `prev` and sends on `next`. -/
def relayNode (prev next : Link) : Except String String := do
  let mid := targetOf prev
  reject (senderOf next != mid)
    s!"links {quote prev.name} and {quote next.name} are mis-chained: a packet received at {quote mid} on {quote prev.name} cannot be forwarded on {quote next.name} (which is sent from {quote (senderOf next)}, not {quote mid})"
  pure mid

/-- A rule for packets arriving on `source`. -/
def rule (processed : Bool) (source : String) (conditions : List String) (action : Action) :
    Route :=
  ⟨⟨some processed, source, conditions⟩, action⟩

/-- The rules that carry a packet along a list of links, one for each link after the first. -/
def relayRules (context : String) (make : String → Route → PendingRule) (processed : Bool)
    (links : List Link) : Except String (List PendingRule) :=
  (links.zip links.tail).mapM fun (prev, next) => do
    let mid ← wrap context (relayNode prev next)
    pure (make mid (rule processed prev.name [] { target := next.name }))

/-- The rules of a gateway branch of path `p`. -/
def gatewayRules (p : Path) (tun : String) (br : Branch) (up down : List Link) :
    Except String (List PendingRule) := do
  let first := up.headD {}
  let branchRule (node : String) (route : Route) : PendingRule :=
    { node, route, relay := true, when := br.when, path := p.label }
  let plainRule (node : String) (route : Route) : PendingRule := { node, route }
  reject (senderOf first != p.node)
    s!"netschema: path {quote p.name} origin {quote p.node} is not the sender on its first up link {quote first.name}"
  let origin := plainRule p.node (rule false tun br.when { target := first.name })
  let ups ← relayRules s!"netschema: path {quote p.label} up-path: " branchRule false up
  let lastUp := up.getLastD {}
  let gwTarget := match down with
    | [] => tun
    | d :: _ => d.name
  let gateway := branchRule br.gateway (rule false lastUp.name [] ⟨br.egress, gwTarget⟩)
  match down.getLast? with
  | none => pure (origin :: ups ++ [gateway])
  | some lastDown => do
    let downs ← relayRules s!"netschema: path {quote p.label} down-path: " plainRule true down
    reject (targetOf lastDown != p.node)
      s!"netschema: path {quote p.label} down-path: last link {quote lastDown.name} delivers to {quote (targetOf lastDown)}, not the origin {quote p.node} — the reply never reaches the tun"
    let home := plainRule p.node (rule true lastDown.name [] { target := tun })
    pure (origin :: ups ++ gateway :: downs ++ [home])

/-- The links of some names. -/
def linksOf (links : FMap String Link) (names : List String) : List Link :=
  names.map fun ln => (links.lookup ln).getD {}

/-- The rules of a branch of path `p`. -/
def branchRules (links : FMap String Link) (p : Path) (tun : String) (br : Branch) :
    Except String (List PendingRule) :=
  if br.gateway = "" then
    pure [{ node := p.node, route := rule false tun br.when ⟨br.egress, tun⟩ }]
  else gatewayRules p tun br (linksOf links br.up) (linksOf links br.down)

/-- What the path loop of `deriveRoutes` collects. -/
structure DeriveState where
  out : Configs
  pend : List PendingRule := []
  refs : Refs := ∅

/-- One round of the path loop. -/
def Network.derivePath (n : Network) (links : FMap String Link) (st : DeriveState) (p : Path) :
    Except String DeriveState :=
  let refs := p.routes.foldl (fun refs br => br.when.foldl (fun r c => r.add p.node c) refs) st.refs
  if (n.node p.node).datapath = "kernel" then
    let forward := p.routes.map fun br => (⟨br.when, br.egress⟩ : Forward)
    .ok { st with
      refs
      out := st.out.modify p.node fun cn => { cn with forward := cn.forward ++ forward } }
  else do
    let tun := ((n.node p.node).originTun).getD ""
    let rules ← p.routes.mapM (branchRules links p tun)
    pure { st with refs, pend := st.pend ++ rules.flatten }

/-! ## Qualification -/

/-- The arrival point of a rule: its node and source. -/
def PendingRule.arrival (pr : PendingRule) : String := pr.node ++ "\x00" ++ pr.route.on.source

/-- The text that stands for an action in `qualifyRules`. -/
def actionKey (a : Action) : String := a.egress ++ "→" ++ a.target

/-- The actions taken at an arrival point by the rules downstream of the origin. -/
def actionsAt (pend : List PendingRule) (arrival : String) : List String :=
  ((pend.filter fun pr => pr.relay && pr.arrival == arrival).map
    fun pr => actionKey pr.route.action).dedup

/-- What the loop of `qualifyRules` collects. -/
structure QualifyState where
  catchAll : List String := []
  refs : Refs
  pend : List PendingRule := []

/-- The conditions of a rule's branch that can be evaluated again downstream. -/
def Network.restated (n : Network) (pr : PendingRule) : List String :=
  pr.when.filter fun cond => (n.condition cond).dstIn.isSome

/-- One round of `qualifyRules`; `all` are the rules as derived. -/
def Network.qualifyRule (n : Network) (all : List PendingRule) (st : QualifyState)
    (pr : PendingRule) : Except String QualifyState :=
  if !pr.relay || (actionsAt all pr.arrival).length < 2 then
    .ok { st with pend := st.pend ++ [pr] }
  else
    let restate := n.restated pr
    if restate.isEmpty then do
      reject (!pr.when.isEmpty)
        s!"netschema: node {quote pr.node} receives two branches of path {quote pr.path} on {quote pr.route.on.source} but routes them differently, and branch condition {showList pr.when} cannot be re-evaluated there (only a dst_in condition can — a healthcheck is liveness local to the origin): give the branches distinct links to this node, or the same egress/target"
      pure { st with catchAll := pr.arrival :: st.catchAll, pend := st.pend ++ [pr] }
    else do
      reject (st.catchAll.contains pr.arrival)
        s!"netschema: path {quote pr.path} branch {showList pr.when} is dead at node {quote pr.node}: an unconditional branch of the same path already matches everything arriving on {quote pr.route.on.source} — order the default branch last"
      pure { st with
        refs := restate.foldl (fun r c => r.add pr.node c) st.refs
        pend := st.pend ++ [{ pr with route.on.conditions := restate }] }

/-- `qualifyRules`. -/
def Network.qualifyRules (n : Network) (pend : List PendingRule) (refs : Refs) :
    Except String QualifyState :=
  pend.foldlM (n.qualifyRule pend) { refs }

/-! ## Placement -/

/-- The text that stands for a rule's match in `emitRules`. -/
def matchKey (m : Match) : String :=
  (if m.processed = some true then "true" else "false") ++ "|" ++ m.source ++ "|" ++
    ",".intercalate m.conditions

/-- The text that stands for a rule in `emitRules`. -/
def ruleKey (r : Route) : String := matchKey r.on ++ "|" ++ r.action.egress ++ "|" ++ r.action.target

/-- What the loop of `emitRules` collects: by node, the texts of the rules placed and the
actions of the finalize rules by the texts of their matches. -/
structure EmitState where
  out : Configs
  seen : List (String × String) := []
  finAt : FMap (String × String) Action := ∅

/-- Append a rule to a node's. -/
def addRoute (r : Route) (cn : Config.Node) : Config.Node := { cn with routes := cn.routes ++ [r] }

/-- One round of `emitRules`. -/
def emitRule (st : EmitState) (pr : PendingRule) : Except String EmitState := do
  let r := pr.route
  let fin := (pr.node, matchKey r.on)
  let finalizes := r.action.egress != ""
  let prev := (st.finAt.lookup fin).getD r.action
  reject (finalizes && prev != r.action)
    s!"netschema: node {quote pr.node} has two finalize rules for the same match \x7bprocessed:{r.on.processed.getD false} source:{quote r.on.source} conditions:{showList r.on.conditions}\x7d but different egress→target ({quote prev.egress}→{quote prev.target} vs {quote r.action.egress}→{quote r.action.target}): two path branches reach this gateway indistinguishably but finalize differently, which collapses to one rule — give them distinct up-links, distinct dst_in conditions, or the same egress"
  let st := { st with finAt := if finalizes then st.finAt.insert fin r.action else st.finAt }
  if (pr.node, ruleKey r) ∈ st.seen then pure st
  else pure { st with
    seen := (pr.node, ruleKey r) :: st.seen
    out := st.out.modify pr.node (addRoute r) }

/-- `emitRules`. -/
def emitRules (out : Configs) (pend : List PendingRule) : Except String Configs := do
  let st ← pend.foldlM emitRule { out }
  pure st.out

/-! ## Conditions -/

/-- `gatewayBranch`: the one gateway branch of a path, and the path's node. -/
def Network.gatewayBranch (n : Network) (pathName gateway : String) :
    Except String (Branch × String) :=
  match n.paths.find? (·.name == pathName) with
  | none => .error s!"unknown path {quote pathName}"
  | some p =>
    match p.routes.filter fun br =>
      br.gateway != "" && (gateway == "" || br.gateway == gateway) with
    | [] => .error s!"path {quote pathName} has no gateway branch to probe"
    | [br] => .ok (br, p.node)
    | _ => .error s!"path {quote pathName} has multiple gateway branches; set gateway: to pick one"

/-- `pathReconnectLinks`: the branch's links that the origin dials. -/
def Network.pathReconnectLinks (n : Network) (br : Branch) (origin : String) : List String :=
  (br.up ++ br.down).filter fun ln => (n.linkMap.lookup ln).any (·.dialer == origin)

/-- What `emitConditions` changes. -/
structure ConditionState where
  out : Configs
  done : List (String × String) := []

/-- Append a condition to a node's. -/
def addCondition (c : Config.Condition) (cn : Config.Node) : Config.Node :=
  { cn with conditions := cn.conditions ++ [c] }

/-- The closure `emit` of `emitConditions`. -/
def Network.emitCondition (n : Network) (node cond : String) (st : ConditionState) :
    Except String ConditionState :=
  if (node, cond) ∈ st.done then .ok st
  else
    let st := { st with done := (node, cond) :: st.done }
    let spec := n.condition cond
    let place (c : Config.Condition) : ConditionState :=
      { st with out := st.out.modify node (addCondition c) }
    match spec.dstIn, spec.srcIn, spec.healthcheck with
    | some set, _, _ => .ok (place { name := cond, dstIn := some (n.relocateSet node set) })
    | none, some set, _ => .ok (place { name := cond, srcIn := some (n.relocateSet node set) })
    | none, none, some hc => do
      let (br, tunNode) ← wrap s!"netschema: healthcheck condition {quote cond}: "
        (n.gatewayBranch hc.path hc.gateway)
      reject (node != tunNode)
        s!"netschema: healthcheck condition {quote cond} probes path {quote hc.path} (tun node {quote tunNode}) but is emitted on {quote node}"
      let tun := if hc.tun = "" then ((n.node tunNode).originTun).getD "" else hc.tun
      pure (place { name := cond
                    healthcheck := some ⟨br.up, tun, n.pathReconnectLinks br tunNode⟩ })
    -- the source dereferences a nil pointer here; a validated network has no such condition
    | none, none, none => .error s!"netschema: condition {quote cond} is not defined"

/-- A healthcheck may be used on the node of the path it probes only. -/
def Network.checkReference (n : Network) (node cond : String) : Except String Unit :=
  match (n.condition cond).healthcheck with
  | none => pure ()
  | some hc => do
    let (_, tunNode) ← wrap s!"netschema: healthcheck condition {quote cond}: "
      (n.gatewayBranch hc.path hc.gateway)
    reject (tunNode != node)
      s!"netschema: healthcheck condition {quote cond} is used on {quote node} but probes path {quote hc.path} (tun node {quote tunNode})"

/-- One referenced condition of `emitConditions`. -/
def Network.emitReference (n : Network) (st : ConditionState) (ref : String × String) :
    Except String ConditionState := do
  n.checkReference ref.1 ref.2
  n.emitCondition ref.1 ref.2 st

/-- One healthcheck of `emitConditions`, which runs even when no rule refers to it. -/
def Network.emitHealthcheck (n : Network) (st : ConditionState) (e : Σ _ : String, ConditionSpec) :
    Except String ConditionState :=
  match e.2.healthcheck with
  | none => .ok st
  | some hc => do
    let (_, tunNode) ← wrap s!"netschema: healthcheck condition {quote e.1}: "
      (n.gatewayBranch hc.path hc.gateway)
    n.emitCondition tunNode e.1 st

/-- `emitConditions`. -/
def Network.emitConditions (n : Network) (out : Configs) (refs : Refs) : Except String Configs := do
  let pairs := refs.sortedKeys.flatMap fun node =>
    ((refs.lookup node).getD ∅).sortedKeys.map fun cond => (node, cond)
  let st ← pairs.foldlM n.emitReference { out }
  let st ← n.conditions.entries.foldlM n.emitHealthcheck st
  pure st.out

/-! ## Compilation -/

/-- `isProcessedTun`. -/
def isProcessedTun (tunName : String) (r : Route) : Bool :=
  r.on.processed == some true && r.action.target == tunName

/-- The stable sort of a node's rules: the replies to its own tun first. -/
def tunFirst (tunName : String) (routes : List Route) : List Route :=
  routes.filter (isProcessedTun tunName) ++ routes.filter fun r => !isProcessedTun tunName r

/-- The sort at the end of `deriveRoutes`, for one node. -/
def Network.sortRoutes (n : Network) (name : String) (cn : Config.Node) : Config.Node :=
  match (n.node name).originTun with
  | none => cn
  | some tun => { cn with routes := tunFirst tun cn.routes }

/-- `deriveRoutes`. -/
def Network.deriveRoutes (n : Network) (out : Configs) (links : FMap String Link) :
    Except String Configs := do
  let st ← n.paths.foldlM (n.derivePath links) { out }
  let qualified ← n.qualifyRules st.pend st.refs
  let out ← emitRules st.out qualified.pend
  let out ← n.emitConditions out qualified.refs
  pure (out.mapVals n.sortRoutes)

/-- `Compile`. -/
def Network.compile (n : Network) : Except String Configs := do
  let out := n.nodes.mapVals fun _ nd => n.baseConfig nd
  let out ← n.links.foldlM n.addLinkConnections out
  let n ← n.inferGateways n.linkMap
  let out ← n.deriveRoutes out n.linkMap
  let out := out.mapVals fun _ cn => cn.defaults
  out.entries.forM fun e =>
    wrap s!"netschema: generated config for {quote e.1} invalid: " e.2.validate
  pure out

end Dualnet.Schema
