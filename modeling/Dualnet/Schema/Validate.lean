import Dualnet.Schema.Network

/-!
# Validation of a network

`Network.validate` of `netschema/schema.go`. It fills in the derived gateways, so it returns
the network it leaves behind.
-/

namespace Dualnet.Schema

open Library Text
open Config (Egress CondKind Phase)

/-- `validSourceIP`. -/
def validSourceIP (s : String) : Bool :=
  if '/' ∈ s.toList then (Netip.parsePrefix s).toOption.isSome
  else (Netip.parseAddr s).toOption.isSome

/-- The datapath switch of the node loop. -/
def validateDatapath (name : String) (nd : Node) : Except String Unit :=
  if nd.datapath = "" ∨ nd.datapath = "userspace" then pure ()
  else if nd.datapath = "kernel" then do
    nd.connections.entries.forM fun e => reject e.2.isTun
      s!"netschema: kernel node {quote name} must not declare a tun (connection {quote e.1})"
    reject nd.egresses.entries.isEmpty
      s!"netschema: kernel node {quote name} needs at least one egress"
    nd.egresses.entries.forM fun e => do
      reject (e.2.mode != "" && e.2.mode != "kernel" && e.2.mode != "warp")
        s!"netschema: kernel node {quote name} egress {quote e.1} mode {quote e.2.mode} must be kernel or warp"
      reject (e.2.extIface == "")
        s!"netschema: kernel node {quote name} egress {quote e.1} needs exit (warp: the underlay WAN)"
  else .error s!"netschema: node {quote name} datapath {quote nd.datapath} must be userspace or kernel"

/-- One round of the connection loop; it counts the capture-default tuns. -/
def validateConn (name : String) (nd : Node) (captures : Nat) (e : Σ _ : String, Conn) :
    Except String Nat := do
  let c := e.2
  let at_ := s!"netschema: node {quote name} connection {quote e.1}"
  let tun := s!"netschema: node {quote name} tun {quote e.1}"
  reject (c.ip != "" && !validSourceIP c.ip) s!"{at_} bad ip {quote c.ip}"
  if c.type = "" then do
    reject (c.iface == "") s!"{at_} has no iface"
    reject (c.captureDefault || c.lan != "")
      s!"{at_} sets capture_default/lan but is not a tun (type: tun)"
    pure captures
  else if c.type = "tun" then do
    reject (c.captureDefault && c.ip == "") s!"{tun} sets capture_default but has no ip (address)"
    reject (c.lan != "" && !c.captureDefault) s!"{tun} sets lan but not capture_default"
    reject (c.lan != "" && (nd.connections.lookup c.lan).all Conn.isTun)
      s!"{tun} lan {quote c.lan} is not an interface connection"
    pure (if c.captureDefault then captures + 1 else captures)
  else .error s!"{at_} type {quote c.type} must be empty or tun"

/-- One round of the node loop. -/
def validateNode (e : Σ _ : String, Node) : Except String Unit := do
  validateDatapath e.1 e.2
  let captures ← e.2.connections.entries.foldlM (validateConn e.1 e.2) 0
  reject (1 < captures) s!"netschema: node {quote e.1} has more than one capture_default tun"

/-- One round of the protocol loop. -/
def validateProtocol (e : Σ _ : String, ProtocolSpec) : Except String Unit := do
  let p := e.2
  reject (p.transport != "http" && p.transport != "udp" && p.transport != "tcp")
    s!"netschema: protocol {quote e.1} transport {quote p.transport} must be http, udp or tcp"
  reject (p.transport != "http" && p.hasHTTPOpts)
    s!"netschema: protocol {quote e.1} sets http-only fields but transport is {quote p.transport}"
  reject (p.transport != "http" && p.warpped)
    s!"netschema: protocol {quote e.1} sets warpped but transport is {quote p.transport} (WARP is wired for the http carrier only)"

/-- One round of the link loop; it collects the links by name. -/
def validateLink (n : Network) (links : FMap String Link) (l : Link) :
    Except String (FMap String Link) := do
  reject (l.name == "") "netschema: a link has no name"
  reject (links.lookup l.name).isSome s!"netschema: duplicate link name {quote l.name}"
  reject (n.nodes.lookup l.dialer).isNone
    s!"netschema: link {quote l.name} dialer {quote l.dialer} is not a node"
  reject (n.nodes.lookup l.acceptor).isNone
    s!"netschema: link {quote l.name} acceptor {quote l.acceptor} is not a node"
  reject (l.dataflow != toAcceptor && l.dataflow != toDialer)
    s!"netschema: link {quote l.name} dataflow {quote l.dataflow} must be {quote toAcceptor} or {quote toDialer}"
  reject (l.protocol == "") s!"netschema: link {quote l.name} has no protocol"
  reject (n.protocols.lookup l.protocol).isNone
    s!"netschema: link {quote l.name} references unknown protocol {quote l.protocol}"
  reject ((n.node l.acceptor).ip == "")
    s!"netschema: link {quote l.name} acceptor {quote l.acceptor} needs an ip (the dialer must reach it)"
  reject ((n.node l.dialer).datapath == "kernel" || (n.node l.acceptor).datapath == "kernel")
    s!"netschema: link {quote l.name} has a kernel-datapath endpoint (kernel nodes carry no links)"
  reject (l.dialerSource != "" && ((n.node l.dialer).resolveSource l.dialerSource).2 != "" &&
      ((n.protocols.lookup l.protocol).getD {}).warpped)
    s!"netschema: link {quote l.name} binds source {quote l.dialerSource} (ip) but protocol {quote l.protocol} is warpped — WARP cannot bind a source"
  pure (links.insert l.name l)

/-- One round of the path-header loop; it collects the path names and the nodes with a path. -/
def validatePathHeader (st : List String × List String) (p : Path) :
    Except String (List String × List String) := do
  let (names, nodes) := st
  reject (p.node == "") "netschema: a path has no node"
  reject (nodes.contains p.node) s!"netschema: node {quote p.node} has more than one path"
  reject (p.name != "" && names.contains p.name) s!"netschema: duplicate path name {quote p.name}"
  pure (if p.name ≠ "" then p.name :: names else names, p.node :: nodes)

/-- One round of the condition loop; it collects the conditions' kinds. -/
def validateCondition (paths : List String) (kinds : FMap String CondKind)
    (e : Σ _ : String, ConditionSpec) : Except String (FMap String CondKind) :=
  match e.2.dstIn, e.2.srcIn, e.2.healthcheck with
  | some set, none, none => do
    set.validate e.1
    pure (kinds.insert e.1 .dst)
  | none, some set, none => do
    set.validate e.1
    pure (kinds.insert e.1 .src)
  | none, none, some hc => do
    reject (!paths.contains hc.path)
      s!"netschema: condition {quote e.1} healthcheck path {quote hc.path} is not a path"
    pure (kinds.insert e.1 .health)
  | _, _, _ =>
    .error s!"netschema: condition {quote e.1} must set exactly one of dst_in / src_in / healthcheck"

/-- One round of `validateKernelPath`; the state is the phase and the number of defaults. -/
def validateKernelBranch (n : Network) (p : Path) (kinds : FMap String CondKind)
    (st : Phase × Nat) (br : Branch) : Except String (Phase × Nat) := do
  let (phase, defaults) := st
  let label := quote p.label
  reject (!br.up.isEmpty || !br.down.isEmpty)
    s!"netschema: path {label} (kernel node {quote p.node}) cannot forward to a gateway (no up/down links)"
  reject (br.egress == "") s!"netschema: path {label} has a branch with no egress"
  reject ((n.node p.node).egresses.lookup br.egress).isNone
    s!"netschema: path {label} branch egress {quote br.egress} is not an egress on kernel node {quote p.node}"
  match br.when with
  | [] => pure (.default, defaults + 1)
  | cond :: more => do
    reject (phase == .default) s!"netschema: path {label} has a branch after the default branch"
    reject (!more.isEmpty)
      s!"netschema: path {label} kernel branch must name exactly one condition"
    match kinds.lookup cond with
    | some .src => do
      reject (phase != .src)
        s!"netschema: path {label} src_in branch must come before dst_in branches"
      pure (phase, defaults)
    | some .dst => pure (.dst, defaults)
    | _ =>
      .error s!"netschema: path {label} kernel branch condition {quote cond} must be src_in or dst_in"

/-- `validateKernelPath`. -/
def validateKernelPath (n : Network) (p : Path) (kinds : FMap String CondKind) :
    Except String Unit := do
  let (_, defaults) ← p.routes.foldlM (validateKernelBranch n p kinds) (.src, 0)
  reject (defaults != 1)
    s!"netschema: path {quote p.label} (kernel node {quote p.node}) needs exactly one default branch (got {defaults})"

/-- One round of a userspace path's branch loop; the state says whether a default was seen. -/
def validateBranch (p : Path) (links : FMap String Link) (kinds : FMap String CondKind)
    (sawDefault : Bool) (br : Branch) : Except String Bool := do
  let label := quote p.label
  reject (!br.when.isEmpty && sawDefault) s!"netschema: path {label} has a branch after the default"
  br.when.forM fun cond => do
    reject (kinds.lookup cond).isNone
      s!"netschema: path {label} references unknown condition {quote cond}"
    reject (kinds.lookup cond == some .src)
      s!"netschema: path {label} uses src_in condition {quote cond} on a userspace node (src_in is kernel-only)"
  reject (br.egress == "") s!"netschema: path {label} has a branch with no egress"
  (br.up ++ br.down).forM fun name => reject (links.lookup name).isNone
    s!"netschema: path {label} references unknown link {quote name}"
  pure (sawDefault || br.when.isEmpty)

/-- One round of the path loop. -/
def validatePath (n : Network) (links : FMap String Link) (kinds : FMap String CondKind)
    (p : Path) : Except String Unit := do
  let label := quote p.label
  reject (n.nodes.lookup p.node).isNone s!"netschema: path {label} node {quote p.node} is not a node"
  let kernel := (n.node p.node).datapath == "kernel"
  reject (!kernel && (n.node p.node).originTun.isNone)
    s!"netschema: path {label} origin {quote p.node} has no tun connection (or has several without one capturing the default)"
  reject p.routes.isEmpty s!"netschema: path {label} has no routes"
  if kernel then validateKernelPath n p kinds
  else do
    let sawDefault ← p.routes.foldlM (validateBranch p links kinds) false
    reject (!sawDefault)
      s!"netschema: path {label} needs a `default` branch (the always-last catch-all)"

/-- `ArchBuild`, as far as validation asks: whether the arch is known. -/
def knownArch (arch : String) : Bool :=
  ["amd64", "arm64", "arm/v5", "arm/v6", "arm/v7"].contains arch

/-- `BuildSpec.validate`. -/
def BuildSpec.validate (e : Σ _ : String, BuildSpec) : Except String Unit :=
  reject (!knownArch e.2.arch)
    s!"netschema: build {quote e.1} arch {quote e.2.arch} must be amd64, arm64, arm/v5, arm/v6, or arm/v7"

/-- `DeploySpec.validate`. -/
def DeploySpec.validate (d : DeploySpec) (node : String) (builds : FMap String BuildSpec) :
    Except String Unit := do
  let deploy := s!"netschema: node {quote node} deploy"
  reject (d.build == "") s!"{deploy} has no build"
  reject (builds.lookup d.build).isNone s!"{deploy} references unknown build {quote d.build}"
  if d.mode = "ssh" then do
    reject ([d.context, d.namespaceName, d.image, d.method, d.importHost, d.manifest,
      d.deploymentName].any (· != "")) s!"{deploy} mode ssh sets k8s-only fields"
    reject (!(["", "none", "systemd"].contains d.daemonize))
      s!"{deploy} daemonize {quote d.daemonize} must be none or systemd"
  else if d.mode = "k8s" then do
    reject (d.port != 0 || [d.host, d.user, d.key, d.binPath, d.configPath, d.filesDirectory,
      d.daemonize, d.unit, d.restartCmd].any (· != "")) s!"{deploy} mode k8s sets ssh-only fields"
    reject (d.image == "") s!"{deploy} mode k8s needs an image"
    reject (!(["", "registry", "ctr"].contains d.method))
      s!"{deploy} method {quote d.method} must be registry or ctr"
    reject (!(["", "hostNetwork", "service"].contains d.manifest))
      s!"{deploy} manifest {quote d.manifest} must be hostNetwork or service"
  else .error s!"{deploy} mode {quote d.mode} must be ssh or k8s"

/-- `validate`. -/
def Network.validate (n : Network) : Except String Network := do
  reject n.nodes.entries.isEmpty "netschema: no nodes"
  n.nodes.entries.forM validateNode
  n.protocols.entries.forM validateProtocol
  let links ← n.links.foldlM (validateLink n) ∅
  let n ← n.inferGateways links
  let (paths, _) ← n.paths.foldlM validatePathHeader ([], [])
  let kinds ← n.conditions.entries.foldlM (validateCondition paths) ∅
  n.paths.forM (validatePath n links kinds)
  n.builds.entries.forM BuildSpec.validate
  n.nodes.entries.forM fun e => match e.2.deploy with
    | none => pure ()
    | some d => d.validate e.1 n.builds
  pure n

end Dualnet.Schema
