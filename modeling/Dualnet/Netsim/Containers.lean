import Dualnet.Netsim.Layout

/-!
# The containers of a simulation

The second half of `Plan` in `netsim/plan.go`: device names, return routes of link sources, the
rewritten configuration and the files of every node, the hub and the LAN clients. The generated
files are kept as the values they are printed from; YAML prints a map in the order of its keys.
A Go map in the result is listed in the order of its keys where a run may build it in any order.
The WireGuard keys are an argument: the source derives them from a hash of the name.
-/

namespace Dualnet.Netsim

open Library Text Schema
open Config (Egress Connection)

/-! ## What a container starts with -/

namespace Siminit

/-- `Rename`: the stable name of the device on a subnet. -/
structure Rename where
  subnet : String
  name : String
  deriving DecidableEq

/-- `Route`. -/
structure Route where
  dst : String
  via : String
  dev : String := ""
  deriving DecidableEq

/-- `WGPeer`. -/
structure WGPeer where
  publicKey : String
  allowedIPs : List String
  deriving DecidableEq

/-- `WGDevice`. -/
structure WGDevice where
  name : String
  privateKey : String
  listenPort : Nat
  addrs : List String
  peers : List WGPeer
  deriving DecidableEq

/-- `Spec`: how `sim init` shapes a container's network. -/
structure Spec where
  renames : List Rename := []
  routes : List Route := []
  loAddrs : List String := []
  wgDevices : List WGDevice := []
  deriving DecidableEq

end Siminit

open Siminit (Rename Route WGPeer WGDevice Spec)

def echoNet : String := "10.200.0.0/24"
def statsPath : String := "/var/log/dualnet-stats.jsonl"
def configDir : String := "/etc/dualnet"
def specPath : String := "/etc/sim/init.json"
def warpHubIP : String := "100.64.0.1"
def warpPort : Nat := 51820
def warpHubDev : String := "wg-sim"

/-- `PlanOptions` in full. -/
structure SimOptions extends PlanOptions where
  image : String := ""
  psk : String := ""
  pskOverride : FMap String String := ∅
  healthcheckInterval : Int := 0
  healthcheckTimeout : Int := 0
  healthcheckUpGrace : Int := 0
  statsInterval : Int := 0

/-- `applyDefaults`. -/
def SimOptions.applyDefaults (o : SimOptions) : SimOptions where
  netBase := if o.netBase = "" then "172.30" else o.netBase
  image := if o.image = "" then "dualnet-sim:test" else o.image
  psk := if o.psk = "" then "netsim" else o.psk
  pskOverride := o.pskOverride
  healthcheckInterval := if o.healthcheckInterval = 0 then 1 else o.healthcheckInterval
  healthcheckTimeout := if o.healthcheckTimeout = 0 then 3 else o.healthcheckTimeout
  healthcheckUpGrace := if o.healthcheckUpGrace = 0 then 1 else o.healthcheckUpGrace
  statsInterval := if o.statsInterval = 0 then 1 else o.statsInterval

/-- A node's configuration with the settings the simulation adds to it. -/
structure ConfigFile where
  config : Config.Node
  healthcheck : Int
  healthcheckTimeout : Int
  healthcheckUpGrace : Int
  statsFile : String
  statsInterval : Int
  statsMaxMB : Nat

/-- A generated file. -/
inductive File where
  | config (c : ConfigFile)
  | spec (s : Spec)
  | text (s : String)

/-- `Role`. -/
inductive Role where
  | node
  | hub
  | client
  deriving DecidableEq

/-- `Attachment`. -/
structure Attachment where
  fabric : String
  ip : String
  deriving DecidableEq

/-- `Container`; its files in the order of their paths. -/
structure Container where
  name : String
  role : Role
  image : String := ""
  node : String := ""
  cmd : List String
  attach : List Attachment
  capAdd : List String
  devices : List String := []
  sysctls : List (String × String) := []
  env : List (String × String) := []
  files : List (String × File)

/-- `SimPlan` in full. -/
structure FullPlan extends SimPlan where
  image : String
  containers : List Container
  echoNet : String
  lanClient : FMap String String
  selfCapture : FMap String Bool
  needsWireGuard : Bool

/-! ## Reading the layout -/

/-- What Go reports when `Plan` reads the fabric of a device that has none. -/
def nilDereference : String :=
  "runtime error: invalid memory address or nil pointer dereference"

/-- `fabricByName`, dereferenced. -/
def Layout.fabric (L : Layout) (name : String) : Except String Fabric :=
  ((FMap.index Fabric.name L.fabrics).lookup name).elim (.error nilDereference) pure

/-- The address of a container on a fabric, `""` if it has none there. -/
def Fabric.ip (f : Fabric) (name : String) : String := (f.ips.lookup name).getD ""

/-- `linksByName`. -/
def linkNamed (net : Network) (name : String) : Link :=
  ((FMap.index Link.name net.links).lookup name).getD {}

/-- The configuration of a node. -/
def configOf (nodes : Configs) (node : String) : Config.Node :=
  (nodes.lookup node).getD { psk := "", mtu := 0, subnet := "" }

/-- The device of `node` for its side of a link. -/
def dialerDevice (net : Network) (node : String) (l : Link) : Endpoint :=
  ⟨node, epKey ((net.node node).resolveIface l.dialerSource) l.name "d"⟩

def acceptorDevice (net : Network) (node : String) (l : Link) : Endpoint :=
  ⟨node, epKey ((net.node node).resolveIface l.acceptorSource) l.name "a"⟩

/-! ## Device names -/

/-- The fabrics a connection binds a device of. -/
def connReferences (L : Layout) (net : Network) (node : String) (c : Connection) : List String :=
  let l := linkNamed net c.name
  if c.type = "connect" then
    if l.dialerSource ≠ "" then [L.fabricOf (dialerDevice net node l)] else []
  else if c.type = "listen" then
    if l.acceptorSource ≠ "" then
      [L.fabricOf ⟨node, "dev:" ++ (net.node node).resolveIface l.acceptorSource⟩]
    else []
  else if c.type = "tun" then
    if c.lanIface ≠ "" then [L.fabricOf ⟨node, "dev:" ++ c.lanIface⟩] else []
  else []

/-- The fabric of a kernel node's first LAN device. -/
def kernelLAN (L : Layout) (node : String) (cn : Config.Node) : List String :=
  if cn.datapath = "kernel" then
    (cn.lanIfaces.take 1).map fun dev => L.fabricOf ⟨node, "dev:" ++ dev⟩
  else []

/-- `refFabs` of a node, sorted. -/
def references (order : Orders) (L : Layout) (net : Network) (node : String) (cn : Config.Node) :
    List String :=
  sortedSet (cn.connections.flatMap (connReferences L net node) ++
    (order.visit (.references node) cn.egresses.entries).map
      (fun e => L.fabricOf ⟨node, "dev:" ++ e.2.extIface⟩) ++
    kernelLAN L node cn)

/-- The device names of a node by fabric, and the renames that give them. -/
structure Devices where
  simDev : FMap String String := ∅
  renames : List Rename := []

/-- `assignDev`. -/
def assignDev (L : Layout) (d : Devices) (fab : String) : Except String Devices :=
  if (d.simDev.lookup fab).isSome then pure d
  else do
    let f ← L.fabric fab
    let name := s!"dn{d.simDev.size}"
    pure ⟨d.simDev.insert fab name, d.renames ++ [⟨f.subnet, name⟩]⟩

/-- The device names of all nodes. -/
def deviceNames (order : Orders) (L : Layout) (net : Network) (nodes : Configs) :
    Except String (FMap String Devices) :=
  nodes.sortedKeys.foldlM (fun m node => do
    let d ← (references order L net node (configOf nodes node)).foldlM (assignDev L) {}
    pure (m.insert node d)) ∅

/-- The device name of a node on a fabric. -/
def Devices.name (d : Devices) (fab : String) : String := (d.simDev.lookup fab).getD ""

/-! ## Return routes -/

/-- `legSourceHost`. -/
def legSourceHost (nd : Node) (name : String) : String :=
  if name = "" then ""
  else match nd.connections.lookup name with
    | none => ""
    | some c =>
      if c.ip = "" then "" else String.ofList (c.ip.toList.takeWhile (· != '/')) ++ "/32"

/-- One round of the loop for `legReturnRoutes`. -/
def legReturnRoute (L : Layout) (net : Network) (m : FMap String (List Route)) (l : Link) :
    Except String (FMap String (List Route)) :=
  let host := legSourceHost (net.node l.dialer) l.dialerSource
  if host = "" then pure m
  else do
    let f ← L.fabric (L.fabricOf (acceptorEndpoint net l))
    if f.ip l.dialer ≠ "" then
      pure (m.insert l.acceptor ((m.lookup l.acceptor).getD [] ++ [⟨host, f.ip l.dialer, ""⟩]))
    else pure m

/-- `legReturnRoutes`. -/
def legReturnRoutes (L : Layout) (net : Network) : Except String (FMap String (List Route)) :=
  net.links.foldlM (legReturnRoute L net) ∅

/-! ## Nodes -/

/-- `hasTun`. -/
def hasTun (nd : Node) : Bool := (anyTun nd).isSome

/-- `legSourceIPs`. -/
def legSourceIPs (cn : Config.Node) : List String :=
  if cn.datapath ≠ "kernel" then []
  else cn.conditions.flatMap fun c => (c.srcIn.elim [] Config.IPSet.list).map fun tok =>
    if '/' ∈ tok.toList then tok else tok ++ "/32"

/-- `nodeNeedsTun`. -/
def nodeNeedsTun (order : Orders) (node : String) (nd : Node) (cn : Config.Node)
    (debugTun : Bool) : Bool :=
  if cn.datapath = "kernel" then false
  else hasTun nd && !debugTun ||
    (order.visit (.natEgresses node) cn.egresses.entries).any fun e =>
      e.2.mode == "" || e.2.mode == "kernel"

/-- `warpINI`. -/
def warpINI (priv hubPub endpoint tunIP : String) : String :=
  s!"[Interface]\nPrivateKey = {priv}\nAddress = {tunIP}/32\n\n[Peer]\nPublicKey = {hubPub}\nAllowedIPs = 0.0.0.0/0\nEndpoint = {endpoint}\n"

/-- What `Plan` gives one node to work with: its configuration and its device names. -/
structure NodeInput where
  node : String
  nd : Node
  cn : Config.Node
  devices : Devices

/-- A connection rewritten for the simulation, and the fabrics it attaches the node to. -/
def rewriteConn (L : Layout) (net : Network) (x : NodeInput) (c : Connection) :
    Except String (Connection × List String) :=
  let l := linkNamed net c.name
  if c.type = "connect" then do
    let fab := L.fabricOf (dialerDevice net x.node l)
    let f ← L.fabric fab
    pure ({ c with
      ip := f.ip l.acceptor
      iface := if l.dialerSource ≠ "" then x.devices.name fab else c.iface }, [fab])
  else if c.type = "listen" then
    let fab := L.fabricOf (acceptorDevice net x.node l)
    pure ({ c with
      iface := if l.acceptorSource ≠ "" then x.devices.name fab else c.iface }, [fab])
  else if c.type == "tun" && c.lanIface != "" then
    let fab := L.fabricOf ⟨x.node, "dev:" ++ c.lanIface⟩
    pure ({ c with lanIface := x.devices.name fab }, [fab])
  else pure (c, [])

/-- The state of the egress loop. Every egress of the node is rewritten, so the rewritten map is
built anew. -/
structure EgressState where
  octet : Nat
  ips : FMap String String := ∅
  files : FMap String File := ∅
  peers : List WGPeer := []
  routes : List Route := []
  egresses : FMap String Egress := ∅
  attach : List String := []

/-- One round of the egress loop. -/
def rewriteEgress (keys : String → String × String) (L : Layout) (x : NodeInput)
    (st : EgressState) (name : String) : Except String EgressState := do
  let eg := (x.cn.egresses.lookup name).getD { mode := "" }
  let fab := L.fabricOf ⟨x.node, "dev:" ++ eg.extIface⟩
  let f ← L.fabric fab
  let dev := x.devices.name fab
  let hub := f.ip hubName
  let eg : Egress := { eg with extIface := dev }
  let st : EgressState := { st with attach := st.attach ++ [fab] }
  if eg.mode = "warp" then
    let tunIP := s!"100.64.0.{st.octet}"
    let conf := s!"{configDir}/warp-{name}.conf"
    let own := keys s!"{x.node}/{name}"
    pure { st with
      octet := st.octet + 1
      ips := st.ips.insert name tunIP
      files := st.files.insert conf
        (.text (warpINI own.1 (keys "hub").2 s!"{hub}:{warpPort}" tunIP))
      peers := st.peers ++ [⟨own.2, [tunIP ++ "/32"]⟩]
      egresses := st.egresses.insert name { eg with warpConfig := conf, warpCache := "" } }
  else
    let st : EgressState := { st with ips := st.ips.insert name (f.ip x.node) }
    if x.cn.datapath == "kernel" || eg.mode == "direct" then
      pure { st with egresses := st.egresses.insert name { eg with gateway := hub } }
    else pure { st with
      routes := st.routes ++ [⟨echoNet, hub, dev⟩]
      egresses := st.egresses.insert name eg }

/-- The content of every generated prefix file. -/
def generatedPrefixes : String := s!"# generated by netsim\n{iranDst}/32\n"

/-- The files of a node: its configuration, the WireGuard profiles, the prefix files and the spec,
later ones in the place of earlier ones. -/
def nodeFiles (order : Orders) (x : NodeInput) (config : ConfigFile) (warp : FMap String File)
    (spec : Spec) : FMap String File :=
  let files : FMap String File :=
    (∅ : FMap String File).insert s!"{configDir}/{x.node}.yaml" (.config config)
  let files := (order.visit (.warpFiles x.node) warp.entries).foldl
    (fun m e => m.insert e.1 e.2) files
  let files := x.cn.conditions.foldl (fun m c => c.dstIn.elim m fun set =>
    m.insert set.file (.text generatedPrefixes)) files
  files.insert specPath (.spec spec)

/-- The attachments of a container to some fabrics. -/
def attachments (L : Layout) (name : String) (fabs : List String) :
    Except String (List Attachment) :=
  fabs.mapM fun fab => do
    let f ← L.fabric fab
    pure ⟨fab, f.ip name⟩

/-- The command line every container starts with. -/
def initCmd (args : List String) : List String := ["sim", "init", "-spec", specPath, "--"] ++ args

/-- The container of a node, and the state of its egress loop. -/
def nodeContainer (order : Orders) (keys : String → String × String) (opts : SimOptions)
    (L : Layout) (net : Network) (returns : List Route) (x : NodeInput) (octet : Nat) :
    Except String (Container × EgressState) := do
  let conns ← x.cn.connections.mapM (rewriteConn L net x)
  let st ← x.cn.egresses.sortedKeys.foldlM (rewriteEgress keys L x) { octet }
  let lan := kernelLAN L x.node x.cn
  let psk := (opts.pskOverride.lookup x.node).getD opts.psk
  let cn : Config.Node := { x.cn with
    psk
    connections := conns.map Prod.fst
    egresses := st.egresses
    lanIfaces := if lan.isEmpty then x.cn.lanIfaces else lan.map x.devices.name }
  let config : ConfigFile := {
    config := cn
    healthcheck := opts.healthcheckInterval
    healthcheckTimeout := opts.healthcheckTimeout
    healthcheckUpGrace := opts.healthcheckUpGrace
    statsFile := statsPath
    statsInterval := opts.statsInterval
    statsMaxMB := 50 }
  let spec : Spec := { renames := x.devices.renames, routes := st.routes ++ returns }
  let debugTun := isDebugTun x.nd
  let attach ← attachments L x.node (sortedSet (conns.flatMap Prod.snd ++ st.attach ++ lan))
  pure ({
    name := x.node
    role := .node
    node := x.node
    cmd := initCmd (["dualnet", "-config", s!"{configDir}/{x.node}.yaml"] ++
      if debugTun then ["-debug-tun"] else [])
    attach
    capAdd := ["NET_ADMIN", "NET_RAW"]
    devices := if nodeNeedsTun order x.node x.nd cn debugTun then ["/dev/net/tun"] else []
    sysctls := [("net.ipv4.ip_forward", "1")]
    env := [("DUALNET_PSK", psk)]
    files := (nodeFiles order x config st.files spec).listing }, st)

/-- The state of the node loop. -/
structure PlanState where
  octet : Nat := 2
  peers : List WGPeer := []
  containers : List Container := []
  egressIP : FMap String (FMap String String) := ∅
  nodeContainer : FMap String String := ∅
  debugTun : FMap String Bool := ∅
  selfCapture : FMap String Bool := ∅
  conditionFile : FMap String (FMap String String) := ∅

/-- Set a node's entry of a map of maps, which only exists with something in it. -/
def insertSome (m : FMap String (FMap String String)) (node : String)
    (entries : FMap String String) : FMap String (FMap String String) :=
  if entries.entries.isEmpty then m else m.insert node entries

/-- One round of the node loop. -/
def planContainer (order : Orders) (keys : String → String × String) (opts : SimOptions)
    (L : Layout) (net : Network) (nodes : Configs) (devices : FMap String Devices)
    (returns : FMap String (List Route)) (st : PlanState) (node : String) :
    Except String PlanState := do
  let nd := net.node node
  let cn := configOf nodes node
  let x : NodeInput := ⟨node, nd, cn, (devices.lookup node).getD {}⟩
  let (container, egress) ←
    nodeContainer order keys opts L net ((returns.lookup node).getD []) x st.octet
  pure {
    octet := egress.octet
    peers := st.peers ++ egress.peers
    containers := st.containers ++ [container]
    egressIP := insertSome st.egressIP node egress.ips
    nodeContainer := st.nodeContainer.insert node node
    debugTun := st.debugTun.insert node (isDebugTun nd)
    selfCapture := if (captureTun nd).any (·.lan == "") then st.selfCapture.insert node true
      else st.selfCapture
    conditionFile := insertSome st.conditionFile node (conditionFiles cn) }

/-! ## The hub and the LAN clients -/

/-- The container of the simulated internet. -/
def hubContainer (keys : String → String × String) (L : Layout) (peers : List WGPeer) : Container :=
  let wgDevices := if peers.isEmpty then []
    else [⟨warpHubDev, (keys "hub").1, warpPort, [warpHubIP ++ "/24"], peers⟩]
  { name := hubName
    role := .hub
    cmd := initCmd ["sim", "echo"]
    capAdd := ["NET_ADMIN"]
    attach := L.fabrics.filterMap fun f => (f.ips.lookup hubName).map fun ip => ⟨f.name, ip⟩
    files := [(specPath, .spec { loAddrs := [worldDst ++ "/32", iranDst ++ "/32"], wgDevices })] }

/-- The client behind a LAN, on the fabric of the component with root `root`. -/
def clientContainer (L : Layout) (nodes : Configs) (root : Endpoint) (node : String) :
    Except String Container := do
  let f ← L.fabric (L.fabricOf root)
  let spec : Spec := {
    routes := [⟨"default", f.ip node, ""⟩]
    loAddrs := legSourceIPs (configOf nodes node) }
  pure {
    name := clientName node
    role := .client
    node
    cmd := initCmd ["sim", "idle"]
    capAdd := ["NET_ADMIN"]
    attach := [⟨f.name, f.ip (clientName node)⟩]
    files := [(specPath, .spec spec)] }

/-- The components that are the LAN of a node. -/
def Layout.served (L : Layout) : List (Endpoint × String) := L.lans.filter (·.2 != "")

/-- The plan of a network with given configurations and layout. -/
def assemble (order : Orders) (keys : String → String × String) (opts : SimOptions)
    (net : Network) (nodes : Configs) (L : Layout) : Except String FullPlan := do
  let devices ← deviceNames order L net nodes
  let returns ← legReturnRoutes L net
  let st ← nodes.sortedKeys.foldlM
    (planContainer order keys opts L net nodes devices returns) {}
  let clients ← L.served.mapM fun c => clientContainer L nodes c.1 c.2
  let containers := (st.containers ++ [hubContainer keys L st.peers] ++ clients).insertionSort
    fun c d => c.name ≤ d.name
  pure {
    fabrics := L.fabrics
    worldDst, iranDst, echoNet
    image := opts.image
    egressIP := st.egressIP
    nodeContainer := st.nodeContainer
    debugTun := st.debugTun
    selfCapture := st.selfCapture
    conditionFile := st.conditionFile
    lanClient := L.served.foldl (fun m c => m.insert c.2 (clientName c.2)) ∅
    -- every WireGuard egress has its peer
    needsWireGuard := !st.peers.isEmpty
    containers := containers.map fun c => { c with image := opts.image } }

/-- `Plan`, run in the given orders. -/
def fullPlan (order : Orders) (keys : String → String × String) (net : Network)
    (opts : SimOptions) : Except String FullPlan := do
  let opts := opts.applyDefaults
  let nodes ← wrap "netsim: compile: " net.compile
  checkWarp order nodes
  assemble order keys opts net nodes (layout order opts.toPlanOptions net nodes)

/-- Keys that show whose they are. -/
def namedKeys (name : String) : String × String := ("private " ++ name, "public " ++ name)

/-! ## The facts of the scenarios -/

section Facts

variable {order : Orders} {keys : String → String × String} {net : Network} {opts : SimOptions}
  {nodes : Configs} {p : FullPlan}

/-- The fabrics of a plan are those of its layout. -/
theorem fabrics_of_fullPlan (hcompile : net.compile = .ok nodes)
    (hplan : fullPlan order keys net opts = .ok p) :
    p.fabrics = (layout order opts.applyDefaults.toPlanOptions net nodes).fabrics := by
  simp only [fullPlan, bind_eq_ok, wrap_eq_ok, hcompile, Except.ok.injEq, exists_eq_left'] at hplan
  obtain ⟨-, -, hplan⟩ := hplan
  simp only [assemble, bind_eq_ok, pure_eq_ok] at hplan
  obtain ⟨_, -, _, -, _, -, _, -, rfl⟩ := hplan
  rfl

end Facts

end Dualnet.Netsim
