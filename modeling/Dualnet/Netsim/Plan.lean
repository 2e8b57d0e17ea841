import Dualnet.Library.UnionFind
import Dualnet.Schema.Compile

/-!
# The fabrics of a simulated network

The parts of `Plan` in `netsim/plan.go` that read the network alone: the fabrics its links, exits
and LAN devices fall into and the address of every container on them. `Layout` and `Containers`
put them together.
-/

namespace Dualnet.Netsim

open Library Text Schema

/-- The destination no generated prefix file contains. -/
def worldDst : String := "10.200.0.10"

/-- The destination every generated prefix file contains. -/
def iranDst : String := "10.200.0.20"

/-- The container of the simulated internet, and its host number on every fabric it joins. -/
def hubName : String := "internet"
def hubOctet : Nat := 254

/-- `PlanOptions`, with the defaults applied. -/
structure PlanOptions where
  netBase : String := "172.30"

/-- `endpoint`: one network device of a node. -/
structure Endpoint where
  node : String
  key : String
  deriving DecidableEq

/-- `epKey`: a named device is shared, an unnamed link side is a device of its own. -/
def epKey (dev link side : String) : String :=
  if dev ≠ "" then "dev:" ++ dev else "auto:" ++ link ++ ":" ++ side

def dialerEndpoint (net : Network) (l : Link) : Endpoint :=
  ⟨l.dialer, epKey ((net.node l.dialer).resolveIface l.dialerSource) l.name "d"⟩

def acceptorEndpoint (net : Network) (l : Link) : Endpoint :=
  ⟨l.acceptor, epKey ((net.node l.acceptor).resolveIface l.acceptorSource) l.name "a"⟩

/-- `captureTun`: the first capture-default tun by name. -/
def captureTun (nd : Node) : Option Conn :=
  nd.connections.sortedKeys.findSome? fun name =>
    (nd.connections.lookup name).filter fun c => c.isTun && c.captureDefault

/-- `anyTun`: the first tun by name. -/
def anyTun (nd : Node) : Option Conn :=
  nd.connections.sortedKeys.findSome? fun name => (nd.connections.lookup name).filter Conn.isTun

/-- `isDebugTun`: the node has tuns, and none captures or forwards a LAN. -/
def isDebugTun (nd : Node) : Bool :=
  let tuns := nd.connections.entries.filter fun e => e.2.isTun
  !tuns.isEmpty && tuns.all fun e => !e.2.captureDefault && e.2.lan == ""

/-- The devices of a node's egresses. -/
def egressEndpoints (nodes : Configs) (name : String) : List Endpoint :=
  (((nodes.lookup name).map fun cn => cn.egresses.entries).getD []).map fun e =>
    ⟨name, "dev:" ++ e.2.extIface⟩

/-- The devices a node serves a LAN on. -/
def lanEndpoints (net : Network) (nodes : Configs) (name : String) : List Endpoint :=
  let nd := net.node name
  (match captureTun nd with
    | some tc => if tc.lan ≠ "" then [⟨name, "dev:" ++ nd.resolveIface tc.lan⟩] else []
    | none => []) ++
  match nodes.lookup name with
  | some cn =>
    if cn.datapath = "kernel" then (cn.lanIfaces.take 1).map fun dev => ⟨name, "dev:" ++ dev⟩
    else []
  | none => []

/-- The devices of the network, those of each link joined. -/
def endpointGraph (net : Network) (nodes : Configs) : UnionFind Endpoint :=
  let linked : UnionFind Endpoint := net.links.foldl
    (fun u l => UnionFind.union u (dialerEndpoint net l) (acceptorEndpoint net l)) ∅
  (net.nodes.sortedKeys.flatMap fun name =>
    egressEndpoints nodes name ++ lanEndpoints net nodes name).foldl UnionFind.add linked

/-- A component of the device graph with its roles; `lanFor` is the node whose LAN it is. -/
structure Comp where
  sig : String
  nodes : List String
  egress : Bool
  lanFor : String
  endpoints : List Endpoint

/-- The roles of some joined devices. -/
def comp (net : Network) (nodes : Configs) (eps : List Endpoint) : Comp where
  sig := ",".intercalate ((eps.map fun e => e.node ++ "|" ++ e.key).insertionSort (· ≤ ·))
  nodes := (eps.map Endpoint.node).dedup.insertionSort (· ≤ ·)
  egress := eps.any fun e => (egressEndpoints nodes e.node).contains e
  lanFor := ((eps.filter fun e => (lanEndpoints net nodes e.node).contains e).getLast?.map
    Endpoint.node).getD ""
  endpoints := eps

/-- The components in the order of their signatures. -/
def comps (net : Network) (nodes : Configs) : List Comp :=
  ((UnionFind.components (endpointGraph net nodes)).entries.map fun e =>
    comp net nodes e.2).insertionSort fun c d => c.sig ≤ d.sig

def clientName (node : String) : String := "client-" ++ node

/-- `Fabric`: one simulated network segment, with the addresses of its containers. -/
structure Fabric where
  name : String
  subnet : String
  ips : FMap String String

/-- The fabric of the component at place `i`: its nodes from host number 2 on, the hub, and the
client of the LAN after the nodes. -/
def fabric (opts : PlanOptions) (c : Comp) (i : Nat) : Fabric :=
  let host (octet : Nat) : String := s!"{opts.netBase}.{i + 1}.{octet}"
  let ips : FMap String String := c.nodes.zipIdx.foldl (fun m e => m.insert e.1 (host (2 + e.2))) ∅
  let ips := if c.egress then ips.insert hubName (host hubOctet) else ips
  let ips := if c.lanFor ≠ "" then
    ips.insert (clientName c.lanFor) (host (2 + c.nodes.length)) else ips
  { name := s!"net{i}", subnet := s!"{opts.netBase}.{i + 1}.0/24", ips }

/-- `SimPlan`, the facts the scenarios assert against. -/
structure SimPlan where
  fabrics : List Fabric
  worldDst : String
  iranDst : String
  egressIP : FMap String (FMap String String)
  nodeContainer : FMap String String
  debugTun : FMap String Bool
  conditionFile : FMap String (FMap String String)

/-- The runtime paths of a node's prefix files, by condition. -/
def conditionFiles (cn : Config.Node) : FMap String String :=
  cn.conditions.foldl (fun m c => match c.dstIn with
    | some set => m.insert c.name set.file
    | none => m) ∅

end Dualnet.Netsim
