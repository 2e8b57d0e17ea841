import Dualnet.Config.Validate

/-!
# The network schema

`netschema/schema.go`: the whole mesh in one document, and the lookups validation and
compilation share. Reading a missing key of a Go map gives the zero value, which is the value
of `{}` here.
-/

namespace Dualnet.Schema

open Library Text
open Config (Egress IPSet HTTPConfig)

/-- `ProtocolSpec`: a configured transport. -/
structure ProtocolSpec where
  transport : String := ""
  cipher : String := ""
  warpped : Bool := false
  uploadPath : String := ""
  downloadPath : String := ""
  host : String := ""
  userAgent : String := ""
  idHeader : String := ""
  headers : FMap String String := ∅

/-- `hasHTTPOpts`. -/
def ProtocolSpec.hasHTTPOpts (p : ProtocolSpec) : Bool :=
  p.uploadPath != "" || p.downloadPath != "" || p.host != "" || p.userAgent != "" ||
    p.idHeader != "" || !p.headers.entries.isEmpty

/-- `httpConfig`. -/
def ProtocolSpec.httpConfig (p : ProtocolSpec) : Option HTTPConfig :=
  if p.transport != "http" || !p.hasHTTPOpts then none
  else some ⟨p.uploadPath, p.downloadPath, p.host, p.userAgent, p.idHeader, p.headers⟩

/-- `Conn`: an interface binding, or a tun. -/
structure Conn where
  type : String := ""
  iface : String := ""
  ip : String := ""
  captureDefault : Bool := false
  lan : String := ""

/-- `isTun`. -/
def Conn.isTun (c : Conn) : Bool := c.type == "tun"

/-- `BuildSpec`: a cross-compile recipe. -/
structure BuildSpec where
  arch : String

/-- `DeploySpec`: how a node's config and binary reach its host. -/
structure DeploySpec where
  mode : String
  build : String
  host : String := ""
  user : String := ""
  port : Int := 0
  key : String := ""
  binPath : String := ""
  configPath : String := ""
  filesDirectory : String := ""
  daemonize : String := ""
  unit : String := ""
  restartCmd : String := ""
  context : String := ""
  namespaceName : String := ""
  image : String := ""
  method : String := ""
  importHost : String := ""
  manifest : String := ""
  deploymentName : String := ""

/-- `Node`. -/
structure Node where
  ip : String := ""
  datapath : String := ""
  connections : FMap String Conn := ∅
  egresses : FMap String Egress := ∅
  psk : String := ""
  deploy : Option DeploySpec := none

/-- `HealthcheckSpec`: the round trip of a path's gateway branch. -/
structure HealthcheckSpec where
  path : String
  gateway : String := ""
  tun : String := ""

/-- `ConditionSpec`. -/
structure ConditionSpec where
  dstIn : Option IPSet := none
  srcIn : Option IPSet := none
  healthcheck : Option HealthcheckSpec := none

/-- `Link`: one directional data flow between two nodes. -/
structure Link where
  name : String := ""
  dialer : String := ""
  acceptor : String := ""
  dataflow : String := ""
  protocol : String := ""
  port : Int := 0
  dialerSource : String := ""
  acceptorSource : String := ""
  multiple : Bool := false
  idSetter : String := ""
  psk : String := ""

/-- `Branch`; its gateway is derived by `inferGateways`. -/
structure Branch where
  when : List String := []
  egress : String
  up : List String := []
  down : List String := []
  gateway : String := ""
  deriving DecidableEq

/-- `Path`: one node's traffic handling. -/
structure Path where
  name : String := ""
  node : String
  routes : List Branch

/-- `Label`. -/
def Path.label (p : Path) : String := if p.name ≠ "" then p.name else p.node

/-- `Network`. -/
structure Network where
  psk : String := ""
  mtu : Int := 0
  subnet : String := ""
  protocols : FMap String ProtocolSpec := ∅
  conditions : FMap String ConditionSpec := ∅
  nodes : FMap String Node := ∅
  links : List Link := []
  paths : List Path := []
  builds : FMap String BuildSpec := ∅

def toAcceptor : String := "to-acceptor"
def toDialer : String := "to-dialer"

/-- `targetOf`: the node a link delivers data to. -/
def targetOf (l : Link) : String := if l.dataflow = toAcceptor then l.acceptor else l.dialer

/-- `senderOf`: the node that sends on a link. -/
def senderOf (l : Link) : String := if l.dataflow = toAcceptor then l.dialer else l.acceptor

/-- `gatewayOf`: the terminus of the last up-link, or `""` for a local branch. -/
def gatewayOf (br : Branch) (links : FMap String Link) : Except String String :=
  match br.up.getLast? with
  | none => do
    reject (!br.down.isEmpty) "branch has down-links but no up-links"
    pure ""
  | some lastUp => match links.lookup lastUp with
    | none => .error s!"unknown up-link {quote lastUp}"
    | some last =>
      let gw := targetOf last
      match br.down with
      | [] => .ok gw
      | firstDown :: _ => match links.lookup firstDown with
        | none => .error s!"unknown down-link {quote firstDown}"
        | some first => do
          reject (senderOf first != gw)
            s!"up-path ends at {quote gw} but down-path starts at {quote (senderOf first)} (they must be the same gateway)"
          pure gw

/-- The branch with its derived gateway. -/
def Branch.infer (links : FMap String Link) (br : Branch) : Except String Branch :=
  (gatewayOf br links).map fun gw => { br with gateway := gw }

/-- `inferGateways`. -/
def Network.inferGateways (n : Network) (links : FMap String Link) : Except String Network := do
  let paths ← n.paths.mapM fun p => do
    let routes ← wrap s!"netschema: path for node {quote p.node}: " (p.routes.mapM (·.infer links))
    pure { p with routes }
  pure { n with paths }

/-- `linkMap`. -/
def Network.linkMap (n : Network) : FMap String Link := FMap.index Link.name n.links

/-- The node of a name. -/
def Network.node (n : Network) (name : String) : Node := (n.nodes.lookup name).getD {}

/-- The condition of a name. -/
def Network.condition (n : Network) (name : String) : ConditionSpec :=
  (n.conditions.lookup name).getD {}

/-- What the loop of `originTun` collects. -/
structure TunState where
  capture : String := ""
  sole : String := ""
  count : Nat := 0

/-- One round of `originTun`'s loop. -/
def TunState.visit (st : TunState) (entry : Σ _ : String, Conn) : TunState :=
  if entry.2.isTun then
    { capture := if entry.2.captureDefault then entry.1 else st.capture
      sole := entry.1
      count := st.count + 1 }
  else st

/-- `originTun`: a capture-default tun, else the sole tun. -/
def Node.originTun (nd : Node) : Option String :=
  let st := nd.connections.entries.foldl TunState.visit {}
  if st.capture ≠ "" then some st.capture
  else if st.count = 1 then some st.sole
  else none

/-- `resolveSource`: a connection name's device and address; any other name is a device. -/
def Node.resolveSource (nd : Node) (name : String) : String × String :=
  if name = "" then ("", "")
  else match nd.connections.lookup name with
    | some c => (c.iface, c.ip)
    | none => (name, "")

/-- `resolveIface`. -/
def Node.resolveIface (nd : Node) (name : String) : String := (nd.resolveSource name).1

/-- `kernelLANIfaces`: the devices of a kernel node that are no egress's exit. -/
def Node.kernelLANIfaces (nd : Node) : List String :=
  let wan := nd.egresses.entries.map fun e => nd.resolveIface e.2.extIface
  let out := nd.connections.entries.foldl (fun out e =>
    let c := e.2
    if c.isTun || c.iface == "" || wan.contains c.iface || out.contains c.iface then out
    else out ++ [c.iface]) []
  out.insertionSort (· ≤ ·)

/-! ## Condition files -/

/-- One element of `path.Clean`, over the elements kept so far. -/
def cleanElement (rooted : Bool) (out : List String) (e : String) : List String :=
  if e = "" ∨ e = "." then out
  else if e ≠ ".." then out ++ [e]
  else match out.getLast? with
    | some last => if last = ".." then out ++ [e] else out.dropLast
    | none => if rooted then out else [e]

/-- `path.Clean`. -/
def cleanPath (s : String) : String :=
  let rooted := s.toList.head? == some '/'
  let elements := ((s.toList.splitOn '/').map String.ofList).foldl (cleanElement rooted) []
  if rooted then "/" ++ "/".intercalate elements
  else if elements.isEmpty then "." else "/".intercalate elements

/-- `path.Dir`. -/
def dirPath (s : String) : String :=
  cleanPath (String.ofList (s.toList.reverse.dropWhile (· != '/')).reverse)

/-- `path.Base`. -/
def basePath (s : String) : String :=
  if s = "" then "."
  else
    let stripped := s.toList.reverse.dropWhile (· == '/')
    if stripped.isEmpty then "/" else String.ofList (stripped.takeWhile (· != '/')).reverse

/-- `filesDir`. -/
def DeploySpec.filesDir (d : DeploySpec) : String :=
  if d.filesDirectory ≠ "" then d.filesDirectory
  else dirPath (if d.configPath = "" then "/etc/dualnet/node.yaml" else d.configPath)

/-- `remoteConditionFile`: where a node reads a condition's file at run time. -/
def Network.remoteConditionFile (n : Network) (node localFile : String) : String :=
  match (n.node node).deploy with
  | none => localFile
  | some d => d.filesDir ++ "/" ++ basePath localFile

/-- `relocateSet`. -/
def Network.relocateSet (n : Network) (node : String) (s : IPSet) : IPSet :=
  if s.file ≠ "" then { s with file := n.remoteConditionFile node s.file } else s

end Dualnet.Schema
