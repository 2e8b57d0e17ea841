import Dualnet.Cipher.Stream
import Dualnet.Library.Maps

/-!
# Node configurations

`config/config.go`: what a node runs from. Free-text settings that validation restricts later
(type, direction, transport, mode, datapath) stay strings, as the file holds them; an optional
pointer is an `Option` and a Go map an `FMap`.
-/

namespace Dualnet.Config

open Library

/-- `HTTPConfig`: customization of the HTTP carrier. -/
structure HTTPConfig where
  uploadPath : String
  downloadPath : String
  host : String
  userAgent : String
  idHeader : String
  headers : FMap String String

/-- `Connection`: one connection or tun. -/
structure Connection where
  name : String
  type : String := ""
  iface : String := ""
  sourceIP : String := ""
  direction : String := ""
  transport : String := ""
  port : Int := 0
  ip : String := ""
  warpped : Bool := false
  multiple : Bool := false
  idSetter : String := ""
  psk : String := ""
  cipher : String := ""
  http : Option HTTPConfig := none
  address : String := ""
  captureDefault : Bool := false
  lanIface : String := ""

/-- `Egress`: one named finalizer. -/
structure Egress where
  mode : String
  extIface : String := ""
  gateway : String := ""
  tunName : String := ""
  warpConfig : String := ""
  warpCache : String := ""
  warpInsecure : Bool := false

/-- `IPSet`: prefixes given by a file or inline. -/
structure IPSet where
  file : String := ""
  list : List String := []
  deriving DecidableEq

/-- `HealthcheckSpec`: the round trip a liveness condition probes. -/
structure HealthcheckSpec where
  up : List String
  tun : String
  links : List String

/-- `Condition`: a named predicate of one of three kinds. -/
structure Condition where
  name : String
  dstIn : Option IPSet := none
  srcIn : Option IPSet := none
  healthcheck : Option HealthcheckSpec := none

/-- `Forward`: one branch of a kernel node's policy; no condition is the default branch. -/
structure Forward where
  when : List String
  egress : String
  deriving DecidableEq

/-- `Match`. -/
structure Match where
  processed : Option Bool
  source : String
  conditions : List String := []
  deriving DecidableEq

/-- `Action`: forward to `target`, or finalize through `egress` with replies to `target`. -/
structure Action where
  egress : String := ""
  target : String
  deriving DecidableEq

/-- `Route`: one routing-table row. -/
structure Route where
  on : Match
  action : Action
  deriving DecidableEq

/-- `Node`: a whole node's configuration. -/
structure Node where
  psk : String
  mtu : Int
  subnet : String
  connections : List Connection := []
  egresses : FMap String Egress := ∅
  conditions : List Condition := []
  routes : List Route := []
  datapath : String := ""
  forward : List Forward := []
  lanIfaces : List String := []

/-- `proto.DefaultMTU`. -/
def defaultMTU : Int := 1360

/-- The per-connection part of `Defaults`. -/
def Connection.defaults (c : Connection) : Connection :=
  if c.cipher = "" then { c with cipher := "none" } else c

/-- The defaults of a connection set its cipher only. -/
theorem Connection.defaults_eq (c : Connection) :
    c.defaults = { c with cipher := if c.cipher = "" then "none" else c.cipher } := by
  rw [Connection.defaults]
  split <;> rfl

/-- The per-egress part of `Defaults`: a kernel-datapath warp egress gets its device name here. -/
def Egress.defaults (datapath name : String) (eg : Egress) : Egress :=
  let eg := if eg.mode = "" then { eg with mode := "kernel" } else eg
  if datapath = "kernel" ∧ eg.mode = "warp" ∧ eg.tunName = "" then
    { eg with tunName := "warp-" ++ name }
  else eg

/-- `Defaults`. -/
def Node.defaults (n : Node) : Node :=
  { n with
    mtu := if n.mtu = 0 then defaultMTU else n.mtu
    subnet := if n.subnet = "" then "10.9.0.0/24" else n.subnet
    connections := n.connections.map Connection.defaults
    egresses := n.egresses.mapVals (Egress.defaults n.datapath) }

/-- `EffectivePSK`. -/
def Connection.effectivePSK (c : Connection) (nodePSK : String) : String :=
  if c.psk ≠ "" then c.psk else nodePSK

/-- `Key`, over the hash function `sum256`. -/
def Connection.key {κ : Type} (sum256 : String → κ) (c : Connection) (nodePSK : String) : κ :=
  sum256 ("dualnet:v1:" ++ c.effectivePSK nodePSK)

end Dualnet.Config
