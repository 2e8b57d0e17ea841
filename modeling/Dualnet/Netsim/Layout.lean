import Dualnet.Library.Iteration
import Dualnet.Netsim.Plan

/-!
# The fabrics of a simulation, in any iteration order

The first half of `Plan` in `netsim/plan.go`, up to the fabrics, as a run meets its maps: the
check for userspace WireGuard egresses, the graph of devices, its components and their roles. The
order of every loop over a map that the source does not sort is an argument. `Layout` holds what
the rest of `Plan` reads of all this.
-/

namespace Dualnet.Netsim

open Library Text Schema

/-- The loops of `Plan` over maps that it does not sort. -/
inductive Site where
  /-- The configurations, checked for userspace WireGuard egresses. -/
  | warpNodes
  /-- The egresses of one of them. -/
  | warpEgresses (node : String)
  /-- A node's egresses, whose devices are added to the graph. -/
  | egressDevices (node : String)
  /-- The devices, in `components`. -/
  | endpoints
  /-- The components, which become fabrics. -/
  | components
  /-- A node's egresses, whose fabrics it refers to. -/
  | references (node : String)
  /-- The WireGuard profiles of a node, copied to its files. -/
  | warpFiles (node : String)
  /-- A node's egresses, in `nodeNeedsTun`. -/
  | natEgresses (node : String)
  deriving DecidableEq

/-- The orders of one run. -/
abbrev Orders := Iteration Site

/-- The check at the start of `Plan`. -/
def checkWarp (order : Orders) (nodes : Configs) : Except String Unit :=
  (order.visit .warpNodes nodes.entries).forM fun e =>
    (order.visit (.warpEgresses e.1) e.2.egresses.entries).forM fun eg =>
      reject (eg.2.mode == "warp" && e.2.datapath != "kernel")
        s!"netsim: node {quote e.1} egress {quote eg.1} uses warp mode on a userspace node; only kernel-datapath warp is simulated (a kernel WireGuard peer on the hub)"

/-- The devices of the network's links, those of each link joined. -/
def linkGraph (net : Network) : UnionFind Endpoint :=
  net.links.foldl
    (fun u l => UnionFind.union u (dialerEndpoint net l) (acceptorEndpoint net l)) ∅

/-- The devices of the nodes' egresses and LANs. -/
def nodeEndpoints (order : Orders) (net : Network) (nodes : Configs) : List Endpoint :=
  net.nodes.sortedKeys.flatMap fun name =>
    order.visit (.egressDevices name) (egressEndpoints nodes name) ++ lanEndpoints net nodes name

/-- The devices of the network. -/
def deviceGraph (order : Orders) (net : Network) (nodes : Configs) : UnionFind Endpoint :=
  (nodeEndpoints order net nodes).foldl UnionFind.add (linkGraph net)

/-- The components with their roots, as the run meets them. -/
def metComps (order : Orders) (net : Network) (nodes : Configs) : List (Endpoint × Comp) :=
  let u := deviceGraph order net nodes
  let found := UnionFind.componentsIn (order.visit .endpoints u.keys) u
  (order.visit .components found.entries).map fun e => (e.1, comp net nodes e.2)

/-- The components in the order of their signatures. -/
def rootedComps (order : Orders) (net : Network) (nodes : Configs) : List (Endpoint × Comp) :=
  (metComps order net nodes).insertionSort fun c d => c.2.sig ≤ d.2.sig

def fabricName (i : Nat) : String := s!"net{i}"

/-- `fabricOf`: the name of the fabric of every device. -/
def fabricNames (cs : List (Endpoint × Comp)) : FMap Endpoint String :=
  cs.zipIdx.foldl (fun m c => c.1.2.endpoints.foldl (fun m e => m.insert e (fabricName c.2)) m) ∅

/-- What the rest of `Plan` reads of the components: the fabrics, the fabric of every device, and
the root and the LAN of every component. -/
structure Layout where
  fabrics : List Fabric
  fabricOf : Endpoint → String
  lans : List (Endpoint × String)

/-- The layout of some components. -/
def layoutOf (opts : PlanOptions) (cs : List (Endpoint × Comp)) : Layout where
  fabrics := cs.zipIdx.map fun c => fabric opts c.1.2 c.2
  fabricOf e := ((fabricNames cs).lookup e).getD ""
  lans := cs.map fun c => (c.1, c.2.lanFor)

/-- The layout of a network. -/
def layout (order : Orders) (opts : PlanOptions) (net : Network) (nodes : Configs) : Layout :=
  layoutOf opts (rootedComps order net nodes)

/-! ## In the stored order -/

/-- Run in the stored order, the components are those of `comps`. -/
theorem rootedComps_inOrder (net : Network) (nodes : Configs) :
    (rootedComps .inOrder net nodes).map Prod.snd = comps net nodes := by
  rw [rootedComps, List.map_insertionSort _ (fun c d : Comp => c.sig ≤ d.sig) Prod.snd _
    (fun _ _ _ _ => Iff.rfl), metComps, List.map_map, comps, UnionFind.components_eq]
  rfl

end Dualnet.Netsim
