import Dualnet.Netsim.Containers

/-!
# The scenarios of a simulation

`netsim/scenario.go`: from every path of a network a list of scenarios, each a list of steps that
pause and resume nodes and probe which egress traffic leaves by. Durations are in seconds.
-/

namespace Dualnet.Netsim

open Library Text Schema
open Config (CondKind IPSet)

/-- `ProbeStep`: drive one flow from `node` and assert its outcome. -/
structure ProbeStep where
  node : String
  inject : Bool := false
  src : String := ""
  srcIP : String := ""
  dst : String := ""
  expectSrc : String
  expectFail : Bool := false
  checkNoDrops : Bool := false
  hold : Nat := 0
  deriving DecidableEq

/-- `Step`. -/
inductive Step where
  | probe (p : ProbeStep)
  | pause (target : String)
  | unpause (target : String)
  | signal (target sig : String)
  | appendFile (target file content : String)
  | sleep (wait : Nat)
  deriving DecidableEq

/-- `Scenario`. -/
structure Scenario where
  name : String
  description : String
  steps : List Step
  deriving DecidableEq

def downSettle : Nat := 5
def upSettle : Nat := 4
def holdWindow : Nat := 3

/-- The map `condKind` of `Scenarios`. -/
def condKind (net : Network) (cond : String) : Option CondKind :=
  (net.conditions.lookup cond).map fun c =>
    if c.dstIn.isSome then .dst else if c.srcIn.isSome then .src else .health

/-- `hasHealthcheck`. -/
def hasHealthcheck (net : Network) (when : List String) : Bool :=
  when.any fun c => condKind net c == some .health

/-- `usesDstInWhen`. -/
def usesDstInWhen (net : Network) (when : List String) : Bool :=
  when.any fun c => condKind net c == some .dst

/-- The address the hub sees for an egress of a node. -/
def SimPlan.address (sp : SimPlan) (node egress : String) : String :=
  ((sp.egressIP.lookup node).bind fun m => m.lookup egress).getD ""

/-- `branchEgressIP`: the address of a branch's egress, on its gateway or on the origin. -/
def branchEgressIP (sp : SimPlan) (origin : String) (br : Branch) : String :=
  sp.address (if br.gateway ≠ "" then br.gateway else origin) br.egress

/-- `firstHealthyBranch`: the first branch whose use of `dst_in` fits the destination, by its
index. -/
def firstHealthyBranch (net : Network) (p : Path) (dst : String) : Nat :=
  (p.routes.findIdx? fun br => usesDstInWhen net br.when == (dst == iranDst)).getD
    (p.routes.length - 1)

/-- `branchLabel`. -/
def branchLabel (br : Branch) : String :=
  if br.gateway ≠ "" then "gw-" ++ br.gateway ++ "-" ++ br.egress else "egress-" ++ br.egress

/-- `describeWhen`. -/
def describeWhen (br : Branch) : String :=
  if br.when.isEmpty then "default" else br.when.foldl (fun s c => s ++ " " ++ c) "when"

/-- `probeFor`: an injection at a locally fed tun, or a request of the origin's LAN client. -/
def probeFor (net : Network) (sp : SimPlan) (origin dst expect : String)
    (expectFail checkDrops : Bool) : ProbeStep :=
  let debug := (sp.debugTun.lookup origin).getD false
  { node := origin, dst, expectSrc := expect, expectFail, checkNoDrops := checkDrops
    inject := debug
    src := if debug then ((anyTun (net.node origin)).map Conn.ip).getD "" else "" }

/-- `routingScenario`. -/
def routingScenario (net : Network) (sp : SimPlan) (p : Path) (br : Branch) (dst expect : String) :
    Scenario where
  name := s!"route/{p.label}/{branchLabel br}"
  description :=
    s!"path {quote p.label}: {describeWhen br} → egress {quote br.egress} (src {expect})"
  steps := [.probe (probeFor net sp p.node dst expect false true)]

/-- `failoverScenario`. -/
def failoverScenario (net : Network) (sp : SimPlan) (p : Path) (br : Branch)
    (dst expect : String) (pauseGWs : List String) (restoreExpect : String) : Scenario where
  name := s!"failover/{p.label}/{branchLabel br}"
  description :=
    s!"path {quote p.label}: pause {showList pauseGWs} → fallback egress {quote br.egress} (src {expect}), then self-heal (src {restoreExpect})"
  steps :=
    pauseGWs.map .pause ++
    [.sleep downSettle,
     .probe { probeFor net sp p.node dst expect false false with hold := holdWindow }] ++
    pauseGWs.map .unpause ++
    [.sleep upSettle, .probe (probeFor net sp p.node dst restoreExpect false false)]

/-- The gateways of the healthchecked branches in a list. -/
def pauseGWs (net : Network) (earlier : List Branch) : List String :=
  (earlier.filter fun br => br.gateway != "" && hasHealthcheck net br.when).map Branch.gateway

/-- The destination branch `br` is probed with. -/
def probeDst (net : Network) (sp : SimPlan) (br : Branch) : String :=
  if usesDstInWhen net br.when then sp.iranDst else sp.worldDst

/-- The scenario of branch `i` of a userspace path: a failover if a gateway has to be paused. -/
def branchScenario (net : Network) (sp : SimPlan) (p : Path) (br : Branch) (i : Nat) : Scenario :=
  let pause := pauseGWs net (p.routes.take i)
  let dst := probeDst net sp br
  let expect := branchEgressIP sp p.node br
  if pause.isEmpty then routingScenario net sp p br dst expect
  else
    let restore := p.routes.getD (firstHealthyBranch net p dst) { egress := "" }
    failoverScenario net sp p br dst expect pause (branchEgressIP sp p.node restore)

/-- The routing and failover scenarios of a userspace path. -/
def pathScenarios (net : Network) (sp : SimPlan) (p : Path) : List Scenario :=
  p.routes.zipIdx.map fun e => branchScenario net sp p e.1 e.2

/-- The steps of a reload: the appended destination moves from one address to another. -/
def reloadScenario (p : Path) (sp : SimPlan) (file before after : String) (geo : Branch)
    (probe : String → ProbeStep) : Scenario :=
  let ctr := (sp.nodeContainer.lookup p.node).getD ""
  { name := s!"sighup/{p.label}"
    description :=
      s!"append {sp.worldDst} to {file} + SIGHUP flips WorldDst from src {before} to geo egress {quote geo.egress} (src {after})"
    steps := [
      .probe (probe before), .appendFile ctr file (sp.worldDst ++ "/32"), .signal ctr "SIGHUP",
      .sleep 2, .probe (probe after)] }

/-- The file a node reads a condition from. -/
def SimPlan.fileOf (sp : SimPlan) (node cond : String) : String :=
  ((sp.conditionFile.lookup node).bind fun m => m.lookup cond).getD ""

/-- `sighupScenario`. -/
def sighupScenario (net : Network) (sp : SimPlan) (p : Path) (geo : Branch) : Option Scenario :=
  let file := ((geo.when.filter fun c => condKind net c == some .dst).getLast?.map
    (sp.fileOf p.node)).getD ""
  let healthy := p.routes.getD (firstHealthyBranch net p sp.worldDst) { egress := "" }
  let before := branchEgressIP sp p.node healthy
  if file = "" ∨ before = "" then none
  else some (reloadScenario p sp file before (branchEgressIP sp p.node geo) geo fun expect =>
    probeFor net sp p.node sp.worldDst expect false false)

/-- `firstListIP`. -/
def firstListIP (set : Option IPSet) : String :=
  match set.bind fun s => s.list.head? with
  | none => ""
  | some tok => String.ofList (tok.toList.takeWhile (· != '/'))

/-- `kernelSighupScenario`. -/
def kernelSighupScenario (sp : SimPlan) (p : Path) (geo : Branch) : Option Scenario :=
  let file := sp.fileOf p.node (geo.when.headD "")
  match p.routes.find? fun br => br.when.isEmpty with
  | none => none
  | some defBr =>
    let before := sp.address p.node defBr.egress
    let after := sp.address p.node geo.egress
    if file = "" ∨ before = "" ∨ after = "" ∨ before = after then none
    else some (reloadScenario p sp file before after geo fun expect =>
      { node := p.node, dst := sp.worldDst, expectSrc := expect })

/-- The probe of a kernel branch and its label; none for a branch that cannot be probed. -/
def kernelProbe (net : Network) (sp : SimPlan) (p : Path) (br : Branch) :
    Option (String × ProbeStep) :=
  let probe : ProbeStep :=
    { node := p.node, expectSrc := sp.address p.node br.egress, checkNoDrops := true }
  match br.when with
  | [] => some ("default", { probe with dst := sp.worldDst })
  | cond :: _ => match condKind net cond with
    | some .src =>
      let leg := firstListIP (net.condition cond).srcIn
      if leg = "" then none
      else some ("src-" ++ cond, { probe with dst := sp.worldDst, srcIP := leg })
    | some .dst => some ("dst-" ++ cond, { probe with dst := sp.iranDst })
    | _ => none

/-- `kernelScenarios`. -/
def kernelScenarios (net : Network) (sp : SimPlan) (p : Path) : List Scenario :=
  let probes := p.routes.filterMap fun br => (kernelProbe net sp p br).map fun (label, probe) =>
    let mode := ((net.node p.node).egresses.lookup br.egress).map Config.Egress.mode
    let via := if mode = some "warp" then " via warp tunnel" else ""
    { name := s!"route/{p.label}/{label}"
      description :=
        s!"kernel path {quote p.label}: {describeWhen br} → egress {quote br.egress}{via} (src {probe.expectSrc})"
      steps := [.probe probe] }
  let geo := p.routes.find? fun br => (br.when.head?.bind (condKind net)) == some .dst
  probes ++ (geo.bind (kernelSighupScenario sp p)).toList

/-- `Scenarios`. -/
def scenarios (net : Network) (sp : SimPlan) : List Scenario :=
  let kernel (p : Path) : Bool := (net.node p.node).datapath == "kernel"
  net.paths.flatMap (fun p =>
    if kernel p then kernelScenarios net sp p else pathScenarios net sp p) ++
  (net.paths.filter fun p => !kernel p).flatMap fun p =>
    ((p.routes.find? fun br => usesDstInWhen net br.when).bind
      (sighupScenario net sp p)).toList

end Dualnet.Netsim
