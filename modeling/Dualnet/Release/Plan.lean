import Dualnet.Schema.Steps

/-!
# The release plan

`release/plan.go`: what has to be built and copied where, derived from a network and its compiled
configurations. Left out are the banner fields, the compression flag of a recipe and the encodings
that only the templates read; the restart command and the configuration of a pod stand for their
encoded texts.
-/

namespace Dualnet.Release

open Library Text Schema

/-- `FileCopy`: one condition data file to ship. -/
structure FileCopy where
  node : String
  localFile : String
  remote : String
  deriving DecidableEq

/-- `GoBuild`: one cross-compile. -/
structure GoBuild where
  name : String
  goarch : String
  goarm : String
  out : String

/-- `DockerBuild`: one runtime image. -/
structure DockerBuild where
  image : String
  platform : String
  bin : String

/-- `SSHPlan`: the deploy step of an ssh node. -/
structure SSHPlan where
  node : String
  host : String
  sshOpts : String
  bin : String
  binPath : String
  configPath : String
  configFile : String
  daemonize : String
  unit : String
  restartCmd : String

/-- `Port`. -/
structure Port where
  port : Int
  protocol : String

/-- `K8sPlan`: the deploy step of a k8s node. -/
structure K8sPlan where
  node : String
  context : String
  namespaceName : String
  image : String
  method : String
  importHost : String
  manifest : String
  deployment : String
  variant : String
  privileged : Bool
  pullPolicy : String
  ports : List Port
  config : Config.Node

/-- `Plan`. -/
structure Plan where
  goBuilds : List GoBuild := []
  docker : List DockerBuild := []
  sshNodes : List SSHPlan := []
  k8sNodes : List K8sPlan := []
  sshFiles : List FileCopy := []

/-- `orDefault`. -/
def orDefault (v default : String) : String := if v = "" then default else v

/-- `ArchBuild`: the compiler's and the container's names of an arch. -/
def archBuild (arch : String) : Option (String × String × String) :=
  if arch = "amd64" then some ("amd64", "", "linux/amd64")
  else if arch = "arm64" then some ("arm64", "", "linux/arm64")
  else if arch = "arm/v5" then some ("arm", "5", "linux/arm/v5")
  else if arch = "arm/v6" then some ("arm", "6", "linux/arm/v6")
  else if arch = "arm/v7" then some ("arm", "7", "linux/arm/v7")
  else none

/-- One recipe of the build matrix. -/
def goBuild (builds : FMap String BuildSpec) (name : String) : Except String GoBuild :=
  let arch := ((builds.lookup name).map BuildSpec.arch).getD ""
  match archBuild arch with
  | none => .error s!"release: build {quote name} has unsupported arch {quote arch}"
  | some (goarch, goarm, _) => .ok ⟨name, goarch, goarm, "dualnet-" ++ name⟩

/-- `sshPlan`. -/
def sshPlan (node : String) (d : DeploySpec) (bin : String) : SSHPlan :=
  let host := orDefault d.host node
  let opts := (if d.port ≠ 0 then [s!"-o Port={d.port}"] else []) ++
    if d.key ≠ "" then ["-o IdentityFile=" ++ d.key] else []
  { node, bin
    host := if d.user ≠ "" ∧ '@' ∉ host.toList then d.user ++ "@" ++ host else host
    sshOpts := " ".intercalate opts
    binPath := orDefault d.binPath "/usr/local/bin/dualnet"
    configPath := orDefault d.configPath "/etc/dualnet/node.yaml"
    configFile := node ++ ".yaml"
    daemonize := orDefault d.daemonize "none"
    unit := orDefault d.unit "dualnet"
    restartCmd := d.restartCmd }

/-- `listenPorts`. -/
def listenPorts (cn : Config.Node) : List Port :=
  (cn.connections.filter fun c => c.type == "listen" && c.port != 0).map fun c =>
    ⟨c.port, if c.transport = "udp" then "UDP" else "TCP"⟩

/-- `needsPrivilege`. -/
def needsPrivilege (cn : Config.Node) : Bool :=
  cn.datapath == "kernel" ||
    cn.egresses.entries.any (fun e => e.2.mode == "kernel" || e.2.mode == "direct") ||
    cn.connections.any (·.type == "tun")

/-- `k8sPlan`. -/
def k8sPlan (node : String) (d : DeploySpec) (arch : String) (cn : Config.Node) :
    Except String (K8sPlan × DockerBuild) :=
  match archBuild arch with
  | none => .error s!"release: node {quote node} build arch {quote arch} unsupported"
  | some (_, _, platform) => do
    let method := orDefault d.method "registry"
    let ports := listenPorts cn
    reject ports.isEmpty s!"release: k8s node {quote node} has no listen connections to expose"
    pure ({ node, method, ports
            context := d.context
            namespaceName := orDefault d.namespaceName "default"
            image := d.image
            importHost := orDefault d.importHost node
            manifest := node ++ ".k8s.yaml"
            deployment := orDefault d.deploymentName ("dualnet-" ++ node)
            variant := orDefault d.manifest "hostNetwork"
            privileged := needsPrivilege cn
            pullPolicy := if method = "ctr" then "IfNotPresent" else "Always"
            config := { cn with psk := "" } },
          ⟨d.image, platform, "dualnet-" ++ d.build⟩)

/-- The copy of one set of a condition: the compiled set names the remote file, the schema's the
local one. -/
def setCopy (node : String) (compiled declared : Option Config.IPSet) : List FileCopy :=
  match compiled, declared with
  | some set, some spec => if set.file ≠ "" then [⟨node, spec.file, set.file⟩] else []
  | _, _ => []

/-- `conditionFiles`. -/
def conditionFiles (n : Network) (node : String) (cn : Config.Node) : List FileCopy :=
  cn.conditions.flatMap fun c => match n.conditions.lookup c.name with
    | none => []
    | some sc => setCopy node c.dstIn sc.dstIn ++ setCopy node c.srcIn sc.srcIn

/-- A k8s node cannot be sent condition files. -/
def rejectFiles (node : String) (c : Config.Condition) : Except String Unit := do
  let file (set : Option Config.IPSet) : String := (set.map Config.IPSet.file).getD ""
  let refuse (kind f : String) : Except String Unit :=
    reject (f != "")
      s!"release: k8s node {quote node} references {kind} file {quote f} — shipping condition files to k8s nodes is not supported yet (mount it via the manifest)"
  refuse "dst_in" (file c.dstIn)
  refuse "src_in" (file c.srcIn)

/-- One round of the node loop of `BuildPlan`; the images are collected by name. -/
def planNode (n : Network) (nodes : Configs) (st : Plan × FMap String DockerBuild)
    (name : String) : Except String (Plan × FMap String DockerBuild) :=
  match (n.node name).deploy with
  | none => .ok st
  | some d => match nodes.lookup name with
    | none =>
      .error s!"release: node {quote name} has a deploy block but no compiled config"
    | some cn =>
      let (p, images) := st
      if d.mode = "ssh" then
        .ok ({ p with
          sshNodes := p.sshNodes ++ [sshPlan name d ("dualnet-" ++ d.build)]
          sshFiles := p.sshFiles ++ conditionFiles n name cn }, images)
      else if d.mode = "k8s" then do
        cn.conditions.forM (rejectFiles name)
        let arch := ((n.builds.lookup d.build).map BuildSpec.arch).getD ""
        let (k, db) ← k8sPlan name d arch cn
        let prev := (images.lookup db.image).getD db
        reject (prev.platform != db.platform || prev.bin != db.bin)
          s!"release: image {quote db.image} is built two incompatible ways ({prev.platform}/{prev.bin} vs {db.platform}/{db.bin})"
        pure ({ p with k8sNodes := p.k8sNodes ++ [k] }, images.insert db.image db)
      else .error s!"release: node {quote name} has unknown deploy mode {quote d.mode}"

/-- `BuildPlan`. -/
def buildPlan (n : Network) (nodes : Configs) : Except String Plan := do
  let goBuilds ← n.builds.sortedKeys.mapM (goBuild n.builds)
  let (p, images) ← n.nodes.sortedKeys.foldlM (planNode n nodes) ({ goBuilds }, ∅)
  pure { p with docker := images.sortedKeys.filterMap images.lookup }

end Dualnet.Release
