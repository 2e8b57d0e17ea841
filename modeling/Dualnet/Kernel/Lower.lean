import Dualnet.Config.Validate

/-!
# Lowering a kernel node's policy

`kernelnode/kernelnode.go`: `lower` turns the forward policy of a kernel-datapath config and
the resolved next-hops into a plan of `ip` and `iptables` argument vectors. The file system is
a function from a path to its content; the map of next-hops is total, an absent one being the
zero value.
-/

namespace Dualnet.Kernel

open Library Text Config

def tableEgressBase : Nat := 300
def tableGeoBase : Nat := 350
def prioMain : Nat := 10000
def prioSrcBase : Nat := 11000
def prioDstBase : Nat := 12000
def prioDefault : Nat := 13000

/-- `underlayRoute`: where a warp egress's endpoint is pinned. -/
structure UnderlayRoute where
  ip : String
  dev : String
  gw : String
  deriving DecidableEq

/-- `wan`: an egress's device and gateway; `gw = ""` is point-to-point. -/
structure Wan where
  dev : String
  gw : String
  ep : Option UnderlayRoute
  deriving DecidableEq

/-- `geoBinding`: the set whose prefixes go to `wan` in `table`. -/
structure GeoBinding where
  cond : String
  set : IPSet
  table : Nat
  wan : Wan
  deriving DecidableEq

/-- An argument vector. -/
abbrev Argv := List String

/-- `plan`. -/
structure Plan where
  tables : List Nat := []
  tableRoutes : List Argv := []
  mainRoutes : List Argv := []
  rules : List Argv := []
  iptables : List Argv := []
  geo : List GeoBinding := []
  deriving DecidableEq

/-- The next-hop part of a route. -/
def nextHop (gw dev : String) : Argv := (if gw ≠ "" then ["via", gw] else []) ++ ["dev", dev]

/-- `defaultRoute`. -/
def defaultRoute (w : Wan) (table : Nat) : Argv :=
  ["ip", "route", "add", "default"] ++ nextHop w.gw w.dev ++ ["table", itoa table]

/-- `geoRoute`. -/
def geoRoute (cidr : String) (w : Wan) (table : Nat) : Argv :=
  ["ip", "route", "add", cidr] ++ nextHop w.gw w.dev ++ ["table", itoa table]

/-- `onLinkRoute`. -/
def onLinkRoute (cidr lan : String) : Argv := ["ip", "route", "add", cidr, "dev", lan]

/-- `hostRoute`. -/
def hostRoute (u : UnderlayRoute) : Argv :=
  ["ip", "route", "add", u.ip ++ "/32"] ++ nextHop u.gw u.dev

/-- `ruleMainSuppress`. -/
def ruleMainSuppress (prio : Nat) : Argv :=
  ["ip", "rule", "add", "priority", itoa prio, "from", "all", "lookup", "main",
    "suppress_prefixlength", "0"]

/-- `ruleFrom`. -/
def ruleFrom (prio : Nat) (cidr : String) (table : Nat) : Argv :=
  ["ip", "rule", "add", "priority", itoa prio, "from", cidr, "lookup", itoa table]

/-- `ruleLookup`. -/
def ruleLookup (prio : Nat) («from» : String) (table : Nat) : Argv :=
  ["ip", "rule", "add", "priority", itoa prio] ++
    (if «from» ≠ "" then ["from", «from»] else []) ++ ["lookup", itoa table]

/-- `masqRules`. -/
def masqRules (wanDev : String) (lans : List String) : List Argv :=
  ["-t", "nat", "-A", "POSTROUTING", "-o", wanDev, "-j", "MASQUERADE"] ::
    lans.flatMap (fun lan =>
      [["-A", "FORWARD", "-i", lan, "-o", wanDev, "-j", "ACCEPT"],
        ["-A", "FORWARD", "-i", wanDev, "-o", lan, "-m", "conntrack", "--ctstate",
          "RELATED,ESTABLISHED", "-j", "ACCEPT"]]) ++
    [["-t", "mangle", "-A", "FORWARD", "-o", wanDev, "-p", "tcp", "--tcp-flags", "SYN,RST", "SYN",
      "-j", "TCPMSS", "--clamp-mss-to-pmtu"]]

/-- `normalizePrefix`: mask host bits, or make a bare address a host route. -/
def normalizePrefix (tok : String) : Except String String :=
  if '/' ∈ tok.toList then (Netip.parsePrefix tok).map fun p => p.masked.toString
  else (Netip.parseAddr tok).map fun a => (Netip.Prefix.host a.unmap).toString

/-- The lines of a prefix file: comments and blanks stripped, empty lines dropped. -/
def prefixLines (content : String) : List String :=
  (content.toList.splitOn '\n').filterMap fun line =>
    let line := trimSpace (line.takeWhile (· != '#'))
    if line.isEmpty then none else some (String.ofList line)

/-- The tokens of a set: its inline list, or the lines of its file. -/
def rawTokens (files : String → Except String String) (s : IPSet) : Except String (List String) :=
  if !s.list.isEmpty then .ok s.list else (files s.file).map prefixLines

/-- `readPrefixes`. -/
def readPrefixes (files : String → Except String String) (s : IPSet) :
    Except String (List String) := do
  (← rawTokens files s).mapM normalizePrefix

/-- The conditions by name; a later one replaces an earlier one of the same name. -/
def condByName (conditions : List Condition) : FMap String Condition :=
  FMap.index Condition.name conditions

section Lower

variable (files : String → Except String String) (cfg : Node) (wans : String → Wan)

/-- What `lower`'s egress loop builds. -/
structure EgressState where
  plan : Plan
  egTable : FMap String Nat
  epPinned : FMap String UnderlayRoute

/-- Pin a warp egress's endpoint, once per address. -/
def pinEndpoint (st : EgressState) : Option UnderlayRoute → Except String EgressState
  | none => .ok st
  | some ep => match st.epPinned.lookup ep.ip with
    | some prev => do
      reject (prev != ep)
        s!"kernelnode: warp endpoint {ep.ip} pinned to two different underlays ({prev.dev} via {quote prev.gw}, {ep.dev} via {quote ep.gw})"
      pure st
    | none => .ok { st with
        epPinned := st.epPinned.insert ep.ip ep
        plan := { st.plan with mainRoutes := st.plan.mainRoutes ++ [hostRoute ep] } }

/-- One round of `lower`'s egress loop. -/
def lowerEgress (st : EgressState) (entry : String × Nat) : Except String EgressState :=
  let (name, i) := entry
  let t := tableEgressBase + i
  let w := wans name
  pinEndpoint { st with
    egTable := st.egTable.insert name t
    plan := { st.plan with
      tables := st.plan.tables ++ [t]
      tableRoutes := st.plan.tableRoutes ++ [defaultRoute w t]
      iptables := st.plan.iptables ++ masqRules w.dev cfg.lanIfaces } } w.ep

/-- What `lower`'s branch loop builds. -/
structure BranchState where
  plan : Plan
  srcPrio : Nat
  dstIdx : Nat
  seenLeg : List String

/-- One source prefix of a `src_in` branch. -/
def lowerLeg (table : Nat) (lan : String) (st : BranchState) (ip : String) : BranchState :=
  let onLink := lan ≠ "" ∧ ip ∉ st.seenLeg
  { st with
    plan := { st.plan with
      rules := st.plan.rules ++ [ruleFrom st.srcPrio ip table]
      mainRoutes := st.plan.mainRoutes ++ if onLink then [onLinkRoute ip lan] else [] }
    srcPrio := st.srcPrio + 1
    seenLeg := if onLink then ip :: st.seenLeg else st.seenLeg }

/-- One round of `lower`'s branch loop. -/
def lowerBranch (egTable : FMap String Nat) (conds : FMap String Condition) (lan : String)
    (st : BranchState) (f : Forward) : Except String BranchState :=
  let table := (egTable.lookup f.egress).getD 0
  match f.when with
  | [] => .ok { st with
      plan := { st.plan with rules := st.plan.rules ++ [ruleLookup prioDefault "" table] } }
  | name :: _ =>
    let cond := conds.lookup name
    match cond.bind Condition.srcIn, cond.bind Condition.dstIn with
    | some set, _ => do
      let ips ← wrap s!"kernelnode: condition {quote name}: " (readPrefixes files set)
      pure (ips.foldl (lowerLeg table lan) st)
    | none, some set =>
      let t := tableGeoBase + st.dstIdx
      .ok { st with
        plan := { st.plan with
          tables := st.plan.tables ++ [t]
          rules := st.plan.rules ++ [ruleLookup (prioDstBase + st.dstIdx) "" t]
          geo := st.plan.geo ++ [⟨name, set, t, wans f.egress⟩] }
        dstIdx := st.dstIdx + 1 }
    | none, none => .error
        s!"kernelnode: forward branch condition {quote name} is neither src_in nor dst_in"

/-- `lower`. -/
def lower : Except String Plan := do
  let egresses := cfg.egresses.sortedKeys
  let eg ← egresses.zipIdx.foldlM (lowerEgress cfg wans) ⟨{}, ∅, ∅⟩
  let plan := { eg.plan with rules := eg.plan.rules ++ [ruleMainSuppress prioMain] }
  let lan := cfg.lanIfaces.headD ""
  let st ← cfg.forward.foldlM (lowerBranch files wans eg.egTable (condByName cfg.conditions) lan)
    ⟨plan, prioSrcBase, 0, []⟩
  pure st.plan

end Lower

end Dualnet.Kernel
