import Dualnet.Netsim.Containers
import Dualnet.Netsim.LayoutOrder
import Dualnet.Schema.Determinism
import Dualnet.Schema.LinkEnds

/-!
# Two runs of `Plan`

`Plan` documents that one network always yields one plan. `fullPlan_deterministic_iff`: for a
network whose compilation does not depend on the order of its maps and whose components have
different signatures, all runs agree exactly if the LAN devices on each fabric belong to one node.
Otherwise the node that gets the client of such a fabric is the one whose device the run meets
last (`joined_lans_differ`).

Everything after the layout reads its maps by key or in sorted order, so runs with one layout
agree (`assemble_same`).
-/

namespace Dualnet.Netsim

open Library Text Schema

/-! ## From the layout on -/

section Assemble

variable {net net' : Network} {nodes nodes' : Configs} (h : Reordered net net')
  (hnodes : SameConfigs nodes nodes') (order order' : Orders) (L : Layout)

include hnodes in
/-- The configuration of a node. -/
theorem configOf_same (node : String) :
    SameConfig (configOf nodes node) (configOf nodes' node) :=
  optionRel_getD (hnodes node) (.refl _)

include hnodes in
/-- The names of the nodes. -/
theorem configKeys_same : nodes.sortedKeys = nodes'.sortedKeys :=
  FMap.sortedKeys_congr fun v => optionRel_isSome (hnodes v)

include h in
/-- A link by its name. -/
theorem linkNamed_same (name : String) : linkNamed net name = linkNamed net' name := by
  rw [linkNamed, linkNamed, h.links]

include h in
/-- The device a link is dialed from. -/
theorem dialerDevice_same (node : String) (l : Link) :
    dialerDevice net node l = dialerDevice net' node l := by
  rw [dialerDevice, dialerDevice, (h.node node).resolveIface]

include h in
/-- The device a link is accepted on. -/
theorem acceptorDevice_same (node : String) (l : Link) :
    acceptorDevice net node l = acceptorDevice net' node l := by
  rw [acceptorDevice, acceptorDevice, (h.node node).resolveIface]

include h in
/-- The devices a node refers to. -/
theorem references_same (node : String) {cn cn' : Config.Node} (hcn : SameConfig cn cn') :
    references order L net node cn = references order' L net' node cn' := by
  have hconns : connReferences L net node = connReferences L net' node := by
    funext c
    simp only [connReferences, linkNamed_same h, dialerDevice_same h, (h.node node).resolveIface]
  have hlan : kernelLAN L node cn = kernelLAN L node cn' := by
    rw [kernelLAN, kernelLAN, hcn.datapath, hcn.lanIfaces]
  rw [references, references, hconns, hlan, hcn.connections]
  refine sortedSet_perm (((List.Perm.refl _).append ?_).append_right _)
  exact (order.visit_perm order' _ hcn.egresses).map _

include h hnodes in
/-- The names of all devices. -/
theorem deviceNames_same :
    deviceNames order L net nodes = deviceNames order' L net' nodes' := by
  simp only [deviceNames, configKeys_same hnodes,
    fun node => references_same h order order' L node (configOf_same hnodes node)]

include h in
/-- The routes back to the legs. -/
theorem legReturnRoutes_same : legReturnRoutes L net = legReturnRoutes L net' := by
  have hhost : ∀ v name, legSourceHost (net.node v) name = legSourceHost (net'.node v) name := by
    intro v name
    rw [legSourceHost, legSourceHost, (h.node v).connections.lookup]
  have hround : legReturnRoute L net = legReturnRoute L net' := by
    funext m l
    simp only [legReturnRoute, hhost, acceptorEndpoint, (h.node l.acceptor).resolveIface]
  rw [legReturnRoutes, legReturnRoutes, h.links, hround]

/-- The same node and configuration, their maps in another order. -/
structure SameInput (x x' : NodeInput) : Prop where
  node : x.node = x'.node
  devices : x.devices = x'.devices
  nd : SameNode x.nd x'.nd
  cn : SameConfig x.cn x'.cn

variable {x x' : NodeInput} (hx : SameInput x x')

include h hx in
/-- A rewritten connection. -/
theorem rewriteConn_same : rewriteConn L net x = rewriteConn L net' x' := by
  funext c
  simp only [rewriteConn, linkNamed_same h, dialerDevice_same h, acceptorDevice_same h, hx.node,
    hx.devices]

include hx in
/-- A rewritten egress. -/
theorem rewriteEgress_same (keys : String → String × String) :
    rewriteEgress keys L x = rewriteEgress keys L x' := by
  funext st name
  simp only [rewriteEgress, hx.cn.egresses.lookup, hx.node, hx.devices, hx.cn.datapath]

include hx in
/-- The WireGuard profiles have different paths, so they may be copied in any order. -/
theorem nodeFiles_same (config : ConfigFile) (warp : FMap String File) (spec : Siminit.Spec) :
    (nodeFiles order x config warp spec).listing =
      (nodeFiles order' x' config warp spec).listing := by
  refine FMap.listing_congr fun path => ?_
  simp only [nodeFiles, FMap.lookup_insert_ite]
  rw [← hx.node, ← hx.cn.conditions, FMap.lookup_foldl_congr ?_ x.cn.conditions fun path =>
    (FMap.lookup_foldl_visit order _ _ warp path).trans
      (FMap.lookup_foldl_visit order' _ _ warp path).symm]
  intro m m' c hm path
  cases c.dstIn with
  | none => exact hm path
  | some set => simp only [Option.elim_some, FMap.lookup_insert_ite, hm]

include hx in
/-- Whether the node needs a tun. -/
theorem nodeNeedsTun_same (cn : Config.Node) (debugTun : Bool) :
    nodeNeedsTun order x.node x.nd cn debugTun =
      nodeNeedsTun order' x'.node x'.nd cn debugTun := by
  have hvisit := order.visit_perm order' (.natEgresses x.node)
    (List.Perm.refl cn.egresses.entries)
  rw [nodeNeedsTun, nodeNeedsTun, hasTun, hasTun, anyTun_same hx.nd, ← hx.node, hvisit.any_eq]

include h hx in
/-- The container of a node. -/
theorem nodeContainer_same (keys : String → String × String) (opts : SimOptions)
    (returns : List Siminit.Route) :
    nodeContainer order keys opts L net returns x =
      nodeContainer order' keys opts L net' returns x' := by
  have hconn := rewriteConn_same h L hx
  have hegress := rewriteEgress_same L hx keys
  have hfiles := nodeFiles_same order order' hx
  have hneeds := nodeNeedsTun_same order order' hx
  have hkeys := hx.cn.egresses.sortedKeys
  have hdebug := isDebugTun_same hx.nd
  -- past these, the inputs differ in the order of their egresses only
  obtain ⟨node, nd, cn, devices⟩ := x
  obtain ⟨node', nd', cn', devices'⟩ := x'
  obtain rfl : node = node' := hx.node
  obtain rfl : devices = devices' := hx.devices
  have hfields : cn' = { cn with egresses := cn'.egresses } := hx.cn.fields
  generalize cn'.egresses = egresses at hfields
  subst hfields
  funext octet
  simp only [nodeContainer, kernelLAN, hconn, hegress, hfiles, hneeds, hkeys, hdebug]

include h hnodes in
/-- A round of the node loop. -/
theorem planContainer_same (keys : String → String × String) (opts : SimOptions)
    (devices : FMap String Devices) (returns : FMap String (List Siminit.Route)) :
    planContainer order keys opts L net nodes devices returns =
      planContainer order' keys opts L net' nodes' devices returns := by
  funext st node
  have hcn := configOf_same hnodes node
  have hx : SameInput ⟨node, net.node node, configOf nodes node, (devices.lookup node).getD {}⟩
      ⟨node, net'.node node, configOf nodes' node, (devices.lookup node).getD {}⟩ :=
    ⟨rfl, rfl, h.node node, hcn⟩
  have hconditions : conditionFiles (configOf nodes node) =
      conditionFiles (configOf nodes' node) := by
    rw [conditionFiles, conditionFiles, hcn.conditions]
  simp only [planContainer, nodeContainer_same h order order' L hx, isDebugTun_same (h.node node),
    captureTun_same (h.node node), hconditions]

include h hnodes in
/-- Runs with one layout agree. -/
theorem assemble_same (keys : String → String × String) (opts : SimOptions) :
    assemble order keys opts net nodes L = assemble order' keys opts net' nodes' L := by
  have hclient : clientContainer L nodes = clientContainer L nodes' := by
    funext root node
    have hcn := configOf_same hnodes node
    have hlegs : legSourceIPs (configOf nodes node) = legSourceIPs (configOf nodes' node) := by
      rw [legSourceIPs, legSourceIPs, hcn.datapath, hcn.conditions]
    rw [clientContainer, clientContainer, hlegs]
  simp only [assemble, deviceNames_same h hnodes order order', legReturnRoutes_same h,
    planContainer_same h hnodes order order', configKeys_same hnodes, hclient]

end Assemble

/-! ## Whole runs -/

/-- The check for userspace WireGuard egresses asks every egress of every configuration. -/
theorem checkWarp_eq_ok {order : Orders} {nodes : Configs} :
    checkWarp order nodes = .ok () ↔ ∀ v cn, nodes.lookup v = some cn →
      ∀ eg ∈ cn.egresses.entries, (eg.2.mode == "warp" && cn.datapath != "kernel") = false := by
  simp only [checkWarp, forM_eq_ok, reject_eq_ok, (order.perm _ _).mem_iff]
  constructor
  · intro h v cn hv
    exact h ⟨v, cn⟩ (AList.mem_lookup_iff.mp hv)
  · rintro h ⟨v, cn⟩ hmem
    exact h v cn (AList.mem_lookup_iff.mpr hmem)

/-- The check of the tunnels. -/
theorem checkWarp_agree {nodes nodes' : Configs} (hnodes : SameConfigs nodes nodes')
    (order order' : Orders) :
    Agree (fun _ _ => True) (checkWarp order nodes) (checkWarp order' nodes') := by
  refine .of_ok_iff ?_
  rw [checkWarp_eq_ok, checkWarp_eq_ok]
  refine forall_congr' fun v => ?_
  have hv := hnodes v
  generalize nodes.lookup v = o at hv ⊢
  generalize nodes'.lookup v = o' at hv ⊢
  cases hv with
  | none => simp
  | some hcn => simp only [Option.some.injEq, forall_eq', hcn.datapath, hcn.egresses.mem_iff]

/-- The result of `Compile` does not depend on the order of the network's maps. -/
def CompileFixed (net : Network) : Prop :=
  ∀ net', Reordered net net' → Agree SameConfigs net.compile net'.compile

/-- All runs of `Plan` agree. -/
def PlanFixed (keys : String → String × String) (net : Network) (opts : SimOptions) : Prop :=
  ∀ net₁ net₂ order₁ order₂, Reordered net net₁ → Reordered net net₂ →
    Agree (· = ·) (fullPlan order₁ keys net₁ opts) (fullPlan order₂ keys net₂ opts)

section Plan

variable {keys : String → String × String} {net net' : Network} {opts : SimOptions}
  {nodes : Configs} {order : Orders}

/-- Every run agrees with the one in the stored order. -/
theorem fullPlan_agree (hfixed : CompileFixed net) (hcompile : net.compile = .ok nodes)
    (hapart : SignaturesApart net nodes) (hone : OneLanOwner net nodes) (h : Reordered net net') :
    Agree (· = ·) (fullPlan .inOrder keys net opts) (fullPlan order keys net' opts) := by
  have hcompiled := hfixed net' h
  rw [hcompile] at hcompiled
  generalize hcompile' : net'.compile = compiled at hcompiled
  cases hcompiled with
  | @ok _ nodes' hnodes =>
    rw [fullPlan, fullPlan, hcompile, hcompile']
    refine (checkWarp_agree hnodes .inOrder order).bind fun _ _ _ => .of_eq ?_
    rw [← layout_same h hnodes hapart hone order]
    exact assemble_same h hnodes .inOrder order _ keys _

/-- With different signatures and one owner for the LANs on each fabric, all runs agree. -/
theorem planFixed_of_oneLanOwner (hfixed : CompileFixed net) (hcompile : net.compile = .ok nodes)
    (hapart : SignaturesApart net nodes) (hone : OneLanOwner net nodes) :
    PlanFixed keys net opts := by
  intro net₁ net₂ order₁ order₂ h₁ h₂
  have hstored : ∀ {net' order}, Reordered net net' →
      Agree (· = ·) (fullPlan .inOrder keys net opts) (fullPlan order keys net' opts) :=
    fullPlan_agree hfixed hcompile hapart hone
  have hback : Agree (· = ·) (fullPlan order₁ keys net₁ opts) (fullPlan .inOrder keys net opts) :=
    (hstored h₁).symm fun _ _ heq => heq.symm
  exact hback.trans (fun _ _ _ heq heq' => heq.trans heq') (hstored h₂)

/-- Fabrics are numbered like their components. -/
theorem getElem?_fabrics {opts : PlanOptions} {i : Nat} {c : Endpoint × Comp}
    (h : (rootedComps order net nodes)[i]? = some c) :
    (layout order opts net nodes).fabrics[i]? = some (fabric opts c.2 i) := by
  simp [layout, layoutOf, h]

/-- If all runs agree and one succeeds, no fabric has LANs of two nodes. -/
theorem oneLanOwner_of_planFixed (hcompile : net.compile = .ok nodes)
    (hapart : SignaturesApart net nodes) {p : FullPlan}
    (hplan : fullPlan order keys net opts = .ok p) (hfixed : PlanFixed keys net opts) :
    OneLanOwner net nodes := by
  intro c hc e he e' he'
  by_contra hne
  rw [← rootedComps_inOrder] at hc
  obtain ⟨rc, hrc, rfl⟩ := List.mem_map.mp hc
  obtain ⟨i, hi⟩ := List.mem_iff_getElem?.mp hrc
  obtain ⟨order₁, c₁, hc₁, hnodes₁, hlan₁⟩ := exists_lanFor hapart hi he
  obtain ⟨order₂, c₂, hc₂, hnodes₂, hlan₂⟩ := exists_lanFor hapart hi he'
  have hsame : ∀ order', fullPlan order' keys net opts = .ok p := by
    intro order'
    have hagree := hfixed net net order order' (.refl net) (.refl net)
    rw [hplan] at hagree
    generalize hrun : fullPlan order' keys net opts = run at hagree
    cases hagree with
    | ok heq => rw [heq]
  have hfabrics := (fabrics_of_fullPlan hcompile (hsame order₁)).symm.trans
    (fabrics_of_fullPlan hcompile (hsame order₂))
  have hat := congrArg (·[i]?) hfabrics
  simp only [getElem?_fabrics hc₁, getElem?_fabrics hc₂, Option.some.injEq] at hat
  exact fabric_ne _ (hnodes₁.trans hnodes₂.symm) (by rw [hlan₁, hlan₂]; exact hne) i hat

/-- Where compilation is fixed, signatures are different and a run succeeds, all runs agree exactly
if the LANs on each fabric belong to one node. -/
theorem fullPlan_deterministic_iff (hfixed : CompileFixed net) (hcompile : net.compile = .ok nodes)
    (hapart : SignaturesApart net nodes) {p : FullPlan}
    (hplan : fullPlan order keys net opts = .ok p) :
    PlanFixed keys net opts ↔ OneLanOwner net nodes := by
  constructor
  · exact oneLanOwner_of_planFixed hcompile hapart hplan
  · exact planFixed_of_oneLanOwner hfixed hcompile hapart

/-- In particular, names without separators and LANs on fabrics of their own fix the plan. -/
theorem planFixed_of_plain (hfixed : CompileFixed net) (hcompile : net.compile = .ok nodes)
    (hplain : ∀ c ∈ comps net nodes, ∀ e ∈ c.endpoints, e.Plain) (hone : OneLanOwner net nodes) :
    PlanFixed keys net opts :=
  planFixed_of_oneLanOwner hfixed hcompile (signaturesApart_of_plain hplain) hone

end Plan

/-! ## Two networks -/

/-- The result of compiling an accepted network is fixed if no node has several conditions. -/
theorem compileFixed_of_validate {n m : Network} {nodes : Configs} (hvalid : n.validate = .ok m)
    (hcompile : m.compile = .ok nodes)
    (hfew : nodes.entries.all (fun e => e.2.conditions.length ≤ 1) = true) : CompileFixed m := by
  intro m' h
  have hagree := Reordered.compile hvalid h
  rw [hcompile] at hagree ⊢
  generalize m'.compile = compiled at hagree ⊢
  cases hagree with
  | @ok _ nodes' hnodes =>
    refine .ok fun v => ?_
    have hv := hnodes v
    generalize hlookup : nodes.lookup v = o at hv ⊢
    generalize nodes'.lookup v = o' at hv ⊢
    cases hv with
    | none => exact .none
    | @some cn cn' hcn =>
      have hlength := List.all_eq_true.mp hfew ⟨v, cn⟩ (AList.mem_lookup_iff.mp hlookup)
      have hconditions := perm_eq_of_length_le_one hcn.conditions (of_decide_eq_true hlength)
      refine .some ⟨?_, hcn.egresses⟩
      rw [hcn.fields, ← hconditions]

/-- A router with a LAN behind it and an exit of its own. -/
def lanRouter (ip : String) : Node where
  ip := ip
  connections := (∅ : FMap String Conn).insert "lan" { iface := "eth1" }
    |>.insert "tun" { type := "tun", ip := "10.9.0.2", captureDefault := true, lan := "lan" }
  egresses := (∅ : FMap String Config.Egress).insert "wan" { mode := "direct", extIface := "eth0" }

/-- Two such routers with a link between them, from and to the given devices. -/
def lanRouters (source : String) : Network where
  psk := "shared"
  nodes := (∅ : FMap String Node).insert "a" (lanRouter "10.0.0.1")
    |>.insert "b" (lanRouter "10.0.0.2")
  protocols := (∅ : FMap String ProtocolSpec).insert "udp" { transport := "udp" }
  links := [{ name := "a-b", dialer := "a", acceptor := "b", dataflow := toAcceptor,
              protocol := "udp", port := 4000, dialerSource := source, acceptorSource := source }]
  paths := [{ node := "a", routes := [{ egress := "wan" }] },
            { node := "b", routes := [{ egress := "wan" }] }]

/-- The LAN clients of a plan, and the addresses on its second fabric. -/
def lanView (p : FullPlan) : List (String × String) × List (String × String) :=
  (p.lanClient.listing, (p.fabrics[1]?.map fun f => f.ips.listing).getD [])

/-- The view of the plan of a run that succeeds. -/
def runView (order : Orders) (m : Network) :
    Option (List (String × String) × List (String × String)) :=
  (fullPlan order namedKeys m {}).toOption.map lanView

/-- What a view of a run is a view of. -/
theorem runView_eq_some {order : Orders} {m : Network}
    {v : List (String × String) × List (String × String)} (h : runView order m = some v) :
    ∃ p, fullPlan order namedKeys m {} = .ok p ∧ lanView p = v := by
  rw [runView] at h
  generalize fullPlan order namedKeys m {} = run at h ⊢
  cases run with
  | error e => cases h
  | ok p => exact ⟨p, rfl, Option.some.inj h⟩

/-- With the two LANs joined by the link, the fabric they share has one client: that of `b` if the
run meets the LAN device of `b` after that of `a`, and otherwise that of `a`. -/
theorem joined_lans_differ :
    ∃ m nodes p p', (lanRouters "lan").validate = .ok m ∧ m.compile = .ok nodes ∧
      CompileFixed m ∧ SignaturesApart m nodes ∧
      fullPlan .inOrder namedKeys m {} = .ok p ∧
      fullPlan (.lastAt .endpoints 2) namedKeys m {} = .ok p' ∧
      lanView p = ([("b", "client-b")],
        [("a", "172.30.2.2"), ("b", "172.30.2.3"), ("client-b", "172.30.2.4")]) ∧
      lanView p' = ([("a", "client-a")],
        [("a", "172.30.2.2"), ("b", "172.30.2.3"), ("client-a", "172.30.2.4")]) := by
  have hcheck : (lanRouters "lan").compilesTo (fun m nodes =>
      nodes.entries.all (fun e => e.2.conditions.length ≤ 1) &&
        decide ((comps m nodes).map Comp.sig).Nodup &&
        decide (runView .inOrder m = some ([("b", "client-b")],
          [("a", "172.30.2.2"), ("b", "172.30.2.3"), ("client-b", "172.30.2.4")])) &&
        decide (runView (.lastAt .endpoints 2) m = some ([("a", "client-a")],
          [("a", "172.30.2.2"), ("b", "172.30.2.3"), ("client-a", "172.30.2.4")]))) = true := by
    decide +kernel
  obtain ⟨m, nodes, hvalid, hcompile, hcheck⟩ := compilesTo_iff.mp hcheck
  rw [Bool.and_eq_true, Bool.and_eq_true, Bool.and_eq_true, decide_eq_true_eq, decide_eq_true_eq,
    decide_eq_true_eq] at hcheck
  obtain ⟨⟨⟨hfew, hapart⟩, hview⟩, hview'⟩ := hcheck
  obtain ⟨p, hp, hp'⟩ := runView_eq_some hview
  obtain ⟨q, hq, hq'⟩ := runView_eq_some hview'
  exact ⟨m, nodes, p, q, hvalid, hcompile, compileFixed_of_validate hvalid hcompile hfew, hapart,
    hp, hq, hp', hq'⟩

/-- A network with a device named like the list of two others, `x` of `a` and `y` of `b`. -/
def tiedNetwork : Network where
  psk := "shared"
  nodes := (∅ : FMap String Node).insert "a"
      { connections := (∅ : FMap String Conn).insert "tun"
          { type := "tun", ip := "10.9.0.2", captureDefault := true }
        egresses := (∅ : FMap String Config.Egress).insert "wan"
          { mode := "direct", extIface := "x,b|dev:y" } }
    |>.insert "b" { ip := "10.0.0.1" }
  protocols := (∅ : FMap String ProtocolSpec).insert "udp" { transport := "udp" }
  links := [{ name := "a-b", dialer := "a", acceptor := "b", dataflow := toAcceptor,
              protocol := "udp", port := 4000, dialerSource := "x", acceptorSource := "y" }]
  paths := [{ node := "a", routes := [{ egress := "wan" }] }]

/-- Components with one signature stay in the order the run meets them in. -/
example : tiedNetwork.compilesTo (fun m nodes =>
    decide (¬ ((comps m nodes).map Comp.sig).Nodup) &&
      decide (runView .inOrder m ≠ runView (.lastAt .components 0) m)) = true := by
  decide +kernel

/-- With the link on devices of its own, each LAN has its client in every run. -/
theorem separate_lans_fixed :
    ∃ m nodes p, (lanRouters "").validate = .ok m ∧ m.compile = .ok nodes ∧ CompileFixed m ∧
      SignaturesApart m nodes ∧ fullPlan .inOrder namedKeys m {} = .ok p ∧
      p.lanClient.listing = [("a", "client-a"), ("b", "client-b")] ∧ OneLanOwner m nodes ∧
      PlanFixed namedKeys m {} := by
  have hcheck : (lanRouters "").compilesTo (fun m nodes =>
      nodes.entries.all (fun e => e.2.conditions.length ≤ 1) &&
        decide ((comps m nodes).map Comp.sig).Nodup &&
        ((comps m nodes).all fun c => (lanDevices m nodes c.endpoints).all fun e =>
          (lanDevices m nodes c.endpoints).all fun e' => e.node == e'.node) &&
        decide (runView .inOrder m = some ([("a", "client-a"), ("b", "client-b")],
          [("a", "172.30.2.2"), ("internet", "172.30.2.254")]))) = true := by
    decide +kernel
  obtain ⟨m, nodes, hvalid, hcompile, hcheck⟩ := compilesTo_iff.mp hcheck
  rw [Bool.and_eq_true, Bool.and_eq_true, Bool.and_eq_true, decide_eq_true_eq,
    decide_eq_true_eq] at hcheck
  obtain ⟨⟨⟨hfew, hapart⟩, howner⟩, hview⟩ := hcheck
  obtain ⟨p, hp, hclients⟩ := runView_eq_some hview
  have hfixed := compileFixed_of_validate hvalid hcompile hfew
  have hone : OneLanOwner m nodes := by
    simpa only [OneLanOwner, List.all_eq_true, beq_iff_eq] using howner
  exact ⟨m, nodes, p, hvalid, hcompile, hfixed, hapart, hp, congrArg Prod.fst hclients, hone,
    (fullPlan_deterministic_iff hfixed hcompile hapart hp).mpr hone⟩

end Dualnet.Netsim
