import Dualnet.Config.Reorder
import Dualnet.Schema.Compile

/-!
# A network with its maps in another order

`Reordered n n'` says that `n'` is `n` with its nodes, their connections and egresses, and its
conditions in another order: what a second run of the program iterates. Compilation sorts what it
iterates or only looks it up, so its stages agree on the two, up to the point where
`emitConditions` ranges over the conditions themselves.
-/

namespace Dualnet.Schema

open Library Text
open Config (Route Connection)

/-- The same node with its maps in another order. -/
structure SameNode (nd nd' : Node) : Prop where
  fields : nd' = { nd with connections := nd'.connections, egresses := nd'.egresses }
  connections : nd.connections.Same nd'.connections
  egresses : nd.egresses.Same nd'.egresses

/-- The same network with its maps in another order. -/
structure Reordered (n n' : Network) : Prop where
  fields : n' = { n with nodes := n'.nodes, conditions := n'.conditions }
  nodes : ∀ v, Option.Rel SameNode (n.nodes.lookup v) (n'.nodes.lookup v)
  conditions : n.conditions.Same n'.conditions

/-- The same configuration; its egresses are a map. -/
structure SameConfig (cn cn' : Config.Node) : Prop where
  fields : cn' = { cn with egresses := cn'.egresses }
  egresses : cn.egresses.Same cn'.egresses

/-- The same configurations, node by node. -/
def SameConfigs (out out' : Configs) : Prop :=
  ∀ v, Option.Rel SameConfig (out.lookup v) (out'.lookup v)

/-! ## Nodes -/

/-- The connection is a tun that captures the default route. -/
def captures (e : Σ _ : String, Conn) : Bool := e.2.isTun && e.2.captureDefault

/-- At most one tun of the node captures the default route. -/
def Node.OneCapture (nd : Node) : Prop := (nd.connections.entries.filter captures).length ≤ 1

/-- What the loop of `originTun` collects. -/
theorem foldl_visit (l : List (Σ _ : String, Conn)) :
    l.foldl TunState.visit {} =
      { capture := ((l.filter captures).getLast?.map Sigma.fst).getD ""
        sole := ((l.filter fun e => e.2.isTun).getLast?.map Sigma.fst).getD ""
        count := (l.filter fun e => e.2.isTun).length } := by
  induction l using List.reverseRecOn with
  | nil => rfl
  | append_singleton l e ih =>
    rw [List.foldl_append, ih]
    by_cases htun : e.2.isTun = true
    · by_cases hcapture : e.2.captureDefault = true
      · simp [TunState.visit, captures, htun, hcapture]
      · simp [TunState.visit, captures, htun, hcapture]
    · simp [TunState.visit, captures, htun]

section Node

variable {nd nd' : Node} (h : SameNode nd nd')

include h

/-- A source is looked up. -/
theorem SameNode.resolveSource (name : String) :
    nd.resolveSource name = nd'.resolveSource name := by
  rw [Node.resolveSource, Node.resolveSource, h.connections.lookup]

/-- So is a device. -/
theorem SameNode.resolveIface (name : String) : nd.resolveIface name = nd'.resolveIface name := by
  rw [Node.resolveIface, Node.resolveIface, h.resolveSource]

/-- The tuns are met in the order of their names. -/
theorem SameNode.tunConnections : nd.tunConnections = nd'.tunConnections := by
  simp only [Node.tunConnections, h.connections.sortedKeys, h.connections.lookup, h.resolveIface]

/-- With one tun capturing, the origin tun does not depend on the order. -/
theorem SameNode.originTun (hone : nd.OneCapture) : nd.originTun = nd'.originTun := by
  have hcaptures := perm_eq_of_length_le_one (h.connections.filter captures) hone
  have htuns := h.connections.filter fun e => e.2.isTun
  have hcount := htuns.length_eq
  rw [Node.originTun, Node.originTun, foldl_visit, foldl_visit, hcaptures, hcount]
  by_cases hsole : (nd'.connections.entries.filter fun e => e.2.isTun).length = 1
  · rw [perm_eq_of_length_le_one htuns (by rw [hcount, hsole])]
  · simp only [hsole, if_false]

/-- The LAN devices are sorted, so their order is that of their names. -/
theorem SameNode.kernelLANIfaces : nd.kernelLANIfaces = nd'.kernelLANIfaces := by
  have hwan : ∀ dev, (nd.egresses.entries.map fun e => nd.resolveIface e.2.extIface).contains dev =
      (nd'.egresses.entries.map fun e => nd'.resolveIface e.2.extIface).contains dev := by
    intro dev
    simp only [h.resolveIface]
    exact (h.egresses.map _).contains_eq
  have hcollect : ∀ nd : Node, nd.kernelLANIfaces = (nd.connections.entries.foldl
      (collectNew (fun e => e.2.isTun || e.2.iface == "" ||
          (nd.egresses.entries.map fun e => nd.resolveIface e.2.extIface).contains e.2.iface)
        fun e => e.2.iface) []).insertionSort (· ≤ ·) :=
    fun _ => rfl
  rw [hcollect, hcollect]
  simp only [hwan]
  refine insertionSort_perm ?_
  rw [List.perm_ext_iff_of_nodup (nodup_collect _ _ _ List.nodup_nil)
    (nodup_collect _ _ _ List.nodup_nil)]
  intro dev
  rw [mem_collect, mem_collect]
  simp only [h.connections.mem_iff]

/-- The same address. -/
theorem SameNode.ip : nd.ip = nd'.ip := by rw [h.fields]

/-- The same datapath. -/
theorem SameNode.datapath : nd.datapath = nd'.datapath := by rw [h.fields]

/-- The same key. -/
theorem SameNode.psk : nd.psk = nd'.psk := by rw [h.fields]

/-- The same deployment. -/
theorem SameNode.deploy : nd.deploy = nd'.deploy := by rw [h.fields]

end Node

/-- A node is the same as itself. -/
theorem SameNode.refl (nd : Node) : SameNode nd nd := ⟨rfl, .refl _, .refl _⟩

/-! ## Configurations -/

/-- A configuration is the same as itself. -/
theorem SameConfig.refl (cn : Config.Node) : SameConfig cn cn := ⟨rfl, .refl _⟩

section Config

variable {cn cn' : Config.Node} (h : SameConfig cn cn')

include h

/-- The order of the two does not matter. -/
theorem SameConfig.symm : SameConfig cn' cn := ⟨by rw [h.fields], List.Perm.symm h.egresses⟩

/-- Three orders of one configuration. -/
theorem SameConfig.trans {cn'' : Config.Node} (h' : SameConfig cn' cn'') : SameConfig cn cn'' :=
  ⟨by rw [h'.fields, h.fields], List.Perm.trans h.egresses h'.egresses⟩

/-- The same connections. -/
theorem SameConfig.connections : cn.connections = cn'.connections := by rw [h.fields]

/-- The same conditions. -/
theorem SameConfig.conditions : cn.conditions = cn'.conditions := by rw [h.fields]

/-- The same datapath. -/
theorem SameConfig.datapath : cn.datapath = cn'.datapath := by rw [h.fields]

/-- The same LAN devices. -/
theorem SameConfig.lanIfaces : cn.lanIfaces = cn'.lanIfaces := by rw [h.fields]

end Config

/-- Configurations are the same as themselves. -/
theorem SameConfigs.refl (out : Configs) : SameConfigs out out := fun _ =>
  optionRel_refl SameConfig.refl _

/-- The order of the two does not matter. -/
theorem SameConfigs.symm {out out' : Configs} (h : SameConfigs out out') : SameConfigs out' out :=
  fun v => optionRel_symm (fun _ _ => SameConfig.symm) (h v)

/-- Three orders of the same configurations. -/
theorem SameConfigs.trans {out out' out'' : Configs} (h : SameConfigs out out')
    (h' : SameConfigs out' out'') : SameConfigs out out'' := fun v =>
  optionRel_trans (fun _ _ _ hcn hcn' => hcn.trans hcn') (h v) (h' v)

/-- A change of all but the egresses, which does not read them, keeps configurations the same. -/
def KeepsEgresses (f : Config.Node → Config.Node) : Prop :=
  ∀ cn eg, f { cn with egresses := eg } = { f cn with egresses := eg }

/-- Such a change keeps one configuration the same. -/
theorem SameConfig.map {cn cn' : Config.Node} (h : SameConfig cn cn')
    {f : Config.Node → Config.Node} (hf : KeepsEgresses f) : SameConfig (f cn) (f cn') := by
  have hegresses : ∀ cn, (f cn).egresses = cn.egresses := fun cn =>
    (congrArg Config.Node.egresses (hf cn cn.egresses) :)
  refine ⟨?_, ?_⟩
  · rw [hegresses, h.fields]
    exact hf cn cn'.egresses
  · rw [hegresses, hegresses]
    exact h.egresses

section Configs

variable {out out' : Configs}

/-- So it does at one node of them. -/
theorem SameConfigs.modify (h : SameConfigs out out') (v : String)
    {f : Config.Node → Config.Node} (hf : KeepsEgresses f) :
    SameConfigs (out.modify v f) (out'.modify v f) := by
  intro w
  rw [FMap.lookup_modify, FMap.lookup_modify]
  refine optionRel_map (h w) fun cn cn' hcn => ?_
  split
  · exact hcn.map hf
  · exact hcn

end Configs

/-! ## Networks -/

/-- A network is an order of itself. -/
theorem Reordered.refl (n : Network) : Reordered n n :=
  ⟨rfl, fun _ => optionRel_refl SameNode.refl _, .refl _⟩

section Network

variable {n n' : Network} (h : Reordered n n')

include h

/-- The same key. -/
theorem Reordered.psk : n.psk = n'.psk := by rw [h.fields]

/-- The same MTU. -/
theorem Reordered.mtu : n.mtu = n'.mtu := by rw [h.fields]

/-- The same subnet. -/
theorem Reordered.subnet : n.subnet = n'.subnet := by rw [h.fields]

/-- The same protocols. -/
theorem Reordered.protocols : n.protocols = n'.protocols := by rw [h.fields]

/-- The same links. -/
theorem Reordered.links : n.links = n'.links := by rw [h.fields]

/-- The same paths. -/
theorem Reordered.paths : n.paths = n'.paths := by rw [h.fields]

/-- Each node is the same. -/
theorem Reordered.node (v : String) : SameNode (n.node v) (n'.node v) :=
  optionRel_getD (h.nodes v) (.refl _)

/-- Conditions are looked up. -/
theorem Reordered.condition (cond : String) : n.condition cond = n'.condition cond := by
  rw [Network.condition, Network.condition, h.conditions.lookup]

/-- Links are looked up in the same map. -/
theorem Reordered.linkMap : n.linkMap = n'.linkMap := by
  rw [Network.linkMap, Network.linkMap, h.links]

/-- The gateway of a probe is found in the paths. -/
theorem Reordered.gatewayBranch (path gateway : String) :
    n.gatewayBranch path gateway = n'.gatewayBranch path gateway := by
  rw [Network.gatewayBranch, Network.gatewayBranch, h.paths]

/-- Files go to the same place. -/
theorem Reordered.relocateSet (v : String) (set : Config.IPSet) :
    n.relocateSet v set = n'.relocateSet v set := by
  rw [Network.relocateSet, Network.relocateSet, Network.remoteConditionFile,
    Network.remoteConditionFile, (h.node v).deploy]

/-- The dialing end of a link. -/
theorem Reordered.dialerConnection (l : Link) : n.dialerConnection l = n'.dialerConnection l := by
  simp only [Network.dialerConnection, Network.protocolOf, h.protocols,
    (h.node l.dialer).resolveSource, (h.node l.acceptor).ip]

/-- The accepting end of a link. -/
theorem Reordered.acceptorConnection (l : Link) :
    n.acceptorConnection l = n'.acceptorConnection l := by
  simp only [Network.acceptorConnection, Network.protocolOf, h.protocols,
    (h.node l.acceptor).resolveSource]

/-- The configurations nodes start with. -/
theorem Reordered.baseConfigs :
    SameConfigs (n.nodes.mapVals fun _ nd => n.baseConfig nd)
      (n'.nodes.mapVals fun _ nd => n'.baseConfig nd) := by
  intro v
  rw [FMap.lookup_mapVals, FMap.lookup_mapVals]
  refine optionRel_map (h.nodes v) fun nd nd' hnd => ⟨?_, ?_⟩
  · simp only [Network.baseConfig, h.psk, h.mtu, h.subnet, hnd.psk, hnd.datapath,
      hnd.kernelLANIfaces, hnd.tunConnections]
  · exact hnd.egresses.mapVals fun _ eg => by rw [hnd.resolveIface]

/-- The link loop. -/
theorem Reordered.addLinkConnections {out out' : Configs} (hout : SameConfigs out out')
    (l : Link) :
    Agree SameConfigs (n.addLinkConnections out l) (n'.addLinkConnections out' l) := by
  unfold Network.addLinkConnections
  refine (Agree.reject rfl _ _).bind fun _ _ _ => (Agree.reject rfl _ _).bind fun _ _ _ =>
    (Agree.reject ?_ _ _).bind fun _ _ _ => .pure ?_
  · rw [(h.node l.dialer).connections.lookup]
  · rw [h.dialerConnection, h.acceptorConnection]
    exact (hout.modify _ fun _ _ => rfl).modify _ fun _ _ => rfl

/-- Inference changes the paths only, and these alike. -/
theorem Reordered.inferGateways (links : FMap String Link) :
    Agree (fun r r' => Reordered r r' ∧ r.nodes = n.nodes) (n.inferGateways links)
      (n'.inferGateways links) := by
  unfold Network.inferGateways
  rw [h.paths]
  refine (Agree.of_eq rfl).bind ?_
  rintro paths _ rfl
  refine .pure ⟨⟨?_, h.nodes, h.conditions⟩, rfl⟩
  rw [h.fields]

/-- The path loop has derived the same rules and references. -/
def SameDeriveState (st st' : DeriveState) : Prop :=
  SameConfigs st.out st'.out ∧ st.pend = st'.pend ∧ st.refs = st'.refs

/-- A round of the path loop. -/
theorem Reordered.derivePath (hone : ∀ v, (n.node v).OneCapture) (links : FMap String Link)
    {st st' : DeriveState} (hst : SameDeriveState st st') (p : Path) :
    Agree SameDeriveState (n.derivePath links st p) (n'.derivePath links st' p) := by
  obtain ⟨hout, hpend, hrefs⟩ := hst
  unfold Network.derivePath
  dsimp only
  rw [(h.node p.node).datapath, (h.node p.node).originTun (hone p.node), hrefs]
  split
  · exact .ok ⟨hout.modify _ fun _ _ => rfl, hpend, rfl⟩
  · refine (Agree.of_eq rfl).bind ?_
    rintro rules _ rfl
    exact .pure ⟨hout, congrArg (· ++ rules.flatten) hpend, rfl⟩

/-- Rules are qualified by the conditions they name. -/
theorem Reordered.qualifyRules (pend : List PendingRule) (refs : Refs) :
    n.qualifyRules pend refs = n'.qualifyRules pend refs := by
  have hrestated : n.restated = n'.restated := by
    funext pr
    simp only [Network.restated, h.condition]
  have hrule : n.qualifyRule pend = n'.qualifyRule pend := by
    funext st pr
    rw [Network.qualifyRule, Network.qualifyRule, hrestated]
  rw [Network.qualifyRules, Network.qualifyRules, hrule]

/-- The rule loop has placed the same rules. -/
def SameEmitState (st st' : EmitState) : Prop :=
  SameConfigs st.out st'.out ∧ st.seen = st'.seen ∧ st.finAt = st'.finAt

omit h in
/-- A round of the rule loop. -/
theorem emitRule_agree {st st' : EmitState} (hst : SameEmitState st st') (pr : PendingRule) :
    Agree SameEmitState (emitRule st pr) (emitRule st' pr) := by
  obtain ⟨hout, hseen, hfin⟩ := hst
  unfold emitRule
  dsimp only
  rw [hseen, hfin]
  refine (Agree.reject rfl _ _).bind fun _ _ _ => ?_
  split
  · exact .pure ⟨hout, rfl, rfl⟩
  · exact .pure ⟨hout.modify _ fun _ _ => rfl, rfl, rfl⟩

omit h in
/-- The rule loop. -/
theorem emitRules_agree {out out' : Configs} (hout : SameConfigs out out')
    (pend : List PendingRule) : Agree SameConfigs (emitRules out pend) (emitRules out' pend) := by
  have hinit : SameEmitState { out } { out := out' } := ⟨hout, rfl, rfl⟩
  exact (Agree.foldlM (fun pr _ _ _ hst => emitRule_agree hst pr) hinit).bind
    fun _ _ hst => .pure hst.1

/-- The states of `emitConditions` agree: the same conditions are done. -/
def SameConditionState (st st' : ConditionState) : Prop :=
  SameConfigs st.out st'.out ∧ st.done = st'.done

/-- A condition that is referred to. -/
theorem Reordered.emitCondition (hone : ∀ v, (n.node v).OneCapture) {st st' : ConditionState}
    (hst : SameConditionState st st') (node cond : String) :
    Agree SameConditionState (n.emitCondition node cond st) (n'.emitCondition node cond st') := by
  have hplace : ∀ c done, SameConditionState
      { out := st.out.modify node (addCondition c), done }
      { out := st'.out.modify node (addCondition c), done } :=
    fun c done => ⟨hst.1.modify _ fun _ _ => rfl, rfl⟩
  unfold Network.emitCondition
  rw [hst.2]
  split
  · exact .ok hst
  · dsimp only
    rw [h.condition]
    split
    · rw [h.relocateSet]
      exact .ok (hplace _ _)
    · rw [h.relocateSet]
      exact .ok (hplace _ _)
    · rw [h.gatewayBranch]
      refine (Agree.of_eq rfl).bind ?_
      rintro ⟨br, tunNode⟩ _ rfl
      refine (Agree.reject rfl _ _).bind fun _ _ _ => .pure ?_
      dsimp only
      rw [(h.node tunNode).originTun (hone tunNode), Network.pathReconnectLinks,
        Network.pathReconnectLinks, h.linkMap]
      exact hplace _ _
    · exact .error _ _

/-- A round of the loop over the references. -/
theorem Reordered.emitReference (hone : ∀ v, (n.node v).OneCapture) {st st' : ConditionState}
    (hst : SameConditionState st st') (ref : String × String) :
    Agree SameConditionState (n.emitReference st ref) (n'.emitReference st' ref) := by
  have hcheck : n.checkReference ref.1 ref.2 = n'.checkReference ref.1 ref.2 := by
    simp only [Network.checkReference, h.condition, h.gatewayBranch]
  rw [Network.emitReference, Network.emitReference, hcheck]
  refine (Agree.of_eq rfl).bind ?_
  rintro _ _ rfl
  exact h.emitCondition hone hst ref.1 ref.2

end Network

end Dualnet.Schema
