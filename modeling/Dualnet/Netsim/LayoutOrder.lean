import Dualnet.Library.Tokens
import Dualnet.Netsim.Layout
import Dualnet.Schema.Reorder

/-!
# The layout in any iteration order

Two runs of `Plan` build the same graph of devices, up to the order of its entries, and so meet
the same components with the same roots (`metComps_matches`). Where the components have different
signatures, sorting brings them into one order (`rootedComps_matches`). A component's signature,
nodes and egress role do not depend on the order of its devices; the node whose LAN it is does,
unless its LAN devices belong to one node (`OneLanOwner`).
-/

namespace Dualnet.Netsim

open Library Text Schema

/-! ## Nodes and configurations -/

section Nodes

variable {nd nd' : Node} (h : SameNode nd nd')

include h

/-- The capturing tun. -/
theorem captureTun_same : captureTun nd = captureTun nd' := by
  simp only [captureTun, h.connections.sortedKeys, h.connections.lookup]

/-- The first tun. -/
theorem anyTun_same : anyTun nd = anyTun nd' := by
  simp only [anyTun, h.connections.sortedKeys, h.connections.lookup]

/-- Whether the tuns are for debugging. -/
theorem isDebugTun_same : isDebugTun nd = isDebugTun nd' := by
  have htuns := h.connections.filter fun e => e.2.isTun
  simp only [isDebugTun, htuns.isEmpty_eq, htuns.all_eq]

end Nodes

section Runs

variable {net net' : Network} {nodes nodes' : Configs} (h : Reordered net net')
  (hnodes : SameConfigs nodes nodes')

include hnodes in
/-- The devices of a node's egresses. -/
theorem egressEndpoints_perm (name : String) :
    (egressEndpoints nodes name).Perm (egressEndpoints nodes' name) := by
  have hentries : Option.Rel List.Perm ((nodes.lookup name).map fun cn => cn.egresses.entries)
      ((nodes'.lookup name).map fun cn => cn.egresses.entries) :=
    optionRel_map (hnodes name) fun _ _ hcn => hcn.egresses
  exact (optionRel_getD hentries (List.Perm.refl [])).map _

include h hnodes in
/-- The devices a node serves a LAN on. -/
theorem lanEndpoints_same (name : String) :
    lanEndpoints net nodes name = lanEndpoints net' nodes' name := by
  have hname := hnodes name
  simp only [lanEndpoints, captureTun_same (h.node name), (h.node name).resolveIface]
  generalize nodes.lookup name = o at hname ⊢
  generalize nodes'.lookup name = o' at hname ⊢
  cases hname with
  | none => rfl
  | some hcn => simp only [hcn.datapath, hcn.lanIfaces]

include h in
/-- The graph of the links. -/
theorem linkGraph_same : linkGraph net = linkGraph net' := by
  simp only [linkGraph, dialerEndpoint, acceptorEndpoint, h.links,
    fun v => (h.node v).resolveIface]

include h hnodes in
/-- The runs add the same devices, those of a node's egresses in any order. -/
theorem nodeEndpoints_perm (order order' : Orders) :
    (nodeEndpoints order net nodes).Perm (nodeEndpoints order' net' nodes') := by
  have hkeys : net.nodes.sortedKeys = net'.nodes.sortedKeys :=
    FMap.sortedKeys_congr fun v => optionRel_isSome (h.nodes v)
  rw [nodeEndpoints, nodeEndpoints, hkeys]
  refine List.Perm.flatMap_left _ fun name _ => ?_
  rw [lanEndpoints_same h hnodes]
  exact (order.visit_perm order' _ (egressEndpoints_perm hnodes name)).append_right _

include h hnodes in
/-- The classes of devices are the same sets. -/
theorem lookup_deviceGraph_same (order order' : Orders) (e : Endpoint) :
    (deviceGraph order net nodes).lookup e = (deviceGraph order' net' nodes').lookup e := by
  rw [deviceGraph, deviceGraph, UnionFind.lookup_foldl_add, UnionFind.lookup_foldl_add,
    linkGraph_same h]
  simp only [(nodeEndpoints_perm h hnodes order order').mem_iff]

end Runs

/-- Every device has a root. -/
theorem grounded_deviceGraph (order : Orders) (net : Network) (nodes : Configs) :
    UnionFind.Grounded (deviceGraph order net nodes) := by
  refine UnionFind.Grounded.foldl_add ?_ _
  refine List.foldlRecOn (motive := UnionFind.Grounded) _ _ UnionFind.grounded_empty ?_
  intro u hu l _
  exact hu.union _ _

/-! ## Components -/

section Roles

variable {net net' : Network} {nodes nodes' : Configs} (h : Reordered net net')
  (hnodes : SameConfigs nodes nodes') {eps eps' : List Endpoint}

include h hnodes in
/-- The roles of a component are read from the network and its configurations as maps. -/
theorem comp_same (eps : List Endpoint) : comp net nodes eps = comp net' nodes' eps := by
  have hegress : ∀ e : Endpoint, (egressEndpoints nodes e.node).contains e =
      (egressEndpoints nodes' e.node).contains e :=
    fun e => (egressEndpoints_perm hnodes e.node).contains_eq
  simp only [comp, lanEndpoints_same h hnodes, hegress]

/-- The LAN devices among some devices. -/
def lanDevices (net : Network) (nodes : Configs) (eps : List Endpoint) : List Endpoint :=
  eps.filter fun e => (lanEndpoints net nodes e.node).contains e

/-- The roles that do not depend on the order of a component's devices. -/
theorem comp_perm (hperm : eps.Perm eps') :
    (comp net nodes eps).sig = (comp net nodes eps').sig ∧
      (comp net nodes eps).nodes = (comp net nodes eps').nodes ∧
      (comp net nodes eps).egress = (comp net nodes eps').egress := by
  refine ⟨?_, ?_, hperm.any_eq⟩
  · exact congrArg ",".intercalate (insertionSort_perm (hperm.map _))
  · exact insertionSort_perm (hperm.map _).dedup

/-- The LAN of a component whose LAN devices belong to one node. -/
theorem comp_lanFor_perm (hperm : eps.Perm eps')
    (hone : ∀ e ∈ lanDevices net nodes eps, ∀ e' ∈ lanDevices net nodes eps, e.node = e'.node) :
    (comp net nodes eps).lanFor = (comp net nodes eps').lanFor := by
  have hlans : (lanDevices net nodes eps).Perm (lanDevices net nodes eps') := hperm.filter _
  show ((lanDevices net nodes eps).getLast?.map Endpoint.node).getD "" =
    ((lanDevices net nodes eps').getLast?.map Endpoint.node).getD ""
  cases hlast : (lanDevices net nodes eps).getLast? with
  | none =>
    rw [List.getLast?_eq_none_iff] at hlast
    rw [hlast] at hlans
    rw [hlans.nil_eq.symm]
    rfl
  | some e => cases hlast' : (lanDevices net nodes eps').getLast? with
    | none =>
      rw [List.getLast?_eq_none_iff] at hlast'
      rw [hlast'] at hlans
      simp [hlans.eq_nil] at hlast
    | some e' =>
      exact hone e (List.mem_of_getLast? hlast) e'
        (hlans.mem_iff.mpr (List.mem_of_getLast? hlast'))

end Roles

/-- Two runs' findings of one component. -/
structure Matches (net : Network) (nodes : Configs) (c c' : Endpoint × Comp) : Prop where
  root : c.1 = c'.1
  first : c.2 = comp net nodes c.2.endpoints
  second : c'.2 = comp net nodes c'.2.endpoints
  perm : c.2.endpoints.Perm c'.2.endpoints

namespace Matches

variable {net : Network} {nodes : Configs} {c c' : Endpoint × Comp} (h : Matches net nodes c c')

include h

/-- They have the same signature. -/
theorem sig : c.2.sig = c'.2.sig := by
  rw [h.first, h.second]
  exact (comp_perm h.perm).1

/-- They have the same nodes. -/
theorem nodes_eq : c.2.nodes = c'.2.nodes := by
  rw [h.first, h.second]
  exact (comp_perm h.perm).2.1

/-- They have the same egress. -/
theorem egress : c.2.egress = c'.2.egress := by
  rw [h.first, h.second]
  exact (comp_perm h.perm).2.2

end Matches

/-- The components a run meets: the devices of each root, in the order it met them. -/
theorem mem_metComps {order : Orders} {net : Network} {nodes : Configs} {c : Endpoint × Comp} :
    c ∈ metComps order net nodes ↔ ∃ eps,
      (UnionFind.componentsIn (order.visit .endpoints (deviceGraph order net nodes).keys)
        (deviceGraph order net nodes)).lookup c.1 = some eps ∧ c.2 = comp net nodes eps := by
  simp only [metComps, List.mem_map, (order.perm _ _).mem_iff]
  constructor
  · rintro ⟨e, he, rfl⟩
    exact ⟨e.2, AList.mem_lookup_iff.mpr he, rfl⟩
  · rintro ⟨eps, heps, hcomp⟩
    exact ⟨⟨c.1, eps⟩, AList.mem_lookup_iff.mp heps, Prod.ext rfl hcomp.symm⟩

/-- Each component is met once. -/
theorem nodup_metComps (order : Orders) (net : Network) (nodes : Configs) :
    ((metComps order net nodes).map Prod.fst).Nodup := by
  rw [metComps, List.map_map]
  refine ((order.perm _ _).map _).nodup_iff.mpr ?_
  exact (UnionFind.componentsIn _ _).nodupKeys

/-- A component that is met is one of the graph. -/
theorem snd_mem_comps {net : Network} {nodes : Configs} {c : Endpoint × Comp}
    (h : c ∈ metComps .inOrder net nodes) : c.2 ∈ comps net nodes := by
  rw [← rootedComps_inOrder]
  exact List.mem_map_of_mem ((List.mem_insertionSort _).mpr h)

section Runs

variable {net net' : Network} {nodes nodes' : Configs} (h : Reordered net net')
  (hnodes : SameConfigs nodes nodes') (order order' : Orders)

include h hnodes in
/-- The runs find the same component for every root. -/
theorem components_perm (r : Endpoint) : Option.Rel List.Perm
    ((UnionFind.componentsIn (order.visit .endpoints (deviceGraph order net nodes).keys)
      (deviceGraph order net nodes)).lookup r)
    ((UnionFind.componentsIn (order'.visit .endpoints (deviceGraph order' net' nodes').keys)
      (deviceGraph order' net' nodes')).lookup r) := by
  have hlookup := lookup_deviceGraph_same h hnodes order order'
  refine UnionFind.componentsIn_perm (grounded_deviceGraph order net nodes) (fun e => ?_)
    (order.visit_perm order' _ ?_) r
  · rw [UnionFind.parent, UnionFind.parent, hlookup]
  · exact FMap.keys_perm_of_isSome fun e => congrArg Option.isSome (hlookup e)

include h hnodes in
/-- Each component has its counterpart in the other order. -/
theorem metComps_matches :
    (∀ c ∈ metComps order net nodes, ∃ c' ∈ metComps order' net' nodes', Matches net nodes c c') ∧
      ∀ c' ∈ metComps order' net' nodes', ∃ c ∈ metComps order net nodes,
        Matches net nodes c c' := by
  have hmatch : ∀ r eps eps', eps.Perm eps' →
      Matches net nodes (r, comp net nodes eps) (r, comp net' nodes' eps') :=
    fun r eps eps' hperm => ⟨rfl, rfl, (comp_same h hnodes eps').symm, hperm⟩
  constructor
  · rintro ⟨r, c⟩ hc
    obtain ⟨eps, heps, rfl⟩ := mem_metComps.mp hc
    obtain ⟨eps', heps', hperm⟩ := optionRel_left (components_perm h hnodes order order' r) heps
    exact ⟨_, mem_metComps.mpr ⟨eps', heps', rfl⟩, hmatch r _ _ hperm⟩
  · rintro ⟨r, c⟩ hc
    obtain ⟨eps', heps', rfl⟩ := mem_metComps.mp hc
    obtain ⟨eps, heps, hperm⟩ := optionRel_right (components_perm h hnodes order order' r) heps'
    exact ⟨_, mem_metComps.mpr ⟨eps, heps, rfl⟩, hmatch r _ _ hperm⟩

/-- The components of a network have different signatures. -/
def SignaturesApart (net : Network) (nodes : Configs) : Prop :=
  ((comps net nodes).map Comp.sig).Nodup

/-- Two LAN devices on one fabric belong to one node. -/
def OneLanOwner (net : Network) (nodes : Configs) : Prop :=
  ∀ c ∈ comps net nodes, ∀ e ∈ lanDevices net nodes c.endpoints,
    ∀ e' ∈ lanDevices net nodes c.endpoints, e.node = e'.node

/-- Signatures are apart as they are met. -/
theorem signaturesApart_iff :
    SignaturesApart net nodes ↔ ((metComps .inOrder net nodes).map fun c => c.2.sig).Nodup := by
  rw [SignaturesApart, ← rootedComps_inOrder, List.map_map]
  exact ((List.perm_insertionSort _ _).map _).nodup_iff

include h hnodes in
/-- Where the signatures are different, every run has the components in the order of the stored
one. -/
theorem rootedComps_matches (hapart : SignaturesApart net nodes) :
    List.Forall₂ (Matches net nodes) (rootedComps .inOrder net nodes)
      (rootedComps order' net' nodes') := by
  obtain ⟨hl, hl'⟩ := metComps_matches h hnodes .inOrder order'
  refine forall₂_insertionSort (fun c c' hcc' => hcc'.sig) hl hl' ?_
    (signaturesApart_iff.mp hapart) (nodup_metComps order' net' nodes').of_map
  intro c c' c'' hc' hc'' hcc' hcc''
  exact List.inj_on_of_nodup_map (nodup_metComps order' net' nodes') hc' hc''
    (hcc'.root.symm.trans hcc''.root)

end Runs

/-! ## Plain names -/

/-- The text of a device in a signature. -/
def Endpoint.text (e : Endpoint) : String := e.node ++ "|" ++ e.key

/-- A device whose text can be told from others and from a list of texts. -/
structure Endpoint.Plain (e : Endpoint) : Prop where
  bar : '|' ∉ e.node.toList
  comma : ',' ∉ e.text.toList

/-- The text of an endpoint, by characters. -/
theorem Endpoint.toList_text (e : Endpoint) :
    e.text.toList = e.node.toList ++ '|' :: e.key.toList := by
  simp [Endpoint.text]

/-- The text of a plain device says which it is. -/
theorem Endpoint.Plain.text_inj {e e' : Endpoint} (h : e.Plain) (h' : e'.Plain)
    (htext : e.text = e'.text) : e = e' := by
  have hlist : e.node.toList ++ '|' :: e.key.toList = e'.node.toList ++ '|' :: e'.key.toList := by
    rw [← Endpoint.toList_text, ← Endpoint.toList_text, htext]
  have hindex := Tokens.index_complete (b := e.key.toList) h.bar
  rw [hlist, Tokens.index_complete h'.bar, Option.some.injEq] at hindex
  obtain ⟨hnode, hkey⟩ := List.append_inj hlist hindex.symm
  obtain ⟨node, key⟩ := e
  obtain ⟨node', key'⟩ := e'
  obtain rfl := String.toList_injective hnode
  obtain rfl := String.toList_injective (List.cons.inj hkey).2
  rfl

/-- The signature of plain devices, cut at its commas, is their texts in order. -/
theorem splitOn_sig {net : Network} {nodes : Configs} {eps : List Endpoint}
    (hplain : ∀ e ∈ eps, e.Plain) (hne : eps ≠ []) :
    (comp net nodes eps).sig.toList.splitOn ',' =
      ((eps.map Endpoint.text).insertionSort (· ≤ ·)).map String.toList := by
  have htoList : (comp net nodes eps).sig.toList =
      [','].intercalate (((eps.map Endpoint.text).insertionSort (· ≤ ·)).map String.toList) :=
    String.toList_intercalate
  rw [htoList, List.splitOn_intercalate]
  · intro l hl
    obtain ⟨text, htext, rfl⟩ := List.mem_map.mp hl
    obtain ⟨e, he, rfl⟩ := List.mem_map.mp ((List.mem_insertionSort _).mp htext)
    exact (hplain e he).comma
  · intro hnil
    have hlength := congrArg List.length hnil
    simp only [List.length_map, List.length_insertionSort, List.length_nil,
      List.length_eq_zero_iff] at hlength
    exact hne hlength

/-- The signature of plain devices says which they are. -/
theorem mem_of_signature {net : Network} {nodes : Configs} {eps eps' : List Endpoint}
    (hplain : ∀ e ∈ eps, e.Plain) (hplain' : ∀ e ∈ eps', e.Plain) (hne' : eps' ≠ [])
    (hsig : (comp net nodes eps).sig = (comp net nodes eps').sig) {e : Endpoint} (he : e ∈ eps) :
    e ∈ eps' := by
  have hsorted : (comp net nodes eps).sig.toList.splitOn ',' = _ :=
    splitOn_sig hplain (List.ne_nil_of_mem he)
  rw [hsig, splitOn_sig hplain' hne'] at hsorted
  have htexts := List.map_injective_iff.mpr (fun _ _ => String.toList_injective) hsorted
  have htext : e.text ∈ (eps'.map Endpoint.text).insertionSort (· ≤ ·) := by
    rw [htexts, List.mem_insertionSort]
    exact List.mem_map_of_mem he
  obtain ⟨e', he', heq⟩ := List.mem_map.mp ((List.mem_insertionSort _).mp htext)
  rwa [(hplain e he).text_inj (hplain' e' he') heq.symm]

/-- Components of plain devices have different signatures. -/
theorem signaturesApart_of_plain {net : Network} {nodes : Configs}
    (hplain : ∀ c ∈ comps net nodes, ∀ e ∈ c.endpoints, e.Plain) : SignaturesApart net nodes := by
  have hgrounded := grounded_deviceGraph .inOrder net nodes
  rw [signaturesApart_iff]
  refine (nodup_metComps .inOrder net nodes).of_map.map_on ?_
  intro c hc c' hc' hsig
  have hmem := hplain c.2 (snd_mem_comps hc)
  have hmem' := hplain c'.2 (snd_mem_comps hc')
  refine List.inj_on_of_nodup_map (nodup_metComps .inOrder net nodes) hc hc' ?_
  obtain ⟨eps, heps, hcomp⟩ := mem_metComps.mp hc
  obtain ⟨eps', heps', hcomp'⟩ := mem_metComps.mp hc'
  rw [hcomp] at hsig hmem
  rw [hcomp'] at hsig hmem'
  obtain ⟨hne, hroot⟩ := UnionFind.componentsIn_eq_some hgrounded heps
  obtain ⟨hne', hroot'⟩ := UnionFind.componentsIn_eq_some hgrounded heps'
  -- a device the two components share has one root
  obtain ⟨e, he⟩ := List.exists_mem_of_ne_nil eps hne
  have he' : e ∈ eps' := mem_of_signature hmem hmem' hne' hsig he
  rw [hroot, List.mem_filter, decide_eq_true_eq] at he
  rw [hroot', List.mem_filter, decide_eq_true_eq] at he'
  exact he.2.symm.trans he'.2

/-! ## Layouts -/

/-- Findings of one component with the same LAN. -/
def MatchesLan (net : Network) (nodes : Configs) (c c' : Endpoint × Comp) : Prop :=
  Matches net nodes c c' ∧ c.2.lanFor = c'.2.lanFor

section Layout

variable {net : Network} {nodes : Configs} {cs cs' : List (Endpoint × Comp)}

/-- Components with the same devices have the same fabrics by name. -/
theorem lookup_fabricNames_same (h : List.Forall₂ (Matches net nodes) cs cs') (e : Endpoint) :
    (fabricNames cs).lookup e = (fabricNames cs').lookup e := by
  have hfold : ∀ (k : Nat) (m m' : FMap Endpoint String), m.lookup e = m'.lookup e →
      ((cs.zipIdx k).foldl (fun m c => c.1.2.endpoints.foldl
          (fun m e => m.insert e (fabricName c.2)) m) m).lookup e =
        ((cs'.zipIdx k).foldl (fun m c => c.1.2.endpoints.foldl
          (fun m e => m.insert e (fabricName c.2)) m) m').lookup e := by
    induction h with
    | nil => exact fun _ _ _ hm => hm
    | cons hcc' _ ih =>
      intro k m m' hm
      rw [List.zipIdx_cons, List.zipIdx_cons, List.foldl_cons, List.foldl_cons]
      refine ih _ _ _ ?_
      rw [FMap.lookup_foldl_insert, FMap.lookup_foldl_insert, hm]
      simp only [hcc'.perm.mem_iff]
  exact hfold 0 ∅ ∅ rfl

/-- Counterparts get the same fabric. -/
theorem fabric_same {c c' : Endpoint × Comp} (h : MatchesLan net nodes c c') (opts : PlanOptions)
    (i : Nat) : fabric opts c.2 i = fabric opts c'.2 i := by
  simp only [fabric, h.1.nodes_eq, h.1.egress, h.2]

/-- So the layouts are the same. -/
theorem layoutOf_same (h : List.Forall₂ (MatchesLan net nodes) cs cs') (opts : PlanOptions) :
    layoutOf opts cs = layoutOf opts cs' := by
  have hlans : (cs.map fun c => (c.1, c.2.lanFor)) = cs'.map fun c => (c.1, c.2.lanFor) := by
    induction h with
    | nil => rfl
    | cons hcc' _ ih => rw [List.map_cons, List.map_cons, hcc'.1.root, hcc'.2, ih]
  have hfabrics : (cs.zipIdx.map fun c => fabric opts c.1.2 c.2) =
      cs'.zipIdx.map fun c => fabric opts c.1.2 c.2 :=
    zipIdx_map_congr h (fun _ _ i hcc' => fabric_same hcc' opts i) 0
  have hnames := lookup_fabricNames_same (h.imp fun _ _ hcc' => hcc'.1)
  simp only [layoutOf, hfabrics, hlans, hnames]

end Layout

/-- With different signatures and one owner for the LANs on each fabric, every run has the layout
of the stored order. -/
theorem layout_same {net net' : Network} {nodes nodes' : Configs} (h : Reordered net net')
    (hnodes : SameConfigs nodes nodes') (hapart : SignaturesApart net nodes)
    (hone : OneLanOwner net nodes) (order : Orders) (opts : PlanOptions) :
    layout .inOrder opts net nodes = layout order opts net' nodes' := by
  have hmatches := rootedComps_matches h hnodes order hapart
  have hlan : List.Forall₂ (MatchesLan net nodes) (rootedComps .inOrder net nodes)
      (rootedComps order net' nodes') := by
    rw [List.forall₂_iff_zip] at hmatches ⊢
    refine ⟨hmatches.1, fun {c c'} hcc' => ⟨hmatches.2 hcc', ?_⟩⟩
    have hmem : c.2 ∈ comps net nodes :=
      snd_mem_comps ((List.mem_insertionSort _).mp (List.of_mem_zip hcc').1)
    have hcomp := hmatches.2 hcc'
    rw [hcomp.first, hcomp.second]
    exact comp_lanFor_perm hcomp.perm (hone c.2 hmem)
  exact layoutOf_same hlan opts

/-! ## Two owners -/

/-- The host address with a given number on the fabric at place `i`. -/
def hostOn (opts : PlanOptions) (i octet : Nat) : String := s!"{opts.netBase}.{i + 1}.{octet}"

/-- Hosts of a fabric have different addresses. -/
theorem hostOn_injective (opts : PlanOptions) (i : Nat) : Function.Injective (hostOn opts i) := by
  intro j k h
  simpa [hostOn] using h

/-- The addresses of a component's nodes, numbered from 2. -/
theorem nodeAddress_lt (opts : PlanOptions) (i : Nat) (names : List String) {name ip : String}
    (h : (names.zipIdx.foldl (fun m e => m.insert e.1 (hostOn opts i (2 + e.2)))
      (∅ : FMap String String)).lookup name = some ip) :
    ∃ k < names.length, ip = hostOn opts i (2 + k) := by
  revert name ip
  refine List.foldlRecOn (motive := fun m : FMap String String => ∀ {name ip : String},
    m.lookup name = some ip → ∃ k < names.length, ip = hostOn opts i (2 + k)) _ _ ?_ ?_
  · intro name ip h
    cases h
  · rintro m hm ⟨n, k⟩ hmem name ip h
    rw [FMap.lookup_insert_ite] at h
    split at h
    · cases h
      exact ⟨k, by simpa using (List.mem_zipIdx hmem).2.1, rfl⟩
    · exact hm h

/-- The client of a fabric's LAN has the number after those of the nodes. -/
theorem fabric_client (opts : PlanOptions) {c : Comp} (h : c.lanFor ≠ "") (i : Nat) :
    (fabric opts c i).ips.lookup (clientName c.lanFor) =
      some (hostOn opts i (2 + c.nodes.length)) := by
  simp only [fabric, if_pos h, AList.lookup_insert]
  rfl

/-- Clients have different names. -/
theorem clientName_injective : Function.Injective clientName := fun _ _ h =>
  (String.append_right_inj _).mp h

/-- No client is called like the hub. -/
theorem clientName_ne_hubName (node : String) : clientName node ≠ hubName := by
  intro h
  have hhead := congrArg (fun s : String => s.toList.head?) h
  simp [clientName, hubName] at hhead

/-- No other client has an address there. -/
theorem fabric_other_client (opts : PlanOptions) {c : Comp} {node : String} (h : node ≠ c.lanFor)
    (i : Nat) : (fabric opts c i).ips.lookup (clientName node) ≠
      some (hostOn opts i (2 + c.nodes.length)) := by
  have hother : clientName node ≠ clientName c.lanFor := fun heq => h (clientName_injective heq)
  have hlookup : (fabric opts c i).ips.lookup (clientName node) =
      (c.nodes.zipIdx.foldl (fun m e => m.insert e.1 (hostOn opts i (2 + e.2)))
        (∅ : FMap String String)).lookup (clientName node) := by
    have hskip : ∀ (p : Prop) [Decidable p] (m : FMap String String) (name ip : String),
        clientName node ≠ name → (if p then m.insert name ip else m).lookup (clientName node) =
          m.lookup (clientName node) := by
      intro p _ m name ip hne
      split
      · exact AList.lookup_insert_ne hne
      · rfl
    simp only [fabric]
    rw [hskip _ _ _ _ hother, hskip _ _ _ _ (clientName_ne_hubName node)]
    rfl
  rw [hlookup]
  intro heq
  obtain ⟨k, hk, hip⟩ := nodeAddress_lt opts i c.nodes heq
  have := hostOn_injective opts i hip
  omega

/-- Components with the same nodes and different LANs have different fabrics. -/
theorem fabric_ne (opts : PlanOptions) {c c' : Comp} (hnodes : c.nodes = c'.nodes)
    (hlan : c.lanFor ≠ c'.lanFor) (i : Nat) : fabric opts c i ≠ fabric opts c' i := by
  intro heq
  by_cases hempty : c.lanFor = ""
  · have hclient := fabric_client opts (fun h' => hlan (hempty.trans h'.symm) : c'.lanFor ≠ "") i
    rw [← heq, ← hnodes] at hclient
    exact fabric_other_client opts hlan.symm i hclient
  · have hclient := fabric_client opts hempty i
    rw [heq, hnodes] at hclient
    exact fabric_other_client opts hlan i hclient

/-- The LAN device a run meets last has the client. -/
theorem comp_lanFor_append {net : Network} {nodes : Configs} (l : List Endpoint) {e : Endpoint}
    (hlan : (lanEndpoints net nodes e.node).contains e = true) :
    (comp net nodes (l ++ [e])).lanFor = e.node := by
  have hlast : [e].filter (fun e => (lanEndpoints net nodes e.node).contains e) = [e] :=
    List.filter_eq_self.mpr (List.forall_mem_singleton.mpr hlan)
  rw [comp, List.filter_append, hlast]
  simp

/-- For each LAN device of a component there is a run that meets it last. -/
theorem exists_lanFor {net : Network} {nodes : Configs} (hapart : SignaturesApart net nodes)
    {i : Nat} {c : Endpoint × Comp} (hc : (rootedComps .inOrder net nodes)[i]? = some c)
    {e : Endpoint} (he : e ∈ lanDevices net nodes c.2.endpoints) :
    ∃ order c', (rootedComps order net nodes)[i]? = some c' ∧ c'.2.nodes = c.2.nodes ∧
      c'.2.lanFor = e.node := by
  have hgrounded := grounded_deviceGraph .inOrder net nodes
  have hmet : c ∈ metComps .inOrder net nodes :=
    (List.mem_insertionSort _).mp (List.mem_of_getElem? hc)
  obtain ⟨eps, heps, hcomp⟩ := mem_metComps.mp hmet
  obtain ⟨-, rfl⟩ := UnionFind.componentsIn_eq_some hgrounded heps
  rw [hcomp] at he
  obtain ⟨hmem, hlan⟩ := List.mem_filter.mp he
  obtain ⟨hkey, hroot⟩ := List.mem_filter.mp hmem
  obtain ⟨k, hk⟩ : ∃ k : Nat, (deviceGraph .inOrder net nodes).keys[k]? = some e :=
    List.mem_iff_getElem?.mp hkey
  -- the run meets the device at place `k` of the keys, which is `e`, last
  have hmatches := rootedComps_matches (.refl net) (.refl nodes) (.lastAt .endpoints k) hapart
  obtain ⟨c', hc', hmatch⟩ := forall₂_getElem? hmatches hc
  refine ⟨_, c', hc', hmatch.nodes_eq.symm, ?_⟩
  have hmet' : c' ∈ metComps (.lastAt .endpoints k) net nodes :=
    (List.mem_insertionSort _).mp (List.mem_of_getElem? hc')
  obtain ⟨eps', heps', hcomp'⟩ := mem_metComps.mp hmet'
  have hlookup : (UnionFind.componentsIn
      (Iteration.toEnd k (deviceGraph .inOrder net nodes).keys)
      (deviceGraph .inOrder net nodes)).lookup c'.1 = some eps' := heps'
  obtain ⟨-, rfl⟩ := UnionFind.componentsIn_eq_some hgrounded hlookup
  have hlast : [e].filter (fun x => (deviceGraph .inOrder net nodes).root x = c.1) = [e] :=
    List.filter_eq_self.mpr (List.forall_mem_singleton.mpr hroot)
  rw [hcomp', Iteration.toEnd, hk, Option.toList_some, List.filter_append, ← hmatch.root, hlast]
  exact comp_lanFor_append _ hlan

end Dualnet.Netsim
