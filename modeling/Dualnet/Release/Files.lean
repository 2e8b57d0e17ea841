import Dualnet.Release.Plan
import Dualnet.Schema.Conditions
import Dualnet.Schema.LinkEnds

/-!
# Shipping condition files

The files of a plan are copied to a node one after another. All of them land in one directory
under their base names, so a file can be overwritten by another of the same name from another
local directory. `keepsIdentity_iff`: the node reads what the schema declares exactly if files it
uses under one base name have one content.
-/

namespace Dualnet.Release

open Library Text Schema

variable {B : Type}

/-- The files on a node, by path. -/
abbrev Files (B : Type) := String → Option B

/-- Copy a local file to its remote path. -/
def FileCopy.ship (content : String → B) (fs : Files B) (f : FileCopy) : Files B :=
  Function.update fs f.remote (some (content f.localFile))

/-- Copy files in order. -/
def shipAll (content : String → B) (fs : Files B) (l : List FileCopy) : Files B :=
  l.foldl (FileCopy.ship content) fs

/-- The copies of a plan that go to a node. -/
def Plan.filesFor (p : Plan) (node : String) : List FileCopy :=
  p.sshFiles.filter fun f => f.node = node

/-- A compiled set is found where it says, with the content of the declared file. -/
def Reads (content : String → B) (fs : Files B) (compiled declared : Option Config.IPSet) : Prop :=
  ∀ set, compiled = some set → set.file ≠ "" →
    ∃ spec, declared = some spec ∧ fs set.file = some (content spec.file)

/-- Every set of every condition of the node is read as the schema declares it. -/
def KeepsIdentity (n : Network) (cn : Config.Node) (content : String → B) (fs : Files B) : Prop :=
  ∀ c ∈ cn.conditions, Reads content fs c.dstIn (n.condition c.name).dstIn ∧
    Reads content fs c.srcIn (n.condition c.name).srcIn

/-- The file that the schema declares for a set the node has, if it declares one. -/
def declaredFile (compiled declared : Option Config.IPSet) : List String :=
  ((compiled.bind fun _ => declared.map Config.IPSet.file).filter (· ≠ "")).toList

/-- The files that the schema declares for the sets of the node's conditions. -/
def declaredFiles (n : Network) (cn : Config.Node) : List String :=
  cn.conditions.flatMap fun c => declaredFile c.dstIn (n.condition c.name).dstIn ++
    declaredFile c.srcIn (n.condition c.name).srcIn

/-- Files that are declared for the node's conditions under one base name have one content. -/
def BaseNamesDecide (n : Network) (cn : Config.Node) (content : String → B) : Prop :=
  ∀ f ∈ declaredFiles n cn, ∀ g ∈ declaredFiles n cn,
    basePath f = basePath g → content f = content g

instance [DecidableEq B] (n : Network) (cn : Config.Node) (content : String → B) :
    Decidable (BaseNamesDecide n cn content) := by
  unfold BaseNamesDecide
  infer_instance

/-! ## Copying in order -/

section Copying

variable (content : String → B) (fs : Files B) (l : List FileCopy)

/-- A path that is copied to holds the content of the last copy. -/
theorem shipAll_apply (path : String) :
    shipAll content fs l path =
      ((l.reverse.find? fun f => f.remote = path).map fun f => content f.localFile).or
        (fs path) := by
  induction l generalizing fs with
  | nil => rfl
  | cons f l ih =>
    have hstep : shipAll content fs (f :: l) = shipAll content (f.ship content fs) l := rfl
    rw [hstep, ih, List.reverse_cons, List.find?_append]
    cases hlast : l.reverse.find? fun f => f.remote = path with
    | some g => simp
    | none =>
      by_cases hf : f.remote = path
      · simp [FileCopy.ship, hf]
      · simp [FileCopy.ship, hf, Ne.symm hf]

/-- Every copy survives exactly if copies to one path have one content. -/
theorem shipAll_survive_iff :
    (∀ f ∈ l, shipAll content fs l f.remote = some (content f.localFile)) ↔
      ∀ f ∈ l, ∀ g ∈ l, f.remote = g.remote → content f.localFile = content g.localFile := by
  constructor
  · intro h f hf g hg heq
    have hread := (h f hf).symm.trans ((congrArg _ heq).trans (h g hg))
    exact Option.some.inj hread
  · intro h f hf
    rw [shipAll_apply]
    cases hlast : l.reverse.find? fun g => g.remote = f.remote with
    | none =>
      rw [List.find?_eq_none] at hlast
      exact absurd (decide_eq_true rfl) (hlast f (List.mem_reverse.mpr hf))
    | some g =>
      have hg := List.mem_reverse.mp (List.mem_of_find?_eq_some hlast)
      have hremote : g.remote = f.remote := by simpa using List.find?_some hlast
      simp [h g hg f hf hremote]

end Copying

/-! ## The copies of a plan -/

section Copies

variable {n : Network} {nodes : Configs}

/-- The copies a node contributes. -/
def filesOf (n : Network) (nodes : Configs) (name : String) : List FileCopy :=
  match (n.node name).deploy, nodes.lookup name with
  | some d, some cn => if d.mode = "ssh" then conditionFiles n name cn else []
  | _, _ => []

/-- A node adds its files. -/
theorem planNode_files {st st' : Plan × FMap String DockerBuild} {name : String}
    (h : planNode n nodes st name = .ok st') :
    st'.1.sshFiles = st.1.sshFiles ++ filesOf n nodes name := by
  unfold planNode at h
  unfold filesOf
  split at h
  · cases h
    simp [*]
  · split at h
    · cases h
    · rename_i d hd _ cn hcn
      rw [hd, hcn]
      dsimp only at h ⊢
      split at h
      · rename_i hssh
        cases h
        rw [if_pos hssh]
      · rename_i hssh
        rw [if_neg hssh, List.append_nil]
        split at h
        · simp only [bind_eq_ok, reject_eq_ok, exists_const, pure_eq_ok, Prod.exists] at h
          obtain ⟨_, -, k, db, -, -, rfl⟩ := h
          rfl
        · cases h

/-- All nodes add theirs. -/
theorem planNodes_files {l : List String} {st st' : Plan × FMap String DockerBuild}
    (h : l.foldlM (planNode n nodes) st = .ok st') :
    st'.1.sshFiles = st.1.sshFiles ++ l.flatMap (filesOf n nodes) := by
  induction l generalizing st with
  | nil =>
    rw [List.foldlM_nil, pure_eq_ok] at h
    simp [h]
  | cons name l ih =>
    rw [List.foldlM_cons, bind_eq_ok] at h
    obtain ⟨next, hstep, hrest⟩ := h
    rw [ih hrest, planNode_files hstep, List.flatMap_cons, List.append_assoc]

/-- The copies of a set go to the node. -/
theorem setCopy_node {node : String} {compiled declared : Option Config.IPSet} {f : FileCopy}
    (hf : f ∈ setCopy node compiled declared) : f.node = node := by
  unfold setCopy at hf
  split at hf
  · split at hf
    · rw [List.mem_singleton.mp hf]
    · cases hf
  · cases hf

/-- The files of a node go to it. -/
theorem filesOf_node {name : String} {f : FileCopy} (hf : f ∈ filesOf n nodes name) :
    f.node = name := by
  unfold filesOf at hf
  split at hf
  · split at hf
    · obtain ⟨c, -, hf⟩ := List.mem_flatMap.mp hf
      split at hf
      · cases hf
      · exact (List.mem_append.mp hf).elim setCopy_node setCopy_node
    · cases hf
  · cases hf

/-- Among nodes visited once, each keeps its own copies. -/
theorem filter_flatMap_filesOf {l : List String} (hl : l.Nodup) {v : String} (hv : v ∈ l) :
    (l.flatMap (filesOf n nodes)).filter (fun f => f.node = v) = filesOf n nodes v := by
  have hown : ∀ w, (filesOf n nodes w).filter (fun f => f.node = v) =
      if w = v then filesOf n nodes w else [] := by
    intro w
    split
    · rename_i hw
      exact List.filter_eq_self.mpr fun f hf => by simp [filesOf_node hf, hw]
    · rename_i hw
      exact List.filter_eq_nil_iff.mpr fun f hf => by simp [filesOf_node hf, hw]
  rw [List.filter_flatMap]
  simp only [hown]
  induction l with
  | nil => cases hv
  | cons w l ih =>
    rw [List.nodup_cons] at hl
    rw [List.flatMap_cons]
    rcases List.mem_cons.mp hv with rfl | hv
    · rw [if_pos rfl, List.flatMap_eq_nil_iff.mpr, List.append_nil]
      intro w hw
      rw [if_neg (ne_of_mem_of_not_mem hw hl.1)]
    · rw [if_neg (ne_of_mem_of_not_mem hv hl.1).symm, List.nil_append, ih hl.2 hv]

/-- The files a plan has for an ssh node are those of the node's conditions. -/
theorem filesFor_eq {p : Plan} (h : buildPlan n nodes = .ok p) {v : String} {d : DeploySpec}
    {cn : Config.Node} (hdeploy : (n.node v).deploy = some d) (hssh : d.mode = "ssh")
    (hcn : nodes.lookup v = some cn) : p.filesFor v = conditionFiles n v cn := by
  simp only [buildPlan, bind_eq_ok, pure_eq_ok, Prod.exists] at h
  obtain ⟨builds, -, plan, images, hnodes, rfl⟩ := h
  have hfiles := planNodes_files hnodes
  rw [List.nil_append] at hfiles
  have hv : v ∈ n.nodes.sortedKeys := by
    rw [FMap.mem_sortedKeys]
    cases hfound : n.nodes.lookup v with
    | none => simp [Network.node, hfound] at hdeploy
    | some nd => exact ⟨nd, rfl⟩
  rw [Plan.filesFor, hfiles, filter_flatMap_filesOf (FMap.nodup_sortedKeys _) hv, filesOf, hdeploy,
    hcn]
  exact if_pos hssh

end Copies

/-! ## What the node reads -/

section Reading

variable {n : Network} {v : String} {d : DeploySpec} {cn : Config.Node}

/-- A compiled set is a set of the schema, relocated. -/
def FromSchema (n : Network) (v : String) (compiled declared : Option Config.IPSet) : Prop :=
  ∀ set, compiled = some set → ∃ spec, declared = some spec ∧ set = n.relocateSet v spec

/-- The sets of a condition the node carries are from the schema. -/
theorem fromSchema_of_carried {c : Config.Condition} (h : n.CarriedAt v c) :
    FromSchema n v c.dstIn (n.condition c.name).dstIn ∧
      FromSchema n v c.srcIn (n.condition c.name).srcIn := by
  have hnone : ∀ declared, FromSchema n v none declared := fun _ _ hset => by cases hset
  cases h with
  | dst h => exact ⟨fun set hset => ⟨_, h, (Option.some.inj hset).symm⟩, hnone _⟩
  | src _ h => exact ⟨hnone _, fun set hset => ⟨_, h, (Option.some.inj hset).symm⟩⟩
  | health => exact ⟨hnone _, hnone _⟩

/-- The copy of a set from the schema goes to the directory of the node's files. -/
theorem setCopy_remote (hdeploy : (n.node v).deploy = some d)
    {compiled declared : Option Config.IPSet} (h : FromSchema n v compiled declared)
    {f : FileCopy} (hf : f ∈ setCopy v compiled declared) :
    f.remote = d.filesDir ++ "/" ++ basePath f.localFile := by
  unfold setCopy at hf
  split at hf
  · rename_i set spec
    obtain ⟨spec', hspec, rfl⟩ := h set rfl
    cases hspec
    split at hf
    · rename_i hfile
      rw [List.mem_singleton.mp hf]
      unfold Network.relocateSet at hfile ⊢
      split at hfile
      · rw [if_pos ‹_›]
        simp [Network.remoteConditionFile, hdeploy]
      · exact absurd hfile ‹_›
    · cases hf
  · cases hf

/-- The set of the node names a file exactly if the schema's does. -/
theorem relocateSet_file_ne (hdeploy : (n.node v).deploy = some d) (spec : Config.IPSet) :
    (n.relocateSet v spec).file ≠ "" ↔ spec.file ≠ "" := by
  unfold Network.relocateSet
  split
  · rename_i hfile
    simp [Network.remoteConditionFile, hdeploy, hfile]
  · rfl

/-- A set from the schema is copied from the file the schema declares for it. -/
theorem setCopy_localFile (hdeploy : (n.node v).deploy = some d)
    {compiled declared : Option Config.IPSet} (h : FromSchema n v compiled declared) :
    (setCopy v compiled declared).map FileCopy.localFile = declaredFile compiled declared := by
  cases compiled with
  | none => rfl
  | some set =>
    obtain ⟨spec, rfl, rfl⟩ := h set rfl
    by_cases hfile : spec.file = ""
    · have hset := mt (relocateSet_file_ne hdeploy spec).mp (not_not.mpr hfile)
      simp [setCopy, declaredFile, hset, hfile]
    · have hset := (relocateSet_file_ne hdeploy spec).mpr hfile
      simp [setCopy, declaredFile, hset, Option.filter, hfile]

/-- A set from the schema is read as declared exactly if its copy is in place. -/
theorem reads_iff {compiled declared : Option Config.IPSet}
    (h : FromSchema n v compiled declared) (content : String → B) (fs : Files B) :
    Reads content fs compiled declared ↔
      ∀ f ∈ setCopy v compiled declared, fs f.remote = some (content f.localFile) := by
  cases compiled with
  | none => simp [Reads, setCopy]
  | some set =>
    obtain ⟨spec, rfl, -⟩ := h set rfl
    by_cases hfile : set.file = ""
    · simp [Reads, setCopy, hfile]
    · simp [Reads, setCopy, hfile]

/-- The files of its conditions. -/
theorem mem_conditionFiles {f : FileCopy} :
    f ∈ conditionFiles n v cn ↔ ∃ c ∈ cn.conditions,
      f ∈ setCopy v c.dstIn (n.condition c.name).dstIn ∨
        f ∈ setCopy v c.srcIn (n.condition c.name).srcIn := by
  rw [conditionFiles, List.mem_flatMap]
  refine exists_congr fun c => and_congr_right fun hc => ?_
  rw [Network.condition]
  cases n.conditions.lookup c.name with
  | some sc => simp
  | none => simp [setCopy]

/-- The node reads what the schema declares exactly if every copy is in place. -/
theorem keepsIdentity_iff_copies (hcarried : ∀ c ∈ cn.conditions, n.CarriedAt v c)
    (content : String → B) (fs : Files B) :
    KeepsIdentity n cn content fs ↔
      ∀ f ∈ conditionFiles n v cn, fs f.remote = some (content f.localFile) := by
  simp only [mem_conditionFiles]
  constructor
  · rintro h f ⟨c, hc, hf | hf⟩
    · exact (reads_iff (fromSchema_of_carried (hcarried c hc)).1 content fs).mp (h c hc).1 f hf
    · exact (reads_iff (fromSchema_of_carried (hcarried c hc)).2 content fs).mp (h c hc).2 f hf
  · intro h c hc
    obtain ⟨hdst, hsrc⟩ := fromSchema_of_carried (hcarried c hc)
    exact ⟨(reads_iff hdst content fs).mpr fun f hf => h f ⟨c, hc, .inl hf⟩,
      (reads_iff hsrc content fs).mpr fun f hf => h f ⟨c, hc, .inr hf⟩⟩

/-- Copies of one node have one remote path exactly if their local files have one base name. -/
theorem remote_eq_iff (hdeploy : (n.node v).deploy = some d)
    (hcarried : ∀ c ∈ cn.conditions, n.CarriedAt v c) {f g : FileCopy}
    (hf : f ∈ conditionFiles n v cn) (hg : g ∈ conditionFiles n v cn) :
    f.remote = g.remote ↔ basePath f.localFile = basePath g.localFile := by
  have hremote : ∀ f ∈ conditionFiles n v cn,
      f.remote = d.filesDir ++ "/" ++ basePath f.localFile := by
    intro f hf
    obtain ⟨c, hc, hf⟩ := mem_conditionFiles.mp hf
    obtain ⟨hdst, hsrc⟩ := fromSchema_of_carried (hcarried c hc)
    exact hf.elim (setCopy_remote hdeploy hdst) (setCopy_remote hdeploy hsrc)
  rw [hremote f hf, hremote g hg, String.append_right_inj]

/-- The files shipped for the conditions of a node are the ones declared for them. -/
theorem conditionFiles_localFile (hdeploy : (n.node v).deploy = some d)
    (hcarried : ∀ c ∈ cn.conditions, n.CarriedAt v c) (file : String) :
    (∃ f ∈ conditionFiles n v cn, f.localFile = file) ↔ file ∈ declaredFiles n cn := by
  simp only [mem_conditionFiles, declaredFiles, List.mem_flatMap, List.mem_append]
  constructor
  · rintro ⟨f, ⟨c, hc, hf⟩, rfl⟩
    obtain ⟨hdst, hsrc⟩ := fromSchema_of_carried (hcarried c hc)
    refine ⟨c, hc, ?_⟩
    rw [← setCopy_localFile hdeploy hdst, ← setCopy_localFile hdeploy hsrc]
    exact hf.imp List.mem_map_of_mem List.mem_map_of_mem
  · rintro ⟨c, hc, hfile⟩
    obtain ⟨hdst, hsrc⟩ := fromSchema_of_carried (hcarried c hc)
    rw [← setCopy_localFile hdeploy hdst, ← setCopy_localFile hdeploy hsrc] at hfile
    rcases hfile with hfile | hfile
    · obtain ⟨f, hf, rfl⟩ := List.mem_map.mp hfile
      exact ⟨f, ⟨c, hc, .inl hf⟩, rfl⟩
    · obtain ⟨f, hf, rfl⟩ := List.mem_map.mp hfile
      exact ⟨f, ⟨c, hc, .inr hf⟩, rfl⟩

/-- Once the files of a plan are copied to an ssh node, the node reads for each condition what the
schema declares, exactly if files declared for its conditions under one base name have one
content. -/
theorem keepsIdentity_iff {m : Network} {out : Configs} {p : Plan} (hvalid : n.validate = .ok m)
    (hcompile : m.compile = .ok out) (hplan : buildPlan m out = .ok p)
    (hdeploy : (m.node v).deploy = some d) (hssh : d.mode = "ssh") (hcn : out.lookup v = some cn)
    (content : String → B) (fs : Files B) :
    KeepsIdentity m cn content (shipAll content fs (p.filesFor v)) ↔
      BaseNamesDecide m cn content := by
  obtain ⟨-, -, hcarried, -⟩ := compile_conditions hvalid hcompile hcn
  rw [filesFor_eq hplan hdeploy hssh hcn, keepsIdentity_iff_copies hcarried, shipAll_survive_iff]
  constructor
  · intro h file hfile file' hfile' hbase
    obtain ⟨f, hf, rfl⟩ := (conditionFiles_localFile hdeploy hcarried file).mpr hfile
    obtain ⟨g, hg, rfl⟩ := (conditionFiles_localFile hdeploy hcarried file').mpr hfile'
    exact h f hf g hg ((remote_eq_iff hdeploy hcarried hf hg).mpr hbase)
  · intro h f hf g hg hremote
    exact h _ ((conditionFiles_localFile hdeploy hcarried _).mp ⟨f, hf, rfl⟩) _
      ((conditionFiles_localFile hdeploy hcarried _).mp ⟨g, hg, rfl⟩)
      ((remote_eq_iff hdeploy hcarried hf hg).mp hremote)

end Reading

/-- The leaf's network, with the leaf deployed over ssh and two of its branches for destinations
listed in files. -/
def listedNetwork (domestic cdn : String) : Network :=
  { leafNetwork "" with
    builds := (∅ : FMap String BuildSpec).insert "router" ⟨"arm64"⟩
    nodes := (leafNetwork "").nodes.modify "leaf" fun nd =>
      { nd with deploy := some { mode := "ssh", build := "router" } }
    conditions := (∅ : FMap String ConditionSpec).insert "domestic"
        { dstIn := some { file := domestic } }
      |>.insert "cdn" { dstIn := some { file := cdn } }
    paths := [{
      name := "leaf", node := "leaf"
      routes := [["domestic"], ["cdn"], []].map fun when =>
        { when, egress := "a", up := ["leaf-up"], down := ["gw-leaf"] } }] }

/-- Files of different names are read as declared. -/
theorem keepsIdentity_listed : ∃ m out p d cn,
    (listedNetwork "lists/domestic.txt" "lists/cdn.txt").validate = .ok m ∧
    m.compile = .ok out ∧ buildPlan m out = .ok p ∧ (m.node "leaf").deploy = some d ∧
    d.mode = "ssh" ∧ out.lookup "leaf" = some cn ∧ cn.conditions.length = 2 ∧
    KeepsIdentity m cn id (shipAll id (fun _ => none) (p.filesFor "leaf")) := by
  have hcheck : (listedNetwork "lists/domestic.txt" "lists/cdn.txt").compilesTo (fun m out =>
      (buildPlan m out).toOption.isSome &&
      (m.node "leaf").deploy.any (·.mode == "ssh") &&
      (out.lookup "leaf").any fun cn => cn.conditions.length == 2 &&
        decide (BaseNamesDecide m cn (id : String → String))) = true := by
    decide +kernel
  obtain ⟨m, out, hvalid, hcompile, hcheck⟩ := compilesTo_iff.mp hcheck
  simp only [Bool.and_eq_true, Option.any_eq_true, beq_iff_eq, decide_eq_true_eq] at hcheck
  obtain ⟨⟨hplan, d, hdeploy, hssh⟩, cn, hcn, hlength, hnames⟩ := hcheck
  cases hp : buildPlan m out with
  | error e => simp [hp, Except.toOption] at hplan
  | ok p =>
    exact ⟨m, out, p, d, cn, hvalid, hcompile, hp, hdeploy, hssh, hcn, hlength,
      (keepsIdentity_iff hvalid hcompile hp hdeploy hssh hcn id _).mpr hnames⟩

/-- Of two files of one name, from two local directories, the node has one only: the condition
`cdn` reads the list of `domestic`. -/
theorem same_name_overwritten : ∃ m out p d cn c set,
    (listedNetwork "domestic/list.txt" "cdn/list.txt").validate = .ok m ∧
    m.compile = .ok out ∧ buildPlan m out = .ok p ∧ (m.node "leaf").deploy = some d ∧
    d.mode = "ssh" ∧ out.lookup "leaf" = some cn ∧ c ∈ cn.conditions ∧ c.name = "cdn" ∧
    c.dstIn = some set ∧ set.file = "/etc/dualnet/list.txt" ∧
    (m.condition "cdn").dstIn = some { file := "cdn/list.txt" } ∧
    shipAll id (fun _ => none) (p.filesFor "leaf") set.file = some "domestic/list.txt" ∧
    ¬ KeepsIdentity m cn id (shipAll id (fun _ => none) (p.filesFor "leaf")) := by
  have hcheck : (listedNetwork "domestic/list.txt" "cdn/list.txt").compilesTo (fun m out =>
      (buildPlan m out).toOption.any fun p =>
      (m.node "leaf").deploy.any (·.mode == "ssh") &&
      decide ((m.condition "cdn").dstIn = some { file := "cdn/list.txt" }) &&
      (out.lookup "leaf").any fun cn => cn.conditions.any fun c => c.name == "cdn" &&
        c.dstIn.any fun set => set.file == "/etc/dualnet/list.txt" &&
          shipAll id (fun _ => none) (p.filesFor "leaf") set.file ==
            some "domestic/list.txt") = true := by
    decide +kernel
  obtain ⟨m, out, hvalid, hcompile, hcheck⟩ := compilesTo_iff.mp hcheck
  obtain ⟨p, hp, hcheck⟩ := any_toOption.mp hcheck
  simp only [Bool.and_eq_true, Option.any_eq_true, List.any_eq_true, beq_iff_eq,
    decide_eq_true_eq] at hcheck
  obtain ⟨⟨⟨d, hdeploy, hssh⟩, hspec⟩, cn, hcn, c, hc, hname, set, hset, hfile, hread⟩ := hcheck
  refine ⟨m, out, p, d, cn, c, set, hvalid, hcompile, hp, hdeploy, hssh, hcn, hc, hname, hset,
    hfile, hspec, hread, fun hkeeps => ?_⟩
  obtain ⟨spec, hdeclared, hshipped⟩ := (hkeeps c hc).1 set hset (by simp [hfile])
  rw [hname, hspec] at hdeclared
  cases hdeclared
  rw [hread] at hshipped
  simp at hshipped

end Dualnet.Release
