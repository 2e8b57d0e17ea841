import Dualnet.Schema.Validate

/-!
# What a valid network satisfies

`valid_of_validate`: the facts about links, paths and branches that `validate` checks, in the
form the compilation results use them.
-/

namespace Dualnet.Schema

open Library Text
open Config (CondKind)

/-! ## Links -/

/-- What is checked of a link: its ends are userspace nodes and it has a direction. -/
structure LinkOk (n : Network) (l : Link) : Prop where
  named : l.name ≠ ""
  dialer : ∃ nd, n.nodes.lookup l.dialer = some nd ∧ nd.datapath ≠ "kernel"
  acceptor : ∃ nd, n.nodes.lookup l.acceptor = some nd ∧ nd.datapath ≠ "kernel"
  dataflow : l.dataflow = toAcceptor ∨ l.dataflow = toDialer

/-- What a valid link is. -/
theorem validateLink_eq_ok {n : Network} {links links' : FMap String Link} {l : Link}
    (h : validateLink n links l = .ok links') :
    links.lookup l.name = none ∧ LinkOk n l ∧ links' = links.insert l.name l := by
  simp only [validateLink, bind_eq_ok, reject_eq_ok, exists_const, pure_eq_ok] at h
  obtain ⟨hname, hnew, hdialer, hacceptor, hflow, -, -, -, hkernel, -, rfl⟩ := h
  rw [Bool.or_eq_false_iff] at hkernel
  refine ⟨by simpa using hnew, ⟨by simpa using hname, ?_, ?_, ?_⟩, rfl⟩
  · obtain ⟨nd, hnd⟩ := Option.isSome_iff_exists.mp
      (by simpa [← Option.not_isSome] using hdialer)
    exact ⟨nd, hnd, by simpa [Network.node, hnd] using hkernel.1⟩
  · obtain ⟨nd, hnd⟩ := Option.isSome_iff_exists.mp
      (by simpa [← Option.not_isSome] using hacceptor)
    exact ⟨nd, hnd, by simpa [Network.node, hnd] using hkernel.2⟩
  · simp only [Bool.and_eq_false_iff, bne_eq_false_iff_eq] at hflow
    exact hflow

/-- The link loop collects distinct links by name. -/
theorem validateLinks_eq_ok {n : Network} {l : List Link} {links links' : FMap String Link}
    (h : l.foldlM (validateLink n) links = .ok links') :
    (l.map Link.name).Nodup ∧ (∀ a ∈ l, links.lookup a.name = none) ∧ (∀ a ∈ l, LinkOk n a) ∧
      links' = l.foldl (fun m a => m.insert a.name a) links := by
  induction l generalizing links with
  | nil =>
    rw [List.foldlM_nil, pure_eq_ok] at h
    exact ⟨.nil, by simp, by simp, h.symm⟩
  | cons a l ih =>
    rw [List.foldlM_cons, bind_eq_ok] at h
    obtain ⟨next, hstep, hrest⟩ := h
    obtain ⟨hnew, hok, rfl⟩ := validateLink_eq_ok hstep
    obtain ⟨hnodup, hfresh, hoks, rfl⟩ := ih hrest
    have hfresh' : ∀ b ∈ l, b.name ≠ a.name ∧ links.lookup b.name = none := by
      intro b hb
      have hb := hfresh b hb
      rw [FMap.lookup_insert_ite] at hb
      split at hb
      · cases hb
      · exact ⟨‹_›, hb⟩
    refine ⟨?_, List.forall_mem_cons.mpr ⟨hnew, fun b hb => (hfresh' b hb).2⟩,
      List.forall_mem_cons.mpr ⟨hok, hoks⟩, rfl⟩
    rw [List.map_cons, List.nodup_cons]
    refine ⟨fun hmem => ?_, hnodup⟩
    obtain ⟨b, hb, hname⟩ := List.mem_map.mp hmem
    exact (hfresh' b hb).1 hname

/-! ## Paths -/

/-- What is checked of a userspace branch. -/
structure BranchOk (links : FMap String Link) (br : Branch) : Prop where
  egress : br.egress ≠ ""
  known : ∀ name ∈ br.up ++ br.down, ∃ l, links.lookup name = some l

/-- What a valid branch is. -/
theorem validateBranch_eq_ok {p : Path} {links : FMap String Link} {kinds : FMap String CondKind}
    {saw saw' : Bool} {br : Branch} (h : validateBranch p links kinds saw br = .ok saw') :
    BranchOk links br ∧ (saw = true → br.when = []) ∧ saw' = (saw || br.when.isEmpty) := by
  simp only [validateBranch, bind_eq_ok, reject_eq_ok, exists_const, pure_eq_ok] at h
  obtain ⟨hafter, _, -, hegress, _, hlinks, rfl⟩ := h
  refine ⟨⟨by simpa using hegress, fun name hname => ?_⟩, fun hsaw => ?_, rfl⟩
  · have hknown := forM_eq_ok.mp hlinks name hname
    exact Option.isSome_iff_exists.mp (by simpa [← Option.not_isSome] using hknown)
  · simpa [hsaw] using hafter

/-- The branch loop: a default branch has only default branches after it. -/
theorem validateBranches_eq_ok {p : Path} {links : FMap String Link}
    {kinds : FMap String CondKind} {l : List Branch} {saw saw' : Bool}
    (h : l.foldlM (validateBranch p links kinds) saw = .ok saw') :
    (∀ br ∈ l, BranchOk links br) ∧ (saw = true → ∀ br ∈ l, br.when = []) ∧
      l.Pairwise (fun a b => a.when = [] → b.when = []) ∧
      (saw' = true → saw = true ∨ ∃ br ∈ l, br.when = []) := by
  induction l generalizing saw with
  | nil =>
    rw [List.foldlM_nil, pure_eq_ok] at h
    exact ⟨by simp, by simp, .nil, fun h' => .inl (h ▸ h')⟩
  | cons br l ih =>
    rw [List.foldlM_cons, bind_eq_ok] at h
    obtain ⟨next, hstep, hrest⟩ := h
    obtain ⟨hok, hafter, rfl⟩ := validateBranch_eq_ok hstep
    obtain ⟨hoks, hdefaults, hpairs, hsaw⟩ := ih hrest
    refine ⟨List.forall_mem_cons.mpr ⟨hok, hoks⟩, fun hs => List.forall_mem_cons.mpr
      ⟨hafter hs, hdefaults (by simp [hs])⟩, List.pairwise_cons.mpr
      ⟨fun b hb hwhen => hdefaults (by simp [hwhen]) b hb, hpairs⟩, fun hs' => ?_⟩
    rcases hsaw hs' with hs | ⟨b, hb, hwhen⟩
    · rw [Bool.or_eq_true, List.isEmpty_iff] at hs
      exact hs.imp id fun hwhen => ⟨br, by simp, hwhen⟩
    · exact .inr ⟨b, by simp [hb], hwhen⟩

/-- What is checked of a userspace path. -/
structure PathOk (n : Network) (p : Path) : Prop where
  tun : ∃ t, (n.node p.node).originTun = some t
  branches : ∀ br ∈ p.routes, BranchOk n.linkMap br
  default_last : p.routes.Pairwise fun a b => a.when = [] → b.when = []
  default : ∃ br ∈ p.routes, br.when = []

/-- The header loop accepts one path for each node. -/
theorem validatePathHeaders_eq_ok {l : List Path} {st st' : List String × List String}
    (h : l.foldlM validatePathHeader st = .ok st') :
    (l.map Path.node).Nodup ∧ (∀ p ∈ l, p.node ≠ "") ∧ ∀ p ∈ l, p.node ∉ st.2 := by
  induction l generalizing st with
  | nil => simp
  | cons p l ih =>
    rw [List.foldlM_cons, bind_eq_ok] at h
    obtain ⟨next, hstep, hrest⟩ := h
    simp only [validatePathHeader, bind_eq_ok, reject_eq_ok, exists_const, pure_eq_ok] at hstep
    obtain ⟨hnamed, hnew, -, rfl⟩ := hstep
    obtain ⟨hnodup, hnames, hfresh⟩ := ih hrest
    refine ⟨?_, List.forall_mem_cons.mpr ⟨by simpa using hnamed, hnames⟩,
      List.forall_mem_cons.mpr ⟨by simpa using hnew, fun q hq hmem =>
        hfresh q hq (.tail _ hmem)⟩⟩
    rw [List.map_cons, List.nodup_cons]
    refine ⟨fun hmem => ?_, hnodup⟩
    obtain ⟨q, hq, hnode⟩ := List.mem_map.mp hmem
    exact hfresh q hq (hnode ▸ List.mem_cons_self)

/-- What a valid network satisfies. -/
structure Valid (n : Network) : Prop where
  link_names : (n.links.map Link.name).Nodup
  links : ∀ l ∈ n.links, LinkOk n l
  path_nodes : (n.paths.map Path.node).Nodup
  path_known : ∀ p ∈ n.paths, p.node ≠ "" ∧ ∃ nd, n.nodes.lookup p.node = some nd
  paths : ∀ p ∈ n.paths, (n.node p.node).datapath ≠ "kernel" → PathOk n p

/-- `validate` establishes them of the network it leaves behind. -/
theorem valid_of_validate {n m : Network} (h : n.validate = .ok m) : Valid m := by
  simp only [Network.validate, bind_eq_ok, reject_eq_ok, exists_const, pure_eq_ok] at h
  obtain ⟨-, _, -, _, -, links, hlinks, m, hinfer, ⟨names, nodes⟩, hheaders, kinds, -, _, hpaths,
    _, -, _, -, rfl⟩ := h
  obtain ⟨hnodup, -, hoks, rfl⟩ := validateLinks_eq_ok hlinks
  simp only [Network.inferGateways, bind_eq_ok, pure_eq_ok] at hinfer
  obtain ⟨paths, -, rfl⟩ := hinfer
  obtain ⟨hpathNodes, hnamed, -⟩ := validatePathHeaders_eq_ok hheaders
  have hpath : ∀ p ∈ paths, _ := forM_eq_ok.mp hpaths
  refine ⟨hnodup, fun l hl => ?_, hpathNodes, fun p hp => ⟨hnamed p hp, ?_⟩, fun p hp hkernel => ?_⟩
  · obtain ⟨hname, hdialer, hacceptor, hflow⟩ := hoks l hl
    exact ⟨hname, hdialer, hacceptor, hflow⟩
  · have hp := hpath p hp
    simp only [validatePath, bind_eq_ok, reject_eq_ok, exists_const] at hp
    exact Option.isSome_iff_exists.mp (by simpa [← Option.not_isSome] using hp.1)
  · have hp := hpath p hp
    simp only [validatePath, bind_eq_ok, reject_eq_ok, exists_const, beq_iff_eq, hkernel,
      if_false] at hp
    obtain ⟨-, htun, -, saw, hbranches, hsaw⟩ := hp
    obtain ⟨hok, -, hlast, hdefault⟩ := validateBranches_eq_ok hbranches
    have hsaw : saw = true := by simpa using hsaw
    refine ⟨?_, hok, hlast, (hdefault hsaw).resolve_left (by simp)⟩
    have hkernel' : ((Network.node { n with paths } p.node).datapath == "kernel") = false := by
      simpa using hkernel
    rw [hkernel'] at htun
    exact Option.isSome_iff_exists.mp (by simpa [← Option.not_isSome] using htun)

end Dualnet.Schema
