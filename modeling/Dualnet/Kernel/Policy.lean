import Dualnet.Kernel.Linux

/-!
# The forward policy

A forward policy is a list of branches read from the top: the first branch whose condition
holds of the packet gives the egress. Validation puts the branches into three bands, those on
the source, those on the destination and the default (`bands_of_validateKernel`).
-/

namespace Dualnet.Kernel

open Library Text Netip Config

/-! ## The policy -/

section Policy

variable (files : String → Except String String) (cfg : Node)

/-- The prefix a token of a set names. -/
def tokenPrefix (tok : String) : Except String Prefix :=
  if '/' ∈ tok.toList then parsePrefix tok
  else (parseAddr tok).map fun a => Prefix.host a.unmap

/-- The prefixes of a set. -/
def prefixes (s : IPSet) : Except String (List Prefix) := do
  (← rawTokens files s).mapM tokenPrefix

/-- Whether an address is in a set. -/
def inSet (s : IPSet) (ip : Addr) : Bool :=
  ((prefixes files s).toOption.getD []).any (·.contains ip)

/-- The condition of a name. -/
def condition (name : String) : Option Condition :=
  cfg.conditions.find? (·.name == name)

/-- Whether a condition holds of a packet. -/
def conditionHolds (src dst : Addr) (name : String) : Bool :=
  match condition cfg name with
  | none => false
  | some c => c.srcIn.all (inSet files · src) && c.dstIn.all (inSet files · dst)

/-- Whether a branch takes a packet. -/
def branchHolds (src dst : Addr) (f : Forward) : Bool :=
  f.when.all (conditionHolds files cfg src dst)

/-- The egress of a packet. -/
def policy (src dst : Addr) : Option String :=
  (cfg.forward.find? (branchHolds files cfg src dst)).map (·.egress)

/-- The set a branch tests by `field`. -/
def branchSet (field : Condition → Option IPSet) (f : Forward) : Option IPSet :=
  (f.when.head?.bind (condition cfg)).bind field

/-- The prefixes of that set. -/
def branchPrefixes (field : Condition → Option IPSet) (f : Forward) : List Prefix :=
  match branchSet cfg field f with
  | none => []
  | some s => (prefixes files s).toOption.getD []

/-- The source prefixes of a branch. -/
def legs (f : Forward) : List Prefix := branchPrefixes files cfg Condition.srcIn f

/-- A config that stays in the ranges the table and priority constants reserve, with IPv4
prefixes only. -/
structure InRange : Prop where
  egresses : cfg.egresses.size ≤ 50
  sources : (cfg.forward.flatMap (legs files cfg)).length ≤ 1000
  destinations :
    (cfg.forward.filter fun f => (branchSet cfg Condition.dstIn f).isSome).length ≤ 1000
  ipv4 : ∀ c ∈ cfg.conditions, ∀ s, c.srcIn = some s ∨ c.dstIn = some s →
    ∀ ps, prefixes files s = .ok ps → ∀ p ∈ ps, ∃ a, p.addr = .v4 a

end Policy

/-! ## What the sets hold -/

section Sets

variable {files : String → Except String String}

/-- A host prefix has no host bits. -/
theorem masked_host (a : Addr) : (Prefix.host a).masked = Prefix.host a := by
  cases a <;> simp [Prefix.host, Prefix.masked, maskBits]

/-- `normalizePrefix` writes the masked prefix of its token. -/
theorem normalizePrefix_eq (tok : String) :
    normalizePrefix tok = (tokenPrefix tok).map fun p => p.masked.toString := by
  unfold normalizePrefix tokenPrefix
  split
  · rfl
  · cases parseAddr tok <;> simp [Except.map, masked_host]

/-- `readPrefixes` writes the masked prefixes of its set. -/
theorem readPrefixes_eq (s : IPSet) :
    readPrefixes files s =
      (prefixes files s).map (List.map fun p => p.masked.toString) := by
  simp only [readPrefixes, prefixes, funext normalizePrefix_eq, mapM_map]
  cases rawTokens files s <;> rfl

end Sets

/-! ## What validation establishes -/

/-- A condition that tests the source, or the destination, by one set. -/
def HasKind (c : Condition) : CondKind → Prop
  | .src => c.srcIn.isSome ∧ c.dstIn = none
  | .dst => c.dstIn.isSome ∧ c.srcIn = none
  | .health => False

/-- The kinds collected from a list of conditions: the map knows exactly the names of the
list, each with the kind of the one condition of that name. -/
def Kinds (l : List Condition) (kinds : FMap String CondKind) : Prop :=
  (∀ c ∈ l, (kinds.lookup c.name).isSome) ∧
  ∀ name kind, kinds.lookup name = some kind → ∃ c, l.find? (·.name == name) = some c ∧
    (condByName l).lookup name = some c ∧ HasKind c kind

/-- The last of a name counts. -/
theorem condByName_append (l : List Condition) (c : Condition) :
    condByName (l ++ [c]) = (condByName l).insert c.name c := by
  simp [condByName, FMap.index]

/-- One condition check inverts to what it adds. -/
theorem validateKernelCondition_eq_ok {kinds kinds' : FMap String CondKind} {c : Condition}
    (h : validateKernelCondition kinds c = .ok kinds') :
    kinds.lookup c.name = none ∧ ∃ kind, HasKind c kind ∧ kinds' = kinds.insert c.name kind := by
  simp only [validateKernelCondition, validateCondName, bind_eq_ok, reject_eq_ok, exists_const]
    at h
  obtain ⟨⟨-, hnew⟩, -, h⟩ := h
  refine ⟨by simpa using hnew, ?_⟩
  split at h
  next set hdst hsrc =>
    simp only [bind_eq_ok, pure_eq_ok] at h
    obtain ⟨_, -, rfl⟩ := h
    exact ⟨.dst, ⟨by simp [hdst], hsrc⟩, rfl⟩
  next set hdst hsrc =>
    simp only [bind_eq_ok, pure_eq_ok] at h
    obtain ⟨_, -, rfl⟩ := h
    exact ⟨.src, ⟨by simp [hsrc], hdst⟩, rfl⟩
  next => cases h

/-- One more condition. -/
theorem Kinds.step {l : List Condition} {kinds kinds' : FMap String CondKind} {c : Condition}
    (hl : Kinds l kinds) (h : validateKernelCondition kinds c = .ok kinds') :
    Kinds (l ++ [c]) kinds' := by
  obtain ⟨hnew, kind, hkind, rfl⟩ := validateKernelCondition_eq_ok h
  constructor
  · intro d hd
    rw [FMap.lookup_insert_ite]
    rcases List.mem_append.mp hd with hd | hd
    · split <;> simp [hl.1 d hd]
    · simp [List.mem_singleton.mp hd]
  · intro name k hk
    rw [FMap.lookup_insert_ite] at hk
    rw [condByName_append, FMap.lookup_insert_ite, List.find?_append]
    split at hk
    case isTrue hname =>
      -- the new name: no earlier condition has it
      subst hname
      cases hk
      have hfresh : l.find? (·.name == c.name) = none := by
        rw [List.find?_eq_none]
        intro d hd hdc
        have hsome := hl.1 d hd
        rw [beq_iff_eq.mp hdc, hnew] at hsome
        cases hsome
      exact ⟨c, by simp [hfresh], by simp, hkind⟩
    case isFalse hname =>
      obtain ⟨d, hfind, hlookup, hd⟩ := hl.2 name k hk
      exact ⟨d, by simp [hfind], by simp [hname, hlookup], hd⟩

/-- The condition loop collects the kinds of all the conditions. -/
theorem kinds_of_validate {rest l : List Condition} {kinds kinds' : FMap String CondKind}
    (hl : Kinds l kinds) (h : rest.foldlM validateKernelCondition kinds = .ok kinds') :
    Kinds (l ++ rest) kinds' := by
  induction rest generalizing l kinds with
  | nil =>
    rw [List.foldlM_nil, pure_eq_ok] at h
    simpa [← h] using hl
  | cons c rest ih =>
    rw [List.foldlM_cons, bind_eq_ok] at h
    obtain ⟨next, hstep, hrest⟩ := h
    simpa using ih (hl.step hstep) hrest

/-- One branch check inverts to the branch's shape and the next phase. -/
theorem validateForwardBranch_eq_ok {egresses : FMap String Egress}
    {kinds : FMap String CondKind} {phase phase' : Phase} {n n' i : Nat} {f : Forward}
    (h : validateForwardBranch egresses kinds (phase, n) (f, i) = .ok (phase', n')) :
    (∃ e, egresses.lookup f.egress = some e) ∧
    ((f.when = [] ∧ phase' = .default ∧ n' = n + 1) ∨
      ∃ name kind, f.when = [name] ∧ phase ≠ .default ∧ n' = n ∧ kinds.lookup name = some kind ∧
        match kind with
        | .src => phase = .src ∧ phase' = .src
        | .dst => phase' = .dst
        | .health => phase' = phase) := by
  simp only [validateForwardBranch, bind_eq_ok, reject_eq_ok, exists_const] at h
  obtain ⟨-, hegress, h⟩ := h
  refine ⟨Option.isSome_iff_exists.mp (by simpa [← Option.not_isSome] using hegress), ?_⟩
  split at h
  next hwhen =>
    simp only [pure_eq_ok, Prod.mk.injEq] at h
    exact .inl ⟨hwhen, h.1.symm, h.2.symm⟩
  next name more hwhen =>
    simp only [bind_eq_ok, reject_eq_ok, exists_const] at h
    obtain ⟨hphase, hmore, h⟩ := h
    obtain rfl : more = [] := by simpa using hmore
    have hphase : phase ≠ .default := by simpa using hphase
    split at h
    next => cases h
    next hkind =>
      simp only [bind_eq_ok, reject_eq_ok, exists_const, pure_eq_ok, Prod.mk.injEq] at h
      obtain ⟨hsrc, rfl, rfl⟩ := h
      have hsrc : phase = .src := by simpa using hsrc
      exact .inr ⟨name, .src, hwhen, hphase, rfl, hkind, hsrc, hsrc⟩
    next hkind =>
      simp only [pure_eq_ok, Prod.mk.injEq] at h
      exact .inr ⟨name, .dst, hwhen, hphase, h.2.symm, hkind, h.1.symm⟩
    next hkind =>
      simp only [pure_eq_ok, Prod.mk.injEq] at h
      exact .inr ⟨name, .health, hwhen, hphase, h.2.symm, hkind, h.1.symm⟩

/-- A branch on one condition of the given kind. -/
def OfKind (kinds : FMap String CondKind) (kind : CondKind) (f : Forward) : Prop :=
  ∃ name, f.when = [name] ∧ kinds.lookup name = some kind

/-- The branch loop accepts source branches, then destination branches, then defaults; a
phase that has passed a band admits no further branch of it. -/
theorem bands_of_validate {egresses : FMap String Egress} {kinds : FMap String CondKind}
    (hhealth : ∀ name, kinds.lookup name ≠ some .health) {l : List Forward} {i n n' : Nat}
    {phase phase' : Phase}
    (h : (l.zipIdx i).foldlM (validateForwardBranch egresses kinds) (phase, n) =
      .ok (phase', n')) :
    (∀ f ∈ l, ∃ e, egresses.lookup f.egress = some e) ∧
    ∃ srcs dsts lasts, l = srcs ++ dsts ++ lasts ∧ (∀ f ∈ srcs, OfKind kinds .src f) ∧
      (∀ f ∈ dsts, OfKind kinds .dst f) ∧ (∀ f ∈ lasts, f.when = []) ∧
      (phase ≠ .src → srcs = []) ∧ (phase = .default → dsts = []) ∧ n' = n + lasts.length := by
  induction l generalizing i phase n with
  | nil =>
    rw [List.zipIdx_nil, List.foldlM_nil, pure_eq_ok, Prod.mk.injEq] at h
    exact ⟨by simp, [], [], [], by simp [h.2]⟩
  | cons f l ih =>
    rw [List.zipIdx_cons, List.foldlM_cons, bind_eq_ok] at h
    obtain ⟨⟨next, m⟩, hstep, hrest⟩ := h
    obtain ⟨hegress, hshape⟩ := validateForwardBranch_eq_ok hstep
    obtain ⟨hegresses, srcs, dsts, lasts, rfl, hsrcs, hdsts, hlasts, hsrc, hdst, hn⟩ := ih hrest
    refine ⟨List.forall_mem_cons.mpr ⟨hegress, hegresses⟩, ?_⟩
    rcases hshape with ⟨hwhen, rfl, rfl⟩ | ⟨name, kind, hwhen, hphase, rfl, hkind, hnext⟩
    · obtain rfl := hsrc (by decide)
      obtain rfl := hdst rfl
      refine ⟨[], [], f :: lasts, by simp, by simp, by simp, ?_, by simp, by simp, ?_⟩
      · exact List.forall_mem_cons.mpr ⟨hwhen, hlasts⟩
      · rw [hn, List.length_cons]
        omega
    · cases kind with
      | src =>
        obtain ⟨rfl, rfl⟩ := hnext
        exact ⟨f :: srcs, dsts, lasts, by simp,
          List.forall_mem_cons.mpr ⟨⟨name, hwhen, hkind⟩, hsrcs⟩, hdsts, hlasts, by simp,
          by simp, hn⟩
      | dst =>
        subst hnext
        obtain rfl := hsrc (by decide)
        exact ⟨[], f :: dsts, lasts, by simp, by simp,
          List.forall_mem_cons.mpr ⟨⟨name, hwhen, hkind⟩, hdsts⟩, hlasts, by simp,
          fun hdefault => absurd hdefault hphase, hn⟩
      | health => exact absurd hkind (hhealth name)

/-- A branch whose one condition tests `field` by the set `s`, and nothing else. -/
structure Tests (cfg : Node) (field other : Condition → Option IPSet) (f : Forward)
    (s : IPSet) : Prop where
  named : ∃ name c, f.when = [name] ∧ condition cfg name = some c ∧
    (condByName cfg.conditions).lookup name = some c ∧ field c = some s ∧ other c = none

/-- A forward policy in its three bands. -/
structure Bands (cfg : Node) where
  srcs : List Forward
  dsts : List Forward
  last : Forward
  forward_eq : cfg.forward = srcs ++ dsts ++ [last]
  src : ∀ f ∈ srcs, ∃ s, Tests cfg Condition.srcIn Condition.dstIn f s
  dst : ∀ f ∈ dsts, ∃ s, Tests cfg Condition.dstIn Condition.srcIn f s
  last_when : last.when = []
  known : ∀ f ∈ cfg.forward, f.egress ∈ cfg.egresses.sortedKeys

/-- A validated kernel config has its forward policy in bands. -/
theorem bands_of_validateKernel {cfg : Node} (h : cfg.validateKernel = .ok ()) :
    Nonempty (Bands cfg) := by
  simp only [Node.validateKernel, Node.validateForward, bind_eq_ok, reject_eq_ok, exists_const]
    at h
  obtain ⟨-, -, -, _, -, kinds, hkinds, -, ⟨phase, n⟩, hforward, hn⟩ := h
  have hkinds : Kinds cfg.conditions kinds := by
    have hnil : Kinds [] (∅ : FMap String CondKind) := ⟨by simp, by simp⟩
    simpa using kinds_of_validate hnil hkinds
  have hhealth : ∀ name, kinds.lookup name ≠ some .health := fun name hname => by
    obtain ⟨c, -, -, hc⟩ := hkinds.2 name _ hname
    exact hc
  obtain ⟨hknown, srcs, dsts, lasts, heq, hsrcs, hdsts, hlasts, -, -, hcount⟩ :=
    bands_of_validate hhealth hforward
  have hone : n = 1 := by simpa using hn
  obtain ⟨last, rfl⟩ := List.length_eq_one_iff.mp (by omega : lasts.length = 1)
  refine ⟨srcs, dsts, last, heq, ?_, ?_, hlasts last (by simp), fun f hf =>
    FMap.mem_sortedKeys.mpr (hknown f hf)⟩
  · intro f hf
    obtain ⟨name, hwhen, hname⟩ := hsrcs f hf
    obtain ⟨c, hfind, hlookup, hsome, hnone⟩ := hkinds.2 name _ hname
    obtain ⟨s, hs⟩ := Option.isSome_iff_exists.mp hsome
    exact ⟨s, ⟨name, c, hwhen, hfind, hlookup, hs, hnone⟩⟩
  · intro f hf
    obtain ⟨name, hwhen, hname⟩ := hdsts f hf
    obtain ⟨c, hfind, hlookup, hsome, hnone⟩ := hkinds.2 name _ hname
    obtain ⟨s, hs⟩ := Option.isSome_iff_exists.mp hsome
    exact ⟨s, ⟨name, c, hwhen, hfind, hlookup, hs, hnone⟩⟩

end Dualnet.Kernel
