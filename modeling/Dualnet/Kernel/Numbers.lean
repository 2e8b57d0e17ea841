import Dualnet.Kernel.Correctness

/-!
# Table numbers and rule priorities

`lower` numbers tables and rules by counters that start at fixed bases and have no upper
bound. `numbersApart_iff` says for which policies the ranges stay apart: the egress tables
run into the geo tables after 50 egresses, the rules of the source prefixes into those of the
destination branches after 1000 prefixes, and the rules of the destination branches into the
default rule after 1000 branches.
-/

namespace Dualnet.Kernel

open Library Text Netip Config

/-- The priority a rule command gives. -/
def rulePriority (argv : Argv) : Option Nat := argv[4]?.bind fun arg => decimal? arg.toList

/-- The rules of the branches: those after the rule on the main table. -/
def Plan.branchRules (p : Plan) : List Argv := p.rules.drop 1

/-- The rules of the `src_in` branches: those that match a source prefix. -/
def Plan.srcRules (p : Plan) : List Argv := p.branchRules.filter fun argv => argv[5]? = some "from"

/-- The rules that match every source. -/
def Plan.lookupRules (p : Plan) : List Argv :=
  p.branchRules.filter fun argv => argv[5]? = some "lookup"

/-- The rules of the `dst_in` branches: those before the default rule. -/
def Plan.dstRules (p : Plan) : List Argv := p.lookupRules.dropLast

/-- The default rule. -/
def Plan.defaultRule (p : Plan) : Option Argv := p.lookupRules.getLast?

/-- One rule command gives a smaller priority than another. -/
def Precedes (a b : Argv) : Prop :=
  ∃ i j, rulePriority a = some i ∧ rulePriority b = some j ∧ i < j

/-- The numbers of a plan do not collide. -/
structure NumbersApart (p : Plan) : Prop where
  tables : p.tables.Nodup
  src_dst : ∀ a ∈ p.srcRules, ∀ b ∈ p.dstRules, Precedes a b
  dst_default : ∀ a ∈ p.dstRules, ∀ b ∈ p.defaultRule, Precedes a b
  src_default : ∀ a ∈ p.srcRules, ∀ b ∈ p.defaultRule, Precedes a b

/-! ## The numbers in closed form -/

/-- The priority of a source rule. -/
theorem rulePriority_ruleFrom (prio : Nat) (cidr : String) (table : Nat) :
    rulePriority (ruleFrom prio cidr table) = some prio :=
  decimal_itoa prio

/-- The priority of another rule. -/
theorem rulePriority_ruleLookup (prio table : Nat) :
    rulePriority (ruleLookup prio "" table) = some prio :=
  decimal_itoa prio

/-- The positions of a list from a base on. -/
theorem map_add_zipIdx {α : Type} (l : List α) (base : Nat) :
    (l.zipIdx.map fun e => base + e.2) = List.range' base l.length := by
  rw [List.range'_eq_map_range, List.range_eq_range', ← List.zipIdx_map_snd, List.map_map]
  rfl

/-- Rules are ordered by priority. -/
theorem precedes_iff {a b : Argv} {i j : Nat} (ha : rulePriority a = some i)
    (hb : rulePriority b = some j) : Precedes a b ↔ i < j := by
  simp [Precedes, ha, hb]

section Lowered

variable {files : String → Except String String} {cfg : Node} {wans : String → Wan}
  {b : Bands cfg} {plan : Plan}

/-- The source rules of a lowered plan. -/
theorem Lowered.srcRules_eq (h : Lowered files cfg wans b plan) :
    plan.srcRules = ((srcLegs files cfg b.srcs).zipIdx prioSrcBase).map
      (legRule fun e => tableEgressBase + cfg.egresses.sortedKeys.idxOf e) := by
  simp [Plan.srcRules, Plan.branchRules, h.rules, List.filter_map, Function.comp_def, legRule,
    ruleFrom, ruleLookup]

/-- Its rules for every source. -/
theorem Lowered.lookupRules_eq (h : Lowered files cfg wans b plan) :
    plan.lookupRules =
      (b.dsts.zipIdx.map fun e => ruleLookup (prioDstBase + e.2) "" (tableGeoBase + e.2)) ++
        [ruleLookup prioDefault "" (tableEgressBase + cfg.egresses.sortedKeys.idxOf b.last.egress)] := by
  simp [Plan.lookupRules, Plan.branchRules, h.rules, List.filter_map, Function.comp_def, legRule,
    ruleFrom, ruleLookup]

/-- Its destination rules. -/
theorem Lowered.dstRules_eq (h : Lowered files cfg wans b plan) :
    plan.dstRules =
      b.dsts.zipIdx.map fun e => ruleLookup (prioDstBase + e.2) "" (tableGeoBase + e.2) := by
  rw [Plan.dstRules, h.lookupRules_eq, List.dropLast_concat]

/-- Its last rule. -/
theorem Lowered.defaultRule_eq (h : Lowered files cfg wans b plan) :
    plan.defaultRule =
      some (ruleLookup prioDefault "" (tableEgressBase + cfg.egresses.sortedKeys.idxOf b.last.egress)) := by
  rw [Plan.defaultRule, h.lookupRules_eq, List.getLast?_concat]

/-- The priorities of the source rules. -/
theorem Lowered.srcRules_priority (h : Lowered files cfg wans b plan) :
    plan.srcRules.map rulePriority =
      (List.range' prioSrcBase (srcLegs files cfg b.srcs).length).map some := by
  rw [h.srcRules_eq, List.map_map, ← List.zipIdx_map_snd, List.map_map]
  exact List.map_congr_left fun e _ => rulePriority_ruleFrom _ _ _

/-- The priorities of the destination rules. -/
theorem Lowered.dstRules_priority (h : Lowered files cfg wans b plan) :
    plan.dstRules.map rulePriority = (List.range' prioDstBase b.dsts.length).map some := by
  rw [h.dstRules_eq, List.map_map, ← map_add_zipIdx, List.map_map]
  exact List.map_congr_left fun e _ => rulePriority_ruleLookup _ _

/-- The priority of the default rule. -/
theorem Lowered.defaultRule_priority (h : Lowered files cfg wans b plan) :
    plan.defaultRule.toList.map rulePriority = (List.range' prioDefault 1).map some := by
  rw [h.defaultRule_eq]
  exact congrArg (fun p => [p]) (rulePriority_ruleLookup _ _)

/-- The tables. -/
theorem Lowered.tables_eq (h : Lowered files cfg wans b plan) :
    plan.tables = List.range' tableEgressBase cfg.egresses.size ++
      List.range' tableGeoBase b.dsts.length := by
  have hsize : cfg.egresses.sortedKeys.length = cfg.egresses.size := List.length_insertionSort _ _
  rw [h.tables, map_add_zipIdx, map_add_zipIdx, hsize]

end Lowered

/-- Two ranges of priorities are in order unless one is empty or they overlap. -/
theorem forall_precedes_iff {l l' : List Argv} {i m j n : Nat}
    (hl : l.map rulePriority = (List.range' i m).map some)
    (hl' : l'.map rulePriority = (List.range' j n).map some) :
    (∀ a ∈ l, ∀ b ∈ l', Precedes a b) ↔ m = 0 ∨ n = 0 ∨ i + m ≤ j := by
  have hmem : ∀ {l : List Argv} {i m : Nat}, l.map rulePriority = (List.range' i m).map some →
      (∀ a ∈ l, ∃ k, rulePriority a = some (i + k) ∧ k < m) ∧
      ∀ k < m, ∃ a ∈ l, rulePriority a = some (i + k) := by
    intro l i m hl
    constructor
    · intro a ha
      have hprio : rulePriority a ∈ (List.range' i m).map some := hl ▸ List.mem_map_of_mem ha
      obtain ⟨p, hp, heq⟩ := List.mem_map.mp hprio
      obtain ⟨k, hk, rfl⟩ := List.mem_range'.mp hp
      exact ⟨k, by rw [← heq, Nat.one_mul], hk⟩
    · intro k hk
      have hprio : some (i + k) ∈ l.map rulePriority := by
        rw [hl]
        exact List.mem_map_of_mem (List.mem_range'.mpr ⟨k, hk, by rw [Nat.one_mul]⟩)
      exact List.mem_map.mp hprio
  obtain ⟨hl, hlm⟩ := hmem hl
  obtain ⟨hl', hln⟩ := hmem hl'
  constructor
  · intro hall
    -- the last priority of the one range against the first of the other
    by_contra hover
    obtain ⟨a, ha, hpa⟩ := hlm (m - 1) (by omega)
    obtain ⟨b, hb, hpb⟩ := hln 0 (by omega)
    have hlt := (precedes_iff hpa hpb).mp (hall a ha b hb)
    omega
  · intro hranges a ha b hb
    obtain ⟨k, hpa, hk⟩ := hl a ha
    obtain ⟨k', hpb, hk'⟩ := hl' b hb
    rw [precedes_iff hpa hpb]
    omega

/-- Two ranges of tables share no number unless they overlap. -/
theorem nodup_ranges_iff {i m j n : Nat} (h : i ≤ j) :
    (List.range' i m ++ List.range' j n).Nodup ↔ n = 0 ∨ i + m ≤ j := by
  rw [List.nodup_append]
  constructor
  · rintro ⟨-, -, hdisjoint⟩
    by_contra hover
    refine hdisjoint j ?_ j ?_ rfl
    · exact List.mem_range'.mpr ⟨j - i, by omega, by omega⟩
    · exact List.mem_range'.mpr ⟨0, by omega, by omega⟩
  · intro hapart
    refine ⟨List.nodup_range', List.nodup_range', ?_⟩
    intro a ha b hb heq
    obtain ⟨k, hk, rfl⟩ := List.mem_range'.mp ha
    obtain ⟨k', hk', hb⟩ := List.mem_range'.mp hb
    omega

/-! ## The ranges of a policy -/

section Ranges

variable {files : String → Except String String} {cfg : Node} {wans : String → Wan}

/-- The number of source prefixes the policy has. -/
def sourceCount (files : String → Except String String) (cfg : Node) : Nat :=
  (cfg.forward.flatMap (legs files cfg)).length

/-- The number of destination branches the policy has. -/
def destinationCount (cfg : Node) : Nat :=
  (cfg.forward.filter fun f => (branchSet cfg Condition.dstIn f).isSome).length

/-- A branch tests one side only. -/
theorem Tests.branchSet_other {field other : Condition → Option IPSet} {f : Forward} {s : IPSet}
    (h : Tests cfg field other f s) : branchSet cfg other f = none := by
  obtain ⟨name, c, hwhen, hcond, -, -, hother⟩ := h.named
  simp [branchSet, hwhen, hcond, hother]

/-- The default branch tests none. -/
theorem Bands.branchSet_last (b : Bands cfg) (field : Condition → Option IPSet) :
    branchSet cfg field b.last = none := by
  simp [branchSet, b.last_when]

/-- Only the source branches have source prefixes. -/
theorem Bands.sourceCount_eq (b : Bands cfg) :
    (srcLegs files cfg b.srcs).length = sourceCount files cfg := by
  have hdsts : b.dsts.flatMap (legs files cfg) = [] := by
    rw [List.flatMap_eq_nil_iff]
    intro f hf
    obtain ⟨s, hs⟩ := b.dst f hf
    rw [legs, branchPrefixes, hs.branchSet_other]
  have hlast : legs files cfg b.last = [] := by
    rw [legs, branchPrefixes, b.branchSet_last]
  simp [sourceCount, b.forward_eq, hdsts, hlast, srcLegs, List.length_flatMap]

/-- The destination branches are those of the second band. -/
theorem Bands.destinationCount_eq (b : Bands cfg) : b.dsts.length = destinationCount cfg := by
  have hsrcs : b.srcs.filter (fun f => (branchSet cfg Condition.dstIn f).isSome) = [] := by
    rw [List.filter_eq_nil_iff]
    intro f hf
    obtain ⟨s, hs⟩ := b.src f hf
    simp [hs.branchSet_other]
  have hdsts : b.dsts.filter (fun f => (branchSet cfg Condition.dstIn f).isSome) = b.dsts := by
    rw [List.filter_eq_self]
    intro f hf
    obtain ⟨s, hs⟩ := b.dst f hf
    simp [hs.branchSet_eq]
  simp [destinationCount, b.forward_eq, List.filter_append, hsrcs, hdsts, b.branchSet_last]

/-- The numbers of a validated policy stay apart exactly when its counters stay inside the
ranges the bases leave them. -/
theorem numbersApart_iff (hvalid : cfg.validateKernel = .ok ()) {plan : Plan}
    (hlower : lower files cfg wans = .ok plan) :
    NumbersApart plan ↔
      (0 < destinationCount cfg → cfg.egresses.size ≤ 50 ∧ sourceCount files cfg ≤ 1000) ∧
        destinationCount cfg ≤ 1000 ∧ sourceCount files cfg ≤ 2000 := by
  obtain ⟨b⟩ := bands_of_validateKernel hvalid
  have h := lower_eq_ok b hlower
  have htables := nodup_ranges_iff (i := tableEgressBase) (m := cfg.egresses.size)
    (j := tableGeoBase) (n := b.dsts.length) (by decide)
  rw [← h.tables_eq] at htables
  have hsrcDst := forall_precedes_iff h.srcRules_priority h.dstRules_priority
  have hdstDefault := forall_precedes_iff h.dstRules_priority h.defaultRule_priority
  have hsrcDefault := forall_precedes_iff h.srcRules_priority h.defaultRule_priority
  simp only [Option.mem_toList] at hdstDefault hsrcDefault
  rw [b.sourceCount_eq] at hsrcDst hsrcDefault
  rw [b.destinationCount_eq] at htables hsrcDst hdstDefault
  simp only [tableEgressBase, tableGeoBase, prioSrcBase, prioDstBase, prioDefault]
    at htables hsrcDst hdstDefault hsrcDefault
  have hfields : NumbersApart plan ↔ plan.tables.Nodup ∧
      (∀ a ∈ plan.srcRules, ∀ b ∈ plan.dstRules, Precedes a b) ∧
      (∀ a ∈ plan.dstRules, ∀ b, plan.defaultRule = some b → Precedes a b) ∧
      ∀ a ∈ plan.srcRules, ∀ b, plan.defaultRule = some b → Precedes a b :=
    ⟨fun h => ⟨h.tables, h.src_dst, h.dst_default, h.src_default⟩,
      fun h => ⟨h.1, h.2.1, h.2.2.1, h.2.2.2⟩⟩
  rw [hfields, htables, hsrcDst, hdstDefault, hsrcDefault]
  omega

end Ranges

/-- The home router stays far inside the ranges. -/
theorem numbersApart_home :
    homeRouter.validateKernel = .ok () ∧ lower noFiles homeRouter homeWans = .ok homePlan ∧
      NumbersApart homePlan := by
  have hvalid : homeRouter.validateKernel = .ok () := by decide
  have hlower : lower noFiles homeRouter homeWans = .ok homePlan := by decide +kernel
  exact ⟨hvalid, hlower, (numbersApart_iff hvalid hlower).mpr (by decide +kernel)⟩

/-- A router with 51 uplinks, each of its own device, and one domestic set. -/
def manyUplinks : Node where
  psk := ""
  mtu := 1360
  subnet := "10.9.0.0/24"
  datapath := "kernel"
  egresses := (List.range 51).foldr
    (fun i m => m.insert ("up" ++ itoa i) { mode := "kernel", extIface := "eth" ++ itoa i }) ∅
  conditions := [{ name := "domestic", dstIn := some { list := ["5.0.0.0/8"] } }]
  forward := [⟨["domestic"], "up0"⟩, ⟨[], "up1"⟩]

def manyWans (name : String) : Wan := ⟨"eth-" ++ name, "", none⟩

def manyPlan : Plan := (lower noFiles manyUplinks manyWans).toOption.getD {}

/-- The last egress table of such a router is also its first geo table. -/
theorem uplink_table_collides :
    manyUplinks.validateKernel = .ok () ∧ lower noFiles manyUplinks manyWans = .ok manyPlan ∧
      ¬ NumbersApart manyPlan := by
  have hcheck : (lower noFiles manyUplinks manyWans).toOption.any
      (fun plan => !decide plan.tables.Nodup) = true := by
    decide +kernel
  obtain ⟨plan, hplan, htables⟩ := any_toOption.mp hcheck
  obtain rfl : plan = manyPlan := by
    rw [manyPlan, hplan]
    rfl
  refine ⟨by decide +kernel, hplan, fun h => ?_⟩
  simp [h.tables] at htables

end Dualnet.Kernel
