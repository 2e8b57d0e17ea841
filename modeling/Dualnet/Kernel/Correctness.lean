import Dualnet.Kernel.Emitted
import Dualnet.Library.Search

/-!
# The lowered state implements the forward policy

`lower_implements_forward`: a packet no main route takes leaves, under the rules and routes
`lower` emits, by the device and gateway of the egress the policy gives it. Each band has its
own range of rule priorities, so the rules are consulted in the order of the branches they
come from; an egress table holds one default route, and a geo table one next-hop.
-/

namespace Dualnet.Kernel

open Library Text Netip Config

/-! ## The programmed rules and routes -/

variable {files : String → Except String String} {cfg : Node} {wans : String → Wan}

/-- The rule of a source prefix. -/
def legIPRule (table : String → Nat) (e : (String × Prefix) × Nat) : IPRule :=
  { prio := e.2, src := some e.1.2.masked, table := table e.1.1 }

/-- The rule of a destination branch. -/
def geoIPRule (e : Forward × Nat) : IPRule :=
  { prio := prioDstBase + e.2, table := tableGeoBase + e.2 }

/-- The table of an egress. -/
def egressTable (cfg : Node) (e : String) : Nat :=
  tableEgressBase + cfg.egresses.sortedKeys.idxOf e

/-- The rules a lowered policy programs. -/
def programmedRules (files : String → Except String String) (cfg : Node) (b : Bands cfg) :
    List IPRule :=
  { prio := prioMain, suppress := some 0 } ::
    (((srcLegs files cfg b.srcs).zipIdx prioSrcBase).map (legIPRule (egressTable cfg)) ++
      b.dsts.zipIdx.map geoIPRule ++ [{ prio := prioDefault, table := egressTable cfg b.last.egress }])

/-- The default route of an egress. -/
def egressRoute (wans : String → Wan) (e : String × Nat) : IPRoute :=
  ⟨anywhere, (wans e.1).gw, (wans e.1).dev, tableEgressBase + e.2⟩

/-- The routes of a geo table. -/
def geoRoutes (files : String → Except String String) (cfg : Node) (wans : String → Wan)
    (e : Forward × Nat) : List IPRoute :=
  (branchPrefixes files cfg Condition.dstIn e.1).map fun p =>
    ⟨p.masked, (wans e.1.egress).gw, (wans e.1.egress).dev, tableGeoBase + e.2⟩

section Range

variable (hrange : InRange files cfg) (b : Bands cfg)

include hrange

/-- At most 50 egresses. -/
theorem length_sortedKeys_le : cfg.egresses.sortedKeys.length ≤ 50 := by
  simpa [FMap.sortedKeys, FMap.size] using hrange.egresses

/-- Tables of egresses can be printed. -/
theorem egressTable_lt (e : String) : egressTable cfg e < 2 ^ 63 := by
  have hidx : cfg.egresses.sortedKeys.idxOf e ≤ cfg.egresses.sortedKeys.length :=
    List.idxOf_le_length
  have hlength := length_sortedKeys_le hrange
  simp only [egressTable, tableEgressBase]
  omega

/-- At most 1000 source legs. -/
theorem length_srcLegs_le : (srcLegs files cfg b.srcs).length ≤ 1000 := by
  have hsources := hrange.sources
  have hlength : (srcLegs files cfg b.srcs).length = (b.srcs.flatMap (legs files cfg)).length := by
    simp [srcLegs, List.length_flatMap]
  rw [b.forward_eq, List.append_assoc, List.flatMap_append, List.length_append] at hsources
  omega

/-- At most 1000 destination branches. -/
theorem length_dsts_le : b.dsts.length ≤ 1000 := by
  have hdestinations := hrange.destinations
  have hall : b.dsts.filter (fun f => (branchSet cfg Condition.dstIn f).isSome) = b.dsts := by
    rw [List.filter_eq_self]
    intro f hf
    obtain ⟨s, hs⟩ := b.dst f hf
    simp [hs.branchSet_eq]
  rw [b.forward_eq, List.filter_append, List.filter_append, hall, List.length_append,
    List.length_append] at hdestinations
  omega

/-- The prefixes a branch tests are IPv4 prefixes. -/
theorem branchPrefixes_ipv4 {field other : Condition → Option IPSet} {f : Forward} {s : IPSet}
    (hf : Tests cfg field other f s)
    (hfield : ∀ c s, field c = some s → c.srcIn = some s ∨ c.dstIn = some s)
    {p : Prefix} (hp : p ∈ branchPrefixes files cfg field f) : ∃ a, p.masked.addr = .v4 a := by
  obtain ⟨name, c, -, hcond, -, hs, -⟩ := hf.named
  rw [branchPrefixes, hf.branchSet_eq] at hp
  cases hps : prefixes files s with
  | error e => simp [hps, Except.toOption] at hp
  | ok ps =>
    obtain ⟨a, ha⟩ := hrange.ipv4 c (List.mem_of_find?_eq_some hcond) s (hfield c s hs) ps hps p
      (by simpa [hps, Except.toOption] using hp)
    obtain ⟨addr, bits, hbits⟩ := p
    cases ha
    exact ⟨_, rfl⟩

/-- The rule commands program the rules of the bands. -/
theorem parseRule_rules {plan : Plan} (hlow : Lowered files cfg wans b plan) :
    plan.rules.mapM parseRule = .ok (programmedRules files cfg b) := by
  have hlegs : (((srcLegs files cfg b.srcs).zipIdx prioSrcBase).map
      (legRule (egressTable cfg))).mapM parseRule =
      .ok (((srcLegs files cfg b.srcs).zipIdx prioSrcBase).map (legIPRule (egressTable cfg))) := by
    refine mapM_map_ok fun e he => ?_
    obtain ⟨f, hf, p, hp, heq⟩ : ∃ f ∈ b.srcs, ∃ p ∈ legs files cfg f, (f.egress, p) = e.1 := by
      simpa [srcLegs] using List.fst_mem_of_mem_zipIdx he
    obtain ⟨s, hs⟩ := b.src f hf
    obtain ⟨a, ha⟩ := branchPrefixes_ipv4 hrange hs (fun _ _ => .inl) hp
    have hprio := List.snd_lt_of_mem_zipIdx he
    have hlength := length_srcLegs_le hrange b
    obtain ⟨leg, prio⟩ := e
    cases heq
    refine parseRule_from ha ?_ (egressTable_lt hrange _)
    simp only [prioSrcBase] at hprio
    omega
  have hgeo : (b.dsts.zipIdx.map fun e =>
      ruleLookup (prioDstBase + e.2) "" (tableGeoBase + e.2)).mapM parseRule =
      .ok (b.dsts.zipIdx.map geoIPRule) := by
    refine mapM_map_ok fun e he => ?_
    have hidx := List.snd_lt_of_mem_zipIdx he
    have hlength := length_dsts_le hrange b
    apply parseRule_lookup
    · simp only [prioDstBase]
      omega
    · simp only [tableGeoBase]
      omega
  have hlast : parseRule (ruleLookup prioDefault "" (egressTable cfg b.last.egress)) =
      .ok { prio := prioDefault, table := egressTable cfg b.last.egress } :=
    parseRule_lookup (by decide) (egressTable_lt hrange _)
  rw [hlow.rules]
  change List.mapM parseRule (ruleMainSuppress prioMain :: (_ ++ _ ++ [_])) = _
  rw [List.mapM_cons, parseRule_mainSuppress (by decide), List.mapM_append, List.mapM_append]
  rw [show (fun e => tableEgressBase + cfg.egresses.sortedKeys.idxOf e) = egressTable cfg from rfl,
    hlegs, hgeo, List.mapM_cons, ← egressTable, hlast]
  rfl

/-- Loading a geo set programs its prefixes, all with the branch's next-hop. -/
theorem loadGeo_eq_ok {e : Forward × Nat} (he : e ∈ b.dsts.zipIdx) {rs : List IPRoute}
    (h : loadGeo files (geoOf cfg wans e) = .ok rs) : rs = geoRoutes files cfg wans e := by
  obtain ⟨s, hs⟩ := b.dst e.1 (List.fst_mem_of_mem_zipIdx he)
  have hidx := List.snd_lt_of_mem_zipIdx he
  have hlength := length_dsts_le hrange b
  simp only [loadGeo, geoOf, hs.branchSet_eq, Option.getD_some, readPrefixes_eq, bind_eq_ok] at h
  obtain ⟨texts, htexts, h⟩ := h
  cases hps : prefixes files s with
  | error e => simp [hps, Except.map] at htexts
  | ok ps =>
    obtain rfl : ps.map (fun p => p.masked.toString) = texts := by
      simpa [hps, Except.map] using htexts
    have hprefixes : branchPrefixes files cfg Condition.dstIn e.1 = ps := by
      simp [branchPrefixes, hs.branchSet_eq, hps, Except.toOption]
    rw [geoRoutes, hprefixes]
    refine Except.ok.inj (h.symm.trans (mapM_map_ok fun p hp => ?_))
    obtain ⟨a, ha⟩ := branchPrefixes_ipv4 hrange hs (fun _ _ => .inr) (hprefixes ▸ hp)
    refine parseRoute_geo ha ?_
    simp only [tableGeoBase]
    omega

/-- What an applied plan leaves in its own tables: one default route for each egress and the
prefixes of each geo set. -/
structure Programmed (files : String → Except String String) (cfg : Node) (wans : String → Wan)
    (b : Bands cfg) (k : Linux) : Prop where
  rules : k.rules = programmedRules files cfg b
  egress_mem : ∀ e ∈ cfg.egresses.sortedKeys.zipIdx, egressRoute wans e ∈ k.routes
  geo_mem : ∀ e ∈ b.dsts.zipIdx, ∀ r ∈ geoRoutes files cfg wans e, r ∈ k.routes
  own : ∀ r ∈ k.routes,
    r.table ∈ (cfg.egresses.sortedKeys.zipIdx.map fun e => tableEgressBase + e.2) ++
      b.dsts.zipIdx.map (fun e => tableGeoBase + e.2) →
    (∃ e ∈ cfg.egresses.sortedKeys.zipIdx, r = egressRoute wans e) ∨
      ∃ e ∈ b.dsts.zipIdx, r ∈ geoRoutes files cfg wans e

/-- Applying a lowered policy programs it. -/
theorem programmed_of_apply {existing : List IPRoute} {plan : Plan} {k : Linux}
    (hlow : Lowered files cfg wans b plan) (happly : apply files existing plan = .ok k) :
    Programmed files cfg wans b k := by
  simp only [apply, bind_eq_ok, pure_eq_ok] at happly
  obtain ⟨tableRoutes, htable, mainRoutes, hmain, rules, hrules, geo, hgeo, rfl⟩ := happly
  obtain rfl := Except.ok.inj (hrules.symm.trans (parseRule_rules hrange b hlow))
  obtain rfl : tableRoutes = cfg.egresses.sortedKeys.zipIdx.map (egressRoute wans) := by
    rw [hlow.tableRoutes] at htable
    refine Except.ok.inj (htable.symm.trans (mapM_map_ok fun e he => parseRoute_default ?_))
    have hidx := List.snd_lt_of_mem_zipIdx he
    have hlength := length_sortedKeys_le hrange
    simp only [tableEgressBase]
    omega
  obtain rfl : geo = b.dsts.zipIdx.map (geoRoutes files cfg wans) := by
    rw [hlow.geo, mapM_eq_ok, List.forall₂_map_left_iff] at hgeo
    exact eq_map_of_forall₂ hgeo fun e he rs => loadGeo_eq_ok hrange b he
  refine ⟨rfl, fun e he => ?_, fun e he r hr => ?_, fun r hr htables => ?_⟩
  · simp only [List.mem_append, List.mem_map]
    exact .inl (.inl (.inr ⟨e, he, rfl⟩))
  · simp only [List.mem_append, List.mem_flatten, List.mem_map]
    exact .inr ⟨_, ⟨e, he, rfl⟩, hr⟩
  · simp only [List.mem_append, List.mem_flatten, List.mem_map] at hr
    rcases hr with ((hexisting | ⟨e, he, rfl⟩) | hr) | ⟨_, ⟨e, he, rfl⟩, hr⟩
    · -- an older route: the plan's tables were flushed
      rw [← hlow.tables] at htables
      simp [htables] at hexisting
    · exact .inl ⟨e, he, rfl⟩
    · -- a main route: the plan's tables do not include the main one
      rw [mapM_eq_ok] at hmain
      obtain ⟨a, ha, hparse⟩ := exists_of_forall₂_mem hmain.flip hr
      obtain ⟨dst, gw, dev, rfl⟩ := hlow.mainRoutes a ha
      rw [parseRoute_main hparse] at htables
      simp only [List.mem_append, List.mem_map, tableMain, tableEgressBase, tableGeoBase] at htables
      omega
    · exact .inr ⟨e, he, hr⟩

end Range

/-! ## What the tables answer -/

section Tables

variable {b : Bands cfg} {k : Linux}

/-- The default route is to anywhere. -/
theorem contains_anywhere (dst : BitVec 32) : anywhere.contains (.v4 dst) = true := by
  have hshift : dst >>> 32 = 0#32 := by
    apply BitVec.eq_of_toNat_eq
    simp [Nat.shiftRight_eq_div_pow, Nat.div_eq_of_lt dst.isLt]
  simp [anywhere, Prefix.contains, hshift]

/-- The table of an egress sends everything to the egress. -/
theorem fibLookup_egress (hrange : InRange files cfg) (hk : Programmed files cfg wans b k)
    {e : String} (he : e ∈ cfg.egresses.sortedKeys) (dst : BitVec 32) :
    (fibLookup k.routes (egressTable cfg e) (.v4 dst)).map IPRoute.hop =
      some ((wans e).dev, (wans e).gw) := by
  have hmem : (e, cfg.egresses.sortedKeys.idxOf e) ∈ cfg.egresses.sortedKeys.zipIdx :=
    List.mem_zipIdx_iff_getElem?.mpr (List.getElem?_idxOf he)
  have huniform : ∀ r ∈ k.routes, r.table = egressTable cfg e →
      r.hop = ((wans e).dev, (wans e).gw) := by
    intro r hr htable
    have hown : r.table ∈ (cfg.egresses.sortedKeys.zipIdx.map fun e => tableEgressBase + e.2) ++
        b.dsts.zipIdx.map (fun e => tableGeoBase + e.2) := by
      rw [htable]
      exact List.mem_append_left _ (List.mem_map.mpr ⟨_, hmem, rfl⟩)
    rcases hk.own r hr hown with ⟨e', he', rfl⟩ | ⟨e', he', hgeo⟩
    · -- the positions agree, so the egresses do
      obtain ⟨name, i⟩ := e'
      obtain rfl : i = cfg.egresses.sortedKeys.idxOf e := by
        simpa [egressRoute, egressTable] using htable
      have hname := List.mem_zipIdx_iff_getElem?.mp he'
      have hname' := List.mem_zipIdx_iff_getElem?.mp hmem
      obtain rfl : name = e := Option.some.inj (hname.symm.trans hname')
      rfl
    · have hidx := List.snd_lt_of_mem_zipIdx hmem
      have hlength := length_sortedKeys_le hrange
      obtain ⟨p, -, rfl⟩ := List.mem_map.mp hgeo
      simp only [egressTable, tableGeoBase, tableEgressBase] at htable
      omega
  rw [fibLookup_uniform huniform, if_neg]
  refine List.ne_nil_of_mem (mem_covering.mpr ⟨hk.egress_mem _ hmem, rfl, ?_⟩)
  exact contains_anywhere dst

/-- A geo table sends the destinations of its set to the branch's egress, and no other. -/
theorem fibLookup_geo (hrange : InRange files cfg) (hk : Programmed files cfg wans b k)
    {e : Forward × Nat} (he : e ∈ b.dsts.zipIdx) (dst : Addr) :
    (fibLookup k.routes (tableGeoBase + e.2) dst).map IPRoute.hop =
      if (branchPrefixes files cfg Condition.dstIn e.1).any (·.contains dst) then
        some ((wans e.1.egress).dev, (wans e.1.egress).gw) else none := by
  have hown : ∀ r ∈ k.routes, r.table = tableGeoBase + e.2 →
      r ∈ geoRoutes files cfg wans e := by
    intro r hr htable
    have hmem : r.table ∈ (cfg.egresses.sortedKeys.zipIdx.map fun e => tableEgressBase + e.2) ++
        b.dsts.zipIdx.map (fun e => tableGeoBase + e.2) := by
      rw [htable]
      exact List.mem_append_right _ (List.mem_map.mpr ⟨_, he, rfl⟩)
    rcases hk.own r hr hmem with ⟨e', he', rfl⟩ | ⟨e', he', hgeo⟩
    · have hidx := List.snd_lt_of_mem_zipIdx he'
      have hlength := length_sortedKeys_le hrange
      simp only [egressRoute, tableGeoBase, tableEgressBase] at htable
      omega
    · obtain ⟨p, -, rfl⟩ := List.mem_map.mp hgeo
      have hidx : e'.2 = e.2 := by simpa using htable
      have hsame := (List.mem_zipIdx_iff_getElem?.mp he').symm.trans
        (hidx ▸ List.mem_zipIdx_iff_getElem?.mp he)
      obtain rfl : e' = e := Prod.ext (by simpa using hsame) hidx
      exact hgeo
  have huniform : ∀ r ∈ k.routes, r.table = tableGeoBase + e.2 →
      r.hop = ((wans e.1.egress).dev, (wans e.1.egress).gw) := by
    intro r hr htable
    obtain ⟨p, -, rfl⟩ := List.mem_map.mp (hown r hr htable)
    rfl
  rw [fibLookup_uniform huniform]
  have hiff : covering k.routes (tableGeoBase + e.2) dst = [] ↔
      (branchPrefixes files cfg Condition.dstIn e.1).any (·.contains dst) = false := by
    rw [List.any_eq_false, List.eq_nil_iff_forall_not_mem]
    constructor
    · intro hempty p hp hcontains
      refine hempty _ (mem_covering.mpr ⟨hk.geo_mem e he _ (List.mem_map.mpr ⟨p, hp, rfl⟩), rfl, ?_⟩)
      rwa [contains_masked]
    · intro hnone r hr
      obtain ⟨hmem, htable, hcontains⟩ := mem_covering.mp hr
      obtain ⟨p, hp, rfl⟩ := List.mem_map.mp (hown r hmem htable)
      rw [contains_masked] at hcontains
      exact hnone p hp hcontains
  by_cases hany : (branchPrefixes files cfg Condition.dstIn e.1).any (·.contains dst)
  · rw [if_pos hany, if_neg (by simp [hiff, hany])]
  · rw [if_neg hany, if_pos (hiff.mpr (by simpa using hany))]

/-- The rule of a source prefix sends the packets from it to the branch's egress. -/
theorem select_leg (hrange : InRange files cfg) (hk : Programmed files cfg wans b k)
    {e : (String × Prefix) × Nat} (he : e.1.1 ∈ cfg.egresses.sortedKeys) (src : Addr)
    (dst : BitVec 32) :
    ((legIPRule (egressTable cfg) e).select k.routes src (.v4 dst)).map IPRoute.hop =
      if e.1.2.contains src then some ((wans e.1.1).dev, (wans e.1.1).gw) else none := by
  rw [select_lookup rfl]
  simp only [legIPRule, Option.all_some, contains_masked]
  split
  · exact fibLookup_egress hrange hk he dst
  · rfl

end Tables

/-! ## The bands in order -/

section Bands

variable {src dst : Addr}

/-- A branch on the source takes the packets from its prefixes. -/
theorem branchHolds_src {f : Forward} {s : IPSet}
    (hf : Tests cfg Condition.srcIn Condition.dstIn f s) :
    branchHolds files cfg src dst f = (legs files cfg f).any (·.contains src) := by
  have hset := hf.branchSet_eq
  obtain ⟨name, c, hwhen, hcond, -, hsrc, hdst⟩ := hf.named
  simp [branchHolds, conditionHolds, hwhen, hcond, hsrc, hdst, inSet, legs, branchPrefixes, hset]

/-- A branch on the destination takes the packets to its prefixes. -/
theorem branchHolds_dst {f : Forward} {s : IPSet}
    (hf : Tests cfg Condition.dstIn Condition.srcIn f s) :
    branchHolds files cfg src dst f =
      (branchPrefixes files cfg Condition.dstIn f).any (·.contains dst) := by
  have hset := hf.branchSet_eq
  obtain ⟨name, c, hwhen, hcond, -, hdst, hsrc⟩ := hf.named
  simp [branchHolds, conditionHolds, hwhen, hcond, hsrc, hdst, inSet, branchPrefixes, hset]

/-- The first source prefix a packet comes from is one of the first branch that takes it. -/
theorem findSome_srcLegs {γ : Type} (hop : String → γ) {fs : List Forward}
    (hfs : ∀ f ∈ fs, ∃ s, Tests cfg Condition.srcIn Condition.dstIn f s) :
    (srcLegs files cfg fs).findSome? (fun l => if l.2.contains src then some (hop l.1) else none) =
      (fs.find? (branchHolds files cfg src dst)).map fun f => hop f.egress := by
  induction fs with
  | nil => rfl
  | cons f fs ih =>
    obtain ⟨s, hf⟩ := hfs f (by simp)
    have hfirst : ((legs files cfg f).map fun p => (f.egress, p)).findSome?
        (fun l => if l.2.contains src then some (hop l.1) else none) =
        if branchHolds files cfg src dst f then some (hop f.egress) else none := by
      rw [branchHolds_src hf, List.findSome?_map]
      induction legs files cfg f with
      | nil => rfl
      | cons p ps ih =>
        by_cases hp : p.contains src
        · simp [hp]
        · simpa [hp] using ih
    have hlegs : srcLegs files cfg (f :: fs) =
        ((legs files cfg f).map fun p => (f.egress, p)) ++ srcLegs files cfg fs := by
      simp [srcLegs]
    rw [hlegs, List.findSome?_append, hfirst, ih fun g hg => hfs g (by simp [hg]),
      List.find?_cons]
    cases branchHolds files cfg src dst f <;> simp

/-- The rules are programmed in ascending priority. -/
theorem programmedRules_sorted (hrange : InRange files cfg) (b : Bands cfg) :
    (programmedRules files cfg b).Pairwise fun r r' => r.prio ≤ r'.prio := by
  have hlegs := length_srcLegs_le hrange b
  have hdsts := length_dsts_le hrange b
  have hzip : ∀ {α : Type} (l : List α) (n : Nat),
      (l.zipIdx n).Pairwise fun e e' => e.2 ≤ e'.2 := by
    intro α l
    induction l with
    | nil => simp
    | cons a l ih =>
      intro n
      rw [List.zipIdx_cons, List.pairwise_cons]
      exact ⟨fun e he => (Nat.le_succ n).trans (List.le_snd_of_mem_zipIdx he), ih _⟩
  have hleg : ∀ e ∈ (srcLegs files cfg b.srcs).zipIdx prioSrcBase,
      prioSrcBase ≤ e.2 ∧ e.2 < prioDstBase := by
    intro e he
    have hlt := List.snd_lt_of_mem_zipIdx he
    refine ⟨List.le_snd_of_mem_zipIdx he, ?_⟩
    simp only [prioSrcBase, prioDstBase] at hlt ⊢
    omega
  have hgeo : ∀ e ∈ b.dsts.zipIdx, prioDstBase + e.2 < prioDefault := by
    intro e he
    have hlt := List.snd_lt_of_mem_zipIdx he
    simp only [prioDstBase, prioDefault]
    omega
  rw [programmedRules, List.pairwise_cons, List.pairwise_append, List.pairwise_append,
    List.pairwise_map, List.pairwise_map]
  simp only [List.mem_append, List.mem_map, List.mem_singleton]
  refine ⟨?_, ⟨hzip _ _, ?_, ?_⟩, by simp, ?_⟩
  · rintro _ ((⟨e, he, rfl⟩ | ⟨e, he, rfl⟩) | rfl)
    · exact le_trans (by decide) (hleg e he).1
    · exact le_trans (by decide) (Nat.le_add_right prioDstBase e.2)
    · exact (by decide : prioMain ≤ prioDefault)
  · exact (hzip _ _).imp fun h => Nat.add_le_add_left h _
  · rintro _ ⟨e, he, rfl⟩ _ ⟨e', -, rfl⟩
    exact (hleg e he).2.le.trans (Nat.le_add_right prioDstBase e'.2)
  · rintro _ (⟨e, he, rfl⟩ | ⟨e, he, rfl⟩) _ rfl
    · exact (hleg e he).2.le.trans (by decide : prioDstBase ≤ prioDefault)
    · exact (hgeo e he).le

end Bands

/-- The lowered state implements the forward policy: for a config in range that validates and
lowers, every IPv4 packet whose destination no main route of positive prefix length covers
leaves by the device and gateway of the egress of the first branch whose condition holds. -/
theorem lower_implements_forward (hvalid : cfg.validateKernel = .ok ())
    (hrange : InRange files cfg) {plan : Plan} (hlower : lower files cfg wans = .ok plan)
    {existing : List IPRoute} {k : Linux} (happly : apply files existing plan = .ok k)
    {src dst : BitVec 32}
    (hmain : ∀ r ∈ k.routes, r.table = tableMain → 0 < r.dst.bits →
      r.dst.contains (.v4 dst) = false) :
    ∃ e, policy files cfg (.v4 src) (.v4 dst) = some e ∧
      (k.route (.v4 src) (.v4 dst)).map IPRoute.hop = some ((wans e).dev, (wans e).gw) := by
  obtain ⟨b⟩ := bands_of_validateKernel hvalid
  have hk := programmed_of_apply hrange b (lower_eq_ok b hlower) happly
  let hop : String → String × String := fun e => ((wans e).dev, (wans e).gw)
  -- each band of rules answers as its branches do
  have hlegs : (((srcLegs files cfg b.srcs).zipIdx prioSrcBase).map
      (legIPRule (egressTable cfg))).findSome?
        (fun r => (r.select k.routes (.v4 src) (.v4 dst)).map IPRoute.hop) =
      (b.srcs.find? (branchHolds files cfg (.v4 src) (.v4 dst))).map fun f => hop f.egress := by
    rw [List.findSome?_map, ← findSome_srcLegs hop b.src,
      ← findSome_zipIdx _ (srcLegs files cfg b.srcs) prioSrcBase]
    refine findSome_congr fun e he => ?_
    obtain ⟨f, hf, p, -, hp⟩ : ∃ f ∈ b.srcs, ∃ p ∈ legs files cfg f, (f.egress, p) = e.1 := by
      simpa [srcLegs] using List.fst_mem_of_mem_zipIdx he
    refine select_leg hrange hk ?_ _ _
    rw [← hp]
    exact b.known f (by simp [b.forward_eq, hf])
  have hgeo : (b.dsts.zipIdx.map geoIPRule).findSome?
        (fun r => (r.select k.routes (.v4 src) (.v4 dst)).map IPRoute.hop) =
      (b.dsts.find? (branchHolds files cfg (.v4 src) (.v4 dst))).map fun f => hop f.egress := by
    rw [List.findSome?_map, ← findSome_ite, ← findSome_zipIdx _ b.dsts 0]
    refine findSome_congr fun e he => ?_
    obtain ⟨s, hs⟩ := b.dst e.1 (List.fst_mem_of_mem_zipIdx he)
    rw [branchHolds_dst hs, Function.comp_apply, select_lookup rfl]
    exact fibLookup_geo hrange hk he (.v4 dst)
  have hlast : (IPRule.select k.routes (.v4 src) (.v4 dst)
      { prio := prioDefault, table := egressTable cfg b.last.egress }).map IPRoute.hop =
      some (hop b.last.egress) := by
    rw [select_lookup rfl]
    exact fibLookup_egress hrange hk (b.known b.last (by simp [b.forward_eq])) dst
  have hroute : (k.route (.v4 src) (.v4 dst)).map IPRoute.hop =
      (cfg.forward.find? (branchHolds files cfg (.v4 src) (.v4 dst))).map
        fun f => hop f.egress := by
    have hdefault : branchHolds files cfg (.v4 src) (.v4 dst) b.last = true := by
      simp [branchHolds, b.last_when]
    rw [Linux.route, hk.rules, (programmedRules_sorted hrange b).insertionSort_eq,
      List.map_findSome?, programmedRules, List.findSome?_cons, Function.comp_apply,
      select_mainSuppress hmain, Option.map_none, Function.comp_def, List.findSome?_append,
      List.findSome?_append, hlegs, hgeo, b.forward_eq, List.find?_append, List.find?_append]
    simp [hlast, hdefault]
  have hsome : (cfg.forward.find? (branchHolds files cfg (.v4 src) (.v4 dst))).isSome := by
    rw [List.find?_isSome]
    exact ⟨b.last, by simp [b.forward_eq], by simp [branchHolds, b.last_when]⟩
  obtain ⟨f, hf⟩ := Option.isSome_iff_exists.mp hsome
  exact ⟨f.egress, by rw [policy, hf]; rfl, by rw [hroute, hf]; rfl⟩

/-- A home router: the television leaves by the fiber line, domestic destinations by the dsl
line, the rest by the fiber line. -/
def homeRouter : Node where
  psk := ""
  mtu := 1360
  subnet := "10.9.0.0/24"
  datapath := "kernel"
  egresses := (∅ : FMap String Egress).insert "dsl" { mode := "kernel", extIface := "ppp0" }
    |>.insert "fiber" { mode := "kernel", extIface := "wan" }
  conditions := [{ name := "tv", srcIn := some { list := ["10.0.0.7"] } },
    { name := "domestic", dstIn := some { list := ["5.0.0.0/8"] } }]
  forward := [⟨["tv"], "fiber"⟩, ⟨["domestic"], "dsl"⟩, ⟨[], "fiber"⟩]
  lanIfaces := ["br0"]

def homeWans (name : String) : Wan :=
  if name = "dsl" then ⟨"ppp0", "", none⟩ else ⟨"wan", "203.0.113.1", none⟩

def noFiles (path : String) : Except String String :=
  .error ("open " ++ path ++ ": no such file or directory")

/-- The main table the router starts with. -/
def homeRoutes : List IPRoute :=
  [{ dst := anywhere, dev := "ppp0" }, { dst := ⟨.v4 0x0a000000, 24, by decide⟩, dev := "br0" }]

def homePlan : Plan := (lower noFiles homeRouter homeWans).toOption.getD {}

def homeState : Linux := (apply noFiles homeRoutes homePlan).toOption.getD ⟨[], []⟩

/-- The example is in range. -/
theorem homeRouter_inRange : InRange noFiles homeRouter where
  egresses := by decide
  sources := by decide +kernel
  destinations := by decide
  ipv4 := by
    have htv : prefixes noFiles { list := ["10.0.0.7"] } =
        .ok [⟨.v4 0x0a000007, 32, by decide⟩] := by decide +kernel
    have hdomestic : prefixes noFiles { list := ["5.0.0.0/8"] } =
        .ok [⟨.v4 0x05000000, 8, by decide⟩] := by decide +kernel
    intro c hc s hs ps hps p hp
    simp only [homeRouter, List.mem_cons, List.not_mem_nil, or_false] at hc
    rcases hc with rfl | rfl
    · obtain rfl : { list := ["10.0.0.7"] } = s := by simpa using hs
      obtain rfl := Except.ok.inj (htv.symm.trans hps)
      exact ⟨_, by rw [List.mem_singleton.mp hp]⟩
    · obtain rfl : { list := ["5.0.0.0/8"] } = s := by simpa using hs
      obtain rfl := Except.ok.inj (hdomestic.symm.trans hps)
      exact ⟨_, by rw [List.mem_singleton.mp hp]⟩

/-- A domestic destination leaves the home router by the dsl line. -/
theorem lower_implements_forward_home :
    lower noFiles homeRouter homeWans = .ok homePlan ∧
    apply noFiles homeRoutes homePlan = .ok homeState ∧
    (homeState.route (.v4 0x0a000009) (.v4 0x05010203)).map IPRoute.hop = some ("ppp0", "") := by
  have hlower : lower noFiles homeRouter homeWans = .ok homePlan := by decide +kernel
  have happly : apply noFiles homeRoutes homePlan = .ok homeState := by decide +kernel
  obtain ⟨e, he, hroute⟩ := @lower_implements_forward noFiles homeRouter homeWans
    (by decide) homeRouter_inRange _ hlower _ _ happly 0x0a000009 0x05010203 (by decide +kernel)
  have hdsl : policy noFiles homeRouter (.v4 0x0a000009) (.v4 0x05010203) = some "dsl" := by
    decide +kernel
  obtain rfl := Option.some.inj (he.symm.trans hdsl)
  exact ⟨hlower, happly, hroute⟩

end Dualnet.Kernel
