import Dualnet.Kernel.Undo

/-!
# The forwarding state on the machine

`apply` has two models here: `Kernel.apply` reads the commands of a plan as rules and routes, and
`Host.apply` runs them on a machine. `apply_readBack`: what a run that succeeds has added to the
machine, read as rules and routes, is what `Kernel.apply` makes of the plan.
-/

namespace Dualnet.Kernel

open Library Text Config

/-- What was added at a place, after what was there. -/
def Host.since (h h' : Host) (place : Place) : List Argv := (h' place).drop (h place).length

/-- The rules of some entries. -/
def readRules (entries : List Argv) : Except String (List IPRule) :=
  entries.mapM fun rule => parseRule ("ip" :: "rule" :: "add" :: rule)

/-- The routes of some entries; `options` are how a command names their table. -/
def readRoutes (options : Argv) (entries : List Argv) : Except String (List IPRoute) :=
  entries.mapM fun route => parseRoute (["ip", "route", "add"] ++ route ++ options)

/-- The routes of a numbered table. -/
def Host.readTable (h : Host) (t : Nat) : Except String (List IPRoute) :=
  readRoutes ["table", itoa t] (h (.table t))

section ReadBack

variable {files : String → Except String String} {wait : Bool} {cfg : Node} {wans : String → Wan}
  {p : Plan} {h h' : Host} {refuses : Nat → Bool} {chain : List (Change Place Argv)}

/-- A flush leaves nothing, whatever was there. -/
theorem foldl_flushScript {t : Nat} {tables : List Nat} (ht : t ∈ tables) (l : List Argv) :
    (changesAt (.table t) (flushScript tables)).foldl (Change.effect machine) l = [] := by
  induction tables with
  | nil => cases ht
  | cons u tables ih =>
    rw [changesAt_flushScript_cons]
    by_cases hu : u = t
    · simpa [hu, Change.effect] using (admittedAlong_flushScript t tables).2
    · simpa [hu] using ih ((List.mem_cons.mp ht).resolve_left (Ne.symm hu))

/-- What a run that succeeds leaves at a table of the plan. -/
theorem Installable.table_eq (hp : Installable cfg wans p)
    (hrun : h.apply files wait refuses p = (h', some chain)) {t : Nat} (ht : t ∈ p.tables) :
    h' (.table t) = (changesAt (.table t) (egressScript wans cfg.egresses.sortedKeys.zipIdx) ++
      changesAt (.table t) (p.geo.flatMap (geoScript files))).foldl (Change.effect machine) [] := by
  have hmain : t ≠ tableMain := fun heq => hp.main_not_mem (heq ▸ ht)
  obtain ⟨q, hq, rfl, -⟩ := runScript_eq_some.mp hrun
  rw [(exec_at (hp.plain files wait h) hq (.table t)).1, applyScript, hp.routeScript_eq]
  simp only [changesAt_append]
  rw [changesAt_forwardScript h (by simp), changesAt_reasserts_ne (by simpa using hmain.symm),
    changesAt_reasserts_ne (by simp), changesAt_masqScript (by simp)]
  simp only [List.nil_append, List.append_nil, List.foldl_append, foldl_flushScript ht]

/-- The tables of a lowered plan are those of its egresses and of its geo sets. -/
theorem lower_tables (hvalid : cfg.validateKernel = .ok ())
    (hlower : lower files cfg wans = .ok p) :
    p.tables = (cfg.egresses.sortedKeys.zipIdx.map fun e => tableEgressBase + e.2) ++
      p.geo.map GeoBinding.table := by
  obtain ⟨b⟩ := bands_of_validateKernel hvalid
  have hlow := lower_eq_ok b hlower
  rw [hlow.tables, hlow.geo, List.map_map]
  rfl

section Tables

variable (hp : Installable cfg wans p) (hnodup : p.tables.Nodup)
  (htables : p.tables = (cfg.egresses.sortedKeys.zipIdx.map fun e => tableEgressBase + e.2) ++
    p.geo.map GeoBinding.table)
  (hrun : h.apply files wait refuses p = (h', some chain))

include hp hnodup htables hrun

/-- The table of an egress has its default route. -/
theorem egressTable_eq {e : String × Nat} (he : e ∈ cfg.egresses.sortedKeys.zipIdx) :
    h' (.table (tableEgressBase + e.2)) = ["default" :: nextHop (wans e.1).gw (wans e.1).dev] := by
  rw [htables, List.nodup_append] at hnodup
  have hgeo : ∀ g ∈ p.geo, Place.table g.table ≠ .table (tableEgressBase + e.2) := by
    intro g hg heq
    have hsame := (Place.table.inj heq).symm
    exact hnodup.2.2 _ (List.mem_map_of_mem he) _ (List.mem_map_of_mem hg) hsame
  have hplaces : (cfg.egresses.sortedKeys.zipIdx.map fun e =>
      Place.table (tableEgressBase + e.2)).Nodup := by
    simpa [Function.comp_def] using hnodup.1.map fun _ _ => Place.table.inj
  have hone := changesAt_flatMap (fun e => egressScript wans [e]) _ hplaces
    (fun b _ place hne => changesAt_egressScript (by simpa using hne)) he
  rw [hp.table_eq hrun (hp.routed e he), changesAt_geoScripts hgeo, List.append_nil]
  have hsplit : egressScript wans cfg.egresses.sortedKeys.zipIdx =
      cfg.egresses.sortedKeys.zipIdx.flatMap fun e => egressScript wans [e] := by
    simp only [egressScript, List.map_eq_flatMap, List.flatMap_singleton]
  rw [hsplit, hone]
  simp [changesAt, egressScript, Instr.changeAt, Change.place?, Change.effect]

/-- The table of a geo set has the routes of its prefixes. -/
theorem geoTable_eq {g : GeoBinding} (hg : g ∈ p.geo) :
    ∃ prefixes, readPrefixes files g.set = .ok prefixes ∧
      h' (.table g.table) = prefixes.map g.route := by
  rw [htables, List.nodup_append] at hnodup
  have hegress : ∀ e ∈ cfg.egresses.sortedKeys.zipIdx,
      Place.table (tableEgressBase + e.2) ≠ .table g.table := by
    intro e he heq
    exact hnodup.2.2 _ (List.mem_map_of_mem he) _ (List.mem_map_of_mem hg) (Place.table.inj heq)
  have hplaces : (p.geo.map fun g => Place.table g.table).Nodup := by
    simpa [Function.comp_def] using hnodup.2.1.map fun _ _ => Place.table.inj
  have hone := changesAt_flatMap (geoScript files) _ hplaces (fun b _ place hne => by
    have hother : changesAt place ([b].flatMap (geoScript files)) = [] :=
      changesAt_geoScripts (by simpa using hne)
    simpa using hother) hg
  obtain ⟨q, hq, -⟩ := runScript_eq_some.mp hrun
  cases hread : readPrefixes files g.set with
  | error e =>
    -- the set can be read, or the script would have stopped
    refine absurd ?_ (abort_not_mem hq)
    simp only [applyScript, List.mem_append, List.mem_flatMap]
    exact .inr (.inr ⟨g, hg, by simp [geoScript, hread]⟩)
  | ok prefixes =>
    refine ⟨prefixes, rfl, ?_⟩
    rw [hp.table_eq hrun (hp.geo g hg), changesAt_egressScript hegress, hone, List.nil_append]
    have hchanges : changesAt (.table g.table) (geoScript files g) =
        .put (.table g.table) [] :: (prefixes.map g.route).map (.add (.table g.table)) := by
      rw [geoScript, hread]
      simp [changesAt, Instr.changeAt, Change.place?, List.flatMap_map, GeoBinding.route,
        ← List.map_eq_flatMap]
    rw [hchanges, List.foldl_cons, foldl_adds, Change.effect, List.nil_append]

end Tables

/-- Where it does not overwrite, a run on a clean machine adds the entries of the plan, if none of
them is deleted for a later one. -/
theorem Installable.added_eq (hp : Installable cfg wans p) (hfree : FlagFree cfg wans)
    (hprio : p.OwnPriorities) (hclean : CleanFor p h)
    (hrun : h.apply files wait refuses p = (h', some chain)) {place : Place}
    (hputs : ¬ p.Puts place)
    (hapart : (p.own place).Pairwise fun x y => machine.picks place y x = false) :
    h' place = h place ++ p.own place := by
  obtain ⟨q, hq, rfl, -⟩ := runScript_eq_some.mp hrun
  rw [(exec_at (hp.plain files wait h) hq place).1, hp.changesAt_own hfree h hputs]
  exact foldl_pairs_fresh (((hp.rulesApart hprio).fits hclean).fresh place hputs) hapart

/-- `Kernel.apply` reads off a plan what a run of `apply` that succeeds adds to a clean machine, if
tables, priorities and destinations of main routes are not used twice. -/
theorem apply_readBack (hvalid : cfg.validateKernel = .ok ())
    (hlower : lower files cfg wans = .ok p) (hfree : FlagFree cfg wans) (hnodup : p.tables.Nodup)
    (hprio : p.OwnPriorities) (hmain : (p.mainEntries.map List.head?).Nodup)
    (hclean : CleanFor p h) (hrun : h.apply files wait refuses p = (h', some chain))
    (existing : List IPRoute) :
    apply files existing p = (do
      let tableRoutes ← cfg.egresses.sortedKeys.zipIdx.mapM fun e =>
        h'.readTable (tableEgressBase + e.2)
      let mainRoutes ← readRoutes [] (h.since h' (.table tableMain))
      let rules ← readRules (h.since h' .rules)
      let geo ← p.geo.mapM fun g => h'.readTable g.table
      pure ⟨rules, existing.filter (·.table ∉ p.tables) ++ tableRoutes.flatten ++ mainRoutes ++
        geo.flatten⟩) := by
  have hp := installable_of_lower hlower
  have htables := lower_tables hvalid hlower
  have hrules : readRules (h.since h' .rules) = p.rules.mapM parseRule := by
    have hapart : p.ruleEntries.Pairwise fun x y => machine.picks .rules y x = false := by
      refine List.pairwise_map.mpr ((List.pairwise_map.mp hprio).imp_of_mem fun hx hy hne => ?_)
      refine Bool.eq_false_iff.mpr fun hpicks => hne ?_
      have heq := hp.rulesApart hprio _ (List.mem_map_of_mem hy) _ (List.mem_map_of_mem hx) hpicks
      rw [rulePriority, rulePriority, ← List.getElem?_drop (i := 3) (j := 1), heq]
      simp
    rw [Host.since, hp.added_eq hfree hprio hclean hrun id hapart, List.drop_left, readRules,
      Plan.own, Plan.ruleEntries, List.mapM_map]
    refine mapM_congr fun ru hru => ?_
    obtain ⟨prio, rest, rfl, -⟩ := hp.rules ru hru
    rfl
  have hmainRoutes : readRoutes [] (h.since h' (.table tableMain)) =
      p.mainRoutes.mapM parseRoute := by
    have hown : p.own (.table tableMain) = p.mainEntries := by simp [Plan.own]
    have hputs : ¬ p.Puts (.table tableMain) := hp.main_not_mem
    have hapart : p.mainEntries.Pairwise fun x y =>
        machine.picks (.table tableMain) y x = false := by
      refine (List.pairwise_map.mp hmain).imp fun hne => ?_
      exact Bool.eq_false_iff.mpr fun hpicks => hne (head_eq_of_picks hpicks).symm
    rw [Host.since, hp.added_eq hfree hprio hclean hrun hputs (hown ▸ hapart), hown,
      List.drop_left, readRoutes, Plan.mainEntries, List.mapM_map]
    refine mapM_congr fun rt hrt => ?_
    obtain ⟨dst, gw, dev, rfl⟩ := hp.mainRoutes rt hrt
    simp
  have hgeo : (p.geo.mapM fun g => h'.readTable g.table) = p.geo.mapM (loadGeo files) := by
    refine mapM_congr fun g hg => ?_
    obtain ⟨prefixes, hread, htable⟩ := geoTable_eq hp hnodup htables hrun hg
    rw [Host.readTable, htable, readRoutes, List.mapM_map, loadGeo, hread]
    rfl
  have hegress : (cfg.egresses.sortedKeys.zipIdx.mapM fun e =>
      h'.readTable (tableEgressBase + e.2)) =
      (p.tableRoutes.mapM parseRoute).map (List.map fun r => [r]) := by
    rw [hp.tableRoutes, List.mapM_map, ← mapM_map]
    refine mapM_congr fun e he => ?_
    rw [Host.readTable, egressTable_eq hp hnodup htables hrun he, readRoutes, List.mapM_cons,
      List.mapM_nil]
    rfl
  rw [hrules, hmainRoutes, hgeo, hegress, apply]
  cases p.tableRoutes.mapM parseRoute with
  | error e => rfl
  | ok routes =>
    have hroutes : (routes.map fun r => [r]).flatten = routes := by
      rw [← List.flatMap_def, List.flatMap_singleton']
    simp only [Except.map, bind, Except.bind, hroutes]

end ReadBack

end Dualnet.Kernel
