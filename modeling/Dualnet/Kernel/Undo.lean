import Dualnet.Kernel.Install
import Dualnet.Kernel.Numbers
import Dualnet.Library.Reinstall

/-!
# Undoing and repeating `apply`

`undoesItself_iff` says for which plans `apply` undoes itself when it fails, its teardown
undoes it when it succeeds, and a second `apply` repairs what a crash of the first one left, for
plans no two rules of which share a priority (`ownPriorities_of_counts`).

The deletion of an iptables rule is made by `flipAppendToDelete`, which replaces every `-A`
and `-I` of the command, also where one of them is the name of a device. A rule with such a
device is never deleted.
-/

namespace Dualnet.Kernel

open Library Text Config

/-! ## The script of a lowered plan -/

/-- The entries of a plan in the main table. -/
def Plan.mainEntries (p : Plan) : List Argv := p.mainRoutes.map (·.drop 3)

/-- The entries of a plan among the policy rules. -/
def Plan.ruleEntries (p : Plan) : List Argv := p.rules.map (·.drop 3)

/-- The entries of a plan among the iptables rules. -/
def Plan.iptablesEntries (p : Plan) : List Argv := p.iptables.map iptablesRule

/-- What a plan adds to the places it does not overwrite. -/
def Plan.own (p : Plan) : Place → List Argv
  | .table t => if t = tableMain then p.mainEntries else []
  | .rules => p.ruleEntries
  | .iptables => p.iptablesEntries
  | .forward => []

/-- No two rules of the plan have the same priority. -/
def Plan.OwnPriorities (p : Plan) : Prop := (p.rules.map rulePriority).Nodup

/-- The deletion of a rule of the plan takes no other one of its rules. -/
def Plan.RulesApart (p : Plan) : Prop :=
  ∀ x ∈ p.ruleEntries, ∀ y ∈ p.ruleEntries, picks .rules x y = true → y = x

/-- The iptables loop of `apply`, by entries. -/
def masqScript (entries : List Argv) : List (Instr Place Argv) :=
  entries.flatMap fun e =>
    [.attempt (.remove .iptables (flipAppendToDelete e)),
      .install (.add .iptables e) (some (.remove .iptables (flipAppendToDelete e)))]

/-- The loop over the table routes, by egress and table. -/
def egressScript (wans : String → Wan) (egresses : List (String × Nat)) :
    List (Instr Place Argv) :=
  egresses.map fun e => .install
    (.add (.table (tableEgressBase + e.2)) ("default" :: nextHop (wans e.1).gw (wans e.1).dev)) none

section Script

variable {files : String → Except String String} {cfg : Node} {wans : String → Wan} {p : Plan}

/-- The loops of `apply` on a lowered plan, by what they change. -/
theorem Installable.routeScript_eq (hp : Installable cfg wans p) (wait : Bool) :
    routeScript wait p = egressScript wans cfg.egresses.sortedKeys.zipIdx ++
      reasserts (.table tableMain) p.mainEntries ++ reasserts .rules p.ruleEntries ++
      masqScript p.iptablesEntries := by
  have htables : (p.tableRoutes.map fun rt => Instr.install (command rt) none) =
      egressScript wans cfg.egresses.sortedKeys.zipIdx := by
    rw [hp.tableRoutes, List.map_map, egressScript]
    exact List.map_congr_left fun e _ => by simp
  have hmain : p.mainRoutes.flatMap (fun rt => addScript (withVerb rt "del") rt) =
      reasserts (.table tableMain) p.mainEntries := by
    rw [reasserts, Plan.mainEntries, List.flatMap_map]
    refine List.flatMap_congr fun rt hrt => ?_
    obtain ⟨hadd, hdel⟩ := (hp.mainRoutes rt hrt).command_eq
    rw [addScript, hadd, hdel]
  have hrules : p.rules.flatMap (fun ru => addScript (withVerb ru "del") ru) =
      reasserts .rules p.ruleEntries := by
    rw [reasserts, Plan.ruleEntries, List.flatMap_map]
    refine List.flatMap_congr fun ru hru => ?_
    obtain ⟨hadd, hdel⟩ := (hp.rules ru hru).command_eq
    rw [addScript, hadd, hdel]
  have hmasq : (p.iptables.flatMap fun ipt =>
      addScript (iptablesCmd wait (flipAppendToDelete ipt)) (iptablesCmd wait ipt)) =
      masqScript p.iptablesEntries := by
    rw [masqScript, Plan.iptablesEntries, List.flatMap_map]
    refine List.flatMap_congr fun ipt hipt => ?_
    obtain ⟨name, -, hmem⟩ := List.mem_flatMap.mp (hp.iptables ▸ hipt)
    obtain ⟨hadd, hdel⟩ := command_masq wait hmem
    rw [addScript, hadd, hdel]
  rw [routeScript, htables, hmain, hrules, hmasq]

/-- A device name that `flipAppendToDelete` takes for a flag. -/
def FlagName (dev : String) : Prop := dev = "-A" ∨ dev = "-I"

/-- No rule of a plan names a device that is taken for a flag. -/
def FlagFree (cfg : Node) (wans : String → Wan) : Prop :=
  ∀ name ∈ cfg.egresses.sortedKeys, ∀ dev ∈ (wans name).dev :: cfg.lanIfaces, ¬ FlagName dev

/-- Without such devices the delete form of a rule deletes the rule. -/
theorem flip_iptablesRule {ipt : Argv} {dev : String} {lans : List String}
    (h : ipt ∈ masqRules dev lans) (hfree : ∀ d ∈ dev :: lans, ¬ FlagName d) :
    flipAppendToDelete (iptablesRule ipt) = iptablesRule ipt := by
  have hdev := hfree dev List.mem_cons_self
  rw [FlagName] at hdev
  rcases mem_masqRules.mp h with rfl | ⟨lan, hlan, hipt⟩ | rfl
  · simp [iptablesRule, flipAppendToDelete, hdev]
  · have hlan := hfree lan (List.mem_cons_of_mem dev hlan)
    rw [FlagName] at hlan
    rcases hipt with rfl | rfl <;> simp [iptablesRule, flipAppendToDelete, hdev, hlan]
  · simp [iptablesRule, flipAppendToDelete, hdev]

/-- Then the loop reinstalls the rules it has. -/
theorem Installable.masqScript_eq (hp : Installable cfg wans p) (hfree : FlagFree cfg wans) :
    masqScript p.iptablesEntries = reasserts .iptables p.iptablesEntries := by
  refine List.flatMap_congr fun e he => ?_
  obtain ⟨ipt, hipt, rfl⟩ := List.mem_map.mp he
  obtain ⟨name, hname, hmem⟩ := List.mem_flatMap.mp (hp.iptables ▸ hipt)
  rw [flip_iptablesRule hmem (hfree name hname)]

/-- Rules with priorities of their own are not taken by the deletion of another one. -/
theorem Installable.rulesApart (hp : Installable cfg wans p) (h : p.OwnPriorities) :
    p.RulesApart := by
  intro x hx y hy hpicks
  obtain ⟨ru, hru, rfl⟩ := List.mem_map.mp hx
  obtain ⟨ru', hru', rfl⟩ := List.mem_map.mp hy
  obtain ⟨prio, rest, rfl, -⟩ := hp.rules ru hru
  obtain ⟨prio', rest', rfl, hother⟩ := hp.rules ru' hru'
  have hmem : ("priority", itoa prio) ∈ ("priority", itoa prio') :: given rest' := by
    simp only [picks, List.all_eq_true, List.contains_iff_mem] at hpicks
    exact hpicks ("priority", itoa prio) List.mem_cons_self
  have heq := (Prod.mk.inj ((List.mem_cons.mp hmem).resolve_right (hother _))).2
  have hsame := List.inj_on_of_nodup_map h hru hru' (by simp [rulePriority, heq])
  rw [hsame]

/-- The places `apply` empties or overwrites as a whole. -/
def Plan.Puts (p : Plan) : Place → Prop
  | .forward => True
  | .table t => t ∈ p.tables
  | .rules | .iptables => False

/-- The main table is none of the plan's. -/
theorem Installable.main_not_mem (hp : Installable cfg wans p) : tableMain ∉ p.tables := by
  intro hmem
  have hle := hp.tables tableMain hmem
  rw [tableMain, tableEgressBase] at hle
  omega

/-- The plan's tables are others than the main one. -/
theorem Installable.table_ne_main (hp : Installable cfg wans p) :
    ∀ t ∈ p.tables, Place.table t ≠ .table tableMain := by
  rintro t ht ⟨⟩
  exact hp.main_not_mem ht

variable {wait : Bool} {h : Host}

/-- A table takes one route for a destination. -/
theorem admits_table {t : Nat} {held : List Argv} {route : Argv} :
    machine.admits (.table t) held route = true ↔ ∀ r ∈ held, r.head? ≠ route.head? := by
  simp [machine, admits]

/-- A route is deleted for one to its destination. -/
theorem head_eq_of_picks {t : Nat} {x y : Argv} (h : machine.picks (.table t) x y = true) :
    x.head? = y.head? := by
  simp only [machine, picks, Bool.and_eq_true, beq_iff_eq] at h
  exact h.1

/-- A plan's entries can be told apart, and on a clean machine their deletions take no others. -/
theorem Plan.RulesApart.fits (hrules : p.RulesApart) (hc : CleanFor p h) :
    Fits machine h p.Puts p.own where
  apart place _ x hx l hl hadmits w hw y hy hyx hyw := by
    cases place with
    | forward => cases hx
    | table t =>
      -- a table has one route for a destination
      have hne := admits_table.mp hadmits w hw
      exact absurd ((head_eq_of_picks hyw).symm.trans (head_eq_of_picks hyx)) hne
    | rules => exact (hrules y hy w (hl hw) hyw).trans (hrules y hy x hx hyx).symm
    | iptables =>
      simp only [machine, picks, beq_iff_eq] at hyx hyw
      exact hyw.symm.trans hyx
  fresh place _ x hx y hy := by
    cases place with
    | forward => cases hx
    | table t =>
      by_cases ht : t = tableMain
      · subst ht
        obtain ⟨rt, hrt, rfl⟩ := List.mem_map.mp (show x ∈ p.mainEntries from hx)
        refine Bool.eq_false_iff.mpr fun hpicks => hc.mainRoutes rt hrt y hy ?_
        simpa using head_eq_of_picks hpicks
      · rw [Plan.own, if_neg ht] at hx
        cases hx
    | rules =>
      obtain ⟨ru, hru, rfl⟩ := List.mem_map.mp hx
      exact hc.rules ru hru y hy
    | iptables =>
      obtain ⟨ipt, hipt, rfl⟩ := List.mem_map.mp hx
      refine Bool.eq_false_iff.mpr fun hpicks => hc.iptables ipt hipt ?_
      simp only [machine, picks, beq_iff_eq] at hpicks
      rwa [hpicks]

/-- What sets `ip_forward`. -/
theorem mem_forwardScript {i : Instr Place Argv} (hi : i ∈ forwardScript h) :
    ∃ undo : Option String, i = .install (setIPForward "1") (undo.map setIPForward) := by
  unfold forwardScript at hi
  dsimp only at hi
  split at hi
  · cases hi
  · rw [List.mem_singleton.mp hi]
    split
    · exact ⟨none, rfl⟩
    · exact ⟨some h.ipForward, rfl⟩

/-- What flushes the tables. -/
theorem mem_flushScript {tables : List Nat} {i : Instr Place Argv} :
    i ∈ flushScript tables ↔ ∃ t ∈ tables,
      i = .attempt (.put (.table t) []) ∨ i = .defer (.put (.table t) []) := by
  simp [flushScript]

/-- What loads a geo set. -/
theorem mem_geoScript {g : GeoBinding} {i : Instr Place Argv} (hi : i ∈ geoScript files g) :
    i = .attempt (.put (.table g.table) []) ∨ i = .abort ∨
      ∃ route, i = .install (.add (.table g.table) route) none := by
  rw [geoScript, command_flushTable, List.mem_cons] at hi
  refine hi.imp_right fun hi => ?_
  split at hi
  · exact .inl (List.mem_singleton.mp hi)
  · obtain ⟨cidr, -, rfl⟩ := List.mem_map.mp hi
    exact .inr ⟨_, by rw [command_geoRoute]⟩

/-- Setting `ip_forward` is plain. -/
theorem plain_forwardScript (h : Host) : ∀ i ∈ forwardScript h, Plain i := by
  intro i hi
  obtain ⟨undo, rfl⟩ := mem_forwardScript hi
  exact .installPut _ _ _

/-- So are the iptables rules. -/
theorem plain_masqScript (entries : List Argv) : ∀ i ∈ masqScript entries, Plain i := by
  intro i hi
  obtain ⟨e, -, hi⟩ := List.mem_flatMap.mp hi
  rcases List.mem_cons.mp hi with rfl | hi
  · exact .attemptRemove _ _
  · rw [List.mem_singleton.mp hi]
    exact .installAdd _ _ _

/-- `apply` attempts removals and flushes, and installs additions. -/
theorem Installable.plain (hp : Installable cfg wans p) (files : String → Except String String)
    (wait : Bool) (h : Host) :
    ∀ i ∈ applyScript files wait p h, Plain i := by
  intro i hi
  rw [applyScript, hp.routeScript_eq] at hi
  simp only [List.mem_append] at hi
  rcases hi with (hi | hi) | ((((hi | hi) | hi) | hi) | hi)
  · exact plain_forwardScript h i hi
  · obtain ⟨t, -, rfl | rfl⟩ := mem_flushScript.mp hi
    · exact .attemptPut _ _
    · exact .defer _
  · obtain ⟨e, -, rfl⟩ := List.mem_map.mp hi
    exact .installAdd _ _ _
  · exact plain_reasserts i hi
  · exact plain_reasserts i hi
  · exact plain_masqScript _ i hi
  · obtain ⟨g, -, hi⟩ := List.mem_flatMap.mp hi
    rcases mem_geoScript hi with rfl | rfl | ⟨route, rfl⟩
    · exact .attemptPut _ _
    · exact .abort
    · exact .installAdd _ _ _

/-! ### The commands for a place -/

/-- Other places are left alone. -/
theorem changesAt_forwardScript (h : Host) {place : Place} (hne : place ≠ .forward) :
    changesAt place (forwardScript h) = [] := by
  refine List.flatMap_eq_nil_iff.mpr fun i hi => ?_
  obtain ⟨undo, rfl⟩ := mem_forwardScript hi
  simp [Instr.changeAt, setIPForward, Change.place?, hne.symm]

/-- Other tables are left alone. -/
theorem changesAt_flushScript {tables : List Nat} {place : Place}
    (hne : ∀ t ∈ tables, .table t ≠ place) : changesAt place (flushScript tables) = [] := by
  refine List.flatMap_eq_nil_iff.mpr fun i hi => ?_
  obtain ⟨t, ht, rfl | rfl⟩ := mem_flushScript.mp hi
  · simp [Instr.changeAt, Change.place?, hne t ht]
  · rfl

/-- The flushes of a table, one by one. -/
theorem changesAt_flushScript_cons (t u : Nat) (tables : List Nat) :
    changesAt (.table t) (flushScript (u :: tables)) =
      (if u = t then [.put (.table u) []] else []) ++
        changesAt (.table t) (flushScript tables) := by
  simp [changesAt, flushScript, Instr.changeAt, Change.place?]

/-- Default routes go to their tables. -/
theorem changesAt_egressScript {egresses : List (String × Nat)} {place : Place}
    (hne : ∀ e ∈ egresses, .table (tableEgressBase + e.2) ≠ place) :
    changesAt place (egressScript wans egresses) = [] := by
  refine List.flatMap_eq_nil_iff.mpr fun i hi => ?_
  obtain ⟨e, he, rfl⟩ := List.mem_map.mp hi
  simp [Instr.changeAt, Change.place?, hne e he]

/-- Geo routes go to their tables. -/
theorem changesAt_geoScripts {geo : List GeoBinding} {place : Place}
    (hne : ∀ g ∈ geo, .table g.table ≠ place) :
    changesAt place (geo.flatMap (geoScript files)) = [] := by
  refine List.flatMap_eq_nil_iff.mpr fun i hi => ?_
  obtain ⟨g, hg, hi⟩ := List.mem_flatMap.mp hi
  rcases mem_geoScript hi with rfl | rfl | ⟨route, rfl⟩
  · simp [Instr.changeAt, Change.place?, hne g hg]
  · rfl
  · simp [Instr.changeAt, Change.place?, hne g hg]

/-- At a place that is neither `ip_forward` nor a table of the plan, `apply` reinstalls entries. -/
theorem Installable.changesAt_eq (hp : Installable cfg wans p) (hfree : FlagFree cfg wans)
    (h : Host) {place : Place} (hputs : ¬ p.Puts place) :
    changesAt place (applyScript files wait p h) =
      changesAt place (reasserts (.table tableMain) p.mainEntries) ++
        changesAt place (reasserts .rules p.ruleEntries) ++
        changesAt place (reasserts .iptables p.iptablesEntries) := by
  have hforward : place ≠ .forward := by
    rintro rfl
    exact hputs trivial
  have htable : ∀ t ∈ p.tables, .table t ≠ place := by
    rintro t ht rfl
    exact hputs ht
  rw [applyScript, hp.routeScript_eq, hp.masqScript_eq hfree]
  simp only [changesAt_append]
  rw [changesAt_forwardScript h hforward, changesAt_flushScript htable,
    changesAt_egressScript fun e he => htable _ (hp.routed e he),
    changesAt_geoScripts fun g hg => htable _ (hp.geo g hg)]
  simp

/-- So it does with the plan's entries of the place. -/
theorem Installable.changesAt_own (hp : Installable cfg wans p) (hfree : FlagFree cfg wans)
    (h : Host) {place : Place} (hputs : ¬ p.Puts place) :
    changesAt place (applyScript files wait p h) = pairs place (p.own place) := by
  rw [hp.changesAt_eq hfree h hputs]
  cases place with
  | forward => exact absurd trivial hputs
  | rules | iptables =>
    rw [changesAt_reasserts, changesAt_reasserts_ne (by simp), changesAt_reasserts_ne (by simp)]
    simp [Plan.own]
  | table t =>
    by_cases ht : t = tableMain
    · subst ht
      rw [changesAt_reasserts, changesAt_reasserts_ne (by simp),
        changesAt_reasserts_ne (by simp)]
      simp [Plan.own]
    · rw [changesAt_reasserts_ne (by simpa using Ne.symm ht), changesAt_reasserts_ne (by simp),
        changesAt_reasserts_ne (by simp)]
      simp [Plan.own, ht, pairs]

/-- Each main route of a plan deletes an earlier one to its destination. -/
def Plan.Consistent (p : Plan) : Prop :=
  p.mainEntries.Pairwise fun x y => x.head? = y.head? → picks (.table tableMain) y x = true

/-- The part of `apply` up to the main routes. -/
def mainScript (wans : String → Wan) (cfg : Node) (p : Plan) (h : Host) : List (Instr Place Argv) :=
  forwardScript h ++ flushScript p.tables ++
    (egressScript wans cfg.egresses.sortedKeys.zipIdx ++ reasserts (.table tableMain) p.mainEntries)

/-- What comes after the main routes. -/
theorem Installable.applyScript_eq (hp : Installable cfg wans p) (wait : Bool) (h : Host) :
    applyScript files wait p h = mainScript wans cfg p h ++
      (reasserts .rules p.ruleEntries ++ masqScript p.iptablesEntries ++
        p.geo.flatMap (geoScript files)) := by
  rw [applyScript, hp.routeScript_eq, mainScript]
  simp only [List.append_assoc]

/-- A machine with forwarding enabled and nothing else. -/
def blank : Host
  | .forward => [["1"]]
  | .table _ | .rules | .iptables => []

/-- A blank machine is clean for every plan. -/
theorem cleanFor_blank (p : Plan) : CleanFor p blank where
  forward := ⟨"1", by decide, rfl⟩
  tables _ _ := rfl
  mainRoutes _ _ _ hroute := absurd hroute List.not_mem_nil
  rules _ _ _ hrule := absurd hrule List.not_mem_nil
  iptables _ _ := List.not_mem_nil

/-- Other places are left alone. -/
theorem changesAt_masqScript {entries : List Argv} {place : Place} (hne : .iptables ≠ place) :
    changesAt place (masqScript entries) = [] := by
  simp [changesAt, masqScript, Instr.changeAt, Change.place?, List.flatMap_assoc, hne]

/-- The iptables rules, one by one. -/
theorem changesAt_masqScript_cons (x : Argv) (entries : List Argv) :
    changesAt .iptables (masqScript (x :: entries)) =
      .remove .iptables (flipAppendToDelete x) :: .add .iptables x ::
        changesAt .iptables (masqScript entries) := by
  simp [changesAt, masqScript, Instr.changeAt, Change.place?]

/-- The loops of `apply` before the geo sets. -/
def installScript (wans : String → Wan) (cfg : Node) (p : Plan) (h : Host) :
    List (Instr Place Argv) :=
  mainScript wans cfg p h ++ (reasserts .rules p.ruleEntries ++ masqScript p.iptablesEntries)

/-- The routes of the egress loop are admitted: each is the only one of its table. -/
theorem admittedAlong_egressScript (t : Nat) (names : List String) (i : Nat) :
    AdmittedAlong machine (changesAt (.table t) (egressScript wans (names.zipIdx i))) [] := by
  induction names generalizing i with
  | nil => trivial
  | cons name names ih =>
    have hcons : changesAt (.table t) (egressScript wans ((name :: names).zipIdx i)) =
        (if tableEgressBase + i = t then
          [.add (.table t) ("default" :: nextHop (wans name).gw (wans name).dev)] else []) ++
        changesAt (.table t) (egressScript wans (names.zipIdx (i + 1))) := by
      by_cases ht : tableEgressBase + i = t <;>
        simp [changesAt, egressScript, List.zipIdx_cons, Instr.changeAt, Change.place?, ht]
    rw [hcons]
    by_cases ht : tableEgressBase + i = t
    · -- the later egresses have later tables
      have hlater : changesAt (.table t) (egressScript wans (names.zipIdx (i + 1))) = [] := by
        refine changesAt_egressScript fun e he heq => ?_
        have hle := List.le_snd_of_mem_zipIdx he
        cases heq
        omega
      rw [hlater, if_pos ht, List.append_nil]
      refine ⟨fun place entry heq => ?_, trivial⟩
      cases heq
      rfl
    · rw [if_neg ht, List.nil_append]
      exact ih (i + 1)

/-- Flushes can be run, and leave an empty table empty. -/
theorem admittedAlong_flushScript (t : Nat) (tables : List Nat) :
    AdmittedAlong machine (changesAt (.table t) (flushScript tables)) [] ∧
      (changesAt (.table t) (flushScript tables)).foldl (Change.effect machine) [] = [] := by
  induction tables with
  | nil => exact ⟨trivial, rfl⟩
  | cons u tables ih =>
    rw [changesAt_flushScript_cons]
    by_cases hu : u = t
    · rw [if_pos hu]
      exact ⟨⟨by simp, ih.1⟩, ih.2⟩
    · rwa [if_neg hu]

/-- iptables rules can always be added. -/
theorem admittedAlong_masqScript (entries l : List Argv) :
    AdmittedAlong machine (changesAt .iptables (masqScript entries)) l := by
  induction entries generalizing l with
  | nil => trivial
  | cons x entries ih =>
    rw [changesAt_masqScript_cons]
    refine ⟨by simp, fun place entry heq => ?_, ih _⟩
    cases heq
    rfl

/-- It is plain, too. -/
theorem Installable.plain_installScript (hp : Installable cfg wans p) :
    ∀ i ∈ installScript wans cfg p h, Plain i := by
  intro i hi
  refine hp.plain (fun _ => .ok "") false h i ?_
  rw [hp.applyScript_eq, ← List.append_assoc]
  exact List.mem_append_left _ hi

/-- On a blank machine a plan whose main routes do not contradict each other gets to its end,
but for the geo sets. -/
theorem Installable.installs (hp : Installable cfg wans p) (hcons : p.Consistent)
    (hrules : p.RulesApart) :
    ∃ q, exec machine (fun _ => false) (installScript wans cfg p blank) { store := blank } =
      .ok q := by
  have hforward : forwardScript blank = [] := rfl
  have hfits := hrules.fits (cleanFor_blank p)
  have habort : .abort ∉ installScript wans cfg p blank := by
    simp [installScript, mainScript, hforward, flushScript, egressScript, reasserts, masqScript]
  refine exec_succeeds hp.plain_installScript habort fun place => ?_
  simp only [installScript, mainScript, changesAt_append, hforward]
  rw [show changesAt place [] = [] from rfl, List.nil_append]
  cases place with
  | forward =>
    rw [changesAt_flushScript (by simp), changesAt_egressScript (by simp),
      changesAt_reasserts_ne (by simp), changesAt_reasserts_ne (by simp),
      changesAt_masqScript (by simp)]
    trivial
  | rules =>
    rw [changesAt_flushScript (by simp), changesAt_egressScript (by simp),
      changesAt_reasserts_ne (by simp), changesAt_reasserts, changesAt_masqScript (by simp)]
    simp only [List.append_nil, List.nil_append]
    refine admittedAlong_pairs (hfits.apart .rules id) (fun _ _ => True)
      (fun x _ l _ hl => ?_) (List.Subset.refl _) (by simp [List.pairwise_iff_getElem])
      (List.nil_subset _) (by simp [AtMostOne, blank]) (by simp [blank])
    have hx : x ∉ l := fun hmem => by simpa [machine.picks_self] using (hl x hmem).2
    simpa [machine, admits] using hx
  | iptables =>
    rw [changesAt_flushScript (by simp), changesAt_egressScript (by simp),
      changesAt_reasserts_ne (by simp), changesAt_reasserts_ne (by simp)]
    exact admittedAlong_masqScript _ _
  | table t =>
    rw [changesAt_reasserts_ne (q := Place.rules) (by simp), changesAt_masqScript (by simp)]
    by_cases ht : t = tableMain
    · subst ht
      rw [changesAt_flushScript hp.table_ne_main,
        changesAt_egressScript fun e he => hp.table_ne_main _ (hp.routed e he),
        changesAt_reasserts]
      simp only [List.append_nil, List.nil_append]
      refine admittedAlong_pairs (hfits.apart (.table tableMain) hp.main_not_mem) _
        (fun x hx l hl hbefore => admits_table.mpr fun r hr hhead => ?_) (List.Subset.refl _) hcons
        (List.nil_subset _) (by simp [AtMostOne, blank]) (by simp [blank])
      obtain ⟨hpicks, hnot⟩ := hbefore r hr
      exact absurd (hpicks hhead) (by simpa [machine] using hnot)
    · obtain ⟨hflush, hempty⟩ := admittedAlong_flushScript t p.tables
      rw [changesAt_reasserts_ne (by simpa using Ne.symm ht)]
      simp only [List.append_nil]
      refine admittedAlong_append.mpr ⟨hflush, ?_⟩
      rw [show blank (.table t) = [] from rfl, hempty]
      exact admittedAlong_egressScript t _ 0

end Script

end Dualnet.Kernel
