import Dualnet.Kernel.Emitted
import Dualnet.Kernel.Host

/-!
# Installing a plan

`apply` and its teardown, as a script over the machine's state. Every installing command may
fail; deletions and flushes of what is there do not. `UndoesItself` is what `apply` promises
for a plan, and `installable_of_lower` the form of the plans it is given.
-/

namespace Dualnet.Kernel

open Library Text Config

/-- `withVerb`. -/
def withVerb (argv : Argv) (verb : String) : Argv :=
  if 3 ≤ argv.length then argv.set 2 verb else argv

/-- `flipAppendToDelete`. -/
def flipAppendToDelete (rule : Argv) : Argv :=
  rule.map fun a => if a = "-A" ∨ a = "-I" then "-D" else a

/-- `iptablesCmd`; `wait` is what `iptablesSupportsWait` found. -/
def iptablesCmd (wait : Bool) (rule : Argv) : Argv :=
  (if wait then ["iptables", "-w"] else ["iptables"]) ++ rule

/-- The value of `ip_forward`, empty when it cannot be read. -/
def Host.ipForward (h : Host) : String := ((h .forward).headD []).headD ""

/-- `setIPForward` as a change. -/
def setIPForward (v : String) : Change Place Argv := .put .forward [[v]]

section Apply

variable (files : String → Except String String) (wait : Bool)

/-- Enable forwarding; the previous value is restored if there was one and it changed. -/
def forwardScript (h : Host) : List (Instr Place Argv) :=
  let prev := h.ipForward
  if prev = "1" then []
  else [.install (setIPForward "1") (if prev = "" then none else some (setIPForward prev))]

/-- Flush the tables of a plan, now and on teardown. -/
def flushScript (tables : List Nat) : List (Instr Place Argv) :=
  tables.flatMap fun t => [.attempt (command (flushTable t)), .defer (command (flushTable t))]

/-- Delete a leaked copy, add, and undo individually. -/
def addScript (del add : Argv) : List (Instr Place Argv) :=
  [.attempt (command del), .install (command add) (some (command del))]

/-- `loadGeo`; a route that was added is left to the flush of its table. -/
def geoScript (g : GeoBinding) : List (Instr Place Argv) :=
  .attempt (command (flushTable g.table)) :: match readPrefixes files g.set with
    | .error _ => [.abort]
    | .ok prefixes => prefixes.map fun cidr => .install (command (geoRoute cidr g.wan g.table)) none

/-- The loops of `apply` before the one over the geo sets. -/
def routeScript (p : Plan) : List (Instr Place Argv) :=
  (p.tableRoutes.map fun rt => .install (command rt) none) ++
    p.mainRoutes.flatMap (fun rt => addScript (withVerb rt "del") rt) ++
    p.rules.flatMap (fun ru => addScript (withVerb ru "del") ru) ++
    p.iptables.flatMap fun ipt =>
      addScript (iptablesCmd wait (flipAppendToDelete ipt)) (iptablesCmd wait ipt)

/-- What `apply` runs on a machine. -/
def applyScript (p : Plan) (h : Host) : List (Instr Place Argv) :=
  forwardScript h ++ flushScript p.tables ++ (routeScript wait p ++ p.geo.flatMap (geoScript files))

/-- `apply`: the machine it leaves and, if it succeeds, its teardown; `refuses k` makes the
`k`-th installing command fail. -/
def Host.apply (refuses : Nat → Bool) (p : Plan) (h : Host) :
    Host × Option (List (Change Place Argv)) :=
  runScript machine refuses (applyScript files wait p h) h

end Apply

/-- An iptables rule without the flag that says what to do with it. -/
def iptablesRule : Argv → Argv
  | "-t" :: table :: _ :: rule => "-t" :: table :: rule
  | _ :: rule => rule
  | [] => []

/-- A machine whose `ip_forward` can be read and that holds nothing of a plan, nor anything that a
deletion of the plan would take. -/
structure CleanFor (p : Plan) (h : Host) : Prop where
  forward : ∃ v, v ≠ "" ∧ h .forward = [[v]]
  tables : ∀ t ∈ p.tables, h (.table t) = []
  /-- No route goes to the destination of a main route. -/
  mainRoutes : ∀ rt ∈ p.mainRoutes, ∀ route ∈ h (.table tableMain), rt[3]? ≠ route.head?
  rules : ∀ ru ∈ p.rules, ∀ rule ∈ h .rules, picks .rules (ru.drop 3) rule = false
  iptables : ∀ ipt ∈ p.iptables, iptablesRule ipt ∉ h .iptables

/-- On a machine that refuses nothing, installing the lines of a batch is running it. -/
theorem exec_batch (lines : List Argv) (q : Progress Place Argv) :
    match exec machine (fun _ => false) (lines.map fun line => .install (command line) none) q with
    | .ok q' => runBatch lines q.store = (q'.store, .ok ())
    | .error q' => ∃ e, runBatch lines q.store = (q'.store, .error e) := by
  induction lines generalizing q with
  | nil => rfl
  | cons line lines ih =>
    rw [List.map_cons, exec, List.foldlM_cons, runBatch]
    cases hperform : (command line).perform machine q.store with
    | none => simp [Instr.exec, hperform, bind, Except.bind]
    | some store =>
      simpa [Instr.exec, exec, hperform, bind, Except.bind] using
        ih ⟨store, q.chain, q.installs + 1⟩

/-- And the script of a geo set does what `loadGeo` does. -/
theorem exec_geoScript (files : String → Except String String) (g : GeoBinding)
    (q : Progress Place Argv) :
    match exec machine (fun _ => false) (geoScript files g) q with
    | .ok q' => Host.loadGeo files g q.store = (q'.store, .ok ())
    | .error q' => ∃ e, Host.loadGeo files g q.store = (q'.store, .error e) := by
  have hflush : (Instr.attempt (command (flushTable g.table))).exec machine (fun _ => false) q =
      .ok { q with store := Function.update q.store (.table g.table) [] } := by
    simp [Instr.exec]
  rw [geoScript, exec, List.foldlM_cons, hflush]
  cases hread : readPrefixes files g.set with
  | error e => exact ⟨e, loadGeo_error hread⟩
  | ok prefixes =>
    rw [loadGeo_ok hread]
    have hbatch := exec_batch (prefixes.map fun cidr => geoRoute cidr g.wan g.table)
      { q with store := Function.update q.store (.table g.table) [] }
    rw [List.map_map] at hbatch
    exact hbatch

/-! ## What the commands of a plan change -/

/-- A command that adds a policy rule with a priority. -/
def RuleCommand (argv : Argv) : Prop :=
  ∃ prio rest, argv = "ip" :: "rule" :: "add" :: "priority" :: itoa prio :: rest ∧
    ∀ val, ("priority", val) ∉ given rest

/-- The rule on the main table. -/
theorem ruleCommand_main (prio : Nat) : RuleCommand (ruleMainSuppress prio) :=
  ⟨prio, _, rfl, by simp [given]⟩

/-- A source rule. -/
theorem ruleCommand_from (prio : Nat) (cidr : String) (table : Nat) :
    RuleCommand (ruleFrom prio cidr table) := by
  refine ⟨prio, _, rfl, fun val => ?_⟩
  by_cases hcidr : cidr = "all" ∨ cidr = "0.0.0.0/0" <;> simp [given, hcidr]

/-- Any other rule. -/
theorem ruleCommand_lookup (prio table : Nat) : RuleCommand (ruleLookup prio "" table) :=
  ⟨prio, _, rfl, by simp [given]⟩

/-- What a main route adds and deletes. -/
theorem MainCommand.command_eq {rt : Argv} (h : MainCommand rt) :
    command rt = .add (.table tableMain) (rt.drop 3) ∧
      command (withVerb rt "del") = .remove (.table tableMain) (rt.drop 3) := by
  obtain ⟨dst, gw, dev, rfl⟩ := h
  exact ⟨command_main "add" dst gw dev, command_main "del" dst gw dev⟩

/-- What a rule adds and deletes. -/
theorem RuleCommand.command_eq {ru : Argv} (h : RuleCommand ru) :
    command ru = .add .rules (ru.drop 3) ∧
      command (withVerb ru "del") = .remove .rules (ru.drop 3) := by
  obtain ⟨prio, rest, rfl, -⟩ := h
  exact ⟨rfl, rfl⟩

/-- The iptables rules of a device. -/
theorem mem_masqRules {ipt : Argv} {dev : String} {lans : List String} :
    ipt ∈ masqRules dev lans ↔
      ipt = ["-t", "nat", "-A", "POSTROUTING", "-o", dev, "-j", "MASQUERADE"] ∨
      (∃ lan ∈ lans, ipt = ["-A", "FORWARD", "-i", lan, "-o", dev, "-j", "ACCEPT"] ∨
        ipt = ["-A", "FORWARD", "-i", dev, "-o", lan, "-m", "conntrack", "--ctstate",
          "RELATED,ESTABLISHED", "-j", "ACCEPT"]) ∨
      ipt = ["-t", "mangle", "-A", "FORWARD", "-o", dev, "-p", "tcp", "--tcp-flags", "SYN,RST",
        "SYN", "-j", "TCPMSS", "--clamp-mss-to-pmtu"] := by
  simp [masqRules]

/-- The delete form of a rule deletes the rule with every flag replaced, not only the first. -/
theorem command_masq (wait : Bool) {ipt : Argv} {dev : String} {lans : List String}
    (h : ipt ∈ masqRules dev lans) :
    command (iptablesCmd wait ipt) = .add .iptables (iptablesRule ipt) ∧
      command (iptablesCmd wait (flipAppendToDelete ipt)) =
        .remove .iptables (flipAppendToDelete (iptablesRule ipt)) := by
  rcases mem_masqRules.mp h with rfl | ⟨lan, -, rfl | rfl⟩ | rfl <;>
    cases wait <;> exact ⟨rfl, rfl⟩

/-! ## The plans `lower` makes -/

/-- The form of a lowered plan, whatever the config. -/
structure Installable (cfg : Node) (wans : String → Wan) (p : Plan) : Prop where
  tables : ∀ t ∈ p.tables, tableEgressBase ≤ t
  tableRoutes : p.tableRoutes = cfg.egresses.sortedKeys.zipIdx.map fun e =>
    defaultRoute (wans e.1) (tableEgressBase + e.2)
  routed : ∀ e ∈ cfg.egresses.sortedKeys.zipIdx, tableEgressBase + e.2 ∈ p.tables
  mainRoutes : ∀ rt ∈ p.mainRoutes, MainCommand rt
  rules : ∀ ru ∈ p.rules, RuleCommand ru
  iptables : p.iptables =
    cfg.egresses.sortedKeys.flatMap fun name => masqRules (wans name).dev cfg.lanIfaces
  geo : ∀ g ∈ p.geo, g.table ∈ p.tables

section Lower

variable {files : String → Except String String} {cfg : Node} {wans : String → Wan}

/-- Pinning a route adds no iptables rule. -/
theorem pinEndpoint_iptables {st st' : EgressState} {ep : Option UnderlayRoute}
    (h : pinEndpoint st ep = .ok st') : st'.plan.iptables = st.plan.iptables := by
  unfold pinEndpoint at h
  split at h
  next =>
    cases h
    rfl
  next =>
    split at h
    next =>
      simp only [bind_eq_ok, reject_eq_ok, exists_const, pure_eq_ok] at h
      obtain ⟨-, rfl⟩ := h
      rfl
    next =>
      cases h
      rfl

/-- The egress loop masquerades every egress. -/
theorem lowerEgresses_iptables {names : List String} {i : Nat} {st st' : EgressState}
    (h : (names.zipIdx i).foldlM (lowerEgress cfg wans) st = .ok st') :
    st'.plan.iptables =
      st.plan.iptables ++ names.flatMap fun name => masqRules (wans name).dev cfg.lanIfaces := by
  induction names generalizing i st with
  | nil =>
    rw [List.zipIdx_nil, List.foldlM_nil, pure_eq_ok] at h
    simp [h]
  | cons name names ih =>
    rw [List.zipIdx_cons, List.foldlM_cons, bind_eq_ok] at h
    obtain ⟨next, hstep, hrest⟩ := h
    rw [ih hrest, pinEndpoint_iptables hstep, List.flatMap_cons, List.append_assoc]

/-- One more rule. -/
theorem Installable.rules_concat {p : Plan} (h : Installable cfg wans p) {ru : Argv}
    (hru : RuleCommand ru) : ∀ r ∈ p.rules ++ [ru], RuleCommand r := by
  intro r hr
  rcases List.mem_append.mp hr with hr | hr
  · exact h.rules r hr
  · rwa [List.mem_singleton.mp hr]

/-- A source prefix adds a rule and at most an on-link route. -/
theorem Installable.leg {st : BranchState} (h : Installable cfg wans st.plan) (table : Nat)
    (lan ip : String) : Installable cfg wans (lowerLeg table lan st ip).plan := by
  refine ⟨h.tables, h.tableRoutes, h.routed, fun rt hrt => ?_, h.rules_concat (ruleCommand_from _ _ _),
    h.iptables, h.geo⟩
  rcases List.mem_append.mp hrt with hrt | hrt
  · exact h.mainRoutes rt hrt
  · split at hrt
    · rw [List.mem_singleton.mp hrt]
      exact mainCommand_onLinkRoute ip lan
    · cases hrt

/-- The branch loop keeps the form of the plan. -/
theorem Installable.branch {egTable : FMap String Nat} {conds : FMap String Condition}
    {lan : String} {st st' : BranchState} {f : Forward} (h : Installable cfg wans st.plan)
    (hstep : lowerBranch files wans egTable conds lan st f = .ok st') :
    Installable cfg wans st'.plan := by
  have hlegs : ∀ (table : Nat) (ips : List String) (st : BranchState),
      Installable cfg wans st.plan →
      Installable cfg wans (ips.foldl (lowerLeg table lan) st).plan := by
    intro table ips
    induction ips with
    | nil => exact fun st h => h
    | cons ip ips ih => exact fun st h => ih _ (h.leg table lan ip)
  unfold lowerBranch at hstep
  split at hstep
  next =>
    cases hstep
    exact ⟨h.tables, h.tableRoutes, h.routed, h.mainRoutes,
      h.rules_concat (ruleCommand_lookup _ _), h.iptables, h.geo⟩
  next name _ _ =>
    dsimp only at hstep
    split at hstep
    next set _ _ =>
      simp only [bind_eq_ok, pure_eq_ok] at hstep
      obtain ⟨ips, -, rfl⟩ := hstep
      exact hlegs _ _ _ h
    next set _ _ =>
      cases hstep
      have hmem : ∀ t ∈ st.plan.tables, t ∈ st.plan.tables ++ [tableGeoBase + st.dstIdx] :=
        fun t ht => List.mem_append_left _ ht
      refine ⟨?_, h.tableRoutes, fun e he => hmem _ (h.routed e he), h.mainRoutes,
        h.rules_concat (ruleCommand_lookup _ _), h.iptables, ?_⟩
      · intro t ht
        rcases List.mem_append.mp ht with ht | ht
        · exact h.tables t ht
        · rw [List.mem_singleton.mp ht, tableEgressBase, tableGeoBase]
          omega
      · intro g hg
        rcases List.mem_append.mp hg with hg | hg
        · exact hmem _ (h.geo g hg)
        · rw [List.mem_singleton.mp hg]
          exact List.mem_append_right _ List.mem_cons_self
    next => cases hstep

/-- Every plan `lower` makes has the form. -/
theorem installable_of_lower {p : Plan} (h : lower files cfg wans = .ok p) :
    Installable cfg wans p := by
  simp only [lower, bind_eq_ok, pure_eq_ok] at h
  obtain ⟨eg, hegress, st, hbranches, rfl⟩ := h
  obtain ⟨heg, -, -⟩ := lowerEgresses_eq_ok (FMap.nodup_sortedKeys _) hegress
  have htables := heg.tables_eq
  rw [List.nil_append] at htables
  have hstart : Installable cfg wans
      { eg.plan with rules := eg.plan.rules ++ [ruleMainSuppress prioMain] } := by
    refine ⟨?_, by simpa using heg.tableRoutes_eq, ?_, heg.mainRoutes (by simp), ?_,
      by simpa using lowerEgresses_iptables hegress, ?_⟩
    · intro t ht
      simp only [htables, List.mem_map] at ht
      obtain ⟨e, -, rfl⟩ := ht
      exact Nat.le_add_right _ _
    · intro e he
      simpa [htables] using ⟨e.1, he⟩
    · intro ru hru
      have hrules := heg.rules_eq
      simp only [hrules, List.nil_append, List.mem_singleton] at hru
      exact hru ▸ ruleCommand_main prioMain
    · simp [heg.geo_eq]
  exact foldlM_invariant (fun st => Installable cfg wans st.plan)
    (fun f _ st st' hstep hst => hst.branch hstep) hbranches hstart

end Lower

end Dualnet.Kernel
