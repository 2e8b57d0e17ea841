import Dualnet.Kernel.Linux
import Dualnet.Library.Scripts

/-!
# The machine a kernel node programs

What the commands of `kernelnode/run_linux.go` change: the routing tables, the policy rules,
the iptables rules and the forwarding switch, each an ordered list of entries. An entry is
what an `add` command names, without the verb. `iptables -D` removes exactly what it names; `ip
route del` removes the first route to the destination that has the attributes given, and `ip rule
del` the first rule that has the selectors given. `ip -batch` gets its lines as argument vectors.

The second half is `loadGeo`, which replaces the routes of a geo table.
-/

namespace Dualnet.Kernel

open Library Text Config

/-- A part of the machine's state. -/
inductive Place where
  /-- `/proc/sys/net/ipv4/ip_forward`: its value, or nothing when it cannot be read. -/
  | forward
  | table (n : Nat)
  | rules
  | iptables
  deriving DecidableEq

/-- The machine's state. -/
abbrev Host := Store Place Argv

/-- Which entries can be added: a table holds one route for a destination, and a rule is there
once; iptables takes a rule any number of times. -/
def admits : Place → List Argv → Argv → Bool
  | .table _, held, route => held.all fun r => r.head? != route.head?
  | .rules, held, rule => !held.contains rule
  | .iptables, _, _ | .forward, _, _ => true

/-- Fewer entries admit as much. -/
theorem admits_mono {place : Place} {l l' : List Argv} {x : Argv} (hl : l' ⊆ l)
    (h : admits place l x = true) : admits place l' x = true := by
  cases place with
  | table n =>
    rw [admits, List.all_eq_true] at h ⊢
    exact fun r hr => h r (hl hr)
  | rules =>
    simp only [admits, Bool.not_eq_true', List.contains_eq_mem, decide_eq_false_iff_not] at h ⊢
    exact fun hx => h (hl hx)
  | forward | iptables => rfl

/-- The attributes that a route or a rule is given; any source will do for `from all`. -/
def given : Argv → List (String × String)
  | key :: val :: rest =>
    if key = "from" ∧ (val = "all" ∨ val = "0.0.0.0/0") then given rest
    else (key, val) :: given rest
  | _ => []

/-- Which entries a deletion is about. -/
def picks : Place → Argv → Argv → Bool
  | .table _, route, held =>
    route.head? == held.head? && (given route.tail).all (given held.tail).contains
  | .rules, rule, held => (given rule).all (given held).contains
  | .iptables, rule, held | .forward, rule, held => rule == held

/-- An entry is deleted for itself. -/
theorem picks_self (place : Place) (x : Argv) : picks place x x = true := by
  cases place <;> simp [picks]

/-- How the machine takes commands. -/
def machine : System Place Argv := ⟨admits, picks, admits_mono, picks_self⟩

/-! ## Commands -/

/-- The next-hop options of a route command, and its table if it names one. -/
def splitTable : Argv → Argv × Option String
  | key :: val :: rest =>
    let (hop, table) := splitTable rest
    if key = "table" then (hop, some val) else (key :: val :: hop, table)
  | rest => (rest, none)

/-- The table of a route command. -/
def routeTable : Option String → Option Nat
  | none => some tableMain
  | some arg => decimal? arg.toList

/-- An addition or a removal, by the verb of the command. -/
def byVerb (verb added removed : String) (place : Place) (entry : Argv) : Change Place Argv :=
  if verb = added then .add place entry
  else if verb = removed then .remove place entry
  else .unknown

/-- An iptables command: the flag that says what to do, and the rule without it. -/
def iptablesChange : Argv → Change Place Argv
  | "-t" :: table :: flag :: rule => byVerb flag "-A" "-D" .iptables ("-t" :: table :: rule)
  | flag :: rule => byVerb flag "-A" "-D" .iptables rule
  | [] => .unknown

/-- What a command changes. -/
def command : Argv → Change Place Argv
  | ["ip", "route", "flush", "table", arg] => match decimal? arg.toList with
      | none => .unknown
      | some n => .put (.table n) []
  | "ip" :: "route" :: verb :: dst :: options =>
    let (hop, arg) := splitTable options
    match routeTable arg with
    | none => .unknown
    | some n => byVerb verb "add" "del" (.table n) (dst :: hop)
  | "ip" :: "rule" :: verb :: selectors => byVerb verb "add" "del" .rules selectors
  | "iptables" :: "-w" :: args | "iptables" :: args => iptablesChange args
  | _ => .unknown

/-- `ip route flush table`. -/
def flushTable (table : Nat) : Argv := ["ip", "route", "flush", "table", itoa table]

/-- A flush empties its table. -/
@[simp] theorem command_flushTable (table : Nat) :
    command (flushTable table) = .put (.table table) [] := by
  simp [command, flushTable, decimal_itoa]

/-- No table is named. -/
theorem splitTable_nextHop (gw dev : String) :
    splitTable (nextHop gw dev) = (nextHop gw dev, none) := by
  by_cases hgw : gw = "" <;> simp [nextHop, hgw, splitTable]

/-- The table that is named. -/
theorem splitTable_nextHop_table (gw dev table : String) :
    splitTable (nextHop gw dev ++ ["table", table]) = (nextHop gw dev, some table) := by
  by_cases hgw : gw = "" <;> simp [nextHop, hgw, splitTable]

/-- A route command without a table is about the main table. -/
theorem command_main (verb dst gw dev : String) :
    command (["ip", "route", verb, dst] ++ nextHop gw dev) =
      byVerb verb "add" "del" (.table tableMain) (dst :: nextHop gw dev) := by
  have hsplit := splitTable_nextHop gw dev
  by_cases hgw : gw = "" <;> simp_all [nextHop, command, routeTable]

/-- A route command with a table is about that table. -/
theorem command_table (verb dst gw dev : String) (table : Nat) :
    command (["ip", "route", verb, dst] ++ nextHop gw dev ++ ["table", itoa table]) =
      byVerb verb "add" "del" (.table table) (dst :: nextHop gw dev) := by
  have hsplit := splitTable_nextHop_table gw dev (itoa table)
  by_cases hgw : gw = "" <;> simp_all [nextHop, command, routeTable, decimal_itoa]

/-- A geo route goes to its table. -/
@[simp] theorem command_geoRoute (cidr : String) (w : Wan) (table : Nat) :
    command (geoRoute cidr w table) = .add (.table table) (cidr :: nextHop w.gw w.dev) :=
  command_table "add" cidr w.gw w.dev table

/-- So does a default route. -/
@[simp] theorem command_defaultRoute (w : Wan) (table : Nat) :
    command (defaultRoute w table) = .add (.table table) ("default" :: nextHop w.gw w.dev) :=
  command_table "add" "default" w.gw w.dev table

/-! ## Reloading a geo set -/

/-- `runBatch`: the lines are run in order, up to the first that fails. -/
def runBatch : List Argv → Host → Host × Except String Unit
  | [], h => (h, .ok ())
  | line :: lines, h => match (command line).perform machine h with
      | none => (h, .error ("ip -batch: exit status 1: Command failed: " ++ showList line))
      | some h' => runBatch lines h'

/-- `loadGeo`: flush the geo table, then add a route for each prefix of the set. -/
def Host.loadGeo (files : String → Except String String) (g : GeoBinding) (h : Host) :
    Host × Except String Unit :=
  -- the error of the flush is ignored
  let h := (command (flushTable g.table)).attempted machine h
  match readPrefixes files g.set with
  | .error e => (h, .error e)
  | .ok [] => (h, .ok ())
  | .ok prefixes => runBatch (prefixes.map fun cidr => geoRoute cidr g.wan g.table) h

/-- The route of a prefix in a geo table, as the table holds it. -/
def GeoBinding.route (g : GeoBinding) (cidr : String) : Argv :=
  cidr :: nextHop g.wan.gw g.wan.dev

/-- A reload that is atomic and accepts every valid file. -/
structure ReloadsAtomically (files : String → Except String String) (g : GeoBinding) (h : Host) :
    Prop where
  /-- After a reload the table has one route for each prefix of the set. -/
  loaded : (h.loadGeo files g).2 = .ok () →
    ((h.loadGeo files g).1 (.table g.table)).Nodup ∧
      ∃ prefixes, readPrefixes files g.set = .ok prefixes ∧
        ∀ route, route ∈ (h.loadGeo files g).1 (.table g.table) ↔
          ∃ cidr ∈ prefixes, route = g.route cidr
  /-- A set all of whose prefixes parse is loaded. -/
  accepts : ∀ prefixes, readPrefixes files g.set = .ok prefixes → (h.loadGeo files g).2 = .ok ()
  /-- A failed reload keeps the previous table. -/
  keeps : ∀ e, (h.loadGeo files g).2 = .error e →
    (h.loadGeo files g).1 (.table g.table) = h (.table g.table)

section Reload

variable {files : String → Except String String} {g : GeoBinding} {h : Host}

/-- A geo route is added unless the table has its prefix. -/
theorem perform_geoRoute (cidr : String) :
    (command (geoRoute cidr g.wan g.table)).perform machine h =
      if (h (.table g.table)).all (·.head? != some cidr) then
        some (Function.update h (.table g.table) (h (.table g.table) ++ [g.route cidr]))
      else none := by
  simp [Change.perform, Change.place?, Change.accepted, Change.effect, machine, admits,
    GeoBinding.route]

/-- A batch of geo routes runs to its end if no prefix comes twice and none is in the table. -/
theorem runBatch_geo (prefixes : List String)
    (hnodup : prefixes.Nodup)
    (hfresh : ∀ cidr ∈ prefixes, ∀ route ∈ h (.table g.table), route.head? ≠ some cidr) :
    runBatch (prefixes.map fun cidr => geoRoute cidr g.wan g.table) h =
      (Function.update h (.table g.table) (h (.table g.table) ++ prefixes.map g.route),
        .ok ()) := by
  induction prefixes generalizing h with
  | nil => simp [runBatch]
  | cons cidr prefixes ih =>
    obtain ⟨hcidr, hnodup⟩ := List.nodup_cons.mp hnodup
    have hadd : (h (.table g.table)).all (·.head? != some cidr) = true := by
      simpa using hfresh cidr List.mem_cons_self
    rw [List.map_cons, runBatch, perform_geoRoute, if_pos hadd]
    simp only
    rw [ih hnodup ?_]
    · simp
    · intro other hother route hroute
      simp only [Function.update_self, List.mem_append, List.mem_singleton] at hroute
      rcases hroute with hroute | rfl
      · exact hfresh other (List.mem_cons_of_mem _ hother) route hroute
      · rintro ⟨⟩
        exact hcidr hother

/-- A batch of geo routes that runs to its end had no prefix twice, nor one of the table. -/
theorem nodup_of_runBatch_ok {prefixes : List String}
    (hok : (runBatch (prefixes.map fun cidr => geoRoute cidr g.wan g.table) h).2 = .ok ()) :
    prefixes.Nodup ∧ ∀ cidr ∈ prefixes, ∀ route ∈ h (.table g.table), route.head? ≠ some cidr := by
  induction prefixes generalizing h with
  | nil => simp
  | cons cidr prefixes ih =>
    rw [List.map_cons, runBatch, perform_geoRoute] at hok
    split at hok
    · cases hok
    · next h' heq =>
        obtain ⟨hadd, hh'⟩ := Option.ite_none_right_eq_some.mp heq
        cases hh'
        obtain ⟨hnodup, hfresh⟩ := ih hok
        simp only [Function.update_self, List.mem_append, List.mem_singleton] at hfresh
        have hcidr : cidr ∉ prefixes := fun hmem =>
          hfresh cidr hmem (g.route cidr) (.inr rfl) rfl
        refine ⟨List.nodup_cons.mpr ⟨hcidr, hnodup⟩, ?_⟩
        intro other hother route hroute
        rcases List.mem_cons.mp hother with rfl | hother
        · simpa using List.all_eq_true.mp hadd route hroute
        · exact hfresh other hother route (.inl hroute)

/-- A set that cannot be read empties the table. -/
theorem loadGeo_error {e : String} (hread : readPrefixes files g.set = .error e) :
    h.loadGeo files g = (Function.update h (.table g.table) [], .error e) := by
  simp [Host.loadGeo, hread, Change.attempted, Change.perform, Change.place?, Change.accepted,
    Change.effect]

/-- A set that can be read is loaded as a batch into the emptied table. -/
theorem loadGeo_ok {prefixes : List String} (hread : readPrefixes files g.set = .ok prefixes) :
    h.loadGeo files g = runBatch (prefixes.map fun cidr => geoRoute cidr g.wan g.table)
      (Function.update h (.table g.table) []) := by
  cases prefixes <;>
    simp [Host.loadGeo, hread, Change.attempted, Change.perform, Change.place?, Change.accepted,
      Change.effect, runBatch]

/-- A reload is atomic and accepts its set exactly if no prefix of the set comes twice, or the
set cannot be read and the table was empty. -/
theorem reloadsAtomically_iff (files : String → Except String String) (g : GeoBinding) (h : Host) :
    ReloadsAtomically files g h ↔ match readPrefixes files g.set with
      | .ok prefixes => prefixes.Nodup
      | .error _ => h (.table g.table) = [] := by
  rcases hread : readPrefixes files g.set with e | prefixes
  · have hload := loadGeo_error (h := h) hread
    simp only
    constructor
    · intro hr
      simpa [hload] using (hr.keeps e (by rw [hload])).symm
    · intro hempty
      constructor
      · intro hok
        rw [hload] at hok
        cases hok
      · intro prefixes hprefixes
        rw [hread] at hprefixes
        cases hprefixes
      · intro _ _
        simp [hload, hempty]
  · have hload := loadGeo_ok (h := h) hread
    simp only
    constructor
    · intro hr
      have hok := hr.accepts prefixes hread
      rw [hload] at hok
      exact (nodup_of_runBatch_ok hok).1
    · intro hnodup
      rw [runBatch_geo prefixes hnodup (by simp)] at hload
      have hroutes : (prefixes.map g.route).Nodup :=
        hnodup.map fun a b hab => (List.cons.inj hab).1
      constructor
      · intro _
        refine ⟨by simpa [hload] using hroutes, prefixes, hread, ?_⟩
        simp [hload, eq_comm]
      · intro _ _
        rw [hload]
      · intro e he
        rw [hload] at he
        cases he

/-- A geo set read from a file. -/
def iranGeo : GeoBinding where
  cond := "iran"
  set := { file := "/etc/dualnet/iran.txt" }
  table := 350
  wan := ⟨"wan0", "10.0.0.1", none⟩

/-- A machine whose geo table holds a route. -/
def geoLoaded : Host := Function.update (fun _ => []) (.table 350) [iranGeo.route "5.0.0.0/8"]

/-- A line that does not parse makes the reload fail with the table emptied, and two lines equal
after masking make it fail with the first of them loaded. -/
theorem reload_loses_routes :
    (¬ ReloadsAtomically (fun _ => .ok "5.0.0.0/8\n5.1.0.0/40\n") iranGeo geoLoaded ∧
      (geoLoaded.loadGeo (fun _ => .ok "5.0.0.0/8\n5.1.0.0/40\n") iranGeo).1 (.table 350) = []) ∧
    ¬ ReloadsAtomically (fun _ => .ok "2.0.0.0/8\n2.1.0.0/8\n") iranGeo geoLoaded ∧
      (geoLoaded.loadGeo (fun _ => .ok "2.0.0.0/8\n2.1.0.0/8\n") iranGeo).1 (.table 350) =
        [iranGeo.route "2.0.0.0/8"] := by
  refine ⟨⟨fun hr => ?_, by decide +kernel⟩, fun hr => ?_, by decide +kernel⟩
  · have herror : ∃ e, (geoLoaded.loadGeo (fun _ => .ok "5.0.0.0/8\n5.1.0.0/40\n") iranGeo).2 =
        .error e := ⟨_, rfl⟩
    obtain ⟨e, he⟩ := herror
    exact absurd (hr.keeps e he) (by decide +kernel)
  · have hread : readPrefixes (fun _ => .ok "2.0.0.0/8\n2.1.0.0/8\n") iranGeo.set =
        .ok ["2.0.0.0/8", "2.0.0.0/8"] := by decide +kernel
    exact absurd (hr.accepts _ hread) (by decide +kernel)

end Reload

end Dualnet.Kernel
