import Dualnet.Wire.Envelope

/-!
# The compiled routing table

Package `router`: `Compile` resolves a routing table against the node's connections, guards
and finalizers into one target list per (processed, source); `Route` and `SourceRouter` walk
such a list. Connections, guards and finalizers are arbitrary types, a Go map that is only
looked up is a function to `Option`, and everything the router asks of its surroundings goes
through `Answers`, which may depend on all that happened before.
-/

namespace Dualnet.Routing

open Library Text Wire

/-- One routing-table row. `matchProcessed = none` matches either state, `source = ""` any
connection; `egress = ""` forwards to `target`, otherwise the packet is finalized through
that egress and its reply leaves by `target`. -/
structure Rule where
  matchProcessed : Option Bool
  source : String
  conditions : List String
  egress : String
  target : String
  deriving DecidableEq

/-- A row resolved against the node. -/
structure Target (C G F : Type) where
  egress : String
  finalize : Option F
  conn : C
  sender : Bool
  guards : List G
  label : String

/-- A compiled table. A missing key of the Go map reads as the empty list. -/
structure Router (C G F : Type) where
  compiled : Bool → String → List (Target C G F)
  labels : List String
  warnings : List String
  recorder : Bool

/-- One observable call the router makes, with the answer it got. -/
inductive Event (C G F : Type) where
  | accepts (c : C) (owner : Owner) (answer : Bool)
  | pass (g : G) (owner : Owner) (dst : Option Netip.Addr) (answer : Bool)
  | send (c : C) (e : Envelope) (payload : Bytes) (delivered : Bool)
  | finalize (f : F) (owner : Owner) (reply : C) (payload : Bytes)

/-- How the connections and guards answer, given everything the router did so far. -/
structure Answers (C G F : Type) where
  accepts : List (Event C G F) → C → Owner → Bool
  pass : List (Event C G F) → G → Owner → Option Netip.Addr → Bool
  send : List (Event C G F) → C → Envelope → Bytes → Bool

/-- A statistics call on the recorder. -/
inductive Stat where
  | routed (label : String)
  | sent (target : String) (n : Nat)
  | dropped (src : String)
  deriving DecidableEq

variable {C G F : Type}

/-- `labelFor`: the label identifying a rule in the statistics. -/
def labelFor (ru : Rule) : String :=
  let src := if ru.source = "" then "*" else ru.source
  let m := match ru.matchProcessed with
    | none => "any"
    | some true => "proc"
    | some false => "unproc"
  let label := m ++ "/" ++ src ++
    if ru.conditions.isEmpty then "" else "[" ++ ",".intercalate ru.conditions ++ "]"
  if ru.egress ≠ "" then label ++ "→egress:" ++ ru.egress ++ "→" ++ ru.target
  else label ++ "→" ++ ru.target

/-- The row matches a packet with this flag received on this connection. -/
def Rule.matches (ru : Rule) (processed : Bool) (src : String) : Bool :=
  (ru.matchProcessed == none || ru.matchProcessed == some processed) &&
    (ru.source == "" || ru.source == src)

/-- Look a condition's guard up. -/
def resolveGuard (conditions : String → Option G) (i : Nat) (name : String) : Except String G :=
  match conditions name with
  | none => .error s!"router: rule {i} references unknown condition {quote name}"
  | some g => .ok g

/-- Resolve row `i`: its checks, its target, and the warning for a target that cannot send.
As in the source, `finalize` is whatever the finalizer map holds under the rule's egress name,
also when that name is empty. -/
def resolve (isSender : C → Bool) (conns : String → Option C) (conditions : String → Option G)
    (finalizers : String → Option F) (ru : Rule) (i : Nat) :
    Except String (Target C G F × List String) := do
  reject (ru.egress != "" && ru.matchProcessed != some false)
    s!"router: rule {i} cannot process an already-processed packet (finalize rules must match processed:false)"
  reject (ru.egress != "" && (finalizers ru.egress).isNone)
    s!"router: rule {i} references unknown egress {quote ru.egress}"
  match conns ru.target with
  | none => .error s!"router: rule {i} targets unknown connection {quote ru.target}"
  | some c => do
    reject (ru.source != "" && (conns ru.source).isNone)
      s!"router: rule {i} has unknown source connection {quote ru.source}"
    let guards ← ru.conditions.mapM (resolveGuard conditions i)
    pure (⟨ru.egress, finalizers ru.egress, c, isSender c, guards, labelFor ru⟩,
      if isSender c then [] else
        [s!"rule {i} target {quote ru.target} is a receiver and can never accept a packet (dead rule)"])

/-- `Compile`: resolve every row, then list per (processed, source) the matching rows in table
order, wildcard rows merged in place. -/
def compile (isSender : C → Bool) (rules : List Rule) (conns : String → Option C)
    (sources : List String) (conditions : String → Option G) (finalizers : String → Option F) :
    Except String (Router C G F) := do
  let resolved ← rules.zipIdx.mapM fun (ru, i) =>
    resolve isSender conns conditions finalizers ru i
  pure {
    compiled := fun processed src =>
      if src ∈ sources then
        ((rules.zip (resolved.map Prod.fst)).filter
          fun (ru, _) => ru.matches processed src).map Prod.snd
      else []
    labels := (resolved.map fun r => r.1.label).eraseDups
    warnings := resolved.flatMap Prod.snd
    recorder := false }

/-- Everything a row names is there. -/
structure Rule.Resolves (conns : String → Option C) (conditions : String → Option G)
    (finalizers : String → Option F) (ru : Rule) : Prop where
  target : (conns ru.target).isSome
  source : ru.source ≠ "" → (conns ru.source).isSome
  egress : ru.egress ≠ "" → (finalizers ru.egress).isSome ∧ ru.matchProcessed = some false
  conditions : ∀ cond ∈ ru.conditions, (conditions cond).isSome

/-- A row that names only what is there passes every check. -/
theorem Rule.Resolves.resolve {conns : String → Option C} {conditions : String → Option G}
    {finalizers : String → Option F} {ru : Rule} (h : ru.Resolves conns conditions finalizers)
    (isSender : C → Bool) (i : Nat) :
    ∃ t, Routing.resolve isSender conns conditions finalizers ru i = .ok t := by
  obtain ⟨c, hc⟩ := Option.isSome_iff_exists.mp h.target
  obtain ⟨guards, hguards⟩ : ∃ guards, ru.conditions.mapM (resolveGuard conditions i) =
      .ok guards := by
    refine exists_mapM_ok fun cond hcond => ?_
    obtain ⟨g, hg⟩ := Option.isSome_iff_exists.mp (h.conditions cond hcond)
    exact ⟨g, by rw [resolveGuard, hg]⟩
  have hprocessed : (ru.egress != "" && ru.matchProcessed != some false) = false := by
    simpa using fun he => (h.egress he).2
  have hegress : (ru.egress != "" && (finalizers ru.egress).isNone) = false := by
    simpa using fun he => (h.egress he).1
  have hsource : (ru.source != "" && (conns ru.source).isNone) = false := by
    simpa using h.source
  simp only [Routing.resolve, hc, bind_eq_ok, reject_eq_ok, exists_const, pure_eq_ok]
  exact ⟨_, hprocessed, hegress, hsource, guards, hguards, rfl⟩

/-- A table that names only what is there compiles. -/
theorem exists_compile_ok {rules : List Rule} {conns : String → Option C}
    {conditions : String → Option G} {finalizers : String → Option F}
    (h : ∀ ru ∈ rules, ru.Resolves conns conditions finalizers) (isSender : C → Bool)
    (sources : List String) :
    ∃ r, compile isSender rules conns sources conditions finalizers = .ok r := by
  obtain ⟨resolved, hresolved⟩ : ∃ resolved, (rules.zipIdx.mapM fun (ru, i) =>
      resolve isSender conns conditions finalizers ru i) = .ok resolved :=
    exists_mapM_ok fun p hp => (h p.1 (List.fst_mem_of_mem_zipIdx hp)).resolve isSender p.2
  rw [compile, hresolved]
  exact ⟨_, rfl⟩

/-- `SetRecorder`. -/
def Router.setRecorder (r : Router C G F) : Router C G F := { r with recorder := true }

section Dispatch

variable (ans : Answers C G F)

/-- `allPass`: ask the guards in order, stopping at the first that fails. -/
def allPass (owner : Owner) (dst : Option Netip.Addr) :
    List G → List (Event C G F) → Bool × List (Event C G F)
  | [], log => (true, log)
  | g :: gs, log =>
    if ans.pass log g owner dst then
      allPass owner dst gs (log ++ [.pass g owner dst true])
    else (false, log ++ [.pass g owner dst false])

/-- `dispatch`: hand the packet to the first target that accepts its owner, passes every guard
and finalizes or delivers. `parsed` holds the destination once a guarded target needed it. -/
def dispatch (recorder : Bool) (connName : C → String) (src : String) (e : Envelope)
    (payload : Bytes) :
    Option (Option Netip.Addr) → List (Target C G F) → List (Event C G F) →
      List (Event C G F) × List Stat
  | _, [], log => (log, if recorder then [.dropped src] else [])
  | parsed, t :: rest, log =>
    if !t.sender then dispatch recorder connName src e payload parsed rest log
    else if !ans.accepts log t.conn e.owner then
      dispatch recorder connName src e payload parsed rest
        (log ++ [.accepts t.conn e.owner false])
    else
      let log := log ++ [.accepts t.conn e.owner true]
      let parsed := if t.guards.isEmpty then parsed else some (parsed.getD (dstIP payload))
      let (ok, log) :=
        if t.guards.isEmpty then (true, log)
        else allPass ans e.owner (parsed.getD none) t.guards log
      if !ok then dispatch recorder connName src e payload parsed rest log
      else match t.finalize with
        | some f =>
          (log ++ [.finalize f e.owner t.conn payload],
            if recorder then [.routed t.label] else [])
        | none =>
          if ans.send log t.conn e payload then
            (log ++ [.send t.conn e payload true],
              if recorder then [.routed t.label, .sent (connName t.conn) payload.length]
              else [])
          else dispatch recorder connName src e payload parsed rest
            (log ++ [.send t.conn e payload false])

/-- `Route`: the calls made for one packet received on `src`, and the statistics. -/
def Router.route (r : Router C G F) (connName : C → String) (src : String) (e : Envelope)
    (payload : Bytes) : List (Event C G F) × List Stat :=
  dispatch ans r.recorder connName src e payload none (r.compiled e.processed src) []

/-- `SourceRouter`: the intake bound to `src`, absent when both of its lists are empty. -/
def Router.sourceRouter (r : Router C G F) (connName : C → String) (src : String) :
    Option (Envelope → Bytes → List (Event C G F) × List Stat) :=
  let unproc := r.compiled false src
  let proc := r.compiled true src
  if unproc.isEmpty && proc.isEmpty then none
  else some fun e payload =>
    dispatch ans r.recorder connName src e payload none (if e.processed then proc else unproc) []

end Dispatch

end Dualnet.Routing
