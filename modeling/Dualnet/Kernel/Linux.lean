import Dualnet.Kernel.Lower

/-!
# Linux policy routing

What `ip rule` and `ip route` commands program, and how the kernel picks a route: the rules
are consulted by ascending priority, a rule looks the destination up in its table by longest
prefix, and a rule whose table has no usable route falls through to the next one.
-/

namespace Dualnet.Kernel

open Library Text Netip

/-- The number of the table `ip` calls `main`. -/
def tableMain : Nat := 254

/-- A rule; `src = none` is `from all`, `suppress` its `suppress_prefixlength`. -/
structure IPRule where
  prio : Nat := 0
  src : Option Prefix := none
  table : Nat := tableMain
  suppress : Option Nat := none
  deriving DecidableEq

/-- A route; `via = ""` when the destination is on the link. -/
structure IPRoute where
  dst : Prefix
  via : String := ""
  dev : String := ""
  table : Nat := tableMain
  deriving DecidableEq

/-- Where a route sends a packet: its device and gateway. -/
def IPRoute.hop (r : IPRoute) : String × String := (r.dev, r.via)

/-! ## Reading the commands -/

def invalidArgument (arg : String) : Except String α :=
  .error ("Error: argument " ++ quote arg ++ " is wrong")

/-- A number argument. -/
def number (arg : String) : Except String Nat :=
  match atoi arg with
  | some (.ofNat n) => .ok n
  | _ => invalidArgument arg

/-- A table argument. -/
def tableNumber (arg : String) : Except String Nat :=
  if arg = "main" then .ok tableMain else number arg

/-- The options of `ip rule add`. -/
def ruleOptions : IPRule → List String → Except String IPRule
  | r, [] => .ok r
  | _, [arg] => invalidArgument arg
  | r, key :: val :: rest =>
    if key = "priority" then do ruleOptions { r with prio := ← number val } rest
    else if key = "from" then
      if val = "all" then ruleOptions { r with src := none } rest
      else do ruleOptions { r with src := some (← parsePrefix val) } rest
    else if key = "lookup" then do ruleOptions { r with table := ← tableNumber val } rest
    else if key = "suppress_prefixlength" then do
      ruleOptions { r with suppress := some (← number val) } rest
    else invalidArgument key

/-- `ip rule add …`. -/
def parseRule : Argv → Except String IPRule
  | "ip" :: "rule" :: "add" :: options => ruleOptions {} options
  | argv => invalidArgument (showList argv)

/-- The prefix of the default route. -/
def anywhere : Prefix := ⟨.v4 0, 0, by decide⟩

/-- The destination of a route. -/
def destination (arg : String) : Except String Prefix :=
  if arg = "default" then .ok anywhere else parsePrefix arg

/-- The options of `ip route add`. -/
def routeOptions : IPRoute → List String → Except String IPRoute
  | r, [] => .ok r
  | _, [arg] => invalidArgument arg
  | r, key :: val :: rest =>
    if key = "via" then routeOptions { r with via := val } rest
    else if key = "dev" then routeOptions { r with dev := val } rest
    else if key = "table" then do routeOptions { r with table := ← tableNumber val } rest
    else invalidArgument key

/-- `ip route add …`. -/
def parseRoute : Argv → Except String IPRoute
  | "ip" :: "route" :: "add" :: dst :: options => do
    routeOptions { dst := ← destination dst } options
  | argv => invalidArgument (showList argv)

/-! ## Choosing a route -/

/-- The longer of the best route so far and the next one. -/
def longer (best : Option IPRoute) (r : IPRoute) : Option IPRoute :=
  match best with
  | none => some r
  | some b => if b.dst.bits < r.dst.bits then some r else some b

/-- The routes of a table that cover a destination. -/
def covering (routes : List IPRoute) (table : Nat) (dst : Addr) : List IPRoute :=
  routes.filter fun r => r.table = table ∧ r.dst.contains dst

/-- Longest prefix match inside a table. -/
def fibLookup (routes : List IPRoute) (table : Nat) (dst : Addr) : Option IPRoute :=
  (covering routes table dst).foldl longer none

/-- The route a rule selects for a packet, if it selects one. -/
def IPRule.select (routes : List IPRoute) (src dst : Addr) (r : IPRule) : Option IPRoute :=
  if r.src.all (·.contains src) then
    (fibLookup routes r.table dst).filter fun route => r.suppress.all (· < route.dst.bits)
  else none

/-- The programmed forwarding state. -/
structure Linux where
  rules : List IPRule
  routes : List IPRoute
  deriving DecidableEq

/-- The route of a packet. -/
def Linux.route (k : Linux) (src dst : Addr) : Option IPRoute :=
  (k.rules.insertionSort fun r r' => r.prio ≤ r'.prio).findSome? (IPRule.select k.routes src dst)

/-! ## Applying a plan -/

/-- `loadGeo`: the routes of a geo table. -/
def loadGeo (files : String → Except String String) (g : GeoBinding) :
    Except String (List IPRoute) := do
  (← readPrefixes files g.set).mapM fun cidr => parseRoute (geoRoute cidr g.wan g.table)

/-- `apply`, as far as forwarding decisions go: the plan's tables are flushed, then its
commands are run over the routes that exist already. -/
def apply (files : String → Except String String) (existing : List IPRoute) (p : Plan) :
    Except String Linux := do
  let tableRoutes ← p.tableRoutes.mapM parseRoute
  let mainRoutes ← p.mainRoutes.mapM parseRoute
  let rules ← p.rules.mapM parseRule
  let geo ← p.geo.mapM (loadGeo files)
  pure ⟨rules, existing.filter (·.table ∉ p.tables) ++ tableRoutes ++ mainRoutes ++ geo.flatten⟩

/-! ## Facts about the commands -/

/-- A number is read back. -/
@[simp] theorem number_itoa {n : Nat} (h : n < 2 ^ 63) : number (itoa n) = .ok n := by
  rw [number, atoi_itoa h]

/-- So is a table. -/
@[simp] theorem tableNumber_itoa {n : Nat} (h : n < 2 ^ 63) : tableNumber (itoa n) = .ok n := by
  rw [tableNumber, if_neg ?_, number_itoa h]
  -- the name of the main table is no number
  intro hmain
  have hn := number_itoa h
  rw [hmain] at hn
  exact absurd hn (by rw [show number "main" = invalidArgument "main" from rfl]; simp [invalidArgument])

/-- What `ruleMainSuppress` programs. -/
theorem parseRule_mainSuppress {prio : Nat} (h : prio < 2 ^ 63) :
    parseRule (ruleMainSuppress prio) = .ok { prio, suppress := some 0 } := by
  have hzero : number "0" = .ok 0 := rfl
  simp [parseRule, ruleMainSuppress, ruleOptions, number_itoa h, tableNumber, hzero, bind,
    Except.bind]

/-- What `ruleFrom` programs for an IPv4 prefix. -/
theorem parseRule_from {prio table : Nat} {p : Prefix} {a : BitVec 32} (hp : p.addr = .v4 a)
    (hprio : prio < 2 ^ 63) (htable : table < 2 ^ 63) :
    parseRule (ruleFrom prio p.toString table) = .ok { prio, src := some p, table } := by
  have hparse := parsePrefix_toString hp
  have hall : p.toString ≠ "all" := by
    intro hall
    rw [hall] at hparse
    exact absurd hparse (by simp [parsePrefix, parsePrefixError])
  simp [parseRule, ruleFrom, ruleOptions, number_itoa hprio, tableNumber_itoa htable, hparse, hall,
    bind, Except.bind]

/-- What `ruleLookup` programs when it matches every source. -/
theorem parseRule_lookup {prio table : Nat} (hprio : prio < 2 ^ 63) (htable : table < 2 ^ 63) :
    parseRule (ruleLookup prio "" table) = .ok { prio, table } := by
  simp [parseRule, ruleLookup, ruleOptions, number_itoa hprio, tableNumber_itoa htable, bind,
    Except.bind]

/-- A next-hop is read back as it was written. -/
theorem routeOptions_nextHop {r : IPRoute} {gw dev : String} {rest : List String}
    (hvia : r.via = "") :
    routeOptions r (nextHop gw dev ++ rest) = routeOptions { r with via := gw, dev } rest := by
  by_cases hgw : gw = ""
  · subst hgw
    simp [nextHop, routeOptions, ← hvia]
  · simp [nextHop, routeOptions, hgw]

/-- What `defaultRoute` programs. -/
theorem parseRoute_default {w : Wan} {table : Nat} (h : table < 2 ^ 63) :
    parseRoute (defaultRoute w table) = .ok ⟨anywhere, w.gw, w.dev, table⟩ := by
  have hdst : destination "default" = .ok anywhere := rfl
  simp [parseRoute, defaultRoute, hdst, routeOptions_nextHop, routeOptions, tableNumber_itoa h,
    bind, Except.bind]

/-- What `geoRoute` programs for an IPv4 prefix. -/
theorem parseRoute_geo {w : Wan} {table : Nat} {p : Prefix} {a : BitVec 32}
    (hp : p.addr = .v4 a) (h : table < 2 ^ 63) :
    parseRoute (geoRoute p.toString w table) = .ok ⟨p, w.gw, w.dev, table⟩ := by
  have hparse := parsePrefix_toString hp
  have hdefault : p.toString ≠ "default" := by
    intro hdefault
    rw [hdefault] at hparse
    exact absurd hparse (by simp [parsePrefix, parsePrefixError])
  simp [parseRoute, geoRoute, destination, hdefault, hparse, routeOptions_nextHop, routeOptions,
    tableNumber_itoa h, bind, Except.bind]

/-- A route without a table argument goes to the main table. -/
theorem parseRoute_main {dst gw dev : String} {r : IPRoute}
    (h : parseRoute (["ip", "route", "add", dst] ++ nextHop gw dev) = .ok r) :
    r.table = tableMain := by
  simp only [parseRoute, List.cons_append, List.nil_append, bind_eq_ok] at h
  obtain ⟨p, -, hr⟩ := h
  rw [← List.append_nil (nextHop gw dev), routeOptions_nextHop rfl] at hr
  cases hr
  rfl

/-! ## Facts about lookups -/

/-- The routes of a table for a destination. -/
theorem mem_covering {routes : List IPRoute} {table : Nat} {dst : Addr} {r : IPRoute} :
    r ∈ covering routes table dst ↔ r ∈ routes ∧ r.table = table ∧ r.dst.contains dst = true := by
  simp [covering]

/-- The running best route is one of those seen. -/
theorem foldl_longer_mem {l : List IPRoute} {best : Option IPRoute} {r : IPRoute}
    (h : l.foldl longer best = some r) : r ∈ l ∨ best = some r := by
  induction l generalizing best with
  | nil => exact .inr h
  | cons a l ih =>
    rcases ih h with hr | hr
    · exact .inl (.tail _ hr)
    · cases best with
      | none => exact .inl (by simp_all [longer])
      | some b =>
        simp only [longer] at hr
        split at hr
        · exact .inl (by simp_all)
        · exact .inr hr

/-- Once there is a route there is a best one. -/
theorem foldl_longer_isSome {l : List IPRoute} {best : Option IPRoute}
    (h : l ≠ [] ∨ best.isSome) : (l.foldl longer best).isSome := by
  induction l generalizing best with
  | nil => simpa using h
  | cons a l ih =>
    refine ih (.inr ?_)
    cases best with
    | none => rfl
    | some b =>
      simp only [longer]
      split <;> rfl

/-- A looked-up route is in the table and covers the destination. -/
theorem fibLookup_mem {routes : List IPRoute} {table : Nat} {dst : Addr} {r : IPRoute}
    (h : fibLookup routes table dst = some r) : r ∈ covering routes table dst :=
  (foldl_longer_mem h).resolve_right (by simp)

/-- In a table with one next-hop, a lookup finds it exactly when some route covers the
destination. -/
theorem fibLookup_uniform {routes : List IPRoute} {table : Nat} {dst : Addr}
    {hop : String × String} (huniform : ∀ r ∈ routes, r.table = table → r.hop = hop) :
    (fibLookup routes table dst).map IPRoute.hop =
      if covering routes table dst = [] then none else some hop := by
  split
  case isTrue hempty => simp [fibLookup, hempty]
  case isFalse hcover =>
    have hsome : (fibLookup routes table dst).isSome := foldl_longer_isSome (.inl hcover)
    obtain ⟨r, hr⟩ := Option.isSome_iff_exists.mp hsome
    have hmem := mem_covering.mp (fibLookup_mem hr)
    rw [hr, Option.map_some, huniform r hmem.1 hmem.2.1]

/-- A rule that suppresses nothing and matches the source selects what its table has. -/
theorem select_lookup {routes : List IPRoute} {src dst : Addr} {r : IPRule}
    (hsuppress : r.suppress = none) :
    r.select routes src dst =
      if r.src.all (·.contains src) then fibLookup routes r.table dst else none := by
  cases hfib : fibLookup routes r.table dst <;> simp [IPRule.select, hsuppress, hfib, Option.filter]

/-- The main lookup is passed over when only default routes of the main table apply. -/
theorem select_mainSuppress {routes : List IPRoute} {src dst : Addr} {prio : Nat}
    (hmain : ∀ r ∈ routes, r.table = tableMain → 0 < r.dst.bits → r.dst.contains dst = false) :
    IPRule.select routes src dst { prio, suppress := some 0 } = none := by
  simp only [IPRule.select, Option.all_none, if_true]
  rw [Option.filter_eq_none_iff]
  intro r hr
  obtain ⟨hmem, htable, hcontains⟩ := mem_covering.mp (fibLookup_mem hr)
  have hbits : ¬ 0 < r.dst.bits := fun hpos => by
    rw [hmain r hmem htable hpos] at hcontains
    cases hcontains
  simp [hbits]

end Dualnet.Kernel
