import Dualnet.Config.Accepted
import Dualnet.Schema.Walk

/-!
# Building a userspace node

The part of `RunWith` between a configuration and a compiled router: it opens the egresses the
routes finalize through and the connections, makes a guard of every condition and a probe of
every healthcheck, and hands everything to `Compile`. Opening and loading are up to the system,
so they are an `Opener`; everything else that can fail is checked against what `Validate`
accepted. `runWith_builds`: nothing of it does fail.
-/

namespace Dualnet.Node

open Library Text Routing Config

variable {M F : Type}

/-- `conn.Kind`. -/
inductive Kind where
  | tun
  | connectOut
  | connectIn
  | listenOut
  | listenIn
  deriving DecidableEq

/-- `kindOf`. -/
def kindOf (c : Connection) : Kind :=
  if c.type = "tun" then .tun
  else if c.type = "connect" then
    if c.direction = "outgoing" then .connectOut else .connectIn
  else
    if c.direction = "outgoing" then .listenOut else .listenIn

/-- The connections built of this kind implement `Sender`, on every transport. -/
def Kind.isSender : Kind → Bool
  | .tun | .connectOut | .listenOut => true
  | .connectIn | .listenIn => false

/-- What the node asks of the system while it is built: the finalizer of a named egress, a tun
device with its network configuration, any other connection, and the sets of conditions. -/
structure Opener (M F : Type) where
  egress : String → Except String F
  tun : Connection → Except String Unit
  conn : Connection → Except String Unit
  loadList : List String → Except String M
  openFile : String → Except String M

/-- A `router.Guard` of the node. -/
inductive Guard (M : Type) where
  | dst (m : M)
  | health (cond : String)

/-- What a healthcheck driver is built over: the tun whose owner it speaks for and the connection
its pings are sent on. -/
structure Probe where
  cond : String
  tun : Connection
  via : Connection

/-- The tuns of a node, which are opened before the other connections. -/
def tunConns (cfg : Config.Node) : List Connection := cfg.connections.filter (·.type == "tun")

/-- The connections that are not tuns. -/
def otherConns (cfg : Config.Node) : List Connection := cfg.connections.filter (·.type != "tun")

/-- The map `tuns` once every tun is open. -/
def openTuns (cfg : Config.Node) : FMap String Connection :=
  FMap.index Connection.name (tunConns cfg)

/-- The map `conns` once everything is open. -/
def openConns (cfg : Config.Node) : FMap String Connection :=
  FMap.index Connection.name (tunConns cfg ++ otherConns cfg)

/-- `egressesUsed`: the egresses a route finalizes through. -/
def egressesUsed (cfg : Config.Node) : List String :=
  ((cfg.routes.map (·.action.egress)).filter (· != "")).eraseDups

/-- The tun of a healthcheck; with none named, whichever tun the map yields last. -/
def probeTun (tuns : FMap String Connection) (hc : HealthcheckSpec) : Option Connection :=
  if hc.tun = "" then tuns.entries.getLast?.map Sigma.snd else tuns.lookup hc.tun

/-- One round of the condition loop: the guard, and the probe of a healthcheck. The second and
third error are the panics of a condition with neither kind and of a path without up-links. -/
def buildCondition (w : Opener M F) (tuns conns : FMap String Connection) (c : Condition) :
    Except String (Guard M × Option Probe) :=
  match c.dstIn with
  | some set =>
    if set.list ≠ [] then
      wrap s!"node: dst_in condition {quote c.name}: "
        ((w.loadList set.list).map fun m => (.dst m, none))
    else (w.openFile set.file).map fun m => (.dst m, none)
  | none => match c.healthcheck with
    | none => .error "runtime error: invalid memory address or nil pointer dereference"
    | some hc => match hc.up with
      | [] => .error "runtime error: index out of range [0] with length 0"
      | up :: _ =>
        match (conns.lookup up).filter fun via => (kindOf via).isSender, probeTun tuns hc with
        | some via, some tun => .ok (.health c.name, some ⟨c.name, tun, via⟩)
        | _, _ =>
          .error s!"node: healthcheck condition {quote c.name}: up[0] {quote up} must be a sending connection and tun {quote hc.tun} must exist"

/-- What has been built when the router is compiled. -/
structure Runtime (M F : Type) where
  tuns : FMap String Connection
  conns : FMap String Connection
  probes : List Probe
  router : Router Connection (Guard M) F

/-- `RunWith` up to the compiled router. -/
def runWith (w : Opener M F) (n : Config.Node) : Except String (Runtime M F) := do
  let cfg := n.defaults
  cfg.validate
  let _ ← Netip.parsePrefix cfg.subnet
  let finalizers ← (egressesUsed cfg).mapM fun name => (w.egress name).map fun f => (name, f)
  (tunConns cfg).forM w.tun
  (otherConns cfg).forM w.conn
  let built ← cfg.conditions.mapM fun c =>
    (buildCondition w (openTuns cfg) (openConns cfg) c).map fun b => (c.name, b)
  let router ← compile (fun c => (kindOf c).isSender) (Schema.compileRules cfg)
    (openConns cfg).lookup (openConns cfg).keys
    (fun cond => ((FMap.index Prod.fst built).lookup cond).map fun b => b.2.1)
    (fun name => ((FMap.index Prod.fst finalizers).lookup name).map Prod.snd)
  pure ⟨openTuns cfg, openConns cfg, built.filterMap fun b => b.2.2, router⟩

/-- Everything the node asks the system for opens or loads. -/
structure Opens (w : Opener M F) (cfg : Config.Node) : Prop where
  egress : ∀ r ∈ cfg.routes, r.action.egress ≠ "" → ∃ f, w.egress r.action.egress = .ok f
  tun : ∀ c ∈ cfg.connections, c.type = "tun" → w.tun c = .ok ()
  conn : ∀ c ∈ cfg.connections, c.type ≠ "tun" → w.conn c = .ok ()
  set : ∀ c ∈ cfg.conditions, ∀ set, c.dstIn = some set →
    ∃ m, (if set.list ≠ [] then w.loadList set.list else w.openFile set.file) = .ok m

/-- The kinds that send are those of tuns and outgoing connections. -/
theorem kindOf_isSender (c : Connection) : (kindOf c).isSender = Schema.isSender c := by
  unfold kindOf Schema.isSender
  by_cases htun : c.type = "tun"
  · simp [htun, Kind.isSender]
  · by_cases hout : c.direction = "outgoing"
    · by_cases hconnect : c.type = "connect" <;> simp [htun, hout, hconnect, Kind.isSender]
    · by_cases hconnect : c.type = "connect" <;> simp [htun, hout, hconnect, Kind.isSender]

/-! ## The maps of the node -/

section Maps

variable {cfg : Config.Node}

/-- The node finds the connections `Validate` found. -/
theorem lookup_openConns (hnames : (cfg.connections.map Connection.name).Nodup) {name : String}
    {c : Connection} (h : cfg.byName.lookup name = some c) :
    (openConns cfg).lookup name = some c := by
  obtain ⟨hc, rfl⟩ := FMap.mem_of_lookup_index h
  have hperm : (tunConns cfg ++ otherConns cfg).Perm cfg.connections :=
    List.filter_append_perm _ cfg.connections
  exact FMap.lookup_index_of_mem ((hperm.map Connection.name).nodup_iff.mpr hnames)
    (hperm.mem_iff.mpr hc)

/-- A tun `Validate` found is in the map of tuns. -/
theorem lookup_openTuns (hnames : (cfg.connections.map Connection.name).Nodup) {name : String}
    {t : Connection} (h : cfg.byName.lookup name = some t) (ht : t.type = "tun") :
    (openTuns cfg).lookup name = some t := by
  obtain ⟨hc, rfl⟩ := FMap.mem_of_lookup_index h
  exact FMap.lookup_index_of_mem (hnames.sublist (List.filter_sublist.map _))
    (List.mem_filter.mpr ⟨hc, by simp [ht]⟩)

/-- A list of pairs indexed by their first part finds every first part. -/
theorem lookup_index_fst_isSome {β : Type} {l : List (String × β)} {name : String}
    (h : name ∈ l.map Prod.fst) : ((FMap.index Prod.fst l).lookup name).isSome := by
  obtain ⟨p, hp, rfl⟩ := List.mem_map.mp h
  rw [FMap.lookup_index, List.find?_isSome]
  exact ⟨p, List.mem_reverse.mpr hp, by simp⟩

end Maps

/-! ## The conditions -/

section Conditions

variable {cfg : Config.Node} {hc : HealthcheckSpec}

/-- The tun of a healthcheck that can be run is there: the named one, or the only one. -/
theorem probeTun_isSome (hnames : (cfg.connections.map Connection.name).Nodup)
    (h : Probeable cfg hc) :
    ∃ t, probeTun (openTuns cfg) hc = some t ∧ t ∈ cfg.connections ∧ t.type = "tun" ∧
      (hc.tun ≠ "" → t.name = hc.tun) := by
  by_cases he : hc.tun = ""
  · obtain ⟨t, ht⟩ := h.only he
    have hmem : t ∈ cfg.connections.filter (·.type == "tun") := by simp [ht]
    obtain ⟨hmem, htype⟩ := List.mem_filter.mp hmem
    refine ⟨t, ?_, hmem, by simpa using htype, fun hne => absurd he hne⟩
    rw [probeTun, if_pos he, openTuns, tunConns, ht]
    rfl
  · obtain ⟨t, ht, htype⟩ := h.named he
    obtain ⟨hmem, hname⟩ := FMap.mem_of_lookup_index ht
    exact ⟨t, by rw [probeTun, if_neg he, lookup_openTuns hnames ht htype], hmem, htype,
      fun _ => hname⟩

/-- A probe that does what a healthcheck asks for: pings leave by the first up-link, on a
connection that sends, in the name of a tun of the node, the named one if there is a name. -/
structure Probe.Serves (cfg : Config.Node) (c : Condition) (hc : HealthcheckSpec) (p : Probe) :
    Prop where
  cond : p.cond = c.name
  up : hc.up.head? = some p.via.name
  via : p.via ∈ cfg.connections ∧ (kindOf p.via).isSender = true
  tun : p.tun ∈ cfg.connections ∧ p.tun.type = "tun"
  named : hc.tun ≠ "" → p.tun.name = hc.tun

/-- A condition of an accepted configuration gets its guard, and a healthcheck its probe. -/
theorem buildCondition_ok {w : Opener M F} (hcfg : Resolved cfg) (hopens : Opens w cfg)
    {c : Condition} (hc : c ∈ cfg.conditions) :
    ∃ b, buildCondition w (openTuns cfg) (openConns cfg) c = .ok b ∧
      ∀ hc, c.healthcheck = some hc → ∃ p, b.2 = some p ∧ p.Serves cfg c hc := by
  rcases hcfg.conditions c hc with ⟨set, hset, hnone⟩ | ⟨hc', hnone, hhealth, hprobe⟩
  · obtain ⟨m, hm⟩ := hopens.set c hc set hset
    refine ⟨(.dst m, none), ?_, fun hc' hc => by rw [hnone] at hc; cases hc⟩
    rw [buildCondition, hset]
    dsimp only
    split at hm
    · rw [if_pos ‹_›, hm]
      rfl
    · rw [if_neg ‹_›, hm]
      rfl
  · obtain ⟨up, rest, via, hup, hvia, -, hout⟩ := hprobe.via
    obtain ⟨hmem, hname⟩ := FMap.mem_of_lookup_index hvia
    obtain ⟨t, ht, htmem, httype, htname⟩ := probeTun_isSome hcfg.names hprobe
    have hsends : (kindOf via).isSender = true := by
      rw [kindOf_isSender, Schema.isSender, hout]
      simp
    refine ⟨(.health c.name, some ⟨c.name, t, via⟩), ?_, fun hc hsome => ?_⟩
    · rw [buildCondition, hnone]
      dsimp only
      rw [hhealth]
      dsimp only
      rw [hup]
      dsimp only
      rw [lookup_openConns hcfg.names hvia, ht, Option.filter_some, if_pos hsends]
    · obtain rfl : hc' = hc := Option.some.inj (hhealth.symm.trans hsome)
      exact ⟨_, rfl, rfl, by rw [hup, hname]; rfl, ⟨hmem, hsends⟩, ⟨htmem, httype⟩, htname⟩

end Conditions

/-! ## The node is built -/

/-- The finalizers of the egresses in use are built. -/
theorem exists_finalizers {w : Opener M F} {cfg : Config.Node} (hopens : Opens w cfg) :
    ∃ finalizers, ((egressesUsed cfg).mapM fun name => (w.egress name).map fun f => (name, f)) =
      .ok finalizers := by
  refine exists_mapM_ok fun name hname => ?_
  simp only [egressesUsed, List.mem_eraseDups, List.mem_filter, List.mem_map, bne_iff_ne] at hname
  obtain ⟨⟨r, hr, rfl⟩, hne⟩ := hname
  obtain ⟨f, hf⟩ := hopens.egress r hr hne
  exact ⟨_, by rw [hf]; rfl⟩

/-- A loop that keeps the name of each element collects exactly those names. -/
theorem map_fst_of_mapM {α β : Type} {name : α → String} {f : α → Except String β} {l : List α}
    {r : List (String × β)}
    (h : (l.mapM fun a => (f a).map fun b => (name a, b)) = .ok r) :
    r.map Prod.fst = l.map name := by
  rw [mapM_eq_ok] at h
  induction h with
  | nil => rfl
  | @cons a _ _ _ hab _ ih =>
    cases hfa : f a with
    | error e => simp [hfa, Except.map] at hab
    | ok b =>
      obtain rfl : (name a, b) = _ := by simpa [hfa, Except.map] using hab
      rw [List.map_cons, List.map_cons, ih]

/-- A route of an accepted configuration names only what the node has built. -/
theorem compileRule_resolves {cfg : Config.Node} (hcfg : Resolved cfg) {r : Route}
    (hr : r ∈ cfg.routes) {β : Type} {built : List (String × β)} {finalizers : List (String × F)}
    (guard : String × β → Guard M)
    (hbuilt : built.map Prod.fst = cfg.conditions.map Condition.name)
    (hfinalizers : finalizers.map Prod.fst = egressesUsed cfg) :
    (Schema.compileRule r).Resolves (openConns cfg).lookup
      (fun cond => ((FMap.index Prod.fst built).lookup cond).map guard)
      (fun name => ((FMap.index Prod.fst finalizers).lookup name).map Prod.snd) := by
  have hroute := hcfg.routes r hr
  have hfound : ∀ name, (cfg.byName.lookup name).isSome →
      ((openConns cfg).lookup name).isSome := by
    intro name h
    obtain ⟨c, hc⟩ := Option.isSome_iff_exists.mp h
    rw [lookup_openConns hcfg.names hc]
    rfl
  refine ⟨hfound _ hroute.target, fun hne => hfound _ (hroute.source hne), fun hne => ?_,
    fun cond hcond => ?_⟩
  · have hused : r.action.egress ∈ egressesUsed cfg := by
      simp only [egressesUsed, List.mem_eraseDups, List.mem_filter, bne_iff_ne]
      exact ⟨List.mem_map_of_mem hr, hne⟩
    rw [Option.isSome_map]
    exact ⟨lookup_index_fst_isSome (hfinalizers ▸ hused), (hroute.egress hne).2⟩
  · obtain ⟨c, hc, rfl⟩ := hroute.conditions cond hcond
    rw [Option.isSome_map]
    exact lookup_index_fst_isSome (hbuilt ▸ List.mem_map_of_mem hc)

/-- An accepted userspace configuration is built: once everything it opens has opened and every
set has loaded, no check of `RunWith` or `Compile` fails, and every healthcheck has a probe on a
connection that sends, for a tun that exists. -/
theorem runWith_builds (w : Opener M F) (n : Config.Node) (hvalid : n.defaults.validate = .ok ())
    (huser : n.datapath = "" ∨ n.datapath = "userspace") (hopens : Opens w n.defaults) :
    ∃ rt, runWith w n = .ok rt ∧
      ∀ c ∈ n.conditions, ∀ hc, c.healthcheck = some hc →
        ∃ p ∈ rt.probes, p.Serves n.defaults c hc := by
  have hcfg : Resolved n.defaults := Node.resolved hvalid huser
  obtain ⟨pfx, hpfx⟩ := Node.subnet_of_validate hvalid
  obtain ⟨finalizers, hfinalizers⟩ := exists_finalizers hopens
  have htuns : (tunConns n.defaults).forM w.tun = .ok () :=
    forM_eq_ok.mpr fun c hc =>
      hopens.tun c (List.mem_of_mem_filter hc) (by simpa using (List.mem_filter.mp hc).2)
  have hconns : (otherConns n.defaults).forM w.conn = .ok () :=
    forM_eq_ok.mpr fun c hc =>
      hopens.conn c (List.mem_of_mem_filter hc) (by simpa using (List.mem_filter.mp hc).2)
  have hguard := fun c (hc : c ∈ n.defaults.conditions) => buildCondition_ok hcfg hopens hc
  obtain ⟨built, hbuilt⟩ := exists_mapM_ok fun c hc =>
    (hguard c hc).imp' (fun b => (c.name, b)) fun b hb =>
      congrArg (Except.map fun b => (c.name, b)) hb.1
  obtain ⟨router, hrouter⟩ := exists_compile_ok
    (fun ru hru => by
      obtain ⟨r, hr, rfl⟩ := List.mem_map.mp hru
      exact compileRule_resolves hcfg hr (fun b => b.2.1) (map_fst_of_mapM hbuilt)
        ((map_fst_of_mapM hfinalizers).trans (List.map_id _)))
    (fun c => (kindOf c).isSender) (openConns n.defaults).keys
  refine ⟨⟨openTuns n.defaults, openConns n.defaults, built.filterMap fun b => b.2.2, router⟩,
    ?_, ?_⟩
  · simp only [runWith, bind_eq_ok, pure_eq_ok]
    exact ⟨(), hvalid, pfx, hpfx, finalizers, hfinalizers, (), htuns, (), hconns, built, hbuilt,
      router, hrouter, rfl⟩
  · intro c hc hc' hhealth
    obtain ⟨b, hb, hserves⟩ := hguard c hc
    obtain ⟨p, hp, hserves⟩ := hserves hc' hhealth
    obtain ⟨entry, hentry, heq⟩ := exists_of_forall₂_mem (mapM_eq_ok.mp hbuilt) hc
    obtain rfl : (c.name, b) = entry := by simpa [hb, Except.map] using heq
    exact ⟨p, List.mem_filterMap.mpr ⟨_, hentry, hp⟩, hserves⟩

/-- A client that keeps some destinations local, sends the rest up while that path is alive, and
takes everything itself otherwise. -/
def laptop : Config.Node where
  psk := "secret"
  mtu := 0
  subnet := ""
  connections := [
    { name := "tun", type := "tun", address := "10.9.0.2" },
    { name := "up", type := "connect", direction := "outgoing", transport := "udp", port := 7001,
      ip := "192.0.2.1" },
    { name := "down", type := "connect", direction := "incoming", transport := "tcp",
      port := 7002, ip := "192.0.2.2", idSetter := "tun" }]
  egresses := (∅ : FMap String Egress).insert "local" { mode := "", extIface := "eth0" }
  conditions := [
    { name := "domestic", dstIn := some { list := ["10.0.0.0/8"] } },
    { name := "alive", healthcheck := some ⟨["up"], "", ["up", "down"]⟩ }]
  routes := [
    ⟨⟨some false, "tun", ["domestic"]⟩, { egress := "local", target := "tun" }⟩,
    ⟨⟨some false, "tun", ["alive"]⟩, { target := "up" }⟩,
    ⟨⟨some false, "tun", []⟩, { egress := "local", target := "tun" }⟩,
    ⟨⟨some true, "down", []⟩, { target := "tun" }⟩]

/-- A system on which everything opens. -/
def opensAll : Opener Unit Unit where
  egress _ := .ok ()
  tun _ := .ok ()
  conn _ := .ok ()
  loadList _ := .ok ()
  openFile _ := .ok ()

/-- It opens everything. -/
theorem opensAll_opens (cfg : Config.Node) : Opens opensAll cfg where
  egress _ _ _ := ⟨(), rfl⟩
  tun _ _ _ := rfl
  conn _ _ _ := rfl
  set _ _ _ _ := ⟨(), ite_self _⟩

/-- The laptop is accepted and built. -/
theorem laptop_builds :
    laptop.defaults.validate = .ok () ∧ ∃ rt, runWith opensAll laptop = .ok rt ∧
      ∀ c ∈ laptop.conditions, ∀ hc, c.healthcheck = some hc →
        ∃ p ∈ rt.probes, p.Serves laptop.defaults c hc := by
  have hvalid : laptop.defaults.validate = .ok () := by decide +kernel
  exact ⟨hvalid, runWith_builds opensAll laptop hvalid (.inl rfl) (opensAll_opens _)⟩

end Dualnet.Node
