import Dualnet.Config.Node

/-!
# Validation of a node configuration

`config/validate.go`: the first failing check is the error. The loops that collect something
while they check (connection names, tun addresses, condition kinds) are folds over that state.
-/

namespace Dualnet.Config

open Library Text

/-- `validateIPToken`: an `ip/mask` prefix or a bare address. -/
def validateIPToken (s : String) : Except String Unit :=
  if '/' ∈ s.toList then (Netip.parsePrefix s).map fun _ => ()
  else (Netip.parseAddr s).map fun _ => ()

/-- `IPSet.Validate`. -/
def IPSet.validate (s : IPSet) (name : String) : Except String Unit := do
  reject ((s.file != "") == !s.list.isEmpty)
    s!"config: condition {quote name} must set exactly one of file / list"
  s.list.forM fun e =>
    wrap s!"config: condition {quote name} list entry {quote e}: " (validateIPToken e)

/-- `validateTransport`. -/
def validateTransport (c : Connection) : Except String Unit := do
  reject (c.transport != "http" && c.transport != "udp" && c.transport != "tcp")
    s!"config: connection {quote c.name} transport {quote c.transport} must be http, udp or tcp"
  match c.http with
  | none => pure ()
  | some http => do
    reject (c.transport != "http")
      s!"config: connection {quote c.name} sets http options but transport is {quote c.transport}"
    [http.uploadPath, http.downloadPath].forM fun p =>
      reject (p != "" && p.toList.head? != some '/')
        s!"config: connection {quote c.name} http path {quote p} must begin with /"

/-- What the connection loop of `validateUserspace` collects. -/
structure ConnState where
  names : FMap String Connection := ∅
  tunAddrs : List String := []
  captureDefaults : Nat := 0

/-- The direction check `connect` and `listen` share. -/
def validateDirection (c : Connection) : Except String Unit :=
  reject (c.direction != "outgoing" && c.direction != "incoming")
    s!"config: {c.type} {quote c.name} direction {quote c.direction} must be outgoing or incoming"

/-- The `connect` case of `validateConn`. -/
def validateConnect (c : Connection) : Except String Unit := do
  reject (c.ip == "" || c.port ≤ 0) s!"config: connect {quote c.name} needs ip and port"
  reject (Netip.parseAddr c.ip).toOption.isNone
    s!"config: connect {quote c.name} bad ip {quote c.ip}"
  validateTransport c
  validateDirection c
  reject c.multiple s!"config: connect {quote c.name} cannot be multiple (listen-only)"
  reject (c.warpped && c.transport != "http")
    s!"config: connect {quote c.name}: warpped requires transport http (WARP MTU < tunnel MTU fragments UDP)"
  reject (c.idSetter != "" && c.direction != "incoming")
    s!"config: connect {quote c.name}: id_setter is only valid on an incoming connection"
  reject (c.lanIface != "") s!"config: connect {quote c.name} cannot set lan_iface (tun-only)"

/-- The `listen` case of `validateConn`. -/
def validateListen (c : Connection) : Except String Unit := do
  reject (c.port ≤ 0) s!"config: listen {quote c.name} needs port"
  validateTransport c
  validateDirection c
  reject (c.ip != "" || c.warpped || c.idSetter != "" || c.lanIface != "")
    s!"config: listen {quote c.name} cannot set ip/warpped/id_setter/lan_iface"
  reject (c.multiple && c.direction != "outgoing")
    s!"config: listen {quote c.name}: multiple is only meaningful with direction outgoing"

/-- The address part of the `tun` case: an address may be used by one tun only. -/
def validateTunAddress (c : Connection) (st : ConnState) : Except String ConnState :=
  if c.address = "" then pure st
  else match Netip.parseAddr c.address with
    | .error _ => .error s!"config: tun {quote c.name} bad address {quote c.address}"
    | .ok addr => do
      reject (st.tunAddrs.contains addr.toString)
        s!"config: tun address {quote c.address} used by more than one tun"
      pure { st with tunAddrs := addr.toString :: st.tunAddrs }

/-- The `tun` case of `validateConn`. -/
def validateTun (c : Connection) (st : ConnState) : Except String ConnState := do
  reject (c.transport != "" || c.port != 0 || c.ip != "" || c.direction != "")
    s!"config: tun {quote c.name} must not set transport/port/ip/direction"
  reject c.http.isSome s!"config: tun {quote c.name} must not set http options"
  let st ← validateTunAddress c st
  reject (c.captureDefault && c.address == "")
    s!"config: tun {quote c.name} sets capture_default but has no address (a default route needs a peer address)"
  reject (c.lanIface != "" && !c.captureDefault)
    s!"config: tun {quote c.name} sets lan_iface but not capture_default (LAN forwarding needs the capture)"
  pure { st with
    captureDefaults := st.captureDefaults + if c.captureDefault then 1 else 0 }

/-- The source address part of `validateConn`. -/
def validateSourceIP (c : Connection) : Except String Unit :=
  if c.sourceIP = "" then pure ()
  else do
    reject (c.type == "tun")
      s!"config: tun {quote c.name} must not set source_ip (connect/listen only)"
    wrap s!"config: connection {quote c.name} bad source_ip {quote c.sourceIP}: "
      (validateIPToken c.sourceIP)

/-- `validateConn`. -/
def validateConn (c : Connection) (st : ConnState) : Except String ConnState := do
  validateSourceIP c
  if c.type = "connect" then do
    validateConnect c
    pure st
  else if c.type = "listen" then do
    validateListen c
    pure st
  else if c.type = "tun" then validateTun c st
  else .error s!"config: connection {quote c.name} has unknown type {quote c.type}"

/-- One round of the connection loop of `validateUserspace`. -/
def validateConnection (psk : String) (st : ConnState) (c : Connection) :
    Except String ConnState := do
  reject (c.name == "") "config: a connection has no name"
  reject (st.names.lookup c.name).isSome
    s!"config: duplicate connection name {quote c.name}"
  let st := { st with names := st.names.insert c.name c }
  reject (c.effectivePSK psk == "")
    s!"config: connection {quote c.name} has no psk (set a global psk or a per-connection psk)"
  wrap s!"config: connection {quote c.name}: "
    ((Cipher.parseName c.cipher).map fun _ => ())
  validateConn c st

/-- The gateway check both kinds of egress share. -/
def validateGateway (context : String) (eg : Egress) : Except String Unit :=
  reject (eg.gateway != "" && (Netip.parseAddr eg.gateway).toOption.isNone)
    s!"{context} bad gateway {quote eg.gateway}"

/-- One round of `validateEgresses`. -/
def validateEgress (name : String) (eg : Egress) : Except String Unit := do
  reject (name == "") "config: an egress has no name"
  if eg.mode = "kernel" ∨ eg.mode = "direct" then
    reject (eg.extIface == "")
      s!"config: egress {quote name} mode {eg.mode} needs exit (the internet-facing connection)"
    reject (eg.mode == "kernel" && eg.gateway != "")
      s!"config: egress {quote name} mode kernel must not set gateway"
  else if eg.mode = "warp" then
    reject (eg.extIface != "" || eg.gateway != "" || eg.tunName != "")
      s!"config: egress {quote name} mode warp must not set exit/gateway/tun_name"
  else .error s!"config: egress {quote name} mode {quote eg.mode} must be kernel, direct, or warp"
  validateGateway s!"config: egress {quote name}" eg

/-- The kinds a condition map records. -/
inductive CondKind where
  | dst
  | src
  | health
  deriving DecidableEq

/-- The checks every condition loop starts with. -/
def validateCondName (conds : FMap String CondKind) (name : String) : Except String Unit := do
  reject (name == "") "config: a condition has no name"
  reject (conds.lookup name).isSome s!"config: duplicate condition name {quote name}"

/-- The tun a healthcheck runs for: the named one, or the node's only one. -/
def healthTun (connections : List Connection) (names : FMap String Connection) (cond : String)
    (hc : HealthcheckSpec) : Except String String :=
  if hc.tun = "" then
    match connections.filter (·.type == "tun") with
    | [] => .error s!"config: condition {quote cond} healthcheck needs a tun but the node has none"
    | [only] => .ok only.name
    | _ => .error s!"config: condition {quote cond} healthcheck needs an explicit tun (node has several)"
  else match names.lookup hc.tun with
    | some t =>
      if t.type = "tun" then .ok hc.tun
      else .error s!"config: condition {quote cond} healthcheck tun {quote hc.tun} must name a local tun"
    | none =>
      .error s!"config: condition {quote cond} healthcheck tun {quote hc.tun} must name a local tun"

/-- The up-link a healthcheck probe is injected on must be an outgoing connection. -/
def validateProbe (names : FMap String Connection) (cond : String) (hc : HealthcheckSpec) :
    Except String Unit :=
  match hc.up with
  | [] => .error s!"config: condition {quote cond} healthcheck has no up-link path"
  | up :: _ => match names.lookup up with
    | none =>
      .error s!"config: condition {quote cond} healthcheck up[0] {quote up} is not a connection"
    | some via => do
      reject (via.type == "tun")
        s!"config: condition {quote cond} healthcheck up[0] {quote up} must be a connect/listen, not a tun"
      reject (via.direction != "outgoing")
        s!"config: condition {quote cond} healthcheck up[0] {quote up} must be an outgoing (sending) connection, not {quote via.direction}"

/-- One round of `validateConditions`; the state is the kinds so far and the tuns that already
have a healthcheck. -/
def validateCondition (connections : List Connection) (names : FMap String Connection)
    (st : FMap String CondKind × List String) (c : Condition) :
    Except String (FMap String CondKind × List String) := do
  let (conds, healthTuns) := st
  validateCondName conds c.name
  reject c.srcIn.isSome
    s!"config: condition {quote c.name} src_in is only valid on a kernel-datapath node"
  match c.dstIn, c.healthcheck with
  | some set, none => do
    set.validate c.name
    pure (conds.insert c.name .dst, healthTuns)
  | none, some hc => do
    validateProbe names c.name hc
    let tun ← healthTun connections names c.name hc
    reject (healthTuns.contains tun)
      s!"config: tun {quote tun} has more than one healthcheck condition (only one per tun is supported)"
    pure (conds.insert c.name .health, tun :: healthTuns)
  | _, _ =>
    .error s!"config: condition {quote c.name} must set exactly one of dst_in / healthcheck"

/-- One round of `validateRoutes`. -/
def validateRoute (names : FMap String Connection) (egresses : FMap String Egress)
    (conds : FMap String CondKind) (i : Nat) (r : Route) : Except String Unit := do
  let known (name : String) : Bool := ((names.lookup name).map Connection.name).getD "" != ""
  reject (r.action.target == "" || !known r.action.target)
    s!"config: route {i} targets unknown connection {quote r.action.target}"
  reject (r.on.source != "" && !known r.on.source)
    s!"config: route {i} has unknown source {quote r.on.source}"
  if r.action.egress ≠ "" then
    reject (egresses.lookup r.action.egress).isNone
      s!"config: route {i} references unknown egress {quote r.action.egress}"
    reject (r.on.processed != some false)
      s!"config: route {i} cannot finalize an already-processed packet (set match.processed: false)"
  r.on.conditions.forM fun cn =>
    match conds.lookup cn with
    | none => .error s!"config: route {i} references unknown condition {quote cn}"
    | some kind =>
      reject (kind == .dst && r.on.processed == some true)
        s!"config: route {i} uses packet condition {quote cn} on a processed rule (only valid on unprocessed)"

/-- The id-setter check of `validateUserspace`. -/
def validateIDSetter (names : FMap String Connection) (c : Connection) : Except String Unit :=
  reject (c.idSetter != "" && ((names.lookup c.idSetter).map Connection.type) != some "tun")
    s!"config: connection {quote c.name} id_setter {quote c.idSetter} must name a local tun"

/-- `validateUserspace`. -/
def Node.validateUserspace (n : Node) : Except String Unit := do
  reject (!n.forward.isEmpty || !n.lanIfaces.isEmpty)
    "config: forward/lan_ifaces are kernel-datapath only"
  reject n.connections.isEmpty "config: no connections"
  let st ← n.connections.foldlM (validateConnection n.psk) {}
  reject (1 < st.captureDefaults)
    "config: at most one tun may set capture_default (only one default route)"
  n.connections.forM (validateIDSetter st.names)
  n.egresses.entries.forM fun ⟨name, eg⟩ => validateEgress name eg
  let (conds, _) ← n.conditions.foldlM (validateCondition n.connections st.names) (∅, [])
  n.routes.zipIdx.forM fun (r, i) => validateRoute st.names n.egresses conds i r

/-- `validateIfaceName`. -/
def validateIfaceName (s : String) : Except String Unit := do
  reject (s == "" || 15 < s.utf8ByteSize)
    s!"device name {quote s} must be 1-15 characters"
  reject (s.toList.any fun c => c == '/' || c == ' ' || c == '\t' || c == '\n')
    s!"device name {quote s} must not contain '/' or whitespace"

/-- The mode part of a kernel node's egress check; `wgDevs` are the WireGuard devices claimed. -/
def validateKernelMode (wgDevs : FMap String String) (name : String) (eg : Egress) :
    Except String (FMap String String) :=
  if eg.mode = "kernel" then do
    reject (eg.extIface == "")
      s!"config: kernel node egress {quote name} needs exit (the internet-facing connection)"
    reject (eg.tunName != "" || eg.warpConfig != "" || eg.warpCache != "" || eg.warpInsecure)
      s!"config: kernel node egress {quote name} mode kernel must not set tun_name/warp_config/warp_cache/warp_insecure"
    pure wgDevs
  else if eg.mode = "warp" then do
    reject (eg.extIface == "")
      s!"config: kernel node egress {quote name} mode warp needs exit (the underlay WAN its endpoint UDP leaves through)"
    -- The name is set here at the latest by `Defaults`.
    match validateIfaceName eg.tunName with
    | .error e =>
      .error s!"config: kernel node egress {quote name} tun_name: {e} (set tun_name explicitly)"
    | .ok _ => match wgDevs.lookup eg.tunName with
      | some prev =>
        .error s!"config: kernel node egresses {quote prev} and {quote name} share WireGuard device {quote eg.tunName}"
      | none => pure (wgDevs.insert eg.tunName name)
  else .error s!"config: kernel node egress {quote name} mode {quote eg.mode} must be kernel or warp"

/-- One round of `validateKernel`'s egress loop. -/
def validateKernelEgress (wgDevs : FMap String String) (entry : Σ _ : String, Egress) :
    Except String (FMap String String) := do
  let wgDevs ← validateKernelMode wgDevs entry.1 entry.2
  validateGateway s!"config: kernel node egress {quote entry.1}" entry.2
  pure wgDevs

/-- One round of `validateKernel`'s condition loop. -/
def validateKernelCondition (conds : FMap String CondKind) (c : Condition) :
    Except String (FMap String CondKind) := do
  validateCondName conds c.name
  reject c.healthcheck.isSome
    s!"config: kernel node condition {quote c.name} cannot use healthcheck"
  match c.dstIn, c.srcIn with
  | some set, none => do
    set.validate c.name
    pure (conds.insert c.name .dst)
  | none, some set => do
    set.validate c.name
    pure (conds.insert c.name .src)
  | _, _ =>
    .error s!"config: kernel node condition {quote c.name} must set exactly one of dst_in / src_in"

/-- How far the branch order has advanced: `src_in` branches, `dst_in` branches, the default. -/
inductive Phase where
  | src
  | dst
  | default
  deriving DecidableEq

/-- One round of `validateForward`; the state is the phase and the number of defaults. -/
def validateForwardBranch (egresses : FMap String Egress) (conds : FMap String CondKind)
    (st : Phase × Nat) (branch : Forward × Nat) : Except String (Phase × Nat) := do
  let (phase, defaults) := st
  let (f, i) := branch
  reject (f.egress == "") s!"config: forward branch {i} has no egress"
  reject (egresses.lookup f.egress).isNone
    s!"config: forward branch {i} references unknown egress {quote f.egress}"
  match f.when with
  | [] => pure (.default, defaults + 1)
  | cond :: more => do
    reject (phase == .default) s!"config: forward branch {i} comes after the default branch"
    reject (!more.isEmpty) s!"config: forward branch {i} must name exactly one condition"
    match conds.lookup cond with
    | none => .error s!"config: forward branch {i} references unknown condition {quote cond}"
    | some .src => do
      reject (phase != .src)
        s!"config: forward branch {i} (src_in) must come before dst_in branches"
      pure (phase, defaults)
    | some .dst => pure (.dst, defaults)
    | some .health => pure (phase, defaults)

/-- `validateForward`. -/
def Node.validateForward (n : Node) (conds : FMap String CondKind) : Except String Unit := do
  reject n.forward.isEmpty "config: kernel node needs a forward policy"
  let (_, defaults) ← n.forward.zipIdx.foldlM (validateForwardBranch n.egresses conds) (.src, 0)
  reject (defaults != 1)
    s!"config: kernel forward policy needs exactly one default branch (got {defaults})"

/-- `validateKernel`. -/
def Node.validateKernel (n : Node) : Except String Unit := do
  reject (!n.connections.isEmpty) "config: kernel-datapath node must have no connections"
  reject (!n.routes.isEmpty) "config: kernel-datapath node must have no routes (use forward)"
  reject n.egresses.entries.isEmpty "config: kernel-datapath node needs at least one egress"
  let _ ← n.egresses.entries.foldlM validateKernelEgress ∅
  let conds ← n.conditions.foldlM validateKernelCondition ∅
  n.validateForward conds

/-- `Validate`. -/
def Node.validate (n : Node) : Except String Unit := do
  reject (n.mtu < 576 || 9000 < n.mtu) s!"config: mtu {n.mtu} out of range"
  wrap s!"config: bad subnet {quote n.subnet}: " ((Netip.parsePrefix n.subnet).map fun _ => ())
  if n.datapath = "" ∨ n.datapath = "userspace" then n.validateUserspace
  else if n.datapath = "kernel" then n.validateKernel
  else .error s!"config: unknown datapath {quote n.datapath} (want userspace or kernel)"

/-! ## Connection names -/

/-- This check adds no name. -/
theorem validateTunAddress_names {c : Connection} {st st' : ConnState}
    (h : validateTunAddress c st = .ok st') : st'.names = st.names := by
  unfold validateTunAddress at h
  split at h
  · rw [pure_eq_ok] at h
    rw [h]
  · split at h
    · cases h
    · simp only [bind_eq_ok, reject_eq_ok, exists_const, pure_eq_ok] at h
      obtain ⟨-, rfl⟩ := h
      rfl

/-- Checking a connection records no name of its own. -/
theorem validateConn_names {c : Connection} {st st' : ConnState}
    (h : validateConn c st = .ok st') : st'.names = st.names := by
  rw [validateConn, bind_eq_ok] at h
  obtain ⟨_, -, h⟩ := h
  split at h
  · simp only [bind_eq_ok, pure_eq_ok] at h
    obtain ⟨_, -, rfl⟩ := h
    rfl
  · split at h
    · simp only [bind_eq_ok, pure_eq_ok] at h
      obtain ⟨_, -, rfl⟩ := h
      rfl
    · split at h
      · simp only [validateTun, bind_eq_ok, reject_eq_ok, exists_const, pure_eq_ok] at h
        obtain ⟨-, -, mid, hmid, -, -, rfl⟩ := h
        exact (validateTunAddress_names hmid :)
      · cases h

/-- The connection loop accepts each name once, and no empty one. -/
theorem validateConnections_names {psk : String} {l : List Connection} {st st' : ConnState}
    (h : l.foldlM (validateConnection psk) st = .ok st') :
    (l.map Connection.name).Nodup ∧ (∀ c ∈ l, c.name ≠ "") ∧
      ∀ c ∈ l, st.names.lookup c.name = none := by
  induction l generalizing st with
  | nil => simp
  | cons c l ih =>
    rw [List.foldlM_cons, bind_eq_ok] at h
    obtain ⟨next, hstep, hrest⟩ := h
    simp only [validateConnection, bind_eq_ok, reject_eq_ok, exists_const] at hstep
    obtain ⟨hnamed, hnew, -, _, -, hconn⟩ := hstep
    have hnames : next.names = st.names.insert c.name c := validateConn_names hconn
    have hnew : st.names.lookup c.name = none := by simpa using hnew
    obtain ⟨hnodup, hnameds, hfresh⟩ := ih hrest
    have hfresh' : ∀ d ∈ l, d.name ≠ c.name ∧ st.names.lookup d.name = none := by
      intro d hd
      have hd := hfresh d hd
      rw [hnames, FMap.lookup_insert_ite] at hd
      split at hd
      · cases hd
      · exact ⟨‹_›, hd⟩
    refine ⟨?_, List.forall_mem_cons.mpr ⟨by simpa using hnamed, hnameds⟩,
      List.forall_mem_cons.mpr ⟨hnew, fun d hd => (hfresh' d hd).2⟩⟩
    rw [List.map_cons, List.nodup_cons]
    refine ⟨fun hmem => ?_, hnodup⟩
    obtain ⟨d, hd, hname⟩ := List.mem_map.mp hmem
    exact (hfresh' d hd).1 hname

/-- The connections of a valid userspace configuration have distinct names, none empty. -/
theorem Node.connection_names {n : Node} (h : n.validate = .ok ()) (hdatapath : n.datapath = "") :
    (n.connections.map Connection.name).Nodup ∧ ∀ c ∈ n.connections, c.name ≠ "" := by
  simp only [Node.validate, bind_eq_ok, reject_eq_ok, exists_const, hdatapath, true_or, if_true,
    Node.validateUserspace] at h
  obtain ⟨-, _, -, -, -, st, hconns, -⟩ := h
  have hnames := validateConnections_names hconns
  exact ⟨hnames.1, hnames.2.1⟩

end Dualnet.Config
