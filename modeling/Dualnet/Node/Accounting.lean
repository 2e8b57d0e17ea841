import Dualnet.Library.Runs
import Dualnet.Routing.PlainReading
import Dualnet.Stats.Registry

/-!
# Where the packets of a node went

A node with statistics on: `boundIngress` counts a packet on the connection it came from and hands
it to the router, whose recorder counts what became of it. Packets are routed at the same time, so
the calls on the registry of one packet may come between those of others; the finalizers and the
receivers count replies and drops of their own meanwhile.

`packets_accounted` is the result: at every moment the packets received are those a rule took, those
no rule took, and those still on their way.
-/

namespace Dualnet.Node

open Library Routing Wire

variable {C G F : Type}

/-- `boundIngress` with a registry: the connection the packet is counted for, and the calls the
recorder gets for it. -/
def boundIngress (ans : Answers C G F) (r : Router C G F) (connName : C → String) (name : String)
    (src : String) (e : Envelope) (payload : Bytes) : String × List Stat :=
  match r.sourceRouter ans connName name with
  | some bound => (name, (bound e payload).2)
  | none => (src, (r.route ans connName src e payload).2)

/-- `statsRecorder`. -/
def record (reg : Stats.Registry) : Stat → Stats.Registry
  | .routed label => reg.route label
  | .sent target n => reg.sent target n
  | .dropped _ => reg.noRouteDrop

/-- The registry, and for each packet in the router the calls still to come. -/
structure Accounts where
  reg : Stats.Registry
  pending : List (List Stat)

/-- A call on the registry. -/
inductive AccountEvent (C G F : Type) where
  /-- A packet from a connection, with the answers the router will get. -/
  | ingress (name : String) (e : Envelope) (payload : Bytes) (ans : Answers C G F)
  /-- The next call for the packet at this place of the list. -/
  | record (k : Nat)
  /-- The hook of a finalizer. -/
  | reply (target : String) (n : Nat)
  | decodeDrop

/-- One call. -/
def Accounts.step (r : Router C G F) (connName : C → String) (s : Accounts) :
    AccountEvent C G F → Option (Accounts × Unit)
  | .ingress name e payload ans =>
    let (src, stats) := boundIngress ans r connName name name e payload
    some (⟨s.reg.recv src payload.length, stats :: s.pending⟩, ())
  | .record k =>
    match s.pending[k]? with
    | some (stat :: stats) => some (⟨record s.reg stat, s.pending.set k stats⟩, ())
    | _ => none
  | .reply target n => some ({ s with reg := s.reg.sent target n }, ())
  | .decodeDrop => some ({ s with reg := s.reg.decodeDrop }, ())

/-- Packets come from the connections of the node. -/
def FromConns (names : List String) : AccountEvent C G F → Prop
  | .ingress name _ _ _ => name ∈ names
  | _ => True

/-- The runs of a node with these connections. -/
abbrev Accounts.Run (r : Router C G F) (connName : C → String) (names : List String) :
    Accounts → List (AccountEvent C G F × Unit) → Prop :=
  Reached (Accounts.step r connName) (fun _ _ event => FromConns names event)
    ⟨(Stats.new names).setRoutes r.labels, []⟩

/-- The call says what became of a packet. -/
def disposes : Stat → Bool
  | .routed _ | .dropped _ => true
  | .sent _ _ => false

/-- The packets whose fate is not counted yet. -/
def unsettled (pending : List (List Stat)) : Nat :=
  (pending.map fun stats => stats.countP disposes).sum

/-- The packets that came from a connection. -/
def arrivals (name : String) (history : List (AccountEvent C G F × Unit)) : Nat :=
  history.countP fun entry => match entry.1 with
    | .ingress src _ _ _ => src == name
    | _ => false

/-! ## What the router reports -/

section Router

variable {ans : Answers C G F} {connName : C → String} {src : String} {e : Envelope}
  {payload : Bytes}

/-- What a packet is reported as: dropped, or taken by one rule. -/
inductive Reported (labels : List String) : List Stat → Prop where
  | dropped (src : String) : Reported labels [.dropped src]
  | finalized {label : String} (h : label ∈ labels) : Reported labels [.routed label]
  | forwarded {label : String} (h : label ∈ labels) (target : String) (n : Nat) :
      Reported labels [.routed label, .sent target n]

/-- The router reports one fate of a packet. -/
theorem dispatch_reported {labels : List String} (targets : List (Target C G F))
    (hlabels : ∀ t ∈ targets, t.label ∈ labels) (parsed : Option (Option Netip.Addr))
    (log : List (Routing.Event C G F)) :
    Reported labels (dispatch ans true connName src e payload parsed targets log).2 := by
  induction targets generalizing parsed log with
  | nil => exact .dropped src
  | cons t targets ih =>
    obtain ⟨ht, hlabels⟩ := List.forall_mem_cons.mp hlabels
    have ih := ih hlabels
    rw [dispatch]
    split
    · exact ih _ _
    split
    · exact ih _ _
    simp only
    generalize ite (t.guards.isEmpty = true) (true, _) _ = asked
    split
    · exact ih _ _
    split
    · exact .finalized ht
    · split
      · exact .forwarded ht _ _
      · exact ih _ _

/-- A compiled router knows the labels of all its targets. -/
theorem mem_labels_of_compile {isSender : C → Bool} {rules : List Rule} {conns : String → Option C}
    {sources : List String} {conditions : String → Option G} {finalizers : String → Option F}
    {r : Router C G F} (h : compile isSender rules conns sources conditions finalizers = .ok r)
    {processed : Bool} {t : Target C G F} (ht : t ∈ r.compiled processed src) :
    t.label ∈ r.labels := by
  simp only [compile, bind_eq_ok, pure_eq_ok] at h
  obtain ⟨resolved, -, rfl⟩ := h
  simp only at ht ⊢
  split at ht
  · obtain ⟨⟨ru, t⟩, hmem, rfl⟩ := List.mem_map.mp ht
    have hmem := (List.of_mem_zip (List.mem_filter.mp hmem).1).2
    rw [List.mem_eraseDups]
    obtain ⟨row, hrow, rfl⟩ := List.mem_map.mp hmem
    exact List.mem_map.mpr ⟨row, hrow, rfl⟩
  · cases ht

/-- A packet is counted for its connection and reported once. -/
theorem boundIngress_reported {r : Router C G F} (hrecorder : r.recorder = true)
    (hlabels : ∀ processed src, ∀ t ∈ r.compiled processed src, t.label ∈ r.labels)
    (ans : Answers C G F) (connName : C → String) (name : String) (e : Envelope) (payload : Bytes) :
    (boundIngress ans r connName name name e payload).1 = name ∧
      Reported r.labels (boundIngress ans r connName name name e payload).2 := by
  unfold boundIngress Router.sourceRouter Router.route
  rw [hrecorder]
  dsimp only
  split
  · next bound hbound =>
      split at hbound
      · cases hbound
      · cases hbound
        refine ⟨rfl, dispatch_reported _ ?_ _ _⟩
        split
        · exact hlabels true name
        · exact hlabels false name
  · exact ⟨rfl, dispatch_reported _ (hlabels e.processed name) _ _⟩

end Router

/-! ## The balance -/

section Balance

variable {r : Router C G F} {connName : C → String} {names labels : List String} {s s' : Accounts}

/-- What every call keeps. -/
structure Balanced (labels names : List String) (s : Accounts) : Prop where
  pending : ∀ stats ∈ s.pending, ∀ label, .routed label ∈ stats → label ∈ labels
  labels : ∀ label ∈ labels, label ∈ s.reg.routes
  names : ∀ name ∈ names, name ∈ s.reg.conns
  total : s.reg.conns.total Stats.Counts.recv =
    s.reg.routes.total id + s.reg.noRouteDrops + UInt64.ofNat (unsettled s.pending)

/-- One update disposes of the packet. -/
theorem Reported.countP {stats : List Stat} (h : Reported labels stats) :
    stats.countP disposes = 1 := by
  cases h <;> rfl

/-- Rules are reported by their labels. -/
theorem Reported.mem_labels {stats : List Stat} (h : Reported labels stats) {label : String}
    (hmem : .routed label ∈ stats) : label ∈ labels := by
  cases h with
  | dropped => simp at hmem
  | finalized h => simpa using (by simpa using hmem : label = _) ▸ h
  | forwarded h =>
    simp only [List.mem_cons, Stat.routed.injEq, reduceCtorEq, List.not_mem_nil, or_false] at hmem
    exact hmem ▸ h

/-- The updates of one more packet. -/
theorem unsettled_cons (stats : List Stat) (pending : List (List Stat)) :
    unsettled (stats :: pending) = stats.countP disposes + unsettled pending := by
  simp [unsettled]

/-- A call for a packet settles it if it says what became of it. -/
theorem unsettled_set {pending : List (List Stat)} {k : Nat} {stat : Stat} {stats : List Stat}
    (hk : pending[k]? = some (stat :: stats)) :
    unsettled pending = unsettled (pending.set k stats) + if disposes stat then 1 else 0 := by
  induction pending generalizing k with
  | nil => simp at hk
  | cons first pending ih =>
    cases k with
    | zero =>
      obtain rfl : first = stat :: stats := by simpa using hk
      simp only [List.set_cons_zero, unsettled_cons, List.countP_cons]
      omega
    | succ k =>
      simp only [List.set_cons_succ, unsettled_cons, ih (by simpa using hk)]
      omega

/-- An update keeps the balance. -/
theorem Balanced.record {k : Nat} {stat : Stat} {stats : List Stat} (h : Balanced labels names s)
    (hk : s.pending[k]? = some (stat :: stats)) :
    Balanced labels names ⟨record s.reg stat, s.pending.set k stats⟩ := by
  have hcall := h.pending _ (List.mem_of_getElem? hk)
  have hpending : ∀ l ∈ s.pending.set k stats, ∀ label, .routed label ∈ l → label ∈ labels := by
    intro l hl label hlabel
    rcases List.mem_or_eq_of_mem_set hl with hl | rfl
    · exact h.pending l hl label hlabel
    · exact hcall label (List.mem_cons_of_mem _ hlabel)
  have htotal := h.total
  rw [unsettled_set hk, UInt64.ofNat_add] at htotal
  cases stat with
  | routed label =>
    refine ⟨hpending, fun l hl => FMap.mem_modify.mpr (h.labels l hl), h.names, ?_⟩
    have hroute := s.reg.total_route (h.labels label (hcall label List.mem_cons_self))
    refine htotal.trans ?_
    simp only [Node.record, hroute]
    change _ + _ + (_ + 1) = _ + 1 + _ + _
    ac_rfl
  | sent target n =>
    refine ⟨hpending, h.labels, fun name hname => FMap.mem_modify.mpr (h.names name hname), ?_⟩
    refine (s.reg.total_sent target n).trans (htotal.trans ?_)
    exact congrArg _ (add_zero _)
  | dropped src =>
    refine ⟨hpending, h.labels, h.names, htotal.trans ?_⟩
    change _ + _ + (_ + 1) = _ + (_ + 1) + _
    ac_rfl

/-- So does a reply. -/
theorem Balanced.reply (h : Balanced labels names s) (target : String) (n : Nat) :
    Balanced labels names { s with reg := s.reg.sent target n } :=
  ⟨h.pending, h.labels, fun name hname => FMap.mem_modify.mpr (h.names name hname),
    (s.reg.total_sent target n).trans h.total⟩

/-- So does a packet that comes in. -/
theorem Balanced.ingress {stats : List Stat} {name : String} (h : Balanced labels names s)
    (hname : name ∈ names) (hstats : Reported labels stats) (n : Nat) :
    Balanced labels names ⟨s.reg.recv name n, stats :: s.pending⟩ := by
  refine ⟨?_, h.labels, fun name hname => FMap.mem_modify.mpr (h.names name hname), ?_⟩
  · exact List.forall_mem_cons.mpr ⟨fun _ => hstats.mem_labels, h.pending⟩
  · rw [s.reg.total_recv (h.names name hname), h.total, unsettled_cons, hstats.countP,
      UInt64.ofNat_add]
    change _ + _ + _ + 1 = _ + _ + (1 + _)
    ac_rfl

/-- It holds at the start. -/
theorem Balanced.init (labels names : List String) :
    Balanced labels names ⟨(Stats.new names).setRoutes labels, []⟩ := by
  refine ⟨by simp, fun label hlabel => ?_, fun name hname => ?_, ?_⟩
  · rw [← AList.lookup_isSome, Stats.lookup_setRoutes, if_pos hlabel]
    rfl
  · rw [← AList.lookup_isSome]
    change ((Stats.new names).conns.lookup name).isSome
    rw [Stats.lookup_new, if_pos hname]
    rfl
  · have hroutes : ((Stats.new names).setRoutes labels).routes.total id = 0 := by
      refine FMap.total_eq_zero fun label v hv => ?_
      rw [Stats.lookup_setRoutes] at hv
      exact (Option.some.inj (Option.ite_none_right_eq_some.mp hv).2).symm
    have hconns : (Stats.new names).conns.total Stats.Counts.recv = 0 := by
      refine FMap.total_eq_zero fun name c hc => ?_
      rw [Stats.lookup_new] at hc
      obtain rfl := Option.some.inj (Option.ite_none_right_eq_some.mp hc).2
      rfl
    rw [hroutes]
    exact hconns

/-- Every step keeps it. -/
theorem Balanced.step (hrecorder : r.recorder = true)
    (hlabels : ∀ processed src, ∀ t ∈ r.compiled processed src, t.label ∈ r.labels)
    {event : AccountEvent C G F} {out : Unit} (h : Balanced r.labels names s)
    (hfrom : FromConns names event) (htaken : s.step r connName event = some (s', out)) :
    Balanced r.labels names s' := by
  cases event with
  | ingress name e payload ans =>
    obtain ⟨hsrc, hreported⟩ := boundIngress_reported hrecorder hlabels ans connName name e payload
    simp only [Accounts.step, hsrc, Option.some.injEq, Prod.mk.injEq] at htaken
    obtain ⟨rfl, -⟩ := htaken
    exact h.ingress hfrom hreported payload.length
  | record k =>
    simp only [Accounts.step] at htaken
    split at htaken
    · next stat stats hk =>
        obtain ⟨rfl, -⟩ := pair_inj htaken
        exact h.record hk
    · cases htaken
  | reply target n =>
    obtain ⟨rfl, -⟩ := pair_inj htaken
    exact h.reply target n
  | decodeDrop =>
    obtain ⟨rfl, -⟩ := pair_inj htaken
    exact ⟨h.pending, h.labels, h.names, h.total⟩

/-- A connection counts the packets that came from it. -/
theorem recv_step (hrecorder : r.recorder = true)
    (hlabels : ∀ processed src, ∀ t ∈ r.compiled processed src, t.label ∈ r.labels)
    {event : AccountEvent C G F} {out : Unit} {history : List (AccountEvent C G F × Unit)}
    {name : String} (htaken : s.step r connName event = some (s', out))
    (h : (s.reg.conns.lookup name).map Stats.Counts.recv =
      some (UInt64.ofNat (arrivals name history))) :
    (s'.reg.conns.lookup name).map Stats.Counts.recv =
      some (UInt64.ofNat (arrivals name ((event, out) :: history))) := by
  have hsent : ∀ target n, ((s.reg.sent target n).conns.lookup name).map Stats.Counts.recv =
      (s.reg.conns.lookup name).map Stats.Counts.recv := by
    intro target n
    rw [Stats.Registry.sent, FMap.lookup_modify, Option.map_map]
    congr 1
    funext c
    simp only [Function.comp_apply]
    split <;> rfl
  cases event with
  | ingress src e payload ans =>
    obtain ⟨hsrc, -⟩ := boundIngress_reported hrecorder hlabels ans connName src e payload
    simp only [Accounts.step, hsrc, Option.some.injEq, Prod.mk.injEq] at htaken
    obtain ⟨rfl, -⟩ := htaken
    obtain ⟨c, hc, hrecv⟩ := Option.map_eq_some_iff.mp h
    rw [Stats.Registry.recv, FMap.lookup_modify, hc]
    by_cases hname : name = src
    · subst hname
      simp [arrivals, hrecv, UInt64.ofNat_add]
    · simp [arrivals, hrecv, hname, Ne.symm hname]
  | record k =>
    simp only [Accounts.step] at htaken
    split at htaken
    · next stat stats hk =>
        obtain ⟨rfl, -⟩ := pair_inj htaken
        cases stat with
        | routed label => exact h
        | sent target n => exact (hsent target n).trans h
        | dropped src => exact h
    · cases htaken
  | reply target n =>
    obtain ⟨rfl, -⟩ := pair_inj htaken
    exact (hsent target n).trans h
  | decodeDrop =>
    obtain ⟨rfl, -⟩ := pair_inj htaken
    exact h

/-- Each connection of a node counts the packets that came from it, and together they are the
packets the rules took, those no rule took and those in the router, however the calls of packets
routed at the same time fall. -/
theorem packets_accounted {isSender : C → Bool} {rules : List Rule} {conns : String → Option C}
    {sources : List String} {conditions : String → Option G} {finalizers : String → Option F}
    (hcompile : compile isSender rules conns sources conditions finalizers = .ok r)
    {history : List (AccountEvent C G F × Unit)}
    (hrun : Accounts.Run r.setRecorder connName names s history) :
    (∀ name ∈ names, (s.reg.conns.lookup name).map Stats.Counts.recv =
      some (UInt64.ofNat (arrivals name history))) ∧
    s.reg.conns.total Stats.Counts.recv =
      s.reg.routes.total id + s.reg.noRouteDrops + UInt64.ofNat (unsettled s.pending) := by
  have hlabels : ∀ processed src, ∀ t ∈ r.setRecorder.compiled processed src,
      t.label ∈ r.setRecorder.labels := fun _ _ _ ht => mem_labels_of_compile hcompile ht
  refine ⟨fun name hname => ?_, ?_⟩
  · refine hrun.invariant (fun s history => (s.reg.conns.lookup name).map Stats.Counts.recv =
      some (UInt64.ofNat (arrivals name history))) ?_ ?_
    · change ((Stats.new names).conns.lookup name).map Stats.Counts.recv = _
      rw [Stats.lookup_new, if_pos hname]
      rfl
    · intro s history event s' out h _ htaken
      exact recv_step rfl hlabels htaken h
  · refine (hrun.invariant (fun s _ => Balanced r.labels names s) (.init _ _) ?_).total
    intro s history event s' out h hfrom htaken
    exact h.step (r := r.setRecorder) rfl hlabels hfrom htaken

/-- Two packets at once: the one from `tun` is finalized, and the one from `link`, which no row
takes, is still in the router. -/
theorem packets_accounted_two : ∃ r, compile (fun _ => true) edgeTable some ["tun", "link"] some
      (fun name => if name = "wan" then some name else none) = .ok r ∧
    ∃ s history, Accounts.Run r.setRecorder id ["tun", "link"] s history ∧
      (arrivals "tun" history = 1 ∧ unsettled s.pending = 1 ∧ s.reg.noRouteDrops = 0) ∧
      (s.reg.conns.lookup "tun").map Stats.Counts.recv = some 1 ∧
      s.reg.conns.total Stats.Counts.recv = s.reg.routes.total id + 0 + 1 := by
  obtain ⟨r, hr⟩ : ∃ r, compile (fun _ => true) edgeTable some ["tun", "link"] some
    (fun name => if name = "wan" then some name else none) = .ok r := ⟨_, rfl⟩
  obtain ⟨s, history, hrun, hs⟩ : ∃ s history,
      Accounts.Run r.setRecorder id ["tun", "link"] s history ∧
      arrivals "tun" history = 1 ∧ unsettled s.pending = 1 ∧ s.reg.noRouteDrops = 0 := by
    have start : Accounts.Run r.setRecorder id ["tun", "link"] _ [] := .init
    cases hr
    have tun := start.next (.ingress "tun" ⟨Owner.zero, false⟩ [0x45] (acceptAfter 0))
      List.mem_cons_self rfl
    have link := tun.next (.ingress "link" ⟨Owner.zero, false⟩ [0x45] (acceptAfter 0))
      (List.mem_cons_of_mem _ List.mem_cons_self) rfl
    exact ⟨_, _, link.next (.record 1) trivial rfl, rfl, rfl, rfl⟩
  obtain ⟨hrecv, htotal⟩ := packets_accounted hr hrun
  have htun := hrecv "tun" List.mem_cons_self
  rw [hs.1] at htun
  rw [hs.2.1, hs.2.2] at htotal
  exact ⟨r, hr, s, history, hrun, hs, htun, htotal⟩

end Balance

end Dualnet.Node
