import Dualnet.Library.Runs
import Dualnet.Routing.Table
import Dualnet.Wire.Ping

/-!
# What counts as a sign of life

A node with a healthcheck on its tun: the driver's probe sends pings on the first up-link, the
tun takes a packet that looks like a ping for the reflection of one, and so does a finalizer,
which sends it back to the reply target. Looks are all they go by. `liveness_intact_iff`: whatever
the routing table, only the driver's own pings are taken for pings exactly if no other packet
looks like one.
-/

namespace Dualnet.Node

open Library Routing Wire

/-- The connections of a node: the tun under healthcheck and all others. -/
inductive Link where
  | tun
  | other (name : String)
  deriving DecidableEq

variable {G : Type}

/-- How the surroundings of the node answer while one packet is routed. -/
abbrev World (G : Type) := Answers Link G String

/-- The wiring of a node: its routing table, compiled against its connections, guards and
finalizers, and the up-link its healthcheck probes. Finalizers go by the name of their egress. -/
structure Wiring (G : Type) where
  tunName : String
  up : String
  isSender : Link → Bool
  rules : List Rule
  conns : String → Option Link
  sources : List String
  conditions : String → Option G
  finalizers : String → Option String
  linkName : Link → String
  router : Router Link G String
  compiled : compile isSender rules conns sources conditions finalizers = .ok router

/-- The tun's id, the driver's counter, and the pings it has injected. -/
structure State where
  id : Option Owner
  seq : UInt64
  injected : List Bytes

/-- What becomes of a packet. -/
inductive Effect where
  /-- The tun took it for the reflection of a ping and called the driver's `Seen`. -/
  | seen (payload : Bytes)
  /-- The tun wrote it to the device. -/
  | written (payload : Bytes)
  /-- A finalizer took it for a ping and sent it back. -/
  | reflected (reply : Link) (e : Envelope) (payload : Bytes)
  /-- A finalizer sent it to the internet. -/
  | submitted (egress : String) (payload : Bytes)
  /-- It left by another connection. -/
  | sent (name : String) (e : Envelope) (payload : Bytes)
  deriving DecidableEq

/-- A packet taken for a ping. -/
def Effect.ping : Effect → Option Bytes
  | .seen payload => some payload
  | .reflected _ _ payload => some payload
  | _ => none

/-- `TunConn.Send`: refuse another owner's packet, consume a ping, write anything else. -/
def tunSend (id : Option Owner) (e : Envelope) (payload : Bytes) : List Effect :=
  if id ≠ some e.owner then []
  else if isPing payload then [.seen payload]
  else [.written payload]

/-- `Send` on a reply target. -/
def linkSend (id : Option Owner) (e : Envelope) (payload : Bytes) : Link → List Effect
  | .tun => tunSend id e payload
  | .other name => [.sent name e payload]

/-- `Submit`: reflect a ping, send anything else to the internet. -/
def submit (id : Option Owner) (egress : String) (owner : Owner) (reply : Link)
    (payload : Bytes) : List Effect :=
  if isPing payload then
    .reflected reply ⟨owner, true⟩ payload :: linkSend id ⟨owner, true⟩ payload reply
  else [.submitted egress payload]

/-- What a call of the router does. -/
def perform (id : Option Owner) : Routing.Event Link G String → List Effect
  | .send c e payload true => linkSend id e payload c
  | .finalize egress owner reply payload => submit id egress owner reply payload
  | _ => []

/-- The answers the router gets: the tun's own, the world's for the rest. -/
def answers (id : Option Owner) (world : World G) : Answers Link G String where
  accepts log c owner := match c with
    | .tun => id == some owner
    | .other _ => world.accepts log c owner
  pass := world.pass
  send log c e payload := match c with
    | .tun => id == some e.owner
    | .other _ => world.send log c e payload

/-- The intake of a connection. A source without rules has nothing to route by and drops. -/
def Wiring.ingress (n : Wiring G) (s : State) (world : World G) (src : String) (e : Envelope)
    (payload : Bytes) : List Effect :=
  match n.router.sourceRouter (answers s.id world) n.linkName src with
  | none => []
  | some route => (route e payload).1.flatMap (perform s.id)

/-- A step of the node. -/
inductive Event (G : Type) where
  /-- A connection was assigned an id for the tun. -/
  | setID (id : Owner)
  /-- The tun read a packet from its device. -/
  | device (world : World G) (payload : Bytes)
  /-- Another connection received a packet. -/
  | receive (world : World G) (src : String) (e : Envelope) (payload : Bytes)
  /-- A finalizer sends a reply from the internet back. -/
  | reply (target : Link) (owner : Owner) (payload : Bytes)
  /-- The driver probes. -/
  | tick

/-- One step. -/
def Wiring.step (n : Wiring G) (s : State) : Event G → Option (State × List Effect)
  | .setID id => some ({ s with id := some id }, [])
  | .device world payload =>
    -- The read loop waits for the id.
    s.id.map fun id => (s, n.ingress s world n.tunName ⟨id, false⟩ payload)
  | .receive world src e payload => some (s, n.ingress s world src e payload)
  | .reply target owner payload => some (s, linkSend s.id ⟨owner, true⟩ payload target)
  | .tick =>
    let ping := encodePing (s.seq + 1)
    match s.id with
    | some id => some ({ s with seq := s.seq + 1, injected := ping :: s.injected },
        [.sent n.up ⟨id, false⟩ ping])
    | none => some ({ s with seq := s.seq + 1 }, [])

/-- The packets that reach the node satisfy `P`, unless a connection received what the driver
injected. -/
def Admits (P : Bytes → Prop) (s : State) : Event G → Prop
  | .device _ payload => P payload
  | .receive _ _ _ payload => P payload ∨ payload ∈ s.injected
  | .reply _ _ payload => P payload
  | _ => True

/-- The runs of a node whose tun starts with this id, or none yet. -/
abbrev Run (P : Bytes → Prop) (n : Wiring G) (id : Option Owner) :
    State → List (Event G × List Effect) → Prop :=
  Reached n.step (fun s _ event => Admits P s event) ⟨id, 0, []⟩

/-! ## Only what looks like a ping is taken for one -/

/-- The tun consumes only what looks like a ping. -/
theorem linkSend_ping {id : Option Owner} {e : Envelope} {payload : Bytes} {c : Link} {p : Bytes}
    (h : ∃ effect ∈ linkSend id e payload c, effect.ping = some p) :
    p = payload ∧ isPing payload = true := by
  obtain ⟨effect, hmem, hping⟩ := h
  cases c with
  | tun =>
    simp only [linkSend, tunSend] at hmem
    split at hmem
    · cases hmem
    · split at hmem
      · rename_i hlooks
        rw [List.mem_singleton.mp hmem] at hping
        exact ⟨(Option.some.inj hping).symm, hlooks⟩
      · rw [List.mem_singleton.mp hmem] at hping
        cases hping
  | other name =>
    rw [linkSend, List.mem_singleton] at hmem
    rw [hmem] at hping
    cases hping

/-- The payload a call of the router is about. -/
def payloadOf : Routing.Event Link G String → Option Bytes
  | .send _ _ payload _ => some payload
  | .finalize _ _ _ payload => some payload
  | _ => none

/-- A call of the router takes its payload for a ping only if it looks like one. -/
theorem perform_ping {id : Option Owner} {call : Routing.Event Link G String} {p : Bytes}
    (h : ∃ effect ∈ perform id call, effect.ping = some p) :
    payloadOf call = some p ∧ isPing p = true := by
  cases call with
  | accepts | pass => simp [perform] at h
  | send c e payload delivered =>
    cases delivered with
    | false => simp [perform] at h
    | true =>
      obtain ⟨rfl, hlooks⟩ := linkSend_ping h
      exact ⟨rfl, hlooks⟩
  | finalize egress owner reply payload =>
    simp only [perform, submit] at h
    split at h
    · rename_i hlooks
      obtain ⟨effect, hmem, hping⟩ := h
      rcases List.mem_cons.mp hmem with rfl | hmem
      · exact ⟨hping, Option.some.inj hping ▸ hlooks⟩
      · obtain ⟨rfl, -⟩ := linkSend_ping ⟨effect, hmem, hping⟩
        exact ⟨rfl, hlooks⟩
    · obtain ⟨effect, hmem, hping⟩ := h
      rw [List.mem_singleton.mp hmem] at hping
      cases hping

/-- The calls are about this payload, if about any. -/
def About (payload : Bytes) (log : List (Routing.Event Link G String)) : Prop :=
  ∀ call ∈ log, ∀ p, payloadOf call = some p → p = payload

/-- One more call. -/
theorem About.snoc {payload : Bytes} {log : List (Routing.Event Link G String)}
    (h : About payload log) {call : Routing.Event Link G String}
    (hcall : ∀ p, payloadOf call = some p → p = payload) : About payload (log ++ [call]) := by
  intro call' hmem
  rcases List.mem_append.mp hmem with hmem | hmem
  · exact h call' hmem
  · rw [List.mem_singleton.mp hmem]
    exact hcall

section Dispatch

variable {ans : Answers Link G String} {e : Envelope} {payload : Bytes}

/-- Asking the guards. -/
theorem About.allPass (gs : List G) {dst : Option Netip.Addr}
    {log : List (Routing.Event Link G String)} (h : About payload log) :
    About payload (allPass ans e.owner dst gs log).2 := by
  induction gs generalizing log with
  | nil => exact h
  | cons g gs ih =>
    rw [Routing.allPass]
    split
    · exact ih (h.snoc (by simp [payloadOf]))
    · exact h.snoc (by simp [payloadOf])

/-- All calls of the router for a packet are about its payload. -/
theorem About.dispatch {recorder : Bool} {linkName : Link → String} {src : String}
    (targets : List (Target Link G String)) {parsed : Option (Option Netip.Addr)}
    {log : List (Routing.Event Link G String)} (h : About payload log) :
    About payload (dispatch ans recorder linkName src e payload parsed targets log).1 := by
  induction targets generalizing parsed log with
  | nil => exact h
  | cons t rest ih =>
    rw [Routing.dispatch]
    split
    · exact ih h
    split
    · exact ih (h.snoc (by simp [payloadOf]))
    have hasked : About payload (log ++ [.accepts t.conn e.owner true]) :=
      h.snoc (by simp [payloadOf])
    simp only
    generalize hguards : ite (t.guards.isEmpty = true) (true, _) _ = asked
    have hlog : About payload asked.2 := by
      rw [← hguards]
      split
      · exact hasked
      · exact hasked.allPass t.guards
    split
    · exact ih hlog
    split
    · exact hlog.snoc (by simp [payloadOf])
    · split
      · exact hlog.snoc (by simp [payloadOf])
      · exact ih (hlog.snoc (by simp [payloadOf]))

end Dispatch

/-- The intake takes nothing but the packet for a ping, and only if it looks like one. -/
theorem ingress_ping {n : Wiring G} {s : State} {world : World G} {src : String} {e : Envelope}
    {payload p : Bytes}
    (h : ∃ effect ∈ n.ingress s world src e payload, effect.ping = some p) :
    p = payload ∧ isPing payload = true := by
  obtain ⟨effect, hmem, hping⟩ := h
  unfold Wiring.ingress at hmem
  split at hmem
  · cases hmem
  · rename_i route hroute
    obtain ⟨call, hcall, heffect⟩ := List.mem_flatMap.mp hmem
    obtain ⟨hpayload, hlooks⟩ := perform_ping ⟨effect, heffect, hping⟩
    have habout : About payload (route e payload).1 := by
      unfold Router.sourceRouter at hroute
      simp only at hroute
      split at hroute
      · cases hroute
      · obtain rfl := Option.some.inj hroute
        exact About.dispatch _ (by simp [About])
    obtain rfl := habout call hcall p hpayload
    exact ⟨rfl, hlooks⟩

/-- Only the driver's own pings are taken for pings, whatever happens next. -/
def Intact (P : Bytes → Prop) (n : Wiring G) (s : State) : Prop :=
  ∀ event s' effects, Admits P s event → n.step s event = some (s', effects) →
    ∀ effect ∈ effects, ∀ p, effect.ping = some p → p ∈ s.injected

/-- Where nothing else looks like a ping, only the driver's own pings are taken for one. -/
theorem intact_of_looks {P : Bytes → Prop} (hP : ∀ p, P p → isPing p = false) (n : Wiring G)
    (s : State) : Intact P n s := by
  have hnot : ∀ payload, P payload → isPing payload ≠ true := by
    intro payload hpayload
    rw [hP payload hpayload]
    exact Bool.false_ne_true
  intro event s' effects hadmits htaken effect hmem p hping
  cases event with
  | setID id =>
    obtain ⟨rfl, rfl⟩ := pair_inj htaken
    cases hmem
  | device world payload =>
    obtain ⟨id, -, heq⟩ := Option.map_eq_some_iff.mp htaken
    obtain ⟨rfl, rfl⟩ := Prod.mk.inj heq
    exact absurd (ingress_ping ⟨effect, hmem, hping⟩).2 (hnot payload hadmits)
  | receive world src e payload =>
    obtain ⟨rfl, rfl⟩ := pair_inj htaken
    obtain ⟨rfl, hlooks⟩ := ingress_ping ⟨effect, hmem, hping⟩
    rcases hadmits with hordinary | hinjected
    · exact absurd hlooks (hnot p hordinary)
    · exact hinjected
  | reply target owner payload =>
    obtain ⟨rfl, rfl⟩ := pair_inj htaken
    exact absurd (linkSend_ping ⟨effect, hmem, hping⟩).2 (hnot payload hadmits)
  | tick =>
    simp only [Wiring.step] at htaken
    split at htaken
    · obtain ⟨rfl, rfl⟩ := pair_inj htaken
      rw [List.mem_singleton.mp hmem] at hping
      cases hping
    · obtain ⟨rfl, rfl⟩ := pair_inj htaken
      cases hmem

/-- A node whose tun has a branch to a local egress, replies going back to the tun. -/
def localEgress : Wiring Unit where
  tunName := "tun"
  up := "up"
  isSender := fun _ => true
  rules := [⟨some false, "tun", [], "wan", "tun"⟩]
  conns := fun name => if name = "tun" then some .tun else some (.other name)
  sources := ["tun", "up"]
  conditions := fun _ => none
  finalizers := fun name => if name = "wan" then some "wan" else none
  linkName := fun _ => ""
  router := _
  compiled := rfl

/-- There a device packet that looks like a ping comes back as a sign of life. -/
theorem localEgress_seen (world : World Unit) (payload : Bytes) (h : isPing payload = true) :
    localEgress.step ⟨some ⟨1, 1, 1, 1⟩, 0, []⟩ (.device world payload) =
      some (⟨some ⟨1, 1, 1, 1⟩, 0, []⟩,
        [.reflected .tun ⟨⟨1, 1, 1, 1⟩, true⟩ payload, .seen payload]) := by
  have hroute : localEgress.ingress ⟨some ⟨1, 1, 1, 1⟩, 0, []⟩ world localEgress.tunName
      ⟨⟨1, 1, 1, 1⟩, false⟩ payload =
      submit (some ⟨1, 1, 1, 1⟩) "wan" ⟨1, 1, 1, 1⟩ .tun payload ++ [] := rfl
  simp [Wiring.step, hroute, submit, linkSend, tunSend, h]

/-- Whatever the routing table and the sequence of packets and ticks, only the driver's own pings
are taken for pings, exactly if no other packet looks like one. -/
theorem liveness_intact_iff (P : Bytes → Prop) :
    (∀ (G : Type) (n : Wiring G) (id : Option Owner) (s : State) (history : _),
      Run P n id s history → Intact P n s) ↔ ∀ p, P p → isPing p = false := by
  constructor
  · intro h p hp
    by_contra hlooks
    let world : World Unit := ⟨fun _ _ _ => true, fun _ _ _ _ => true, fun _ _ _ _ => true⟩
    have hseen := localEgress_seen world p (by simpa using hlooks)
    have hinjected := h Unit localEgress (some ⟨1, 1, 1, 1⟩) _ [] .init
      (.device world p) _ _ hp hseen (.seen p) (by simp) p rfl
    cases hinjected
  · intro hP G n id s history _
    exact intact_of_looks hP n s

/-- A device packet of protocol 253 that no driver encoded, before any probe was sent, is
swallowed and marks the probed path alive. -/
theorem data_taken_for_ping : ∃ (world : World Unit) (payload : Bytes) (s : State),
    (∀ nonce, payload ≠ encodePing nonce) ∧ s.injected = [] ∧
      localEgress.step s (.device world payload) =
        some (s, [.reflected .tun ⟨⟨1, 1, 1, 1⟩, true⟩ payload, .seen payload]) := by
  refine ⟨⟨fun _ _ _ => true, fun _ _ _ _ => true, fun _ _ _ _ => true⟩,
    [0x45, 7, 0, 28, 0, 0, 0, 0, 64, 253] ++ List.replicate 18 1, ⟨some ⟨1, 1, 1, 1⟩, 0, []⟩,
    fun nonce => ?_, rfl, localEgress_seen _ _ (by decide)⟩
  simp [encodePing]

end Dualnet.Node
