import Dualnet.Egress.Destinations
import Dualnet.Library.Runs
import Mathlib.Logic.Function.Basic

/-!
# A flow of the userspace egress

`handleTCP`, `handleUDP`, `bridge` and `pipe` of `egress/netstack.go`. A flow runs in its own
goroutine from the dial on and, once it is bridged, in two more; their steps interleave in any
order. The environment decides how dials, endpoint creations, reads and writes end, except that on a
closed connection reads and writes fail. What deadlines do is to make reads and writes fail, so
`idle` is left out. The tokens that bound the number of flows are in `Netstack`.

`Flow.Sound` says what the phase of a flow tells of its request and its connections, and
`FlowPhase.left` bounds the steps it has left once both its connections are closed.
-/

namespace Dualnet.Egress

open Library (pair_inj)

/-! ## One flow -/

inductive Proto where
  | tcp
  | udp
deriving DecidableEq

/-- A connection of a flow: none yet, open or closed. -/
inductive ConnState where
  | absent
  | opened
  | closed
deriving DecidableEq

/-- The two connections of a bridge: `a` is the client's endpoint, `b` the one that was dialed. -/
inductive Side where
  | a
  | b
deriving DecidableEq

def Side.other : Side → Side
  | .a => .b
  | .b => .a

/-- Where a `pipe` goroutine is: in `Read`; in `Write` with what was read; past `pipe`; past the
send on `done`. -/
inductive PipePhase where
  | reading
  | writing (data : List UInt8) (readErr : Bool)
  | returned
  | sent
deriving DecidableEq

/-- How a `Read` or a `Write` ends. -/
inductive PipeEvent where
  | read (data : List UInt8) (err : Bool)
  | wrote (err : Bool)

/-- A round of `pipe`, in two steps. On a closed connection only an error can come back. -/
def PipePhase.step (srcClosed dstClosed : Bool) : PipePhase → PipeEvent → Option PipePhase
  | .reading, .read data err =>
    if srcClosed && !err then none
    else if !data.isEmpty then some (.writing data err)
    else if err then some .returned
    else some .reading
  | .writing _ readErr, .wrote err =>
    if dstClosed && !err then none
    else if err then some .returned
    else if readErr then some .returned
    else some .reading
  | _, _ => none

/-- Where `bridge` itself is: at the first `<-done`, at the two closes, at the second `<-done`. -/
inductive BridgePhase where
  | waiting
  | closingA
  | closingB
  | draining
deriving DecidableEq

/-- A running `bridge`: the pipe to each side, the channel `done`, and `bridge` itself. -/
structure Bridge where
  pipe : Side → PipePhase
  done : Nat
  main : BridgePhase

/-- The start of `bridge`. -/
def Bridge.start : Bridge := ⟨fun _ => .reading, 0, .waiting⟩

/-- Where a flow is: past the filter; about to refuse; refused; past `acquire`; in the dialer; past
it, with a connection; past a failed `CreateEndpoint`; about to complete the request after a
failure; past `CreateEndpoint`; in `bridge`; at the deferred `release`; past it. -/
inductive FlowPhase where
  | admitting (dst : AddrPort)
  | refusing
  | refused
  | spawned (dst : AddrPort)
  | dialing (dst : AddrPort)
  | dialed
  | closing
  | failing
  | created
  | bridging (bridge : Bridge)
  | releasing
  | ended

/-- A flow request and what became of it: the arguments `Complete` was called with, and the two
connections. -/
structure Flow where
  proto : Proto
  phase : FlowPhase
  completed : List Bool
  client : ConnState
  out : ConnState

/-- How an operation ends. -/
inductive Outcome where
  | quiet
  | acquired (ok : Bool)
  | panicked
deriving DecidableEq

/-- A step of one flow, apart from those that touch the tokens or call the dialer. -/
inductive LocalEvent where
  | complete
  | dialed (ok : Bool)
  | endpoint (ok : Bool)
  | closeOut
  | pipe (dst : Side) (event : PipeEvent)
  | send (dst : Side)
  | receive
  | closeA
  | closeB

/-- A TCP request is refused with a reset, a UDP one is dropped. -/
def Proto.refuse : Proto → FlowPhase
  | .tcp => .refusing
  | .udp => .refused

/-- After a failure a TCP request is reset; a UDP flow just ends. -/
def Proto.fail : Proto → FlowPhase
  | .tcp => .failing
  | .udp => .releasing

/-- With its endpoint a TCP request is completed before the bridge starts. -/
def Proto.serve : Proto → FlowPhase
  | .tcp => .created
  | .udp => .bridging .start

/-- What `handleTCP` and `handleUDP` share, up to `acquire`. -/
def handle (proto : Proto) (a : List UInt8) (port : UInt16) : Flow :=
  let phase :=
    match addrPort a port with
    | none => proto.refuse
    | some dst => if blockedDst (some dst.addr) then proto.refuse else .admitting dst
  ⟨proto, phase, [], .absent, .absent⟩

def handleTCP : List UInt8 → UInt16 → Flow := handle .tcp

def handleUDP : List UInt8 → UInt16 → Flow := handle .udp

namespace Flow

variable (f : Flow)

/-- Move a flow on. -/
def go (phase : FlowPhase) : Flow := { f with phase := phase }

/-- The connection on a side. -/
def conn : Side → ConnState
  | .a => f.client
  | .b => f.out

/-- `r.Complete`; a second call panics. -/
def complete (reset : Bool) (next : FlowPhase) : Flow × Outcome :=
  ({ f with completed := reset :: f.completed, phase := next },
    if f.completed.isEmpty then .quiet else .panicked)

/-- One step of the goroutines of a flow. -/
def step : LocalEvent → Option (Flow × Outcome)
  | .complete =>
    match f.phase with
    | .refusing => some (f.complete true .refused)
    | .failing => some (f.complete true .releasing)
    | .created => some (f.complete false (.bridging .start))
    | _ => none
  | .dialed ok =>
    match f.phase with
    | .dialing _ =>
      if ok then some ({ f with phase := .dialed, out := .opened }, .quiet)
      else some (f.go f.proto.fail, .quiet)
    | _ => none
  | .endpoint ok =>
    match f.phase with
    | .dialed =>
      if ok then some ({ f with phase := f.proto.serve, client := .opened }, .quiet)
      else some (f.go .closing, .quiet)
    | _ => none
  | .closeOut =>
    match f.phase with
    | .closing => some ({ f with phase := f.proto.fail, out := .closed }, .quiet)
    | _ => none
  | .pipe dst event =>
    match f.phase with
    | .bridging b =>
      ((b.pipe dst).step (f.conn dst.other == .closed) (f.conn dst == .closed) event).map
        fun p => (f.go (.bridging { b with pipe := Function.update b.pipe dst p }), .quiet)
    | _ => none
  | .send dst =>
    match f.phase with
    | .bridging b =>
      match b.pipe dst with
      | .returned =>
        -- `done` has room for two
        if b.done < 2 then
          some (f.go (.bridging { b with
            pipe := Function.update b.pipe dst .sent, done := b.done + 1 }), .quiet)
        else none
      | _ => none
    | _ => none
  | .receive =>
    match f.phase with
    | .bridging b =>
      if b.done = 0 then none
      else
        match b.main with
        | .waiting =>
          some (f.go (.bridging { b with done := b.done - 1, main := .closingA }), .quiet)
        | .draining => some (f.go .releasing, .quiet)
        | _ => none
    | _ => none
  | .closeA =>
    match f.phase with
    | .bridging b =>
      match b.main with
      | .closingA =>
        some ({ f with phase := .bridging { b with main := .closingB }, client := .closed },
          .quiet)
      | _ => none
    | _ => none
  | .closeB =>
    match f.phase with
    | .bridging b =>
      match b.main with
      | .closingB =>
        some ({ f with phase := .bridging { b with main := .draining }, out := .closed },
          .quiet)
      | _ => none
    | _ => none

end Flow

/-! ## What a step can be -/

namespace Flow

variable {f f' : Flow} {event : LocalEvent} {out : Outcome}

/-- The steps by what they change. -/
inductive Taken (f : Flow) : LocalEvent → Flow → Outcome → Prop where
  | refuse (hphase : f.phase = .refusing) :
      Taken f .complete (f.complete true .refused).1 (f.complete true .refused).2
  | reset (hphase : f.phase = .failing) :
      Taken f .complete (f.complete true .releasing).1 (f.complete true .releasing).2
  | accept (hphase : f.phase = .created) :
      Taken f .complete (f.complete false (.bridging .start)).1
        (f.complete false (.bridging .start)).2
  | dialed {dst : AddrPort} (hphase : f.phase = .dialing dst) :
      Taken f (.dialed true) { f with phase := .dialed, out := .opened } .quiet
  | dialFailed {dst : AddrPort} (hphase : f.phase = .dialing dst) :
      Taken f (.dialed false) (f.go f.proto.fail) .quiet
  | endpoint (hphase : f.phase = .dialed) :
      Taken f (.endpoint true) { f with phase := f.proto.serve, client := .opened } .quiet
  | endpointFailed (hphase : f.phase = .dialed) :
      Taken f (.endpoint false) (f.go .closing) .quiet
  | closeOut (hphase : f.phase = .closing) :
      Taken f .closeOut { f with phase := f.proto.fail, out := .closed } .quiet
  | pipe {b : Bridge} {dst : Side} {event : PipeEvent} {p : PipePhase}
      (hphase : f.phase = .bridging b)
      (hp : (b.pipe dst).step (f.conn dst.other == .closed) (f.conn dst == .closed) event =
        some p) :
      Taken f (.pipe dst event) (f.go (.bridging ⟨Function.update b.pipe dst p, b.done, b.main⟩))
        .quiet
  | send {b : Bridge} {dst : Side} (hphase : f.phase = .bridging b)
      (hpipe : b.pipe dst = .returned) :
      Taken f (.send dst)
        (f.go (.bridging ⟨Function.update b.pipe dst .sent, b.done + 1, b.main⟩)) .quiet
  | receive {b : Bridge} (hphase : f.phase = .bridging b) (hdone : b.done ≠ 0)
      (hmain : b.main = .waiting) :
      Taken f .receive (f.go (.bridging ⟨b.pipe, b.done - 1, .closingA⟩)) .quiet
  | drain {b : Bridge} (hphase : f.phase = .bridging b) (hmain : b.main = .draining) :
      Taken f .receive (f.go .releasing) .quiet
  | closeA {b : Bridge} (hphase : f.phase = .bridging b) (hmain : b.main = .closingA) :
      Taken f .closeA
        { f with phase := .bridging ⟨b.pipe, b.done, .closingB⟩, client := .closed } .quiet
  | closeB {b : Bridge} (hphase : f.phase = .bridging b) (hmain : b.main = .closingB) :
      Taken f .closeB
        { f with phase := .bridging ⟨b.pipe, b.done, .draining⟩, out := .closed } .quiet

/-- Inversion of `step`. -/
theorem taken_of_step (h : f.step event = some (f', out)) : f.Taken event f' out := by
  cases event with
  | complete =>
    simp only [step] at h
    split at h <;> rename_i hphase
    · obtain ⟨rfl, rfl⟩ := pair_inj h
      exact .refuse hphase
    · obtain ⟨rfl, rfl⟩ := pair_inj h
      exact .reset hphase
    · obtain ⟨rfl, rfl⟩ := pair_inj h
      exact .accept hphase
    · cases h
  | dialed ok =>
    simp only [step] at h
    split at h
    · rename_i hphase
      cases ok <;> obtain ⟨rfl, rfl⟩ := pair_inj h
      · exact .dialFailed hphase
      · exact .dialed hphase
    · cases h
  | endpoint ok =>
    simp only [step] at h
    split at h
    · rename_i hphase
      cases ok <;> obtain ⟨rfl, rfl⟩ := pair_inj h
      · exact .endpointFailed hphase
      · exact .endpoint hphase
    · cases h
  | closeOut =>
    simp only [step] at h
    split at h
    · rename_i hphase
      obtain ⟨rfl, rfl⟩ := pair_inj h
      exact .closeOut hphase
    · cases h
  | pipe dst event =>
    simp only [step] at h
    split at h
    · rename_i hphase
      obtain ⟨p, hp, heq⟩ := Option.map_eq_some_iff.mp h
      obtain ⟨rfl, rfl⟩ := Prod.mk.inj heq
      exact .pipe hphase hp
    · cases h
  | send dst =>
    simp only [step] at h
    split at h
    · rename_i hphase
      split at h
      · rename_i hpipe
        obtain ⟨-, heq⟩ := Option.ite_none_right_eq_some.mp h
        obtain ⟨rfl, rfl⟩ := pair_inj heq
        exact .send hphase hpipe
      · cases h
    · cases h
  | receive =>
    simp only [step] at h
    split at h
    · rename_i hphase
      obtain ⟨hdone, h⟩ := Option.ite_none_left_eq_some.mp h
      split at h <;> rename_i hmain
      · obtain ⟨rfl, rfl⟩ := pair_inj h
        exact .receive hphase hdone hmain
      · obtain ⟨rfl, rfl⟩ := pair_inj h
        exact .drain hphase hmain
      · cases h
    · cases h
  | closeA | closeB =>
    simp only [step] at h
    split at h
    · rename_i hphase
      split at h
      · rename_i hmain
        obtain ⟨rfl, rfl⟩ := pair_inj h
        constructor
        · exact hphase
        · exact hmain
      · cases h
    · cases h

end Flow

/-! ## What the phase of a flow says -/

namespace FlowPhase

/-- The flow has a token. -/
def holds : FlowPhase → Bool
  | .admitting _ | .refusing | .refused | .ended => false
  | .spawned _ | .dialing _ | .dialed | .closing | .failing | .created | .bridging _
  | .releasing => true

/-- Nothing is left to do. -/
def finished : FlowPhase → Bool
  | .refused | .ended => true
  | _ => false

/-- The token has been returned. -/
def returned : FlowPhase → Bool
  | .ended => true
  | _ => false

/-- A TCP request has been completed. -/
def answered : FlowPhase → Bool
  | .refused | .bridging _ | .releasing | .ended => true
  | _ => false

/-- Only a TCP flow comes here: `Complete` is next. -/
def completing : FlowPhase → Bool
  | .refusing | .failing | .created => true
  | _ => false

/-- The destination still to be dialed. -/
def target : FlowPhase → Option AddrPort
  | .admitting dst | .spawned dst => some dst
  | _ => none

/-- Its request is not answered yet. -/
theorem open_of_completing {phase : FlowPhase} (h : phase.completing = true) :
    phase.answered = false := by
  cases phase with
  | refusing | failing | created => rfl
  | _ => cases h

end FlowPhase

/-- The two connections, by how far `bridge` is. -/
def BridgePhase.conn : BridgePhase → Side → ConnState
  | .waiting, _ | .closingA, _ | .closingB, .b => .opened
  | .closingB, .a | .draining, _ => .closed

/-- The connections of a flow, by its phase. -/
def FlowPhase.Conns : FlowPhase → ConnState → ConnState → Prop
  | .admitting _, client, out | .refusing, client, out | .refused, client, out
  | .spawned _, client, out | .dialing _, client, out => client = .absent ∧ out = .absent
  | .dialed, client, out | .closing, client, out => client = .absent ∧ out = .opened
  | .created, client, out => client = .opened ∧ out = .opened
  | .bridging b, client, out => client = b.main.conn .a ∧ out = b.main.conn .b
  | .failing, client, out | .releasing, client, out | .ended, client, out =>
    client ≠ .opened ∧ out ≠ .opened

/-- The sends on `done` that `bridge` has received. -/
def BridgePhase.received : BridgePhase → Nat
  | .waiting => 0
  | .closingA | .closingB | .draining => 1

/-- How many of the two pipes have sent on `done`. -/
def sends (pipe : Side → PipePhase) : Nat :=
  (pipe .a == .sent).toNat + (pipe .b == .sent).toNat

/-- Every send on `done` has been received or is in the channel. -/
def Bridge.Sound (b : Bridge) : Prop := b.done + b.main.received = sends b.pipe

/-- A pipe that goes on counts once it has sent. -/
theorem sends_update {pipe : Side → PipePhase} {dst : Side} (h : pipe dst ≠ .sent)
    (p : PipePhase) : sends (Function.update pipe dst p) = sends pipe + (p == .sent).toNat := by
  have hdst : (pipe dst == .sent) = false := beq_eq_false_iff_ne.mpr h
  cases dst <;> simp [sends, hdst, Nat.add_comm]

/-- `Read` and `Write` are over before the send. -/
theorem PipePhase.step_ne_sent {srcClosed dstClosed : Bool} {p p' : PipePhase} {event : PipeEvent}
    (h : p.step srcClosed dstClosed event = some p') : p ≠ .sent ∧ p' ≠ .sent := by
  unfold PipePhase.step at h
  split at h
  · refine ⟨nofun, ?_⟩
    rintro rfl
    repeat' split at h
    all_goals cases h
  · refine ⟨nofun, ?_⟩
    rintro rfl
    repeat' split at h
    all_goals cases h
  · cases h

namespace Flow

/-- What holds of every flow, in terms of its phase. -/
structure Sound (f : Flow) : Prop where
  completed : f.completed.length = (f.phase.answered && f.proto == .tcp).toNat
  tcp : f.phase.completing = true → f.proto = .tcp
  conns : f.phase.Conns f.client f.out
  target : ∀ dst, f.phase.target = some dst → Allowed dst.addr
  bridge : ∀ b, f.phase = .bridging b → b.Sound

variable {f f' : Flow} {out : Outcome}

/-- A request starts without token and connections; what passes the filter may be dialed. -/
theorem Sound.handle (proto : Proto) (a : List UInt8) (port : UInt16) :
    (handle proto a port).Sound ∧ (handle proto a port).phase.holds = false := by
  have hrefuse : (⟨proto, proto.refuse, [], .absent, .absent⟩ : Flow).Sound ∧
      proto.refuse.holds = false := by
    cases proto
    · exact ⟨⟨rfl, fun _ => rfl, ⟨rfl, rfl⟩, nofun, nofun⟩, rfl⟩
    · exact ⟨⟨rfl, nofun, ⟨rfl, rfl⟩, nofun, nofun⟩, rfl⟩
  unfold Egress.handle
  dsimp only
  split
  · exact hrefuse
  · rename_i dst hdst
    split
    · exact hrefuse
    · rename_i hblocked
      refine ⟨⟨rfl, nofun, ⟨rfl, rfl⟩, fun dst' heq => ?_, nofun⟩, rfl⟩
      obtain rfl := Option.some.inj heq
      exact (blockedDst_iff hdst).mp (Bool.not_eq_true _ ▸ hblocked)

/-- A flow that moves on to a phase that says the same of completions and the token. -/
theorem Sound.move (h : f.Sound) {phase : FlowPhase} {client out : ConnState}
    (hanswered : (phase.answered && f.proto == .tcp) = (f.phase.answered && f.proto == .tcp))
    (hcompleting : phase.completing = true → f.proto = .tcp)
    (hconns : phase.Conns client out)
    (htarget : phase.target = none ∨ phase.target = f.phase.target)
    (hbridge : ∀ b, phase = .bridging b → b.Sound) :
    ({ f with phase := phase, client := client, out := out } : Flow).Sound where
  completed := by
    change f.completed.length = (phase.answered && f.proto == .tcp).toNat
    rw [hanswered]
    exact h.completed
  tcp := hcompleting
  conns := hconns
  target dst hdst := by
    rcases htarget with hnone | hsame
    · exact absurd (hnone.symm.trans hdst) nofun
    · exact h.target dst (hsame.symm.trans hdst)
  bridge := hbridge

/-- A failure after `acquire`: nothing was completed so far, and no connection is left open. -/
theorem Sound.fail (h : f.Sound) (hphase : f.phase.holds = true)
    (hopen : f.phase.answered = false) (hclient : f.client = .absent) (out : ConnState)
    (hout : out ≠ .opened) :
    ({ f with phase := f.proto.fail, out := out } : Flow).Sound ∧
      f.proto.fail.holds = f.phase.holds := by
  have hconns : f.client ≠ .opened ∧ out ≠ .opened := ⟨by rw [hclient]; nofun, hout⟩
  refine ⟨h.move ?_ ?_ ?_ (.inl ?_) ?_, ?_⟩
  · rw [hopen]
    cases f.proto <;> rfl
  · cases f.proto with
    | tcp => exact fun _ => rfl
    | udp => nofun
  · cases f.proto <;> exact hconns
  · cases f.proto <;> rfl
  · cases f.proto <;> nofun
  · rw [hphase]
    cases f.proto <;> rfl

/-- The endpoint is there: a TCP request is completed next, a UDP flow is bridged. -/
theorem Sound.serve (h : f.Sound) (hphase : f.phase = .dialed) :
    ({ f with phase := f.proto.serve, client := .opened } : Flow).Sound ∧
      f.proto.serve.holds = f.phase.holds := by
  have hconns := h.conns
  rw [hphase] at hconns
  refine ⟨h.move ?_ ?_ ?_ (.inl ?_) ?_, ?_⟩
  · rw [hphase]
    cases f.proto <;> rfl
  · cases f.proto with
    | tcp => exact fun _ => rfl
    | udp => nofun
  · cases f.proto <;> exact ⟨rfl, hconns.2⟩
  · cases f.proto <;> rfl
  · cases f.proto with
    | tcp => nofun
    | udp =>
      rintro _ ⟨⟩
      rfl
  · rw [hphase]
    cases f.proto <;> rfl

/-- While a flow is bridged, its connections are as far as `bridge` is. -/
theorem Sound.bridge_conns (h : f.Sound) {b : Bridge} (hphase : f.phase = .bridging b) :
    f.client = b.main.conn .a ∧ f.out = b.main.conn .b := by
  have hconns := h.conns
  rwa [hphase] at hconns

/-- A step inside `bridge`. -/
theorem Sound.bridge_step (h : f.Sound) {b b' : Bridge} (hphase : f.phase = .bridging b)
    (hsound : b'.Sound) {client out : ConnState} (hclient : client = b'.main.conn .a)
    (hout : out = b'.main.conn .b) :
    ({ f with phase := .bridging b', client := client, out := out } : Flow).Sound ∧
      (FlowPhase.bridging b').holds = f.phase.holds := by
  refine ⟨h.move ?_ nofun ⟨hclient, hout⟩ (.inl rfl) ?_, by rw [hphase]; rfl⟩
  · rw [hphase]; rfl
  · rintro _ ⟨⟩
    exact hsound

/-- `Complete` is called on a TCP request that was not completed before. -/
theorem Sound.complete (h : f.Sound) (hphase : f.phase.completing = true) (reset : Bool)
    {next : FlowPhase} (hnext : next.answered = true) (hcompleting : next.completing = false)
    (hconns : next.Conns f.client f.out) (htarget : next.target = none)
    (hbridge : ∀ b, next = .bridging b → b.Sound) :
    (f.complete reset next).1.Sound ∧ (f.complete reset next).2 ≠ .panicked := by
  have htcp := h.tcp hphase
  have hopen := FlowPhase.open_of_completing hphase
  have hnil : f.completed = [] := by
    have hlength := h.completed
    rw [hopen] at hlength
    exact List.length_eq_zero_iff.mp hlength
  refine ⟨⟨?_, ?_, hconns, ?_, hbridge⟩, by simp [Flow.complete, hnil]⟩
  · simp [Flow.complete, hnil, hnext, htcp]
  · intro hagain
    exact absurd (hcompleting.symm.trans hagain) nofun
  · intro dst hdst
    exact absurd (htarget.symm.trans hdst) nofun

/-- A step of the goroutines of a flow keeps what holds of it, and its token; `Complete` is never
called twice. -/
theorem Taken.sound {event : LocalEvent} (htaken : f.Taken event f' out) (h : f.Sound) :
    f'.Sound ∧ f'.phase.holds = f.phase.holds ∧ out ≠ .panicked := by
  have hconns := h.conns
  cases htaken with
  | refuse hphase =>
    rw [hphase] at hconns ⊢
    have hrefused : FlowPhase.refused.answered = true := rfl
    obtain ⟨hsound, hend⟩ := h.complete (by rw [hphase]; rfl) true hrefused rfl
      hconns rfl nofun
    exact ⟨hsound, rfl, hend⟩
  | reset hphase =>
    rw [hphase] at hconns ⊢
    have hreleasing : FlowPhase.releasing.answered = true := rfl
    obtain ⟨hsound, hend⟩ := h.complete (by rw [hphase]; rfl) true hreleasing rfl
      hconns rfl nofun
    exact ⟨hsound, rfl, hend⟩
  | accept hphase =>
    rw [hphase] at hconns ⊢
    have hbridging : (FlowPhase.bridging .start).answered = true := rfl
    obtain ⟨hsound, hend⟩ := h.complete (by rw [hphase]; rfl) false hbridging rfl
      hconns rfl (by rintro _ ⟨⟩; rfl)
    exact ⟨hsound, rfl, hend⟩
  | dialed hphase =>
    rw [hphase] at hconns ⊢
    refine ⟨h.move ?_ nofun ⟨hconns.1, rfl⟩ (.inl rfl) nofun, rfl, nofun⟩
    rw [hphase]; rfl
  | dialFailed hphase =>
    rw [hphase] at hconns
    obtain ⟨hsound, hholds⟩ := h.fail (by rw [hphase]; rfl) (by rw [hphase]; rfl) hconns.1
      f.out (by rw [hconns.2]; nofun)
    exact ⟨hsound, hholds, nofun⟩
  | endpoint hphase =>
    obtain ⟨hsound, hholds⟩ := h.serve hphase
    exact ⟨hsound, hholds, nofun⟩
  | endpointFailed hphase =>
    rw [hphase] at hconns ⊢
    refine ⟨h.move ?_ nofun hconns (.inl rfl) nofun, rfl, nofun⟩
    rw [hphase]; rfl
  | closeOut hphase =>
    rw [hphase] at hconns
    obtain ⟨hsound, hholds⟩ := h.fail (by rw [hphase]; rfl) (by rw [hphase]; rfl) hconns.1
      .closed nofun
    exact ⟨hsound, hholds, nofun⟩
  | @pipe b dst event p hphase hp =>
    obtain ⟨hclient, hout⟩ := h.bridge_conns hphase
    obtain ⟨hbefore, hafter⟩ := PipePhase.step_ne_sent hp
    have hsends : (⟨Function.update b.pipe dst p, b.done, b.main⟩ : Bridge).Sound := by
      change b.done + b.main.received = sends (Function.update b.pipe dst p)
      rw [sends_update hbefore, beq_eq_false_iff_ne.mpr hafter]
      exact h.bridge b hphase
    obtain ⟨hsound, hholds⟩ := h.bridge_step hphase hsends hclient hout
    exact ⟨hsound, hholds, nofun⟩
  | @send b dst hphase hpipe =>
    obtain ⟨hclient, hout⟩ := h.bridge_conns hphase
    have hsends : (⟨Function.update b.pipe dst .sent, b.done + 1, b.main⟩ : Bridge).Sound := by
      change b.done + 1 + b.main.received = sends (Function.update b.pipe dst .sent)
      rw [sends_update (by rw [hpipe]; nofun), ← h.bridge b hphase]
      exact Nat.add_right_comm ..
    obtain ⟨hsound, hholds⟩ := h.bridge_step hphase hsends hclient hout
    exact ⟨hsound, hholds, nofun⟩
  | @receive b hphase hdone hmain =>
    obtain ⟨hclient, hout⟩ := h.bridge_conns hphase
    rw [hmain] at hclient hout
    have hsends : (⟨b.pipe, b.done - 1, .closingA⟩ : Bridge).Sound := by
      have hbefore := h.bridge b hphase
      rw [Bridge.Sound, hmain] at hbefore
      change b.done - 1 + 1 = sends b.pipe
      rw [← hbefore, Nat.sub_add_cancel (Nat.pos_of_ne_zero hdone)]
      rfl
    obtain ⟨hsound, hholds⟩ := h.bridge_step hphase hsends hclient hout
    exact ⟨hsound, hholds, nofun⟩
  | @drain b hphase hmain =>
    obtain ⟨hclient, hout⟩ := h.bridge_conns hphase
    rw [hmain] at hclient hout
    refine ⟨h.move ?_ nofun ⟨?_, ?_⟩ (.inl rfl) nofun, ?_, nofun⟩
    · rw [hphase]; rfl
    · rw [hclient]; nofun
    · rw [hout]; nofun
    · rw [hphase]; rfl
  | @closeA b hphase hmain =>
    obtain ⟨-, hout⟩ := h.bridge_conns hphase
    have hsends := h.bridge b hphase
    rw [Bridge.Sound, hmain] at hsends
    rw [hmain] at hout
    obtain ⟨hsound, hholds⟩ := h.bridge_step hphase
      (show (⟨b.pipe, b.done, .closingB⟩ : Bridge).Sound from hsends) rfl hout
    exact ⟨hsound, hholds, nofun⟩
  | @closeB b hphase hmain =>
    obtain ⟨hclient, -⟩ := h.bridge_conns hphase
    have hsends := h.bridge b hphase
    rw [Bridge.Sound, hmain] at hsends
    rw [hmain] at hclient
    obtain ⟨hsound, hholds⟩ := h.bridge_step hphase
      (show (⟨b.pipe, b.done, .draining⟩ : Bridge).Sound from hsends) hclient rfl
    exact ⟨hsound, hholds, nofun⟩

end Flow

/-- How many steps a pipe has left once both connections are closed. -/
def PipePhase.left : PipePhase → Nat
  | .reading => 3
  | .writing .. => 2
  | .returned => 1
  | .sent => 0

/-- How many steps a flow has left once both connections of its bridge are closed. -/
def FlowPhase.left : FlowPhase → Nat
  | .bridging b => 2 + (b.pipe .a).left + (b.pipe .b).left
  | .releasing => 1
  | _ => 0

/-- Both connections of the bridge are closed, or the bridge is over. -/
def FlowPhase.draining : FlowPhase → Bool
  | .bridging b => b.main == .draining
  | .releasing | .ended => true
  | _ => false

/-- On closed connections every `Read` and `Write` fails, so a pipe does not go round again. -/
theorem PipePhase.left_step {p p' : PipePhase} {event : PipeEvent}
    (h : p.step true true event = some p') : p'.left < p.left := by
  unfold PipePhase.step at h
  split at h
  · rename_i data err
    cases err with
    | false => cases h
    | true =>
      cases data <;> obtain rfl := Option.some.inj h <;> simp [PipePhase.left]
  · rename_i data readErr err
    cases err with
    | false => cases h
    | true =>
      obtain rfl := Option.some.inj h
      simp [PipePhase.left]
  · cases h

/-- A pipe that goes on leaves fewer steps. -/
theorem left_update {b : Bridge} {dst : Side} {p : PipePhase} (h : p.left < (b.pipe dst).left)
    (done : Nat) : (FlowPhase.bridging ⟨Function.update b.pipe dst p, done, b.main⟩).left <
      (FlowPhase.bridging b).left := by
  cases dst <;> simp only [FlowPhase.left, Function.update_self, ne_eq, reduceCtorEq,
    not_false_eq_true, Function.update_of_ne] <;> omega

/-- Once both connections are closed, every step of a flow's goroutines brings it closer to its
end. -/
theorem Flow.Taken.left_lt {f f' : Flow} {event : LocalEvent} {out : Outcome}
    (htaken : f.Taken event f' out) (h : f.Sound) (hdraining : f.phase.draining = true) :
    f'.phase.draining = true ∧ f'.phase.left < f.phase.left := by
  have hclosed : ∀ b, f.phase = .bridging b → b.main = .draining ∧
      ∀ dst, (f.conn dst == .closed) = true := by
    intro b hphase
    rw [hphase] at hdraining
    have hmain : b.main = .draining := eq_of_beq hdraining
    obtain ⟨hclient, hout⟩ := h.bridge_conns hphase
    rw [hmain] at hclient hout
    refine ⟨hmain, fun dst => ?_⟩
    cases dst
    · exact beq_iff_eq.mpr hclient
    · exact beq_iff_eq.mpr hout
  cases htaken with
  | @pipe b dst event p hphase hp =>
    obtain ⟨-, hboth⟩ := hclosed b hphase
    rw [hboth, hboth] at hp
    rw [hphase] at hdraining ⊢
    exact ⟨hdraining, left_update (PipePhase.left_step hp) b.done⟩
  | @send b dst hphase hpipe =>
    rw [hphase] at hdraining ⊢
    exact ⟨hdraining, left_update (by rw [hpipe]; decide) (b.done + 1)⟩
  | @drain b hphase hmain =>
    rw [hphase]
    refine ⟨rfl, ?_⟩
    change 1 < 2 + (b.pipe .a).left + (b.pipe .b).left
    omega
  | @receive b hphase hdone hmain | @closeA b hphase hmain | @closeB b hphase hmain =>
    rw [(hclosed b hphase).1] at hmain
    cases hmain
  | refuse hphase | reset hphase | accept hphase | dialed hphase | dialFailed hphase
  | endpoint hphase | endpointFailed hphase | closeOut hphase =>
    rw [hphase] at hdraining
    cases hdraining

end Dualnet.Egress
