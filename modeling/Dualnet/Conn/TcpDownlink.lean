import Dualnet.Conn.Control
import Dualnet.Conn.FrameStream
import Dualnet.Library.Runs
import Dualnet.Pktbuf.Writer

/-!
# The TCP downlink

`tcpDownConn` and `tcpListenOut.handle` of `conn/tcp.go`: one accepted connection, its handler, the
`Send`s that reach it through the registry and the ticks of the flush group. The handler holds the
connection's lock from `Register`, which makes the sink visible, to the end of the assignment
write; a flush waits for the lock.

`assignment_first` is the result: after the nonce the wire carries the assignment and then the
packets in the order they were committed, and nothing follows a write that failed.
-/

namespace Dualnet.Conn

open Cipher Library Wire

/-! ## The connection -/

/-- `tcpDownConn` with its socket. -/
structure DownConn where
  stream : FrameStream
  dead : Bool
  closed : Bool

/-- `errTCPDownDead`. -/
def errTCPDownDead : String := "conn: tcp downlink connection dead"

namespace DownConn

variable (pc : DownConn)

/-- Write frames and flush the buffer; a closed socket takes nothing. -/
def write (fate : Fate) (frames : List Bytes) : DownConn × Option String :=
  let fate := if pc.closed then ⟨some "use of closed network connection", 0⟩ else fate
  let (stream, err) := pc.stream.write fate frames
  ({ pc with stream := stream }, err)

/-- `teardownLocked`. -/
def teardownLocked : DownConn := { pc with dead := true, closed := true }

/-- `flushViews`. -/
def flushViews (fate : Fate) (views : List Bytes) : DownConn × Option String :=
  if pc.dead then (pc, some errTCPDownDead)
  else
    let (pc, err) := pc.write fate views
    (if err.isNone then pc else pc.teardownLocked, err)

end DownConn

/-! ## The handler and the senders -/

/-- Where `handle` is: it has read a registration; it has registered and holds the lock; it has
written the assignment; it is in its read loop; it runs its deferred calls; it has returned. The
last two keep the error of the assignment write. -/
inductive Handler where
  | accepted
  | registered (id : Owner)
  | assigned
  | reading
  | leaving (err : Option String)
  | returned (err : Option String)
  deriving DecidableEq

/-- The assignment is behind the handler, or will not come. -/
def Handler.settled : Handler → Bool
  | .accepted | .registered _ => false
  | .assigned | .reading | .leaving _ | .returned _ => true

/-- The error of the assignment write. -/
def Handler.err : Handler → Option String
  | .leaving err | .returned err => err
  | .accepted | .registered _ | .assigned | .reading => none

/-- A connection in its environment. `visible` is whether the registry has the sink, `ticking`
whether the flush group has had the writer, and `callers` are the packets of the `Send`s that have
passed the check of `dead` in `sink`. -/
structure Downlink where
  handler : Handler
  visible : Bool
  ticking : Bool
  callers : List Bytes
  writer : Pktbuf.Writer Bytes DownConn

/-- A step: of the handler, of the context, or of a `Send` or a tick. -/
inductive DownEvent where
  | register (result : Option Owner)
  | assign (fate : Fate)
  | add
  | leave
  | close
  | cancel
  | call (blob : Bytes)
  | batch (op : Pktbuf.Op Bytes) (fate : Fate)

namespace Downlink

/-- A connection whose registration was read. -/
def new (sc : StreamCipher) (nonce : Vector UInt8 12) : Downlink :=
  ⟨.accepted, false, false, [], .new ⟨.new sc nonce, false, false⟩⟩

variable (s : Downlink)

/-- The bytes on the wire. -/
def wire : Bytes := s.writer.sink.stream.wire

/-- The writer's flush function: it waits for the lock. -/
def flush (fate : Fate) (pc : DownConn) (views : List Bytes) : Option (DownConn × Option String) :=
  match s.handler with
  | .registered _ => none
  | _ => some (pc.flushViews fate views)

/-- Whether somebody is there to perform the operation. -/
def offers : Pktbuf.Op Bytes → Bool
  | .reserve blob => blob ∈ s.callers
  | .commit => true
  | .tick => s.ticking

/-- The callers that are left. -/
def callersAfter : Pktbuf.Op Bytes → List Bytes
  | .reserve blob => s.callers.erase blob
  | _ => s.callers

/-- The assignment frame. -/
def assignment (tag : Mac) (id : Owner) (ts : UInt64) : Bytes :=
  encodeControl tag ⟨msgAssignID, id, 0, ts⟩

/-- One step, for a registration with the stamp `ts`, with the packet it commits. -/
def step (tag : Mac) (ts : UInt64) (s : Downlink) : DownEvent → Option (Downlink × Option Bytes)
  | .register result =>
    match s.handler, result with
    | .accepted, some id => some ({ s with handler := .registered id, visible := true }, none)
    | .accepted, none => some ({ s with handler := .leaving none }, none)
    | _, _ => none
  | .assign fate =>
    match s.handler with
    | .registered id =>
      let (pc, err) := s.writer.sink.write fate [assignment tag id ts]
      some ({ s with
        handler := if err.isNone then .assigned else .leaving err
        writer := { s.writer with sink := pc } }, none)
    | _ => none
  | .add =>
    match s.handler with
    | .assigned => some ({ s with handler := .reading, ticking := true }, none)
    | _ => none
  | .leave =>
    match s.handler with
    | .reading =>
      let pc := { s.writer.sink with dead := true }
      some ({ s with handler := .leaving none, writer := { s.writer with sink := pc } }, none)
    | _ => none
  | .close =>
    match s.handler with
    | .leaving err =>
      let pc := { s.writer.sink with closed := true }
      some ({ s with handler := .returned err, writer := { s.writer with sink := pc } }, none)
    | _ => none
  | .cancel =>
    let pc := { s.writer.sink with closed := true }
    some ({ s with writer := { s.writer with sink := pc } }, none)
  | .call blob =>
    if s.visible then
      if s.writer.sink.dead then some (s, none)
      else some ({ s with callers := blob :: s.callers }, none)
    else none
  | .batch op fate =>
    if s.offers op then
      (s.writer.perform List.length tcpWriteBufSize streamWriteBatch (s.flush fate) op).map
        fun (writer, out) => ({ s with callers := s.callersAfter op, writer := writer }, out)
    else none

/-- A run on an accepted connection. -/
abbrev Run (sc : StreamCipher) (nonce : Vector UInt8 12) (tag : Mac) (ts : UInt64) :
    Downlink → List (DownEvent × Option Bytes) → Prop :=
  Reached (step tag ts) (fun _ _ _ => True) (new sc nonce)

end Downlink

/-! ## What a flush does -/

namespace DownConn

/-- The connection is torn down, or its buffer has failed: nothing is written any more. -/
def Quiet (pc : DownConn) : Prop := pc.dead = true ∨ ∃ err, pc.stream.err = some err

variable {pc : DownConn}

/-- A flush on a quiet connection changes nothing on the wire. -/
theorem Quiet.flushViews (h : pc.Quiet) (fate : Fate) (views : List Bytes) :
    (pc.flushViews fate views).1.stream = pc.stream ∧ (pc.flushViews fate views).1.Quiet := by
  unfold DownConn.flushViews
  split
  · exact ⟨rfl, h⟩
  · rename_i halive
    obtain ⟨err, herr⟩ := h.resolve_left halive
    simp only [DownConn.write, FrameStream.write_of_err herr]
    exact ⟨rfl, .inl rfl⟩

/-- The assignment is the first frame, what follows are the first packets handed over, all of them
unless the connection is quiet, and it is if a flush has failed. -/
structure Assigned (sc : StreamCipher) (nonce : Vector UInt8 12) (assignment : Bytes)
    (pc : DownConn) (err : Option String) (handed : List Bytes) : Prop where
  frames : ∃ done, done <+: handed ∧ pc.stream.Wrote sc nonce (assignment :: done) ∧
    (pc.Quiet ∨ done = handed)
  quiet : err.isSome = true → pc.Quiet

variable {sc : StreamCipher} {nonce : Vector UInt8 12} {assignment : Bytes} {err : Option String}
  {handed : List Bytes}

/-- A flush keeps this. -/
theorem Assigned.flushViews (h : pc.Assigned sc nonce assignment err handed) (fate : Fate)
    (views : List Bytes) :
    (pc.flushViews fate views).1.Assigned sc nonce assignment
      ((pc.flushViews fate views).2.or err) (handed ++ views) := by
  obtain ⟨done, hdone, hwrote, hall⟩ := h.frames
  by_cases hquiet : pc.Quiet
  · obtain ⟨hstream, hquiet'⟩ := hquiet.flushViews fate views
    refine ⟨⟨done, hdone.trans (List.prefix_append _ _), ?_, .inl hquiet'⟩, fun _ => hquiet'⟩
    rw [hstream]
    exact hwrote
  · obtain rfl := hall.resolve_left hquiet
    have halive : pc.dead = false := Bool.eq_false_iff.mpr fun hdead => hquiet (.inl hdead)
    have hfine : err = none := Option.not_isSome_iff_eq_none.mp fun herr => hquiet (h.quiet herr)
    obtain ⟨⟨stream, werr⟩, hwrite⟩ : ∃ r, pc.stream.write
      (if pc.closed then ⟨some "use of closed network connection", 0⟩ else fate) views = r :=
        ⟨_, rfl⟩
    rw [← List.map_id views] at hwrite
    obtain ⟨more, hmore, hwrote', hcomplete⟩ := hwrote.write hwrite
    simp only [List.map_id, List.cons_append] at hwrote' hwrite
    simp only [DownConn.flushViews, DownConn.write, halive, hwrite]
    cases werr with
    | none =>
      obtain rfl := hcomplete rfl
      exact ⟨⟨_, List.prefix_refl _, hwrote', .inr rfl⟩, by simp [hfine]⟩
    | some e =>
      exact ⟨⟨_, (List.prefix_append_right_inj _).mpr hmore, hwrote', .inl (.inl rfl)⟩,
        fun _ => .inl rfl⟩

/-- Before the assignment nothing is written and nothing was handed over. -/
structure Fresh (sc : StreamCipher) (nonce : Vector UInt8 12) (pc : DownConn)
    (err : Option String) (handed : List Bytes) : Prop where
  stream : pc.stream = .new sc nonce
  err : err = none
  handed : handed = []

/-- Writing the assignment, even if the socket fails. -/
theorem Fresh.write (h : pc.Fresh sc nonce err handed) (hfits : assignment.length ≤ maxPacket)
    {pc' : DownConn} {werr : Option String} {fate : Fate}
    (hw : pc.write fate [assignment] = (pc', werr)) :
    pc'.Assigned sc nonce assignment err handed ∧ (werr.isSome = true → pc'.Quiet) := by
  obtain ⟨⟨stream, serr⟩, hwrite⟩ : ∃ r, pc.stream.write
    (if pc.closed then ⟨some "use of closed network connection", 0⟩ else fate) [assignment] = r :=
      ⟨_, rfl⟩
  have hnew : pc.stream.Wrote sc nonce [] := h.stream ▸ FrameStream.Wrote.new
  obtain ⟨hwrote, hserr⟩ := hnew.write_fitting (by rw [h.stream]; rfl) hfits hwrite
  simp only [DownConn.write, hwrite] at hw
  obtain ⟨rfl, rfl⟩ := Prod.mk.inj hw
  refine ⟨⟨⟨[], List.nil_prefix, hwrote, .inr h.handed.symm⟩, ?_⟩, ?_⟩
  · intro herr
    rw [h.err] at herr
    cases herr
  · intro hfailed
    obtain ⟨e, he⟩ := Option.isSome_iff_exists.mp hfailed
    exact .inr ⟨e, hserr.trans he⟩

end DownConn

/-! ## Steps once the assignment is written -/

namespace Downlink

variable {sc : StreamCipher} {nonce : Vector UInt8 12} {tag : Mac} {ts : UInt64} {s s' : Downlink}
  {event : DownEvent} {out : Option Bytes} {history : List (DownEvent × Option Bytes)}

/-- The writer's operations, with the lock free. -/
abbrev performed (fate : Fate) (op : Pktbuf.Op Bytes) (writer : Pktbuf.Writer Bytes DownConn) :
    Option (Pktbuf.Writer Bytes DownConn × Option Bytes) :=
  writer.perform List.length tcpWriteBufSize streamWriteBatch
    (fun pc views => some (pc.flushViews fate views)) op

/-- With the lock free a flush goes through. -/
theorem flush_of_settled (hsettled : s.handler.settled = true) (fate : Fate) :
    s.flush fate = fun pc views => some (pc.flushViews fate views) := by
  funext pc views
  cases hhandler : s.handler with
  | accepted | registered id => simp [hhandler, Handler.settled] at hsettled
  | assigned | reading | leaving err | returned err => simp [flush, hhandler]

/-- A settled handler stays settled and gets no new error. A step leaves the stream alone, or it is
an operation of the writer. -/
theorem settled_step (hsettled : s.handler.settled = true)
    (htaken : s.step tag ts event = some (s', out)) :
    s'.handler.settled = true ∧ (s'.handler.err.isSome = true → s.handler.err.isSome = true) ∧
      ((∃ pc, s'.writer = { s.writer with sink := pc } ∧ out = none ∧
          pc.stream = s.writer.sink.stream ∧ (s.writer.sink.dead = true → pc.dead = true)) ∨
        ∃ op fate, performed fate op s.writer = some (s'.writer, out)) := by
  cases event with
  | register result =>
    cases hhandler : s.handler <;> simp_all [step, Handler.settled]
  | assign fate =>
    cases hhandler : s.handler <;> simp_all [step, Handler.settled]
  | add =>
    cases hhandler : s.handler with
    | assigned =>
      simp only [step, hhandler] at htaken
      obtain ⟨rfl, rfl⟩ := pair_inj htaken
      exact ⟨rfl, id, .inl ⟨_, rfl, rfl, rfl, id⟩⟩
    | accepted | registered id | reading | leaving err | returned err =>
      simp [step, hhandler] at htaken
  | leave =>
    cases hhandler : s.handler with
    | reading =>
      simp only [step, hhandler] at htaken
      obtain ⟨rfl, rfl⟩ := pair_inj htaken
      exact ⟨rfl, id, .inl ⟨_, rfl, rfl, rfl, fun _ => rfl⟩⟩
    | accepted | registered id | assigned | leaving err | returned err =>
      simp [step, hhandler] at htaken
  | close =>
    cases hhandler : s.handler with
    | leaving err =>
      simp only [step, hhandler] at htaken
      obtain ⟨rfl, rfl⟩ := pair_inj htaken
      exact ⟨rfl, id, .inl ⟨_, rfl, rfl, rfl, id⟩⟩
    | accepted | registered id | assigned | reading | returned err =>
      simp [step, hhandler] at htaken
  | cancel =>
    obtain ⟨rfl, rfl⟩ := pair_inj htaken
    exact ⟨hsettled, id, .inl ⟨_, rfl, rfl, rfl, id⟩⟩
  | call blob =>
    obtain ⟨-, htaken⟩ := Option.ite_none_right_eq_some.mp htaken
    split at htaken <;> obtain ⟨rfl, rfl⟩ := pair_inj htaken <;>
      exact ⟨hsettled, id, .inl ⟨_, rfl, rfl, rfl, id⟩⟩
  | batch op fate =>
    obtain ⟨-, htaken⟩ := Option.ite_none_right_eq_some.mp htaken
    obtain ⟨⟨writer, out'⟩, hperform, hs'⟩ := Option.map_eq_some_iff.mp htaken
    obtain ⟨rfl, rfl⟩ := Prod.mk.inj hs'
    rw [flush_of_settled hsettled] at hperform
    exact ⟨hsettled, id, .inr ⟨op, fate, hperform⟩⟩

/-- On a quiet connection no step changes the wire. -/
theorem quiet_step (hsettled : s.handler.settled = true) (hquiet : s.writer.sink.Quiet)
    (htaken : s.step tag ts event = some (s', out)) :
    s'.writer.sink.Quiet ∧ s'.writer.sink.stream = s.writer.sink.stream := by
  rcases (settled_step hsettled htaken).2.2 with ⟨pc, hwriter, -, hstream, hdead⟩ | ⟨op, fate, hop⟩
  · rw [hwriter]
    refine ⟨?_, hstream⟩
    rcases hquiet with hd | ⟨err, herr⟩
    · exact .inl (hdead hd)
    · exact .inr ⟨err, by rw [← herr, hstream]⟩
  · have hstart : s.writer.Holds
        (fun pc _ _ => pc.Quiet ∧ pc.stream = s.writer.sink.stream) s.writer.views :=
      ⟨[], ⟨hquiet, rfl⟩, rfl⟩
    obtain ⟨_, hend, -⟩ := hstart.perform (by
      intro pc _ _ views pc' _ hpc hcall
      obtain ⟨hstream, hquiet'⟩ := hpc.1.flushViews fate views
      rw [Option.some.inj hcall] at hstream hquiet'
      exact ⟨hquiet', hstream.trans hpc.2⟩) hop
    exact hend

/-- Nor does any run of steps. -/
theorem quiet_steps {steps : List (Downlink × DownEvent × Option Bytes)}
    (hsettled : s.handler.settled = true) (hquiet : s.writer.sink.Quiet)
    (h : Steps (step tag ts) s steps s') : s'.wire = s.wire := by
  have hkept : s'.handler.settled = true ∧ s'.writer.sink.Quiet ∧
      s'.writer.sink.stream = s.writer.sink.stream := by
    induction h with
    | refl => exact ⟨hsettled, hquiet, rfl⟩
    | step _ htaken ih =>
      obtain ⟨hsettled', hquiet', hstream⟩ := ih
      obtain ⟨hquiet'', hstream'⟩ := quiet_step hsettled' hquiet' htaken
      exact ⟨(settled_step hsettled' htaken).1, hquiet'', hstream'.trans hstream⟩
  rw [wire, wire, hkept.2.2]

/-! ## Whole runs -/

/-- What holds in every state reached: nobody but the handler knows the connection; or it is
registered and the lock is held; or the assignment has been written. -/
inductive Sound (sc : StreamCipher) (nonce : Vector UInt8 12) (tag : Mac) (ts : UInt64)
    (s : Downlink) (history : List (DownEvent × Option Bytes)) : Prop where
  | hidden (handler : s.handler = .accepted ∨ s.handler = .leaving none ∨
        s.handler = .returned none)
      (visible : s.visible = false) (ticking : s.ticking = false) (callers : s.callers = [])
      (building : s.writer.building = none)
      (writer : s.writer.Holds (DownConn.Fresh sc nonce) (Pktbuf.committed history))
  | registered (id : Owner) (handler : s.handler = .registered id)
      (registration : (.register (some id), none) ∈ history)
      (writer : s.writer.Holds (DownConn.Fresh sc nonce) (Pktbuf.committed history))
  | assigned (id : Owner) (settled : s.handler.settled = true)
      (registration : (.register (some id), none) ∈ history)
      (writer : s.writer.Holds (DownConn.Assigned sc nonce (assignment tag id ts))
        (Pktbuf.committed history))
      (failed : s.handler.err.isSome = true → s.writer.sink.Quiet)

/-- The committed packets do not change with a step that commits none. -/
theorem holds_cons {I : DownConn → Option String → List Bytes → Prop}
    {writer : Pktbuf.Writer Bytes DownConn}
    (h : writer.Holds I (Pktbuf.committed history ++ out.toList)) :
    writer.Holds I (Pktbuf.committed ((event, out) :: history)) := by
  rwa [Pktbuf.committed_cons]

/-- While nobody knows the connection only the handler and the context take steps. -/
theorem hidden_step
    (handler : s.handler = .accepted ∨ s.handler = .leaving none ∨ s.handler = .returned none)
    (visible : s.visible = false) (ticking : s.ticking = false) (callers : s.callers = [])
    (building : s.writer.building = none)
    (writer : s.writer.Holds (DownConn.Fresh sc nonce) (Pktbuf.committed history))
    (htaken : s.step tag ts event = some (s', out)) :
    s'.Sound sc nonce tag ts ((event, out) :: history) := by
  have hclosed : { s.writer with sink := { s.writer.sink with closed := true } }.Holds
      (DownConn.Fresh sc nonce) (Pktbuf.committed history) :=
    writer.sink fun _ hpc => ⟨hpc.stream, hpc.err, hpc.handed⟩
  cases event with
  | register result =>
    rcases handler with hhandler | hhandler | hhandler <;> cases result <;>
      simp only [step, hhandler, reduceCtorEq] at htaken
    · obtain ⟨rfl, rfl⟩ := pair_inj htaken
      exact .hidden (.inr (.inl rfl)) visible ticking callers building
        (holds_cons (by simpa using writer))
    · obtain ⟨rfl, rfl⟩ := pair_inj htaken
      exact .registered _ rfl List.mem_cons_self (holds_cons (by simpa using writer))
  | assign fate | add | leave =>
    rcases handler with hhandler | hhandler | hhandler <;> simp [step, hhandler] at htaken
  | close =>
    rcases handler with hhandler | hhandler | hhandler <;>
      simp only [step, hhandler, reduceCtorEq] at htaken
    obtain ⟨rfl, rfl⟩ := pair_inj htaken
    exact .hidden (.inr (.inr rfl)) visible ticking callers building
      (holds_cons (by simpa using hclosed))
  | cancel =>
    obtain ⟨rfl, rfl⟩ := pair_inj htaken
    exact .hidden handler visible ticking callers building (holds_cons (by simpa using hclosed))
  | call blob => simp [step, visible] at htaken
  | batch op fate =>
    cases op with
    | reserve blob => simp [step, offers, callers] at htaken
    | commit =>
      simp [step, offers, Pktbuf.Writer.perform, Pktbuf.Writer.commit, building] at htaken
    | tick => simp [step, offers, ticking] at htaken

/-- While the lock is held packets only gather in the batch. -/
theorem registered_step {id : Owner} (handler : s.handler = .registered id)
    (registration : (.register (some id), none) ∈ history)
    (writer : s.writer.Holds (DownConn.Fresh sc nonce) (Pktbuf.committed history))
    (htaken : s.step tag ts event = some (s', out)) :
    s'.Sound sc nonce tag ts ((event, out) :: history) := by
  have registration' := List.mem_cons_of_mem (event, out) registration
  cases event with
  | register result => simp [step, handler] at htaken
  | add | leave | close => simp [step, handler] at htaken
  | assign fate =>
    obtain ⟨⟨pc, err⟩, hwrite⟩ :
      ∃ r, s.writer.sink.write fate [assignment tag id ts] = r := ⟨_, rfl⟩
    simp only [step, handler, hwrite] at htaken
    obtain ⟨rfl, rfl⟩ := pair_inj htaken
    have hfits : (assignment tag id ts).length ≤ maxPacket := by
      simp [assignment, encodeControl, Control.body, Owner.bytes, putUint64, maxPacket]
    have hassigned := writer.sink fun _ hpc => (hpc.write hfits hwrite).1
    refine .assigned id ?_ registration' (holds_cons (by simpa using hassigned)) ?_
    · dsimp only
      split <;> rfl
    · intro herr
      obtain ⟨_, hpc, -⟩ := writer
      refine (hpc.write hfits hwrite).2 ?_
      cases err with
      | none => cases herr
      | some e => rfl
  | cancel =>
    obtain ⟨rfl, rfl⟩ := pair_inj htaken
    refine .registered id handler registration' (holds_cons ?_)
    rw [Option.toList_none, List.append_nil]
    exact writer.sink fun _ hpc => ⟨hpc.stream, hpc.err, hpc.handed⟩
  | call blob =>
    obtain ⟨-, htaken⟩ := Option.ite_none_right_eq_some.mp htaken
    split at htaken <;> obtain ⟨rfl, rfl⟩ := pair_inj htaken <;>
      exact .registered id handler registration' (holds_cons (by simpa using writer))
  | batch op fate =>
    obtain ⟨-, htaken⟩ := Option.ite_none_right_eq_some.mp htaken
    obtain ⟨⟨w, out'⟩, hperform, hs'⟩ := Option.map_eq_some_iff.mp htaken
    obtain ⟨rfl, rfl⟩ := Prod.mk.inj hs'
    refine .registered id handler registration' (holds_cons (writer.perform ?_ hperform))
    -- the flush function waits
    intro pc _ _ views _ _ _ hcall
    simp [flush, handler] at hcall

/-- Once the assignment is written, flushes add packets behind it. -/
theorem assigned_step {id : Owner} (settled : s.handler.settled = true)
    (registration : (.register (some id), none) ∈ history)
    (writer : s.writer.Holds (DownConn.Assigned sc nonce (assignment tag id ts))
      (Pktbuf.committed history))
    (failed : s.handler.err.isSome = true → s.writer.sink.Quiet)
    (htaken : s.step tag ts event = some (s', out)) :
    s'.Sound sc nonce tag ts ((event, out) :: history) := by
  obtain ⟨settled', herr, hstep⟩ := settled_step settled htaken
  refine .assigned id settled' (List.mem_cons_of_mem _ registration) (holds_cons ?_)
    fun hfailed => (quiet_step settled (failed (herr hfailed)) htaken).1
  rcases hstep with ⟨pc, hwriter, rfl, hstream, hdead⟩ | ⟨op, fate, hop⟩
  · rw [hwriter, Option.toList_none, List.append_nil]
    refine writer.sink fun _ hpc => ?_
    have hquiet : s.writer.sink.Quiet → pc.Quiet :=
      Or.imp hdead fun ⟨e, he⟩ => ⟨e, hstream ▸ he⟩
    obtain ⟨done, hdone, hwrote, hall⟩ := hpc.frames
    exact ⟨⟨done, hdone, hstream ▸ hwrote, hall.imp_left hquiet⟩, fun he => hquiet (hpc.quiet he)⟩
  · refine writer.perform ?_ hop
    intro pc err handed views pc' err' hpc hcall
    have hkept := hpc.flushViews fate views
    rwa [Option.some.inj hcall] at hkept

/-- Every run is sound. -/
theorem Run.sound (h : Run sc nonce tag ts s history) : s.Sound sc nonce tag ts history := by
  refine h.invariant (fun s history => s.Sound sc nonce tag ts history) ?_ ?_
  · exact .hidden (.inl rfl) rfl rfl rfl rfl ⟨[], ⟨rfl, rfl, rfl⟩, rfl⟩
  · intro s history event s' out hs _ htaken
    cases hs with
    | hidden handler visible ticking callers building writer =>
      exact hidden_step handler visible ticking callers building writer htaken
    | registered id handler registration writer =>
      exact registered_step handler registration writer htaken
    | assigned id settled registration writer failed =>
      exact assigned_step settled registration writer failed htaken

/-- Before the assignment the wire is empty and no flush has failed. -/
theorem wire_of_fresh {packets : List Bytes}
    (h : s.writer.Holds (DownConn.Fresh sc nonce) packets) :
    s.wire = [] ∧ s.writer.err = none := by
  obtain ⟨_, hpc, -⟩ := h
  exact ⟨by rw [wire, hpc.stream]; rfl, hpc.err⟩

/-- In every interleaving of the handler, the context, `Send`s, ticks and write failures, the bytes
on the wire are none or a prefix of the nonce, the assignment of the id that was registered, and the
frames of the first packets committed, in the order they were committed. Once a flush or the
assignment write has failed, no step writes anything. -/
theorem assignment_first (h : Run sc nonce tag ts s history) :
    (s.wire = [] ∨ ∃ id data w, (.register (some id), none) ∈ history ∧
      data <+: Pktbuf.committed history ∧
      (sc.wrapWriter nonce).writeFrames (assignment tag id ts :: data) = .ok w ∧
      s.wire <+: w.out) ∧
    (s.writer.err.isSome = true ∨ s.handler.err.isSome = true →
      ∀ steps s', Steps (step tag ts) s steps s' → s'.wire = s.wire) := by
  cases h.sound with
  | hidden handler _ _ _ _ writer =>
    obtain ⟨hwire, herr⟩ := wire_of_fresh writer
    refine ⟨.inl hwire, fun hfailed => ?_⟩
    rcases handler with hhandler | hhandler | hhandler <;>
      simp [herr, hhandler, Handler.err] at hfailed
  | registered id handler _ writer =>
    obtain ⟨hwire, herr⟩ := wire_of_fresh writer
    refine ⟨.inl hwire, fun hfailed => ?_⟩
    simp [herr, handler, Handler.err] at hfailed
  | assigned id settled registration writer failed =>
    obtain ⟨handed, hpc, hcommitted⟩ := writer
    obtain ⟨data, hdata, hwrote, -⟩ := hpc.frames
    refine ⟨.inr ⟨id, data, _, registration, ?_, hwrote.1, hwrote.2⟩, fun hfailed => ?_⟩
    · rw [hcommitted]
      exact hdata.trans (List.prefix_append _ _)
    · intro steps s' hsteps
      exact quiet_steps settled (hfailed.elim hpc.quiet failed) hsteps

/-- A `Send` fills the batch before the assignment is written; the next tick puts its frame behind
the assignment, and the run meets the conditions of the theorem. -/
theorem assignment_first_pending :
    ∃ s history, Run .none (Vector.replicate 12 0) (fun _ => Vector.replicate 8 0) 1 s history ∧
      s.wire = [0, 22, 5, 0, 0, 0, 7, 0, 0, 0, 0, 0, 0, 0, 0, 1, 0, 0, 0, 0, 0, 0, 0, 0,
        0, 2, 3, 4] ∧
      (s.wire = [] ∨ ∃ id data w, (.register (some id), none) ∈ history ∧
        data <+: Pktbuf.committed history ∧
        ((StreamCipher.none).wrapWriter (Vector.replicate 12 0)).writeFrames
          (assignment (fun _ => Vector.replicate 8 0) id 1 :: data) = .ok w ∧
        s.wire <+: w.out) := by
  have hrun : Run .none (Vector.replicate 12 0) (fun _ => Vector.replicate 8 0) 1 _ _ :=
    Reached.init.play [.register (some ⟨0, 0, 0, 7⟩), .call [3, 4],
      .batch (.reserve [3, 4]) ⟨none, 0⟩, .batch .commit ⟨none, 0⟩, .assign ⟨none, 0⟩, .add,
      .batch .tick ⟨none, 0⟩] rfl
  exact ⟨_, _, hrun, by decide, (assignment_first hrun).1⟩

end Downlink

end Dualnet.Conn
