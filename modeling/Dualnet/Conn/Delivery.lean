import Dualnet.Conn.HttpListenOut
import Dualnet.Conn.TcpDownlink
import Dualnet.Peers.Held

/-!
# What `Send` reports for a dead downlink

The listening outgoing carriers with the handlers of all their streams. The HTTP carrier removes a
stream from its map before the handler returns. The TCP carrier leaves the stream's sink in the
peer registry, where it stays until a newer stream replaces it or `GC` drops the idle record, which
it does in multiple mode only; until then `Send` reports a delivery.

`dead_downlink_delivery_iff` says when a packet for a stream whose handler has returned is reported
as not delivered.
-/

namespace Dualnet.Conn

open Library Peers Wire

/-- The id a carrier tracks the stream of an owner under. -/
def tracked (multiple : Bool) (owner : Owner) : Owner := if multiple then owner else Owner.zero

/-! ## The HTTP carrier -/

/-- Where the `serveHTTP` of a stream is: not begun; the stream is reserved under an id; it is
installed; its teardown is done; it has returned. -/
inductive HttpHandler where
  | absent
  | reserved (id : Owner)
  | serving (id : Owner)
  | leaving (id : Owner)
  | returned

/-- An `httpListenOut` with its handlers; `live` is the flag of each stream. -/
structure HttpStreams where
  table : HttpListenOut
  handler : Stream → HttpHandler
  live : Stream → Bool

/-- A step of a handler, or a flush that fails. -/
inductive HttpEvent where
  | get (dc : Stream) (claimed : Owner) (ts : UInt64) (draws : List Owner)
  | wrap (dc : Stream) (ok : Bool)
  | writeFailed (dc : Stream)
  | teardown (dc : Stream)
  | remove (dc : Stream)

namespace HttpStreams

/-- A fresh carrier. -/
def new (multiple : Bool) (maxPeers : Int) : HttpStreams :=
  ⟨.new multiple maxPeers, fun _ => .absent, fun _ => false⟩

variable (s : HttpStreams)

/-- Move a handler on. -/
def move (dc : Stream) (handler : HttpHandler) : HttpStreams :=
  { s with handler := Function.update s.handler dc handler }

/-- Set the flag of a stream. -/
def setLive (dc : Stream) (live : Bool) : HttpStreams :=
  { s with live := Function.update s.live dc live }

/-- One step, with the answer of `reserve`. -/
def step : HttpEvent → Option (HttpStreams × Option (Owner × Bool))
  | .get dc claimed ts draws =>
    match s.handler dc with
    | .absent =>
      (s.table.reserve claimed ts dc draws).map fun (table, id, ok) =>
        ({ s with table := table }.move dc (if ok then .reserved id else .returned),
          some (id, ok))
    | _ => none
  | .wrap dc ok =>
    match s.handler dc with
    | .reserved id =>
      some (if ok then (s.setLive dc true).move dc (.serving id) else s.move dc (.leaving id),
        none)
    | _ => none
  | .writeFailed dc =>
    match s.handler dc with
    | .serving _ => some (s.setLive dc false, none)
    | _ => none
  | .teardown dc =>
    match s.handler dc with
    | .serving id => some ((s.setLive dc false).move dc (.leaving id), none)
    | _ => none
  | .remove dc =>
    match s.handler dc with
    | .leaving id => some ({ s with table := s.table.remove id dc }.move dc .returned, none)
    | _ => none

/-- `Send`: whether the packet is delivered. -/
def send (owner : Owner) : Bool :=
  match s.table.lookup owner with
  | none => false
  | some dc => s.live dc

/-- The runs of a carrier. -/
abbrev Run (multiple : Bool) (maxPeers : Int) :
    HttpStreams → List (HttpEvent × Option (Owner × Bool)) → Prop :=
  Reached step (fun _ _ _ => True) (new multiple maxPeers)

/-- The stream of the latest accepted GET for this id. -/
def latestStream (id : Owner) : List (HttpEvent × Option (Owner × Bool)) → Option Stream
  | [] => none
  | (.get dc _ _ _, some (id', true)) :: earlier =>
    if id' = id then some dc else latestStream id earlier
  | _ :: earlier => latestStream id earlier

end HttpStreams

/-! ## The TCP carrier -/

/-- A `tcpListenOut` with its handlers; `dead` is the flag of each stream. -/
structure TcpListenOut where
  reg : Registry Stream
  handler : Stream → Handler
  dead : Stream → Bool

/-- A step of a handler, which may be a `Register`, a flush that fails, or a call of `GC`. -/
inductive TcpEvent where
  | register (dc : Stream) (claimed : Owner) (ts : UInt64) (now : Int) (draws : List Owner)
  | assign (dc : Stream) (err : Option String)
  | add (dc : Stream)
  | writeFailed (dc : Stream)
  | leave (dc : Stream)
  | close (dc : Stream)
  | gc (now : Int)

namespace TcpListenOut

/-- A fresh carrier. -/
def new (multiple : Bool) (ttl maxPeers : Int) : TcpListenOut :=
  ⟨Peers.new multiple ttl maxPeers, fun _ => .accepted, fun _ => false⟩

variable (s : TcpListenOut)

/-- Move a handler on. -/
def move (dc : Stream) (handler : Handler) : TcpListenOut :=
  { s with handler := Function.update s.handler dc handler }

/-- Mark a stream dead. -/
def kill (dc : Stream) : TcpListenOut := { s with dead := Function.update s.dead dc true }

/-- One step, with the answer of `Register`. The first call of a handler is for the registration it
has read, those of the read loop are for keepalives. A handler that could not write the assignment
leaves without marking its stream dead. -/
def step (addr : Stream → String) (s : TcpListenOut) :
    TcpEvent → Option (TcpListenOut × Option (Owner × Bool))
  | .register dc claimed ts now draws =>
    match s.handler dc with
    | .accepted =>
      (s.reg.register claimed (addr dc) ts (some dc) now draws).map fun (reg, id, ok) =>
        ({ s with reg := reg }.move dc (if ok then .registered id else .leaving none),
          some (id, ok))
    | .reading =>
      (s.reg.register claimed (addr dc) ts (some dc) now draws).map fun (reg, id, ok) =>
        ({ s with reg := reg }, some (id, ok))
    | _ => none
  | .assign dc err =>
    match s.handler dc with
    | .registered _ => some (s.move dc (if err.isNone then .assigned else .leaving err), none)
    | _ => none
  | .add dc =>
    match s.handler dc with
    | .assigned => some (s.move dc .reading, none)
    | _ => none
  | .writeFailed dc => if (s.handler dc).settled then some (s.kill dc, none) else none
  | .leave dc =>
    match s.handler dc with
    | .reading => some ((s.kill dc).move dc (.leaving none), none)
    | _ => none
  | .close dc =>
    match s.handler dc with
    | .leaving err => some (s.move dc (.returned err), none)
    | _ => none
  | .gc now => some ({ s with reg := (s.reg.gc now).1 }, none)

/-- `Send`: whether the packet is delivered, and the error of the sink. -/
def send (e : Envelope) (payload : Bytes) : Bool × Option String :=
  s.reg.send (fun dc _ => if s.dead dc then some errTCPDownDead else none) e.owner
    (putEnvelope e payload)

/-- The runs of a carrier whose streams come from these addresses. -/
abbrev Run (addr : Stream → String) (multiple : Bool) (ttl maxPeers : Int) :
    TcpListenOut → List (TcpEvent × Option (Owner × Bool)) → Prop :=
  Reached (step addr) (fun _ _ _ => True) (new multiple ttl maxPeers)

end TcpListenOut

/-- What became of the latest accepted `Register` for an id: the stream that made it, when, and
whether a `GC` since then has found it idle. -/
structure Standing where
  stream : Stream
  seen : Int
  collected : Bool

/-- The standing of an id after a run. -/
def standing (multiple : Bool) (ttl : Int) (id : Owner) :
    List (TcpEvent × Option (Owner × Bool)) → Option Standing
  | [] => none
  | (.register dc _ _ now _, some (id', true)) :: earlier =>
    if id' = id then some ⟨dc, now, false⟩ else standing multiple ttl id earlier
  | (.gc now, _) :: earlier =>
    (standing multiple ttl id earlier).map fun st =>
      { st with collected := st.collected || multiple && st.seen < now - ttl }
  | _ :: earlier => standing multiple ttl id earlier

/-! ## The HTTP map holds the streams being served -/

/-- The handler has the id in the map, or will remove it. -/
def HttpHandler.holds : HttpHandler → Owner → Prop
  | .reserved id, id' | .serving id, id' | .leaving id, id' => id = id'
  | .absent, _ | .returned, _ => False

namespace HttpStreams

variable {multiple : Bool} {maxPeers : Int} {s s' : HttpStreams} {event : HttpEvent}
  {out : Option (Owner × Bool)} {history : List (HttpEvent × Option (Owner × Bool))}

/-- A stream in the map has a handler that holds its id, and is the latest accepted for it. -/
structure Tracked (multiple : Bool) (s : HttpStreams)
    (history : List (HttpEvent × Option (Owner × Bool))) : Prop where
  mode : s.table.multiple = multiple
  streams : ∀ id dc, s.table.byID.lookup id = some dc →
    (s.handler dc).holds id ∧ latestStream id history = some dc

/-- Moving a handler that goes on holding what it holds. -/
theorem holds_move {dc dc' : Stream} {handler : HttpHandler} {id : Owner}
    (hkeeps : dc' = dc → (s.handler dc).holds id → handler.holds id)
    (h : (s.handler dc').holds id) : ((s.move dc handler).handler dc').holds id := by
  by_cases heq : dc' = dc
  · subst heq
    simpa [move] using hkeeps rfl h
  · simpa [move, Function.update_of_ne heq] using h

/-- A step that leaves the map alone and moves a handler that goes on holding its id. -/
theorem Tracked.move (h : s.Tracked multiple history) {dc : Stream} {handler : HttpHandler}
    (hkeeps : ∀ id, (s.handler dc).holds id → handler.holds id)
    (hlatest : ∀ id, latestStream id ((event, out) :: history) = latestStream id history) :
    (s.move dc handler).Tracked multiple ((event, out) :: history) := by
  refine ⟨h.mode, fun id dc' hdc' => ?_⟩
  obtain ⟨hholds, hstream⟩ := h.streams id dc' hdc'
  exact ⟨holds_move (fun _ => hkeeps id) hholds, (hlatest id).trans hstream⟩

/-- An accepted GET. The stream is a new one, so no other id has it. -/
theorem Tracked.install (h : s.Tracked multiple history) {dc : Stream}
    (habsent : s.handler dc = .absent) (claimed id : Owner) (ts : UInt64) (draws : List Owner) :
    ({ s with table := s.table.install id ts dc }.move dc (.reserved id)).Tracked multiple
      ((.get dc claimed ts draws, some (id, true)) :: history) := by
  refine ⟨h.mode, fun id' dc' hdc' => ?_⟩
  have hlookup : (s.table.byID.insert id dc).lookup id' = some dc' := hdc'
  rw [FMap.lookup_insert_ite] at hlookup
  by_cases hid : id' = id
  · subst hid
    obtain rfl : dc = dc' := by simpa using hlookup
    exact ⟨by simp [HttpStreams.move, HttpHandler.holds], by simp [latestStream]⟩
  · rw [if_neg hid] at hlookup
    obtain ⟨hholds, hstream⟩ := h.streams id' dc' hlookup
    refine ⟨holds_move (fun _ hdc => ?_) hholds, ?_⟩
    · have hdc : (s.handler dc).holds id' := hdc
      rw [habsent] at hdc
      exact hdc.elim
    · simpa [latestStream, Ne.symm hid] using hstream

/-- `remove` takes the stream out, unless a newer one has the id. -/
theorem Tracked.remove (h : s.Tracked multiple history) {dc : Stream} {id : Owner}
    (hleaving : s.handler dc = .leaving id) :
    ({ s with table := s.table.remove id dc }.move dc .returned).Tracked multiple
      ((.remove dc, none) :: history) := by
  refine ⟨(s.table.remove_multiple id dc).trans h.mode, fun id' dc' hdc' => ?_⟩
  have hlookup : (s.table.remove id dc).byID.lookup id' = some dc' := hdc'
  have hold : s.table.byID.lookup id' = some dc' ∧ dc' ≠ dc := by
    unfold HttpListenOut.remove at hlookup
    split at hlookup
    · rw [show ({ s.table with byID := s.table.byID.erase id } : HttpListenOut).byID =
        s.table.byID.erase id from rfl, FMap.lookup_erase_ite] at hlookup
      by_cases hid : id' = id
      · simp [hid] at hlookup
      · rw [if_neg hid] at hlookup
        refine ⟨hlookup, ?_⟩
        rintro rfl
        have hholds := (h.streams id' dc' hlookup).1
        rw [hleaving] at hholds
        exact hid hholds.symm
    · rename_i htaken
      refine ⟨hlookup, ?_⟩
      rintro rfl
      have hholds := (h.streams id' dc' hlookup).1
      rw [hleaving] at hholds
      obtain rfl : id = id' := hholds
      exact htaken hlookup
  obtain ⟨hholds, hstream⟩ := h.streams id' dc' hold.1
  exact ⟨holds_move (fun heq => absurd heq hold.2) hholds, hstream⟩

/-- Every step keeps this. -/
theorem Tracked.step (h : s.Tracked multiple history) (htaken : s.step event = some (s', out)) :
    s'.Tracked multiple ((event, out) :: history) := by
  cases event with
  | get dc claimed ts draws =>
    cases hhandler : s.handler dc with
    | absent =>
      simp only [HttpStreams.step, hhandler] at htaken
      obtain ⟨⟨table, id, ok⟩, hcall, hs'⟩ := Option.map_eq_some_iff.mp htaken
      obtain ⟨rfl, rfl⟩ := Prod.mk.inj hs'
      rcases s.table.reserve_cases hcall with ⟨rfl, rfl⟩ | ⟨rfl, -, -, -, -, rfl⟩ |
        ⟨rfl, -, -, -, -, rfl⟩
      · refine h.move (fun id' hholds => ?_) fun id' => rfl
        rw [hhandler] at hholds
        exact hholds.elim
      · exact h.install hhandler claimed id ts draws
      · exact h.install hhandler claimed id ts draws
    | reserved id | serving id | leaving id | returned =>
      simp [HttpStreams.step, hhandler] at htaken
  | wrap dc ok =>
    cases hhandler : s.handler dc with
    | reserved id =>
      simp only [HttpStreams.step, hhandler] at htaken
      obtain ⟨rfl, rfl⟩ := pair_inj htaken
      have hkeeps : ∀ id', (s.handler dc).holds id' → id = id' := by
        intro id' hholds
        rwa [hhandler] at hholds
      cases ok with
      | true =>
        have hlive : (s.setLive dc true).Tracked multiple history := ⟨h.mode, h.streams⟩
        exact hlive.move hkeeps fun _ => rfl
      | false => exact h.move hkeeps fun _ => rfl
    | absent | serving id | leaving id | returned => simp [HttpStreams.step, hhandler] at htaken
  | writeFailed dc =>
    cases hhandler : s.handler dc with
    | serving id =>
      simp only [HttpStreams.step, hhandler] at htaken
      obtain ⟨rfl, rfl⟩ := pair_inj htaken
      exact ⟨h.mode, h.streams⟩
    | absent | reserved id | leaving id | returned => simp [HttpStreams.step, hhandler] at htaken
  | teardown dc =>
    cases hhandler : s.handler dc with
    | serving id =>
      simp only [HttpStreams.step, hhandler] at htaken
      obtain ⟨rfl, rfl⟩ := pair_inj htaken
      have hdead : (s.setLive dc false).Tracked multiple history := ⟨h.mode, h.streams⟩
      refine hdead.move (fun id' hholds => ?_) fun _ => rfl
      have hholds : (s.handler dc).holds id' := hholds
      rwa [hhandler] at hholds
    | absent | reserved id | leaving id | returned => simp [HttpStreams.step, hhandler] at htaken
  | remove dc =>
    cases hhandler : s.handler dc with
    | leaving id =>
      simp only [HttpStreams.step, hhandler] at htaken
      obtain ⟨rfl, rfl⟩ := pair_inj htaken
      exact h.remove hhandler
    | absent | reserved id | serving id | returned => simp [HttpStreams.step, hhandler] at htaken

/-- It holds in every run. -/
theorem Run.tracks (h : Run multiple maxPeers s history) : s.Tracked multiple history := by
  refine h.invariant (fun s history => s.Tracked multiple history) ?_
    fun _ _ _ _ _ hs _ htaken => hs.step htaken
  exact ⟨rfl, by simp [new, HttpListenOut.new]⟩

/-- A stream whose handler has returned gets no packet unless a newer one has its id. -/
theorem Run.send_returned (h : Run multiple maxPeers s history) {owner : Owner} {dc : Stream}
    (hlatest : latestStream (tracked multiple owner) history = some dc)
    (hreturned : s.handler dc = .returned) : s.send owner = false := by
  have htracked := h.tracks
  have hlookup : s.table.lookup owner = s.table.byID.lookup (tracked multiple owner) := by
    rw [HttpListenOut.lookup, htracked.mode, tracked]
    cases multiple <;> rfl
  unfold send
  rw [hlookup]
  cases hdc : s.table.byID.lookup (tracked multiple owner) with
  | none => rfl
  | some dc' =>
    obtain ⟨hholds, hstream⟩ := htracked.streams _ dc' hdc
    obtain rfl := Option.some.inj (hlatest.symm.trans hstream)
    rw [hreturned] at hholds
    exact hholds.elim

end HttpStreams

/-! ## The TCP registry holds the stream seen last -/

namespace TcpListenOut

variable {addr : Stream → String} {multiple : Bool} {ttl maxPeers : Int} {s s' : TcpListenOut}
  {event : TcpEvent} {out : Option (Owner × Bool)}
  {history : List (TcpEvent × Option (Owner × Bool))}

/-- The registry holds the sink of the latest accepted `Register` until a `GC` finds it idle. -/
structure Tracked (multiple : Bool) (ttl : Int) (s : TcpListenOut)
    (history : List (TcpEvent × Option (Owner × Bool))) : Prop where
  mode : s.reg.multiple = multiple
  idle : s.reg.ttl = ttl
  indexed : Indexed s.reg
  held : ∀ owner, s.reg.held owner =
    (standing multiple ttl (tracked multiple owner) history).bind fun st =>
      if st.collected then none else some (some st.stream, st.seen)

/-- A `Register` of any handler. -/
theorem Tracked.register (h : s.Tracked multiple ttl history) {dc : Stream} {claimed id : Owner}
    {ts : UInt64} {now : Int} {draws : List Owner} {reg : Registry Stream} {ok : Bool}
    (hcall : s.reg.register claimed (addr dc) ts (some dc) now draws = some (reg, id, ok))
    (handler : Stream → Handler) (dead : Stream → Bool) :
    (TcpListenOut.mk reg handler dead).Tracked multiple ttl
      ((.register dc claimed ts now draws, some (id, ok)) :: history) := by
  obtain ⟨hindexed, hmode, httl, hheld⟩ := h.indexed.register hcall
  refine ⟨hmode.trans h.mode, httl.trans h.idle, hindexed, fun owner => ?_⟩
  rw [hheld owner, h.mode, h.held owner]
  have hsame : (multiple = true → owner = id) ↔ id = tracked multiple owner := by
    cases hm : multiple with
    | true => simp [tracked, eq_comm]
    | false =>
      have hzero := s.reg.register_single_id (h.mode.trans hm) hcall
      simp [tracked, hzero]
  cases ok with
  | false => simp [standing]
  | true =>
    rw [standing]
    by_cases hid : id = tracked multiple owner
    · rw [if_pos ⟨rfl, hsame.mpr hid⟩, if_pos hid]
      rfl
    · rw [if_neg (fun hboth => hid (hsame.mp hboth.2)), if_neg hid]

/-- `GC` collects the idle. -/
theorem Tracked.gc (h : s.Tracked multiple ttl history) (now : Int) :
    { s with reg := (s.reg.gc now).1 }.Tracked multiple ttl ((.gc now, none) :: history) := by
  obtain ⟨-, -, hmode, -, -⟩ := s.reg.gc_frame now
  have httl : (s.reg.gc now).1.ttl = s.reg.ttl :=
    s.reg.gc_induction now (P := fun r => r.ttl = s.reg.ttl) rfl fun _ _ _ hr _ => hr
  refine ⟨hmode.trans h.mode, httl.trans h.idle, h.indexed.gc now, fun owner => ?_⟩
  rw [Registry.gc_held, h.held owner, h.mode, h.idle, standing]
  cases standing multiple ttl (tracked multiple owner) history with
  | none => rfl
  | some st =>
    cases hcollected : st.collected with
    | true => simp [hcollected]
    | false =>
      cases hidle : (multiple && decide (st.seen < now - ttl)) <;>
        simp [hcollected, hidle, Option.filter]

/-- A step that leaves the registry alone. -/
theorem Tracked.same_reg (h : s.Tracked multiple ttl history) (hreg : s'.reg = s.reg)
    (hstanding : ∀ id, standing multiple ttl id ((event, out) :: history) =
      standing multiple ttl id history) :
    s'.Tracked multiple ttl ((event, out) :: history) := by
  refine ⟨hreg ▸ h.mode, hreg ▸ h.idle, hreg ▸ h.indexed, fun owner => ?_⟩
  rw [hreg, hstanding]
  exact h.held owner

/-- Every step keeps this. -/
theorem Tracked.step (h : s.Tracked multiple ttl history)
    (htaken : s.step addr event = some (s', out)) :
    s'.Tracked multiple ttl ((event, out) :: history) := by
  cases event with
  | register dc claimed ts now draws =>
    cases hhandler : s.handler dc with
    | accepted | reading =>
      simp only [TcpListenOut.step, hhandler] at htaken
      obtain ⟨⟨reg, id, ok⟩, hcall, hs'⟩ := Option.map_eq_some_iff.mp htaken
      obtain ⟨rfl, rfl⟩ := Prod.mk.inj hs'
      exact h.register hcall _ _
    | registered id | assigned | leaving err | returned err =>
      simp [TcpListenOut.step, hhandler] at htaken
  | gc now =>
    obtain ⟨rfl, rfl⟩ := pair_inj htaken
    exact h.gc now
  | assign dc err | add dc | leave dc | close dc =>
    refine h.same_reg ?_ fun _ => rfl
    simp only [TcpListenOut.step] at htaken
    split at htaken
    · obtain ⟨rfl, -⟩ := pair_inj htaken
      rfl
    · cases htaken
  | writeFailed dc =>
    obtain ⟨-, htaken⟩ := Option.ite_none_right_eq_some.mp htaken
    obtain ⟨rfl, rfl⟩ := pair_inj htaken
    exact h.same_reg rfl fun _ => rfl

/-- A packet is reported as delivered unless the latest `Register` for its owner was collected. -/
theorem Run.send_eq_false_iff (h : Run addr multiple ttl maxPeers s history) {e : Envelope}
    {st : Standing} (hst : standing multiple ttl (tracked multiple e.owner) history = some st)
    (payload : Bytes) : (s.send e payload).1 = false ↔ st.collected = true := by
  have htracked : s.Tracked multiple ttl history := by
    refine h.invariant (fun s history => s.Tracked multiple ttl history) ?_
      fun _ _ _ _ _ hs _ htaken => hs.step htaken
    refine ⟨rfl, rfl, ?_, fun owner => ?_⟩
    · exact ⟨by simp [new, Peers.new], by simp [new, Peers.new], by simp [new, Peers.new],
        fun hmax => Int.le_of_lt hmax⟩
    · cases multiple <;> rfl
  rw [send, Registry.send_held, htracked.held, hst]
  cases hcollected : st.collected <;> simp [hcollected]

end TcpListenOut

/-! ## Both carriers -/

/-- After the handler of the stream that was registered last for an owner has returned: the HTTP
carrier reports its packets as not delivered; the TCP carrier does so exactly if, in multiple mode,
a `GC` has found the last `Register` idle since. -/
theorem dead_downlink_delivery_iff (multiple : Bool) (ttl maxPeers : Int) (addr : Stream → String)
    (e : Envelope) (payload : Bytes) :
    (∀ s history dc, HttpStreams.Run multiple maxPeers s history →
      HttpStreams.latestStream (tracked multiple e.owner) history = some dc →
      s.handler dc = .returned → s.send e.owner = false) ∧
    (∀ s history st err, TcpListenOut.Run addr multiple ttl maxPeers s history →
      standing multiple ttl (tracked multiple e.owner) history = some st →
      s.handler st.stream = .returned err →
      ((s.send e payload).1 = false ↔ st.collected = true)) := by
  refine ⟨?_, ?_⟩
  · intro s history dc hrun hlatest hreturned
    exact hrun.send_returned hlatest hreturned
  · intro s history st err hrun hst _
    exact hrun.send_eq_false_iff hst payload

/-- An HTTP stream and a TCP stream whose handlers have returned, the latter collected since: the
conditions are met, and packets for both are reported as not delivered. -/
theorem dead_downlink_delivery_collected :
    (∃ s history, HttpStreams.Run true 0 s history ∧
      HttpStreams.latestStream ⟨1, 1, 1, 1⟩ history = some 0 ∧ s.send ⟨1, 1, 1, 1⟩ = false) ∧
    (∃ s history, TcpListenOut.Run (fun _ => "addr") true 60 0 s history ∧
      standing true 60 ⟨1, 1, 1, 1⟩ history = some ⟨0, 5, true⟩ ∧
      (s.send ⟨⟨1, 1, 1, 1⟩, false⟩ []).1 = false) := by
  have hboth := dead_downlink_delivery_iff true 60 0 (fun _ => "addr") ⟨⟨1, 1, 1, 1⟩, false⟩ []
  have hhttp : HttpStreams.Run true 0 _ _ := Reached.init.play
    [.get 0 ⟨1, 1, 1, 1⟩ 10 [], .wrap 0 true, .teardown 0, .remove 0] rfl
  have htcp : TcpListenOut.Run (fun _ => "addr") true 60 0 _ _ := Reached.init.play
    [.register 0 ⟨1, 1, 1, 1⟩ 10 5 [], .assign 0 none, .add 0, .leave 0, .close 0, .gc 100] rfl
  exact ⟨⟨_, _, hhttp, rfl, hboth.1 _ _ 0 hhttp rfl rfl⟩,
    ⟨_, _, htcp, rfl, (hboth.2 _ _ ⟨0, 5, true⟩ none htcp rfl rfl).mpr rfl⟩⟩

/-- A TCP stream whose client has left, and one whose assignment could not be written: both handlers
have returned, no newer stream has registered, and packets are reported as delivered. -/
theorem dead_stream_delivered :
    ∃ s history s' history', TcpListenOut.Run (fun _ => "addr") true 60 0 s history ∧
      standing true 60 ⟨1, 1, 1, 1⟩ history = some ⟨0, 5, false⟩ ∧
      s.handler 0 = .returned none ∧
      s.send ⟨⟨1, 1, 1, 1⟩, false⟩ [] = (true, some errTCPDownDead) ∧
      TcpListenOut.Run (fun _ => "addr") true 60 0 s' history' ∧
      standing true 60 ⟨1, 1, 1, 1⟩ history' = some ⟨0, 5, false⟩ ∧
      s'.handler 0 = .returned (some "broken pipe") ∧
      s'.send ⟨⟨1, 1, 1, 1⟩, false⟩ [] = (true, none) := by
  have hleft : TcpListenOut.Run (fun _ => "addr") true 60 0 _ _ := Reached.init.play
    [.register 0 ⟨1, 1, 1, 1⟩ 10 5 [], .assign 0 none, .add 0, .leave 0, .close 0] rfl
  have hfailed : TcpListenOut.Run (fun _ => "addr") true 60 0 _ _ := Reached.init.play
    [.register 0 ⟨1, 1, 1, 1⟩ 10 5 [], .assign 0 (some "broken pipe"), .close 0] rfl
  exact ⟨_, _, _, _, hleft, rfl, rfl, rfl, hfailed, rfl, rfl, rfl⟩

end Dualnet.Conn
