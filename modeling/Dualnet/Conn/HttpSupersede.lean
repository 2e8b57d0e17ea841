import Dualnet.Conn.Delivery

/-!
# Superseding a stream of the HTTP downlink

`serveHTTP`, `reserve`, `remove`, `Send` and `flushViews` of `conn/http.go` cut into the steps that
other goroutines can come between: the sections under `c.mu` and `dc.mu`, the atomic accesses to
`live`, the `close` of a `done` channel and each write to a response. A handler goes through the
phases of `ServePhase`. A goroutine of a `Send` or of a flush tick goes through those of
`SendPhase`; it may be anywhere in them when the stream it holds is superseded or torn down. What a
batch holds is up to the writer: a flush may come with any.

`supersede_safety` is the result. `HttpServing.Taken.shown` says that a step here is one of
`Delivery` or is not to be seen there, so that what is proved there about the map can be used here.
-/

namespace Dualnet.Conn

open Library Wire

/-- Where the `serveHTTP` of a stream is, named by what it did last: `superseding` has the stream in
the map and is about to close the `done` of the one it found there; `wrapped` has the obfuscating
writer, `armed` has handed it to the stream, `live` has set the flag, `serving` is in the flush
group and waits; `ending` is past the wait, `detached` out of the group, `leaving` past the teardown
or a failed `WrapWriter`. -/
inductive ServePhase where
  | absent
  | superseding (id : Owner) (old : Option Stream)
  | reserved (id : Owner)
  | wrapped (id : Owner)
  | armed (id : Owner)
  | live (id : Owner)
  | serving (id : Owner)
  | ending (id : Owner)
  | detached (id : Owner)
  | leaving (id : Owner)
  | returned

/-- Who flushes a writer: a `Send` in `Reserve` or `Commit`, or a tick with more writers to go. -/
inductive Flusher where
  | reserve
  | commit
  | tick (rest : List Stream)

/-- Where a goroutine that sends is: it found a stream; it is about to enter the writer of one; it
is in `flushViews`, under the stream's lock, with frames left to write; its packet is committed. -/
inductive SendPhase where
  | idle
  | found (dc : Stream)
  | entering (dc : Stream) (flusher : Flusher)
  | flushing (dc : Stream) (flusher : Flusher) (left : List Bytes)
  | committed

/-- What comes after the writer of `dc`. -/
def Flusher.after (dc : Stream) : Flusher → SendPhase
  | .reserve => .entering dc .commit
  | .commit => .committed
  | .tick [] => .idle
  | .tick (next :: rest) => .entering next (.tick rest)

/-- An `httpListenOut` with the goroutines around it: for each stream its handler, its flag, whether
`obf` and `rc` are set, whether `done` is closed and which goroutine holds its lock; and the members
of the flush group. -/
structure HttpServing where
  table : HttpListenOut
  handler : Stream → ServePhase
  live : Stream → Bool
  armed : Stream → Bool
  done : Stream → Bool
  mu : Stream → Option Nat
  group : List Stream
  sender : Nat → SendPhase

/-- A step: of the handler of a stream, or of a goroutine that sends. -/
inductive ServeEvent where
  | get (dc : Stream) (claimed : Owner) (ts : UInt64) (draws : List Owner)
  | supersede (dc : Stream)
  | wrap (dc : Stream) (ok : Bool)
  | arm (dc : Stream)
  | goLive (dc : Stream)
  | join (dc : Stream)
  | wake (dc : Stream) (requestEnded : Bool)
  | detach (dc : Stream)
  | teardown (dc : Stream)
  | remove (dc : Stream)
  | lookup (t : Nat) (owner : Owner)
  | check (t : Nat)
  | tick (t : Nat) (writers : List Stream)
  | pass (t : Nat)
  | flush (t : Nat) (views : List Bytes)
  | writeFrame (t : Nat) (ok : Bool)
  | endFlush (t : Nat) (ok : Bool)
  | ret (t : Nat)
deriving DecidableEq

/-- What a step shows: the answer of `reserve` with the stream it superseded, a `done` that was
closed, a write to the response of a stream, the answer of `Send`; or a panic. -/
inductive ServeOutcome where
  | quiet
  | refused
  | reserved (id : Owner) (old : Option Stream)
  | closed (dc : Stream)
  | wrote (dc : Stream)
  | sent (delivered : Bool)
  | doubleClose
  | nilPointer
deriving DecidableEq

/-- The stream whose `done` the step closed. -/
def ServeOutcome.closes : ServeOutcome → Option Stream
  | .closed dc => some dc
  | _ => none

/-- The stream the step superseded. -/
def ServeOutcome.supersedes : ServeOutcome → Option Stream
  | .reserved _ old => old
  | _ => none

namespace HttpServing

/-- A fresh carrier. -/
def new (multiple : Bool) (maxPeers : Int) : HttpServing :=
  ⟨.new multiple maxPeers, fun _ => .absent, fun _ => false, fun _ => false, fun _ => false,
    fun _ => none, [], fun _ => .idle⟩

variable (s : HttpServing)

/-- Move a handler on. -/
def move (dc : Stream) (phase : ServePhase) : HttpServing :=
  { s with handler := Function.update s.handler dc phase }

/-- Set the flag of a stream. -/
def setLive (dc : Stream) (live : Bool) : HttpServing :=
  { s with live := Function.update s.live dc live }

/-- Move a goroutine that sends on. -/
def go (t : Nat) (phase : SendPhase) : HttpServing :=
  { s with sender := Function.update s.sender t phase }

/-- Take or release the lock of a stream. -/
def lock (dc : Stream) (holder : Option Nat) : HttpServing :=
  { s with mu := Function.update s.mu dc holder }

/-- The end of `flushViews`; an error clears the flag. -/
def unlock (t : Nat) (dc : Stream) (flusher : Flusher) (ok : Bool) : HttpServing :=
  ((if ok then s else s.setLive dc false).lock dc none).go t (flusher.after dc)

/-- One step. A goroutine that waits for a lock or in the `select` takes none. -/
def step : ServeEvent → Option (HttpServing × ServeOutcome)
  | .get dc claimed ts draws =>
    match s.handler dc with
    | .absent =>
      (s.table.reserve claimed ts dc draws).map fun (table, id, ok) =>
        -- `old` is read under the same lock
        let old := s.table.byID.lookup id
        if ok then ({ s with table := table }.move dc (.superseding id old), .reserved id old)
        else ({ s with table := table }.move dc .returned, .refused)
    | _ => none
  | .supersede dc =>
    match s.handler dc with
    | .superseding id none => some (s.move dc (.reserved id), .quiet)
    | .superseding id (some old) =>
      if s.done old then some (s.move dc .returned, .doubleClose)
      else some ({ s with done := Function.update s.done old true }.move dc (.reserved id),
        .closed old)
    | _ => none
  | .wrap dc ok =>
    match s.handler dc with
    | .reserved id => some (s.move dc (if ok then .wrapped id else .leaving id), .quiet)
    | _ => none
  | .arm dc =>
    match s.handler dc with
    | .wrapped id =>
      if (s.mu dc).isSome then none
      else some ({ s with armed := Function.update s.armed dc true }.move dc (.armed id),
        .quiet)
    | _ => none
  | .goLive dc =>
    match s.handler dc with
    | .armed id => some ((s.setLive dc true).move dc (.live id), .quiet)
    | _ => none
  | .join dc =>
    match s.handler dc with
    | .live id => some ({ s with group := dc :: s.group }.move dc (.serving id), .quiet)
    | _ => none
  | .wake dc requestEnded =>
    match s.handler dc with
    | .serving id =>
      if requestEnded || s.done dc then some (s.move dc (.ending id), .quiet) else none
    | _ => none
  | .detach dc =>
    match s.handler dc with
    | .ending id => some ({ s with group := s.group.erase dc }.move dc (.detached id), .quiet)
    | _ => none
  | .teardown dc =>
    match s.handler dc with
    | .detached id =>
      if (s.mu dc).isSome then none
      else some ((s.setLive dc false).move dc (.leaving id), .quiet)
    | _ => none
  | .remove dc =>
    match s.handler dc with
    | .leaving id => some ({ s with table := s.table.remove id dc }.move dc .returned, .quiet)
    | _ => none
  | .lookup t owner =>
    match s.sender t with
    | .idle =>
      match s.table.lookup owner with
      | none => some (s.go t .idle, .sent false)
      | some dc => some (s.go t (.found dc), .quiet)
    | _ => none
  | .check t =>
    match s.sender t with
    | .found dc =>
      if s.live dc then some (s.go t (.entering dc .reserve), .quiet)
      else some (s.go t .idle, .sent false)
    | _ => none
  | .tick t writers =>
    match s.sender t with
    | .idle =>
      -- the map of the group is walked in any order
      if writers.isPerm s.group then some (s.go t (Flusher.after 0 (.tick writers)), .quiet)
      else none
    | _ => none
  | .pass t =>
    match s.sender t with
    | .entering dc flusher => some (s.go t (flusher.after dc), .quiet)
    | _ => none
  | .flush t views =>
    match s.sender t with
    | .entering dc flusher =>
      if (s.mu dc).isSome then none
      else if s.live dc then
        some ((s.lock dc (some t)).go t (.flushing dc flusher views), .quiet)
      else some (s.go t (flusher.after dc), .quiet)
    | _ => none
  | .writeFrame t ok =>
    match s.sender t with
    | .flushing dc flusher (_ :: left) =>
      if !s.armed dc then some (s, .nilPointer)
      else if ok then some (s.go t (.flushing dc flusher left), .wrote dc)
      else some (s.unlock t dc flusher false, .wrote dc)
    | _ => none
  | .endFlush t ok =>
    match s.sender t with
    | .flushing dc flusher [] =>
      if !s.armed dc then some (s, .nilPointer)
      else some (s.unlock t dc flusher ok, .quiet)
    | _ => none
  | .ret t =>
    match s.sender t with
    | .committed => some (s.go t .idle, .sent true)
    | _ => none

/-- The runs of a carrier, in any interleaving of its goroutines. -/
abbrev Run (multiple : Bool) (maxPeers : Int) :
    HttpServing → List (ServeEvent × ServeOutcome) → Prop :=
  Reached step (fun _ _ _ => True) (new multiple maxPeers)

end HttpServing

/-! ## What a step can be -/

/-- The events of the goroutines that send. -/
def ServeEvent.ofSender : ServeEvent → Bool
  | .lookup .. | .check .. | .tick .. | .pass .. | .flush .. | .writeFrame .. | .endFlush ..
  | .ret .. => true
  | _ => false

/-- In `flushViews`, under the lock of the stream. -/
def SendPhase.InFlush (phase : SendPhase) (dc : Stream) : Prop :=
  ∃ flusher left, phase = .flushing dc flusher left

/-- Whose lock a flush holds. -/
@[simp] theorem SendPhase.inFlush_flushing (dc dc' : Stream) (flusher : Flusher)
    (left : List Bytes) : (SendPhase.flushing dc flusher left).InFlush dc' ↔ dc' = dc := by
  simp [SendPhase.InFlush, eq_comm]

/-- Nobody goes from one flush straight into another. -/
@[simp] theorem Flusher.not_inFlush_after (flusher : Flusher) (dc dc' : Stream) :
    ¬ (flusher.after dc).InFlush dc' := by
  rintro ⟨flusher', left, heq⟩
  rcases flusher with _ | _ | _ | ⟨next, rest⟩ <;> cases heq

/-- How far a handler is. -/
def ServePhase.rank : ServePhase → Nat
  | .absent => 0
  | .superseding .. => 1
  | .reserved _ => 2
  | .wrapped _ => 3
  | .armed _ => 4
  | .live _ => 5
  | .serving _ => 6
  | .ending _ => 7
  | .detached _ => 8
  | .leaving _ => 9
  | .returned => 10

/-- Between going live and the teardown. -/
def ServePhase.IsLive (phase : ServePhase) : Prop := 5 ≤ phase.rank ∧ phase.rank ≤ 8

namespace HttpServing

variable {multiple : Bool} {maxPeers : Int} {s s' : HttpServing} {event : ServeEvent}
  {out : ServeOutcome} {history : List (ServeEvent × ServeOutcome)}

/-- The steps by what they change. A goroutine that sends and neither enters nor is in `flushViews`
changes its own phase only. -/
inductive Taken (s : HttpServing) : ServeEvent → ServeOutcome → HttpServing → Prop where
  | refuse {dc : Stream} {claimed : Owner} {ts : UInt64} {draws : List Owner}
      (hphase : s.handler dc = .absent) {id : Owner}
      (hcall : s.table.reserve claimed ts dc draws = some (s.table, id, false)) :
      Taken s (.get dc claimed ts draws) .refused (s.move dc .returned)
  | reserve {dc : Stream} {claimed id : Owner} {ts : UInt64} {draws : List Owner}
      (hphase : s.handler dc = .absent)
      (hcall : s.table.reserve claimed ts dc draws = some (s.table.install id ts dc, id, true)) :
      Taken s (.get dc claimed ts draws) (.reserved id (s.table.byID.lookup id))
        ({ s with table := s.table.install id ts dc }.move dc
          (.superseding id (s.table.byID.lookup id)))
  | first {dc : Stream} {id : Owner} (hphase : s.handler dc = .superseding id none) :
      Taken s (.supersede dc) .quiet (s.move dc (.reserved id))
  | supersede {dc old : Stream} {id : Owner} (hphase : s.handler dc = .superseding id (some old))
      (hdone : s.done old = false) :
      Taken s (.supersede dc) (.closed old)
        ({ s with done := Function.update s.done old true }.move dc (.reserved id))
  | doubleClose {dc old : Stream} {id : Owner}
      (hphase : s.handler dc = .superseding id (some old)) (hdone : s.done old = true) :
      Taken s (.supersede dc) .doubleClose (s.move dc .returned)
  | wrap {dc : Stream} {id : Owner} (hphase : s.handler dc = .reserved id) :
      Taken s (.wrap dc true) .quiet (s.move dc (.wrapped id))
  | wrapFailed {dc : Stream} {id : Owner} (hphase : s.handler dc = .reserved id) :
      Taken s (.wrap dc false) .quiet (s.move dc (.leaving id))
  | arm {dc : Stream} {id : Owner} (hphase : s.handler dc = .wrapped id) :
      Taken s (.arm dc) .quiet
        ({ s with armed := Function.update s.armed dc true }.move dc (.armed id))
  | goLive {dc : Stream} {id : Owner} (hphase : s.handler dc = .armed id) :
      Taken s (.goLive dc) .quiet ((s.setLive dc true).move dc (.live id))
  | join {dc : Stream} {id : Owner} (hphase : s.handler dc = .live id) :
      Taken s (.join dc) .quiet ({ s with group := dc :: s.group }.move dc (.serving id))
  | wake {dc : Stream} {id : Owner} {requestEnded : Bool} (hphase : s.handler dc = .serving id) :
      Taken s (.wake dc requestEnded) .quiet (s.move dc (.ending id))
  | detach {dc : Stream} {id : Owner} (hphase : s.handler dc = .ending id) :
      Taken s (.detach dc) .quiet ({ s with group := s.group.erase dc }.move dc (.detached id))
  | teardown {dc : Stream} {id : Owner} (hphase : s.handler dc = .detached id)
      (hmu : s.mu dc = none) :
      Taken s (.teardown dc) .quiet ((s.setLive dc false).move dc (.leaving id))
  | remove {dc : Stream} {id : Owner} (hphase : s.handler dc = .leaving id) :
      Taken s (.remove dc) .quiet ({ s with table := s.table.remove id dc }.move dc .returned)
  | go {t : Nat} {phase : SendPhase} {event : ServeEvent} {out : ServeOutcome}
      (hevent : event.ofSender = true) (hout : out = .quiet ∨ ∃ delivered, out = .sent delivered)
      (hphase : ∀ dc, ¬ phase.InFlush dc) : Taken s event out (s.go t phase)
  | flush {t : Nat} {dc : Stream} {flusher : Flusher} {views : List Bytes}
      (hmu : s.mu dc = none) (hlive : s.live dc = true) :
      Taken s (.flush t views) .quiet ((s.lock dc (some t)).go t (.flushing dc flusher views))
  | write {t : Nat} {dc : Stream} {flusher : Flusher} {frame : Bytes} {left : List Bytes}
      (hphase : s.sender t = .flushing dc flusher (frame :: left)) :
      Taken s (.writeFrame t true) (.wrote dc) (s.go t (.flushing dc flusher left))
  | unlock {t : Nat} {dc : Stream} {flusher : Flusher} {ok : Bool} {event : ServeEvent}
      {out : ServeOutcome} (hphase : (s.sender t).InFlush dc) (hevent : event.ofSender = true)
      (hout : out = .quiet ∨ out = .wrote dc) : Taken s event out (s.unlock t dc flusher ok)
  | nilPointer {t : Nat} {dc : Stream} {event : ServeEvent} (hphase : (s.sender t).InFlush dc)
      (harmed : s.armed dc = false) : Taken s event .nilPointer s

/-- Inversion of a GET. -/
theorem taken_get {dc : Stream} {claimed : Owner} {ts : UInt64} {draws : List Owner}
    (h : s.step (.get dc claimed ts draws) = some (s', out)) :
    s.Taken (.get dc claimed ts draws) out s' := by
  simp only [step] at h
  split at h
  · rename_i hphase
    obtain ⟨⟨table, id, ok⟩, hcall, heq⟩ := Option.map_eq_some_iff.mp h
    have hinstall : ok = true → table = s.table.install id ts dc := by
      rcases s.table.reserve_cases hcall with ⟨rfl, rfl⟩ | ⟨rfl, -, -, -, -, rfl⟩ |
        ⟨rfl, -, -, -, -, rfl⟩ <;> simp
    cases ok with
    | true =>
      obtain rfl := hinstall rfl
      obtain ⟨rfl, rfl⟩ := Prod.mk.inj heq
      exact .reserve hphase hcall
    | false =>
      obtain ⟨-, rfl⟩ | ⟨hok, -⟩ | ⟨hok, -⟩ := s.table.reserve_cases hcall
      · obtain ⟨rfl, rfl⟩ := Prod.mk.inj heq
        exact .refuse hphase hcall
      · cases hok
      · cases hok
  · cases h

/-- Inversion of `step`. -/
theorem taken_of_step (h : s.step event = some (s', out)) : s.Taken event out s' := by
  cases event with
  | get dc claimed ts draws => exact taken_get h
  | supersede dc =>
    simp only [step] at h
    split at h
    · rename_i id hphase
      obtain ⟨rfl, rfl⟩ := pair_inj h
      exact .first hphase
    · rename_i id old hphase
      split at h <;> rename_i hdone <;>
        obtain ⟨rfl, rfl⟩ := pair_inj h
      · exact .doubleClose hphase hdone
      · exact .supersede hphase (by simpa using hdone)
    · cases h
  | wrap dc ok =>
    simp only [step] at h
    split at h
    · rename_i id hphase
      obtain ⟨rfl, rfl⟩ := pair_inj h
      cases ok
      · exact .wrapFailed hphase
      · exact .wrap hphase
    · cases h
  | arm dc =>
    simp only [step] at h
    split at h
    · rename_i id hphase
      obtain ⟨-, heq⟩ := Option.ite_none_left_eq_some.mp h
      obtain ⟨rfl, rfl⟩ := pair_inj heq
      exact .arm hphase
    · cases h
  | goLive dc | join dc | detach dc | remove dc =>
    simp only [step] at h
    split at h
    · rename_i id hphase
      obtain ⟨rfl, rfl⟩ := pair_inj h
      constructor
      exact hphase
    · cases h
  | wake dc requestEnded =>
    simp only [step] at h
    split at h
    · rename_i id hphase
      obtain ⟨-, heq⟩ := Option.ite_none_right_eq_some.mp h
      obtain ⟨rfl, rfl⟩ := pair_inj heq
      exact .wake hphase
    · cases h
  | teardown dc =>
    simp only [step] at h
    split at h
    · rename_i id hphase
      obtain ⟨hmu, heq⟩ := Option.ite_none_left_eq_some.mp h
      obtain ⟨rfl, rfl⟩ := pair_inj heq
      exact .teardown hphase (by simpa using hmu)
    · cases h
  | lookup t owner =>
    simp only [step] at h
    split at h
    · split at h <;> obtain ⟨rfl, rfl⟩ := pair_inj h
      · exact .go rfl (.inr ⟨false, rfl⟩) (by simp [SendPhase.InFlush])
      · exact .go rfl (.inl rfl) (by simp [SendPhase.InFlush])
    · cases h
  | check t =>
    simp only [step] at h
    split at h
    · split at h <;> obtain ⟨rfl, rfl⟩ := pair_inj h
      · exact .go rfl (.inl rfl) (by simp [SendPhase.InFlush])
      · exact .go rfl (.inr ⟨false, rfl⟩) (by simp [SendPhase.InFlush])
    · cases h
  | tick t writers =>
    simp only [step] at h
    split at h
    · obtain ⟨-, heq⟩ := Option.ite_none_right_eq_some.mp h
      obtain ⟨rfl, rfl⟩ := pair_inj heq
      exact .go rfl (.inl rfl) (by simp)
    · cases h
  | pass t =>
    simp only [step] at h
    split at h
    · obtain ⟨rfl, rfl⟩ := pair_inj h
      exact .go rfl (.inl rfl) (by simp)
    · cases h
  | flush t views =>
    simp only [step] at h
    split at h
    · obtain ⟨hmu, heq⟩ := Option.ite_none_left_eq_some.mp h
      split at heq <;> rename_i hlive <;>
        obtain ⟨rfl, rfl⟩ := pair_inj heq
      · exact .flush (by simpa using hmu) hlive
      · exact .go rfl (.inl rfl) (by simp)
    · cases h
  | writeFrame t ok =>
    simp only [step] at h
    split at h
    · rename_i dc flusher frame left hphase
      have hflush : (s.sender t).InFlush dc := ⟨flusher, frame :: left, hphase⟩
      split at h
      · rename_i harmed
        obtain ⟨rfl, rfl⟩ := pair_inj h
        exact .nilPointer hflush (by simpa using harmed)
      · cases ok <;> obtain ⟨rfl, rfl⟩ := pair_inj h
        · exact .unlock hflush rfl (.inr rfl)
        · exact .write hphase
    · cases h
  | endFlush t ok =>
    simp only [step] at h
    split at h
    · rename_i dc flusher hphase
      have hflush : (s.sender t).InFlush dc := ⟨flusher, [], hphase⟩
      split at h <;> rename_i harmed <;>
        obtain ⟨rfl, rfl⟩ := pair_inj h
      · exact .nilPointer hflush (by simpa using harmed)
      · exact .unlock hflush rfl (.inl rfl)
    · cases h
  | ret t =>
    simp only [step] at h
    split at h
    · obtain ⟨rfl, rfl⟩ := pair_inj h
      exact .go rfl (.inr ⟨true, rfl⟩) (by simp [SendPhase.InFlush])
    · cases h

/-! ## No write outside the life of a stream -/

/-- The phase of a handler against what happened: a live stream has gone live, and before the
teardown and the removal neither has happened. The flag is set on live streams only, and who is in
`flushViews` holds the lock of a live stream. -/
structure Staged (s : HttpServing) (history : List (ServeEvent × ServeOutcome)) : Prop where
  wentLive : ∀ dc, (s.handler dc).IsLive → .goLive dc ∈ history.map Prod.fst
  notTorn : ∀ dc, (s.handler dc).rank ≤ 8 → .teardown dc ∉ history.map Prod.fst
  notRemoved : ∀ dc, (s.handler dc).rank ≤ 9 → .remove dc ∉ history.map Prod.fst
  armed : ∀ dc, 4 ≤ (s.handler dc).rank → (s.handler dc).rank ≤ 8 → s.armed dc = true
  live : ∀ dc, s.live dc = true → (s.handler dc).IsLive
  flushing : ∀ t dc, (s.sender t).InFlush dc → s.mu dc = some t ∧ (s.handler dc).IsLive

/-- A handler moves on. It becomes live by the event that says so, is torn down or removed only past
these points, and stops being live only while nobody holds the stream's lock. -/
theorem Staged.move (h : s.Staged history) {dc : Stream} {phase : ServePhase}
    (hhandler : s'.handler = Function.update s.handler dc phase) (hsender : s'.sender = s.sender)
    (hmu : s'.mu = s.mu)
    (hothers : ∀ dc', dc' ≠ dc → s'.armed dc' = s.armed dc' ∧ s'.live dc' = s.live dc')
    (hrank : (s.handler dc).rank < phase.rank)
    (hlive : phase.IsLive → event = .goLive dc ∨ (s.handler dc).IsLive)
    (htorn : ∀ dc', event = .teardown dc' → dc' = dc ∧ 9 ≤ phase.rank)
    (hremoved : ∀ dc', event = .remove dc' → dc' = dc ∧ 10 ≤ phase.rank)
    (harmed : 4 ≤ phase.rank → phase.rank ≤ 8 → s'.armed dc = true)
    (hflag : s'.live dc = true → phase.IsLive)
    (hlock : (s.handler dc).IsLive → phase.IsLive ∨ s.mu dc = none) :
    s'.Staged ((event, out) :: history) := by
  have hself : s'.handler dc = phase := by rw [hhandler, Function.update_self]
  have hother : ∀ dc', dc' ≠ dc → s'.handler dc' = s.handler dc' := fun dc' hne => by
    rw [hhandler, Function.update_of_ne hne]
  refine ⟨fun dc' hl => ?_, fun dc' hr => ?_, fun dc' hr => ?_, fun dc' hlo hhi => ?_,
    fun dc' hl => ?_, fun t dc' hflush => ?_⟩ <;> by_cases hdc : dc' = dc
  · subst hdc
    rw [hself] at hl
    rcases hlive hl with rfl | hbefore
    · exact List.mem_cons_self
    · exact List.mem_cons_of_mem _ (h.wentLive dc' hbefore)
  · rw [hother dc' hdc] at hl
    exact List.mem_cons_of_mem _ (h.wentLive dc' hl)
  · subst hdc
    rw [hself] at hr
    rw [List.map_cons, List.mem_cons, not_or]
    refine ⟨fun heq => ?_, h.notTorn dc' (by omega)⟩
    have := (htorn dc' heq.symm).2
    omega
  · rw [hother dc' hdc] at hr
    rw [List.map_cons, List.mem_cons, not_or]
    exact ⟨fun heq => hdc (htorn dc' heq.symm).1, h.notTorn dc' hr⟩
  · subst hdc
    rw [hself] at hr
    rw [List.map_cons, List.mem_cons, not_or]
    refine ⟨fun heq => ?_, h.notRemoved dc' (by omega)⟩
    have := (hremoved dc' heq.symm).2
    omega
  · rw [hother dc' hdc] at hr
    rw [List.map_cons, List.mem_cons, not_or]
    exact ⟨fun heq => hdc (hremoved dc' heq.symm).1, h.notRemoved dc' hr⟩
  · subst hdc
    rw [hself] at hlo hhi
    exact harmed hlo hhi
  · rw [hother dc' hdc] at hlo hhi
    exact (hothers dc' hdc).1.trans (h.armed dc' hlo hhi)
  · subst hdc
    exact hself ▸ hflag hl
  · rw [hother dc' hdc]
    exact h.live dc' ((hothers dc' hdc).2 ▸ hl)
  · subst hdc
    rw [hsender] at hflush
    obtain ⟨hheld, hbefore⟩ := h.flushing t dc' hflush
    rw [hmu, hself]
    refine ⟨hheld, (hlock hbefore).resolve_right fun hfree => ?_⟩
    rw [hfree] at hheld
    cases hheld
  · rw [hsender] at hflush
    rw [hmu, hother dc' hdc]
    exact h.flushing t dc' hflush

/-- A handler moves on and leaves the flags alone. -/
theorem Staged.keep (h : s.Staged history) {dc : Stream} {phase : ServePhase}
    (hhandler : s'.handler = Function.update s.handler dc phase) (hsender : s'.sender = s.sender)
    (hmu : s'.mu = s.mu) (harmed : s'.armed = s.armed) (hflag : s'.live = s.live)
    (hrank : (s.handler dc).rank < phase.rank) (hphase : phase.rank ≠ 4)
    (hlive : phase.IsLive ↔ (s.handler dc).IsLive) (htorn : ∀ dc', event ≠ .teardown dc')
    (hremoved : ∀ dc', event = .remove dc' → dc' = dc ∧ 10 ≤ phase.rank) :
    s'.Staged ((event, out) :: history) := by
  refine h.move hhandler hsender hmu (fun dc' _ => by rw [harmed, hflag]; exact ⟨rfl, rfl⟩) hrank
    (fun hl => .inr (hlive.mp hl)) (fun dc' heq => absurd heq (htorn dc')) hremoved
    (fun hlo hhi => ?_) (fun hl => ?_) fun hl => .inl (hlive.mpr hl)
  · have hl := hlive.mp ⟨by omega, hhi⟩
    rw [harmed]
    exact h.armed dc (Nat.le_of_succ_le hl.1) hl.2
  · rw [hflag] at hl
    exact hlive.mpr (h.live dc hl)

/-- A goroutine that sends moves on. It sets no flag, takes no lock from another and enters a flush
only with the lock of a live stream. -/
theorem Staged.go (h : s.Staged history) {t : Nat} (hevent : event.ofSender = true)
    (hhandler : s'.handler = s.handler) (harmed : s'.armed = s.armed)
    (hlive : ∀ dc, s'.live dc = true → s.live dc = true)
    (hothers : ∀ t', t' ≠ t → s'.sender t' = s.sender t' ∧
      ∀ dc, s.mu dc = some t' → s'.mu dc = some t')
    (hflush : ∀ dc, (s'.sender t).InFlush dc → s'.mu dc = some t ∧ (s.handler dc).IsLive) :
    s'.Staged ((event, out) :: history) := by
  refine ⟨fun dc hl => ?_, fun dc hr => ?_, fun dc hr => ?_, fun dc hlo hhi => ?_,
    fun dc hl => ?_, fun t' dc hin => ?_⟩
  · rw [hhandler] at hl
    exact List.mem_cons_of_mem _ (h.wentLive dc hl)
  · rw [hhandler] at hr
    rw [List.map_cons, List.mem_cons, not_or]
    refine ⟨fun heq => ?_, h.notTorn dc hr⟩
    rw [← show ServeEvent.teardown dc = event from heq] at hevent
    cases hevent
  · rw [hhandler] at hr
    rw [List.map_cons, List.mem_cons, not_or]
    refine ⟨fun heq => ?_, h.notRemoved dc hr⟩
    rw [← show ServeEvent.remove dc = event from heq] at hevent
    cases hevent
  · rw [hhandler] at hlo hhi
    rw [harmed]
    exact h.armed dc hlo hhi
  · rw [hhandler]
    exact h.live dc (hlive dc hl)
  · rw [hhandler]
    by_cases ht : t' = t
    · subst ht
      exact hflush dc hin
    · obtain ⟨hsame, hkept⟩ := hothers t' ht
      rw [hsame] at hin
      obtain ⟨hheld, hl⟩ := h.flushing t' dc hin
      exact ⟨hkept dc hheld, hl⟩

/-- A fresh carrier is staged. -/
theorem Staged.new : (new multiple maxPeers).Staged [] where
  wentLive _ hl := absurd hl.1 (Nat.not_succ_le_zero 4)
  notTorn _ _ := List.not_mem_nil
  notRemoved _ _ := List.not_mem_nil
  armed _ hlo := absurd hlo (Nat.not_succ_le_zero 3)
  live _ hl := absurd hl (by simp [HttpServing.new])
  flushing _ _ hflush := by simp [HttpServing.new, SendPhase.InFlush] at hflush

/-- Every step keeps this. -/
theorem Staged.step (h : s.Staged history) (htaken : s.Taken event out s') :
    s'.Staged ((event, out) :: history) := by
  cases htaken with
  | refuse hphase _ | reserve hphase _ | first hphase | supersede hphase _ | doubleClose hphase _
  | wrap hphase | wrapFailed hphase | join hphase | wake hphase | detach hphase | remove hphase =>
    refine h.keep rfl rfl rfl rfl rfl ?_ ?_ ?_ ?_ ?_ <;>
      simp [hphase, ServePhase.IsLive, ServePhase.rank]
  | @arm dc id hphase =>
    refine h.move rfl rfl rfl (fun dc' hne => ⟨Function.update_of_ne hne .., rfl⟩) ?_ ?_ ?_ ?_
      (fun _ _ => Function.update_self ..) (fun hl => ?_) ?_
    case refine_5 =>
      have hl := h.live dc hl
      simp [hphase, ServePhase.IsLive, ServePhase.rank] at hl
    all_goals simp [hphase, ServePhase.IsLive, ServePhase.rank]
  | @goLive dc id hphase =>
    refine h.move rfl rfl rfl (fun dc' hne => ⟨rfl, Function.update_of_ne hne ..⟩) ?_ ?_ ?_ ?_
      (fun _ _ => h.armed dc ?_ ?_) ?_ ?_ <;>
      simp [hphase, ServePhase.IsLive, ServePhase.rank]
  | @teardown dc id hphase hmu =>
    refine h.move rfl rfl rfl (fun dc' hne => ⟨rfl, Function.update_of_ne hne ..⟩) ?_ ?_ ?_ ?_
      ?_ (fun hl => ?_) fun _ => .inr hmu
    case refine_6 => simp [HttpServing.move, setLive] at hl
    all_goals simp [hphase, ServePhase.IsLive, ServePhase.rank]
  | @go t phase _ _ hevent hout hphase =>
    refine h.go (t := t) hevent rfl rfl (fun _ hl => hl) (fun t' ht => ?_) fun dc hin => ?_
    · exact ⟨Function.update_of_ne ht .., fun _ hheld => hheld⟩
    · rw [show (s.go t phase).sender t = phase from Function.update_self ..] at hin
      exact absurd hin (hphase dc)
  | @flush t dc flusher views hmu hlive =>
    refine h.go (t := t) rfl rfl rfl (fun _ hl => hl) (fun t' ht => ?_) fun dc' hin => ?_
    · refine ⟨Function.update_of_ne ht .., fun dc' hheld => ?_⟩
      have hne : dc' ≠ dc := by
        rintro rfl
        rw [hmu] at hheld
        cases hheld
      exact (Function.update_of_ne hne ..).trans hheld
    · obtain rfl : dc' = dc := by simpa [HttpServing.go] using hin
      exact ⟨by simp [HttpServing.go, lock], h.live dc' hlive⟩
  | @write t dc flusher frame left hphase =>
    refine h.go (t := t) rfl rfl rfl (fun _ hl => hl) (fun t' ht => ?_) fun dc' hin => ?_
    · exact ⟨Function.update_of_ne ht .., fun _ hheld => hheld⟩
    · obtain rfl : dc' = dc := by simpa [HttpServing.go] using hin
      exact h.flushing t dc' ⟨flusher, frame :: left, hphase⟩
  | @unlock t dc flusher ok _ _ hphase hevent hout =>
    have hheld := (h.flushing t dc hphase).1
    refine h.go (t := t) hevent ?_ ?_ (fun dc' hl => ?_) (fun t' ht => ⟨?_, fun dc' hheld' => ?_⟩)
      fun dc' hin => ?_
    · cases ok <;> rfl
    · cases ok <;> rfl
    · cases ok with
      | true => exact hl
      | false =>
        by_cases hdc : dc' = dc
        · simp [HttpServing.unlock, HttpServing.go, lock, setLive, hdc] at hl
        · simpa [HttpServing.unlock, HttpServing.go, lock, setLive, hdc] using hl
    · cases ok <;> exact Function.update_of_ne ht ..
    · have hne : dc' ≠ dc := by
        rintro rfl
        exact ht (Option.some.inj (hheld'.symm.trans hheld))
      cases ok <;> exact (Function.update_of_ne hne ..).trans hheld'
    · rw [show (s.unlock t dc flusher ok).sender t = flusher.after dc from
        Function.update_self ..] at hin
      exact absurd hin (flusher.not_inFlush_after dc dc')
  | nilPointer hphase harmed =>
    obtain ⟨-, hl⟩ := h.flushing _ _ hphase
    have := h.armed _ (by have := hl.1; omega) hl.2
    rw [harmed] at this
    cases this

end HttpServing

/-! ## Superseded streams -/

namespace HttpListenOut

variable {c : HttpListenOut} {id id' : Owner} {dc dc' : Stream}

/-- `remove` closes nothing. -/
@[simp] theorem remove_closed (id : Owner) (dc : Stream) : (c.remove id dc).closed = c.closed := by
  unfold remove
  split <;> rfl

/-- `remove` installs nothing. -/
theorem lookup_of_lookup_remove (h : (c.remove id dc).byID.lookup id' = some dc') :
    c.byID.lookup id' = some dc' := by
  unfold remove at h
  split at h
  · dsimp only at h
    rw [FMap.lookup_erase_ite] at h
    split at h
    · cases h
    · exact h
  · exact h

/-- `remove` takes out no stream but its own. -/
theorem lookup_remove_of_ne (hne : dc' ≠ dc) (h : c.byID.lookup id' = some dc') :
    (c.remove id dc).byID.lookup id' = some dc' := by
  unfold remove
  split
  · rename_i hown
    have hid : id' ≠ id := by
      rintro rfl
      exact hne (Option.some.inj (h.symm.trans hown))
    dsimp only
    rw [FMap.lookup_erase_ite, if_neg hid]
    exact h
  · exact h

end HttpListenOut

namespace HttpStreams

/-- A superseded stream has begun, so no later GET brings it, and no id has it. -/
structure Superseded (s : HttpStreams) : Prop where
  begun : ∀ dc ∈ s.table.closed, s.handler dc ≠ .absent
  gone : ∀ dc ∈ s.table.closed, ∀ id, s.table.byID.lookup id ≠ some dc

variable {multiple : Bool} {maxPeers : Int} {s s' : HttpStreams} {event : HttpEvent}
  {out : Option (Owner × Bool)} {history : List (HttpEvent × Option (Owner × Bool))}

/-- A handler that goes on, while the map loses streams at most. -/
theorem Superseded.move (h : s.Superseded) {table : HttpListenOut} {dc : Stream}
    {handler : HttpHandler} (hhandler : handler ≠ .absent)
    (hclosed : table.closed = s.table.closed)
    (hlookup : ∀ id dc', table.byID.lookup id = some dc' → s.table.byID.lookup id = some dc') :
    ({ s with table := table }.move dc handler).Superseded := by
  refine ⟨fun dc' hdc' => ?_, fun dc' hdc' id hid => ?_⟩
  · have hdc' : dc' ∈ s.table.closed := hclosed ▸ hdc'
    by_cases heq : dc' = dc
    · subst heq
      simpa [HttpStreams.move] using hhandler
    · simpa [HttpStreams.move, heq] using h.begun dc' hdc'
  · exact h.gone dc' (hclosed ▸ hdc') id (hlookup id dc' hid)

/-- A new stream takes an id over. The one it finds there is under no other id, because its
handler holds one id only. -/
theorem Superseded.install (h : s.Superseded) (htracked : s.Tracked multiple history) {dc : Stream}
    (habsent : s.handler dc = .absent) (id : Owner) (ts : UInt64) :
    ({ s with table := s.table.install id ts dc }.move dc (.reserved id)).Superseded := by
  have hclosed : ∀ dc' ∈ (s.table.install id ts dc).closed, s.handler dc' ≠ .absent ∧
      ∀ id', id' ≠ id → s.table.byID.lookup id' ≠ some dc' := by
    intro dc' hdc'
    rcases List.mem_append.mp hdc' with hbefore | hold
    · exact ⟨h.begun dc' hbefore, fun id' _ => h.gone dc' hbefore id'⟩
    · have hholds := (htracked.streams id dc' (Option.mem_toList.mp hold)).1
      refine ⟨fun habs => ?_, fun id' hne hid' => ?_⟩
      · rw [habs] at hholds
        exact hholds
      · have hholds' := (htracked.streams id' dc' hid').1
        cases hhandler : s.handler dc' with
        | absent | returned =>
          rw [hhandler] at hholds
          exact hholds
        | reserved id₁ | serving id₁ | leaving id₁ =>
          rw [hhandler] at hholds hholds'
          obtain rfl : id₁ = id := hholds
          exact hne (show id₁ = id' from hholds').symm
  refine ⟨fun dc' hdc' => ?_, fun dc' hdc' id' hid' => ?_⟩
  · by_cases heq : dc' = dc
    · subst heq
      simp [HttpStreams.move]
    · simpa [HttpStreams.move, heq] using (hclosed dc' hdc').1
  · have hlookup : (s.table.byID.insert id dc).lookup id' = some dc' := hid'
    rw [FMap.lookup_insert_ite] at hlookup
    split at hlookup
    · obtain rfl := Option.some.inj hlookup
      exact (hclosed dc hdc').1 habsent
    · rename_i hne
      exact (hclosed dc' hdc').2 id' hne hlookup

/-- Every step keeps this. -/
theorem Superseded.step (h : s.Superseded) (htracked : s.Tracked multiple history)
    (htaken : s.step event = some (s', out)) : s'.Superseded := by
  cases event with
  | get dc claimed ts draws =>
    simp only [HttpStreams.step] at htaken
    split at htaken
    · rename_i habsent
      obtain ⟨⟨table, id, ok⟩, hcall, hs'⟩ := Option.map_eq_some_iff.mp htaken
      obtain ⟨rfl, rfl⟩ := Prod.mk.inj hs'
      rcases s.table.reserve_cases hcall with ⟨rfl, rfl⟩ | ⟨rfl, -, -, -, -, rfl⟩ |
        ⟨rfl, -, -, -, -, rfl⟩
      · exact h.move (by simp) rfl fun _ _ hid => hid
      · exact h.install htracked habsent id ts
      · exact h.install htracked habsent id ts
    · cases htaken
  | wrap dc ok =>
    simp only [HttpStreams.step] at htaken
    split at htaken
    · obtain ⟨rfl, rfl⟩ := pair_inj htaken
      cases ok
      · exact h.move (by simp) rfl fun _ _ hid => hid
      · have hlive : (s.setLive dc true).Superseded := ⟨h.begun, h.gone⟩
        exact hlive.move (by simp) rfl fun _ _ hid => hid
    · cases htaken
  | writeFailed dc =>
    simp only [HttpStreams.step] at htaken
    split at htaken
    · obtain ⟨rfl, rfl⟩ := pair_inj htaken
      exact ⟨h.begun, h.gone⟩
    · cases htaken
  | teardown dc =>
    simp only [HttpStreams.step] at htaken
    split at htaken
    · obtain ⟨rfl, rfl⟩ := pair_inj htaken
      have hdead : (s.setLive dc false).Superseded := ⟨h.begun, h.gone⟩
      exact hdead.move (by simp) rfl fun _ _ hid => hid
    · cases htaken
  | remove dc =>
    simp only [HttpStreams.step] at htaken
    split at htaken
    · obtain ⟨rfl, rfl⟩ := pair_inj htaken
      exact h.move (by simp) (HttpListenOut.remove_closed ..)
        fun _ _ => HttpListenOut.lookup_of_lookup_remove
    · cases htaken

/-- It holds in every run. -/
theorem Run.superseded (h : Run multiple maxPeers s history) : s.Superseded := by
  refine (h.invariant (fun s history => s.Tracked multiple history ∧ s.Superseded) ?_ ?_).2
  · exact ⟨⟨rfl, by simp [new, HttpListenOut.new]⟩, nofun, nofun⟩
  · rintro s history event s' out ⟨htracked, hs⟩ - htaken
    exact ⟨htracked.step htaken, hs.step htracked htaken⟩

end HttpStreams

/-! ## Each `done` is closed once -/

/-- What `Delivery` shows of a phase. -/
def ServePhase.shown : ServePhase → HttpHandler
  | .absent => .absent
  | .superseding id _ | .reserved id | .wrapped id | .armed id => .reserved id
  | .live id | .serving id | .ending id | .detached id => .serving id
  | .leaving id => .leaving id
  | .returned => .returned

/-- Live streams are shown as serving. -/
theorem ServePhase.IsLive.shown {phase : ServePhase} (h : phase.IsLive) :
    ∃ id, phase.shown = .serving id := by
  obtain ⟨hlo, hhi⟩ := h
  cases phase with
  | live id | serving id | ending id | detached id => exact ⟨id, rfl⟩
  | absent | superseding _ _ | reserved _ | wrapped _ | armed _ | leaving _ | returned =>
    simp [ServePhase.rank] at hlo hhi

namespace HttpServing

variable {multiple : Bool} {maxPeers : Int} {s s' : HttpServing} {event : ServeEvent}
  {out : ServeOutcome} {history : List (ServeEvent × ServeOutcome)}

/-- What `Delivery` shows of the carrier. -/
def shown (s : HttpServing) : HttpStreams := ⟨s.table, fun dc => (s.handler dc).shown, s.live⟩

/-- Only superseded streams have their `done` closed, and one whose `done` is about to be closed
has it open and waits for one handler only. -/
structure Pending (s : HttpServing) : Prop where
  done : ∀ dc, s.done dc = true → dc ∈ s.table.closed
  closing : ∀ dc id old, s.handler dc = .superseding id (some old) →
    old ∈ s.table.closed ∧ s.done old = false
  unique : ∀ dc dc' id id' old, s.handler dc = .superseding id (some old) →
    s.handler dc' = .superseding id' (some old) → dc = dc'

/-- A handler moves on to a phase in which it closes no `done`. -/
theorem Pending.keep (h : s.Pending) {dc : Stream} {phase : ServePhase}
    (hhandler : s'.handler = Function.update s.handler dc phase) (hdone : s'.done = s.done)
    (hclosed : s'.table.closed = s.table.closed) (hphase : ∀ id old, phase ≠ .superseding id old) :
    s'.Pending := by
  have hbefore : ∀ dc' id old, s'.handler dc' = .superseding id old →
      s.handler dc' = .superseding id old := by
    intro dc' id old heq
    rw [hhandler] at heq
    by_cases hdc : dc' = dc
    · subst hdc
      rw [Function.update_self] at heq
      exact absurd heq (hphase id old)
    · rwa [Function.update_of_ne hdc] at heq
  refine ⟨fun dc' hd => ?_, fun dc' id old heq => ?_, fun dc₁ dc₂ id₁ id₂ old h₁ h₂ => ?_⟩
  · rw [hdone] at hd
    exact hclosed ▸ h.done dc' hd
  · rw [hdone, hclosed]
    exact h.closing dc' id old (hbefore dc' id (some old) heq)
  · exact h.unique dc₁ dc₂ id₁ id₂ old (hbefore _ _ _ h₁) (hbefore _ _ _ h₂)

/-- A new stream is installed. What it found under its id was not superseded before, so its `done`
is open and no other handler is about to close it. -/
theorem Pending.reserve (h : s.Pending) (hsuperseded : s.shown.Superseded) (dc : Stream)
    (id : Owner) (ts : UInt64) :
    ({ s with table := s.table.install id ts dc }.move dc
      (.superseding id (s.table.byID.lookup id))).Pending := by
  have hmem : ∀ dc' ∈ s.table.closed, dc' ∈ (s.table.install id ts dc).closed :=
    fun dc' hdc' => List.mem_append_left _ hdc'
  have hfresh : ∀ old, s.table.byID.lookup id = some old → old ∉ s.table.closed :=
    fun old hold hbefore => hsuperseded.gone old hbefore id hold
  have hcases : ∀ dc' id' old,
      Function.update s.handler dc (.superseding id (s.table.byID.lookup id)) dc' =
        .superseding id' (some old) →
      dc' = dc ∧ s.table.byID.lookup id = some old ∨
        dc' ≠ dc ∧ s.handler dc' = .superseding id' (some old) := by
    intro dc' id' old heq
    by_cases hdc : dc' = dc
    · subst hdc
      rw [Function.update_self] at heq
      injection heq with _ hold
      exact .inl ⟨rfl, hold⟩
    · rw [Function.update_of_ne hdc] at heq
      exact .inr ⟨hdc, heq⟩
  refine ⟨fun dc' hd => hmem dc' (h.done dc' hd), fun dc' id' old heq => ?_,
    fun dc₁ dc₂ id₁ id₂ old h₁ h₂ => ?_⟩
  · rcases hcases dc' id' old heq with ⟨-, hold⟩ | ⟨-, hold⟩
    · refine ⟨List.mem_append_right _ (Option.mem_toList.mpr hold), ?_⟩
      cases hd : s.done old with
      | false => exact hd
      | true => exact absurd (h.done old hd) (hfresh old hold)
    · obtain ⟨hclosed, hopen⟩ := h.closing dc' id' old hold
      exact ⟨hmem old hclosed, hopen⟩
  · rcases hcases dc₁ id₁ old h₁ with ⟨rfl, hold₁⟩ | ⟨-, hold₁⟩ <;>
      rcases hcases dc₂ id₂ old h₂ with ⟨rfl, hold₂⟩ | ⟨-, hold₂⟩
    · rfl
    · exact absurd (h.closing dc₂ id₂ old hold₂).1 (hfresh old hold₁)
    · exact absurd (h.closing dc₁ id₁ old hold₁).1 (hfresh old hold₂)
    · exact h.unique dc₁ dc₂ id₁ id₂ old hold₁ hold₂

/-- The `done` of a superseded stream is closed; nobody else is about to. -/
theorem Pending.supersede (h : s.Pending) {dc old : Stream} {id : Owner}
    (hphase : s.handler dc = .superseding id (some old)) :
    ({ s with done := Function.update s.done old true }.move dc (.reserved id)).Pending := by
  have hbefore : ∀ dc' id' old',
      Function.update s.handler dc (.reserved id) dc' = .superseding id' (some old') →
      dc' ≠ dc ∧ s.handler dc' = .superseding id' (some old') := by
    intro dc' id' old' heq
    by_cases hdc : dc' = dc
    · subst hdc
      rw [Function.update_self] at heq
      cases heq
    · rw [Function.update_of_ne hdc] at heq
      exact ⟨hdc, heq⟩
  refine ⟨fun dc' hd => ?_, fun dc' id' old' heq => ?_, fun dc₁ dc₂ id₁ id₂ old' h₁ h₂ => ?_⟩
  · by_cases hdc : dc' = old
    · subst hdc
      exact (h.closing dc id dc' hphase).1
    · have hd : Function.update s.done old true dc' = true := hd
      rw [Function.update_of_ne hdc] at hd
      exact h.done dc' hd
  · obtain ⟨hne, hold⟩ := hbefore dc' id' old' heq
    have hold' : old' ≠ old := by
      rintro rfl
      exact hne (h.unique dc' dc id' id old' hold hphase)
    obtain ⟨hclosed, hopen⟩ := h.closing dc' id' old' hold
    exact ⟨hclosed, (Function.update_of_ne hold' ..).trans hopen⟩
  · exact h.unique dc₁ dc₂ id₁ id₂ old' (hbefore _ _ _ h₁).2 (hbefore _ _ _ h₂).2

/-- Every step keeps this. -/
theorem Pending.step (h : s.Pending) (hsuperseded : s.shown.Superseded)
    (htaken : s.Taken event out s') : s'.Pending := by
  cases htaken with
  | reserve hphase hcall => exact h.reserve hsuperseded _ _ _
  | supersede hphase hdone => exact h.supersede hphase
  | remove hphase => exact h.keep rfl rfl (HttpListenOut.remove_closed ..) nofun
  | refuse hphase hcall | doubleClose hphase hdone | teardown hphase hmu =>
    exact h.keep rfl rfl rfl nofun
  | first hphase | wrap hphase | wrapFailed hphase | arm hphase | goLive hphase | join hphase
  | wake hphase | detach hphase => exact h.keep rfl rfl rfl nofun
  | go hevent hout hphase | flush hmu hlive | write hphase => exact ⟨h.done, h.closing, h.unique⟩
  | @unlock t dc flusher ok _ _ hphase hevent hout =>
    cases ok <;> exact ⟨h.done, h.closing, h.unique⟩
  | nilPointer hphase harmed => exact h

/-! ## The steps of the coarser model -/

/-- A move is shown as a move. -/
theorem shown_move (s : HttpServing) (dc : Stream) (phase : ServePhase) :
    (s.move dc phase).shown = s.shown.move dc phase.shown := by
  simp only [shown, HttpServing.move, HttpStreams.move, HttpStreams.mk.injEq, true_and, and_true]
  exact Function.comp_update ServePhase.shown s.handler dc phase

/-- A move inside what `Delivery` shows as one phase. -/
theorem shown_move_same {dc : Stream} {phase : ServePhase}
    (h : phase.shown = (s.handler dc).shown) : (s.move dc phase).shown = s.shown := by
  rw [shown_move, h]
  simp only [HttpStreams.move, shown, Function.update_eq_self]

/-- Each step is one of `Delivery` or changes nothing that is shown there. -/
theorem Taken.shown (hstaged : s.Staged history) (hpending : s.Pending)
    (htaken : s.Taken event out s') :
    s'.shown = s.shown ∨ ∃ event' out', s.shown.step event' = some (s'.shown, out') := by
  have hphase_shown : ∀ {dc phase}, s.handler dc = phase → s.shown.handler dc = phase.shown := by
    rintro dc phase rfl
    rfl
  cases htaken with
  | @refuse dc claimed ts draws hphase id hcall =>
    refine .inr ⟨.get dc claimed ts draws, some (id, false), ?_⟩
    have hcall : s.shown.table.reserve claimed ts dc draws = some (s.table, id, false) := hcall
    simp only [HttpStreams.step, hphase_shown hphase, ServePhase.shown, hcall, shown_move]
    rfl
  | @reserve dc claimed id ts draws hphase hcall =>
    refine .inr ⟨.get dc claimed ts draws, some (id, true), ?_⟩
    have hcall : s.shown.table.reserve claimed ts dc draws =
      some (s.table.install id ts dc, id, true) := hcall
    simp only [HttpStreams.step, hphase_shown hphase, ServePhase.shown, hcall, shown_move]
    rfl
  | first hphase | supersede hphase hdone =>
    exact .inl (shown_move_same (by rw [hphase]; rfl))
  | doubleClose hphase hdone =>
    rw [(hpending.closing _ _ _ hphase).2] at hdone
    cases hdone
  | wrap hphase | arm hphase | join hphase | wake hphase | detach hphase =>
    exact .inl (shown_move_same (by rw [hphase]; rfl))
  | @wrapFailed dc id hphase =>
    refine .inr ⟨.wrap dc false, none, ?_⟩
    simp only [HttpStreams.step, hphase_shown hphase, ServePhase.shown, shown_move]
    rfl
  | @goLive dc id hphase =>
    refine .inr ⟨.wrap dc true, none, ?_⟩
    simp only [HttpStreams.step, hphase_shown hphase, ServePhase.shown, shown_move]
    rfl
  | @teardown dc id hphase hmu =>
    refine .inr ⟨.teardown dc, none, ?_⟩
    simp only [HttpStreams.step, hphase_shown hphase, ServePhase.shown, shown_move]
    rfl
  | @remove dc id hphase =>
    refine .inr ⟨.remove dc, none, ?_⟩
    simp only [HttpStreams.step, hphase_shown hphase, ServePhase.shown, shown_move]
    rfl
  | go hevent hout hphase | flush hmu hlive | write hphase | nilPointer hphase harmed =>
    exact .inl rfl
  | @unlock t dc flusher ok _ _ hphase hevent hout =>
    cases ok with
    | true => exact .inl rfl
    | false =>
      obtain ⟨id, hid⟩ := (hstaged.flushing t dc hphase).2.shown
      have hid : s.shown.handler dc = .serving id := hid
      refine .inr ⟨.writeFailed dc, none, ?_⟩
      simp only [HttpStreams.step, hid]
      rfl

/-- Every state of a run is sound and shown by a run of `Delivery`. -/
theorem Run.sound (h : Run multiple maxPeers s history) :
    s.Staged history ∧ s.Pending ∧
      ∃ history', HttpStreams.Run multiple maxPeers s.shown history' := by
  refine h.invariant (fun s history => s.Staged history ∧ s.Pending ∧
    ∃ history', HttpStreams.Run multiple maxPeers s.shown history') ?_ ?_
  · refine ⟨Staged.new, ⟨?_, ?_, ?_⟩, [], .init⟩
    · simp [new]
    · simp [new]
    · simp [new]
  · rintro s history event s' out ⟨hstaged, hpending, history', hrun⟩ - hstep
    have htaken := taken_of_step hstep
    refine ⟨hstaged.step htaken, hpending.step hrun.superseded htaken, ?_⟩
    rcases htaken.shown hstaged hpending with hsame | ⟨event', out', hstep'⟩
    · exact ⟨history', hsame ▸ hrun⟩
    · exact ⟨_, .step hrun trivial hstep'⟩

/-! ## What a run shows -/

/-- A closed `done` was open before and stays closed. -/
theorem Taken.closes (htaken : s.Taken event out s') :
    (∀ dc, s.done dc = true → s'.done dc = true) ∧
      ∀ dc, out.closes = some dc → s.done dc = false ∧ s'.done dc = true := by
  cases htaken with
  | @supersede dc old id hphase hdone =>
    refine ⟨fun dc' hd => ?_, fun dc' heq => ?_⟩
    · exact (Function.update_apply ..).trans (by simp [hd])
    · obtain rfl : old = dc' := Option.some.inj heq
      exact ⟨hdone, Function.update_self ..⟩
  | go hevent hout hphase =>
    refine ⟨fun _ hd => hd, fun dc' heq => ?_⟩
    rcases hout with rfl | ⟨delivered, rfl⟩ <;> cases heq
  | @unlock t dc flusher ok _ _ hphase hevent hout =>
    refine ⟨fun _ hd => by cases ok <;> exact hd, fun dc' heq => ?_⟩
    rcases hout with rfl | rfl <;> cases heq
  | _ => exact ⟨fun _ hd => hd, nofun⟩

/-- A superseded stream is listed, and stays listed. -/
theorem Taken.supersedes (htaken : s.Taken event out s') :
    (∀ dc ∈ s.table.closed, dc ∈ s'.table.closed) ∧
      ∀ dc, out.supersedes = some dc → dc ∈ s'.table.closed := by
  cases htaken with
  | reserve hphase hcall =>
    exact ⟨fun _ hdc => List.mem_append_left _ hdc,
      fun _ heq => List.mem_append_right _ (Option.mem_toList.mpr heq)⟩
  | @remove dc id hphase =>
    refine ⟨fun dc' hdc' => ?_, nofun⟩
    change dc' ∈ (s.table.remove id dc).closed
    rwa [HttpListenOut.remove_closed]
  | go hevent hout hphase =>
    refine ⟨fun _ hdc => hdc, fun dc heq => ?_⟩
    rcases hout with rfl | ⟨delivered, rfl⟩ <;> cases heq
  | @unlock t dc flusher ok _ _ hphase hevent hout =>
    refine ⟨fun _ hdc => by cases ok <;> exact hdc, fun dc heq => ?_⟩
    rcases hout with rfl | rfl <;> cases heq
  | _ => exact ⟨fun _ hdc => hdc, nofun⟩

/-- Frames are written to live streams. -/
theorem Taken.wrote {dc : Stream} (hstaged : s.Staged history)
    (htaken : s.Taken event (.wrote dc) s') : (s.handler dc).IsLive := by
  generalize hout' : ServeOutcome.wrote dc = out at htaken
  cases htaken with
  | write hphase =>
    obtain rfl := ServeOutcome.wrote.inj hout'
    exact (hstaged.flushing _ _ ⟨_, _, hphase⟩).2
  | unlock hphase hevent hout =>
    rcases hout with rfl | rfl
    · cases hout'
    · obtain rfl := ServeOutcome.wrote.inj hout'
      exact (hstaged.flushing _ _ hphase).2
  | go hevent hout hphase =>
    rcases hout with rfl | ⟨delivered, rfl⟩ <;> cases hout'
  | _ => cases hout'

/-- No step panics. -/
theorem Taken.no_panic (hstaged : s.Staged history) (hpending : s.Pending)
    (htaken : s.Taken event out s') : out ≠ .doubleClose ∧ out ≠ .nilPointer := by
  cases htaken with
  | doubleClose hphase hdone =>
    rw [(hpending.closing _ _ _ hphase).2] at hdone
    cases hdone
  | nilPointer hphase harmed =>
    obtain ⟨-, hlive⟩ := hstaged.flushing _ _ hphase
    rw [hstaged.armed _ (Nat.le_of_succ_le hlive.1) hlive.2] at harmed
    cases harmed
  | go hevent hout hphase =>
    rcases hout with rfl | ⟨delivered, rfl⟩ <;> exact ⟨nofun, nofun⟩
  | unlock hphase hevent hout => rcases hout with rfl | rfl <;> exact ⟨nofun, nofun⟩
  | _ => exact ⟨nofun, nofun⟩

/-- What a history shows if superseding is safe: no `done` was closed twice, no step panicked, and
every frame was written after its stream went live and before its teardown and removal. -/
structure SafeHistory (history : List (ServeEvent × ServeOutcome)) : Prop where
  closedOnce : (history.filterMap fun taken => taken.2.closes).Nodup
  noPanic : ∀ taken ∈ history, taken.2 ≠ .doubleClose ∧ taken.2 ≠ .nilPointer
  written : ∀ event dc earlier, (event, .wrote dc) :: earlier <:+ history →
    .goLive dc ∈ earlier.map Prod.fst ∧ .teardown dc ∉ earlier.map Prod.fst ∧
      .remove dc ∉ earlier.map Prod.fst

/-- What the history shows of `done` channels and superseded streams is in the state. -/
structure Recorded (s : HttpServing) (history : List (ServeEvent × ServeOutcome)) : Prop where
  safe : SafeHistory history
  closes : ∀ taken ∈ history, ∀ dc, taken.2.closes = some dc → s.done dc = true
  supersedes : ∀ taken ∈ history, ∀ dc, taken.2.supersedes = some dc → dc ∈ s.table.closed

/-- Every step is recorded. -/
theorem Recorded.step (h : s.Recorded history) (hstaged : s.Staged history) (hpending : s.Pending)
    (htaken : s.Taken event out s') : s'.Recorded ((event, out) :: history) := by
  obtain ⟨hdone, hcloses⟩ := htaken.closes
  obtain ⟨hclosed, hsupersedes⟩ := htaken.supersedes
  refine ⟨⟨?_, ?_, ?_⟩, ?_, ?_⟩
  · rw [List.filterMap_cons]
    cases hout : out.closes with
    | none => exact h.safe.closedOnce
    | some dc =>
      refine List.nodup_cons.mpr ⟨fun hmem => ?_, h.safe.closedOnce⟩
      obtain ⟨taken, hbefore, heq⟩ := List.mem_filterMap.mp hmem
      have hagain := h.closes taken hbefore dc heq
      rw [(hcloses dc hout).1] at hagain
      cases hagain
  · exact List.forall_mem_cons.mpr ⟨htaken.no_panic hstaged hpending, h.safe.noPanic⟩
  · intro event' dc earlier hsuffix
    rcases List.suffix_cons_iff.mp hsuffix with heq | hbefore
    · obtain ⟨hfirst, rfl⟩ := List.cons.inj heq
      obtain ⟨rfl, rfl⟩ := Prod.mk.inj hfirst
      have hlive := htaken.wrote hstaged
      exact ⟨hstaged.wentLive dc hlive, hstaged.notTorn dc hlive.2,
        hstaged.notRemoved dc (Nat.le_succ_of_le hlive.2)⟩
    · exact h.safe.written event' dc earlier hbefore
  · exact List.forall_mem_cons.mpr ⟨fun dc heq => (hcloses dc heq).2,
      fun taken htaken' dc heq => hdone dc (h.closes taken htaken' dc heq)⟩
  · exact List.forall_mem_cons.mpr ⟨hsupersedes,
      fun taken htaken' dc heq => hclosed dc (h.supersedes taken htaken' dc heq)⟩

/-- So is every run. -/
theorem Run.recorded (h : Run multiple maxPeers s history) : s.Recorded history := by
  induction h with
  | init => exact ⟨⟨.nil, nofun, fun _ _ _ hsuffix => by simp at hsuffix⟩, nofun, nofun⟩
  | step before _ taken ih =>
    obtain ⟨hstaged, hpending, -⟩ := Run.sound before
    exact ih.step hstaged hpending (taken_of_step taken)

/-- Superseding is safe in every interleaving of handlers, `Send`s and flush ticks. Every `done` is
closed at most once and nothing panics; a superseded stream is never installed again, under any id;
the `remove` of a handler leaves every other stream where it is; and a frame is written only after
its stream went live and before its teardown and the return of its handler. -/
theorem supersede_safety (h : Run multiple maxPeers s history) :
    (history.filterMap fun taken => taken.2.closes).Nodup ∧
    (∀ taken ∈ history, taken.2 ≠ .doubleClose ∧ taken.2 ≠ .nilPointer) ∧
    (∀ taken ∈ history, ∀ dc, taken.2.supersedes = some dc →
      ∀ id, s.table.byID.lookup id ≠ some dc) ∧
    (∀ dc s' out, s.step (.remove dc) = some (s', out) → ∀ id dc', dc' ≠ dc →
      s.table.byID.lookup id = some dc' → s'.table.byID.lookup id = some dc') ∧
    ∀ event dc earlier, (event, .wrote dc) :: earlier <:+ history →
      .goLive dc ∈ earlier.map Prod.fst ∧ .teardown dc ∉ earlier.map Prod.fst ∧
        .remove dc ∉ earlier.map Prod.fst := by
  obtain ⟨-, -, history', hrun⟩ := h.sound
  have hrecorded := h.recorded
  refine ⟨hrecorded.safe.closedOnce, hrecorded.safe.noPanic, ?_, ?_, hrecorded.safe.written⟩
  · intro taken htaken dc heq id
    exact hrun.superseded.gone dc (hrecorded.supersedes taken htaken dc heq) id
  · intro dc s' out hstep id dc' hne hid
    cases taken_of_step hstep with
    | remove hphase => exact HttpListenOut.lookup_remove_of_ne hne hid
    | go hevent | unlock hphase hevent => cases hevent
    | nilPointer hphase harmed => exact hid

/-- Three handlers for the one id of single mode. A `Send` holds the first stream while the second
supersedes it, and writes to it before its teardown; the first handler removes nothing. -/
theorem supersede_safety_three_handlers : ∃ s history, Run false 0 s history ∧
    (history.filterMap fun taken => taken.2.closes) = [1, 0] ∧
    s.table.byID.lookup Owner.zero = some 2 ∧
    (history.filterMap fun taken => taken.2.closes).Nodup := by
  have hplay : play step (new false 0) []
      [.get 0 Owner.zero 5 [], .supersede 0, .wrap 0 true, .arm 0, .goLive 0, .join 0,
        .lookup 7 Owner.zero, .check 7, .get 1 Owner.zero 6 [], .supersede 1, .pass 7,
        .flush 7 [[1, 2]], .wake 0 false, .detach 0, .writeFrame 7 true, .endFlush 7 true, .ret 7,
        .teardown 0, .get 2 Owner.zero 7 [], .remove 0, .supersede 2] = some (_, _) := rfl
  have hrun : Run false 0 _ _ := Reached.init.play _ hplay
  exact ⟨_, _, hrun, rfl, rfl, (supersede_safety hrun).1⟩

end HttpServing

end Dualnet.Conn
