import Dualnet.Library.Runs

/-!
# The prefetching reader

`pktbuf/reader.go`: a prefetch goroutine fills batches and passes them to the consumer over
`ready`, which takes them apart in `Next` and passes them back over `spent`. The steps of the two
interleave freely. A view lives in its batch: what the consumer reads is what the batch holds
then. Packets and errors are arbitrary types.

`reader_handoff` is the result: no batch is in two places, the consumer never blocks on `spent`,
and `Next` returns the views of the successful fills, in order and all of them.
-/

namespace Dualnet.Pktbuf

open Library

/-- The two batches of a reader. -/
inductive BatchId where
  | first
  | second
  deriving DecidableEq

/-- What the prefetch goroutine is about to do. -/
inductive Prefetch where
  /-- Not started; the reader holds the batch for it. -/
  | initial (b : BatchId)
  | reset (b : BatchId)
  /-- In `fill`. -/
  | fill (b : BatchId)
  /-- Sending on `ready`. -/
  | offer (b : BatchId)
  /-- Receiving from `spent`. -/
  | take
  /-- Returning, with the batch it still has. -/
  | leave (b : Option BatchId)
  | done (b : Option BatchId)
  deriving DecidableEq

/-- The reader, its goroutine and its consumer. `views` is what the batches hold; `inNext` says
that the consumer is in a call of `Next`. -/
structure Reader (V E : Type) where
  views : BatchId → List V
  prefetch : Prefetch
  ready : List BatchId
  readyClosed : Bool
  spent : List BatchId
  quit : Bool
  err : Option E
  cur : Option BatchId
  idx : Nat
  inNext : Bool

variable {V E : Type}

/-- `NewReader`. -/
def newReader : Reader V E :=
  ⟨fun _ => [], .initial .first, [], false, [.second], false, none, none, 0, false⟩

/-- A step of the goroutine, of the consumer, or of a caller of `Start` or `Close`. -/
inductive Event (V E : Type) where
  | start
  | reset
  /-- `Add`, called by `fill`. -/
  | add (v : V)
  | filled
  | failed (e : E)
  | offer
  | take
  /-- The `quit` case of either `select`. -/
  | stop
  | leave
  | next
  | view
  | recycle
  | receive
  | finish
  | close

/-- What can be seen of a step. -/
inductive Out (V : Type) where
  | nothing
  /-- A fill returned nil, having published these. -/
  | filled (views : List V)
  /-- `Next` returned a packet. -/
  | returned (v : V)
  /-- `Next` returned false. -/
  | finished

namespace Reader

/-- One step; `none` if it is blocked or not the next one of its goroutine. -/
def step (r : Reader V E) : Event V E → Option (Reader V E × Out V)
  | .start =>
    match r.prefetch with
    | .initial b => some ({ r with prefetch := .reset b }, .nothing)
    | _ => none
  | .reset =>
    match r.prefetch with
    | .reset b =>
      some ({ r with views := Function.update r.views b [], prefetch := .fill b }, .nothing)
    | _ => none
  | .add v =>
    match r.prefetch with
    | .fill b =>
      some ({ r with views := Function.update r.views b (r.views b ++ [v]) }, .nothing)
    | _ => none
  | .filled =>
    match r.prefetch with
    | .fill b => some ({ r with prefetch := .offer b }, .filled (r.views b))
    | _ => none
  | .failed e =>
    match r.prefetch with
    | .fill b => some ({ r with prefetch := .leave (some b), err := some e }, .nothing)
    | _ => none
  | .offer =>
    match r.prefetch with
    | .offer b =>
      if r.ready.length < 1 then
        some ({ r with prefetch := .take, ready := r.ready ++ [b] }, .nothing)
      else none
    | _ => none
  | .take =>
    match r.prefetch, r.spent with
    | .take, b :: rest => some ({ r with prefetch := .reset b, spent := rest }, .nothing)
    | _, _ => none
  | .stop =>
    if r.quit then
      match r.prefetch with
      | .offer b => some ({ r with prefetch := .leave (some b) }, .nothing)
      | .take => some ({ r with prefetch := .leave none }, .nothing)
      | _ => none
    else none
  | .leave =>
    match r.prefetch with
    | .leave b => some ({ r with prefetch := .done b, readyClosed := true }, .nothing)
    | _ => none
  | .next => if r.inNext then none else some ({ r with inNext := true }, .nothing)
  | .view =>
    match r.inNext, r.cur with
    | true, some b =>
      match (r.views b).drop r.idx with
      | v :: _ => some ({ r with idx := r.idx + 1, inNext := false }, .returned v)
      | [] => none
    | _, _ => none
  | .recycle =>
    match r.inNext, r.cur with
    | true, some b =>
      if (r.views b).length ≤ r.idx ∧ r.spent.length < 2 then
        some ({ r with spent := r.spent ++ [b], cur := none }, .nothing)
      else none
    | _, _ => none
  | .receive =>
    match r.inNext, r.cur, r.ready with
    | true, none, b :: rest =>
      some ({ r with cur := some b, idx := 0, ready := rest }, .nothing)
    | _, _, _ => none
  | .finish =>
    match r.inNext, r.cur, r.ready with
    | true, none, [] => if r.readyClosed then some ({ r with inNext := false }, .finished) else none
    | _, _, _ => none
  | .close => some ({ r with quit := true }, .nothing)

/-- The steps by what enables them. -/
inductive Move (r : Reader V E) : Event V E → Reader V E → Out V → Prop where
  | start {b} : r.prefetch = .initial b → Move r .start { r with prefetch := .reset b } .nothing
  | reset {b} : r.prefetch = .reset b →
      Move r .reset { r with views := Function.update r.views b [], prefetch := .fill b } .nothing
  | add {b v} : r.prefetch = .fill b →
      Move r (.add v) { r with views := Function.update r.views b (r.views b ++ [v]) } .nothing
  | filled {b} : r.prefetch = .fill b →
      Move r .filled { r with prefetch := .offer b } (.filled (r.views b))
  | failed {b e} : r.prefetch = .fill b →
      Move r (.failed e) { r with prefetch := .leave (some b), err := some e } .nothing
  | offer {b} : r.prefetch = .offer b →
      Move r .offer { r with prefetch := .take, ready := r.ready ++ [b] } .nothing
  | take {b rest} : r.prefetch = .take → r.spent = b :: rest →
      Move r .take { r with prefetch := .reset b, spent := rest } .nothing
  | stopOffer {b} : r.quit = true → r.prefetch = .offer b →
      Move r .stop { r with prefetch := .leave (some b) } .nothing
  | stopTake : r.quit = true → r.prefetch = .take →
      Move r .stop { r with prefetch := .leave none } .nothing
  | leave {b} : r.prefetch = .leave b →
      Move r .leave { r with prefetch := .done b, readyClosed := true } .nothing
  | next : Move r .next { r with inNext := true } .nothing
  | view {b v rest} : r.cur = some b → (r.views b).drop r.idx = v :: rest →
      Move r .view { r with idx := r.idx + 1, inNext := false } (.returned v)
  | recycle {b} : r.cur = some b → (r.views b).length ≤ r.idx →
      Move r .recycle { r with spent := r.spent ++ [b], cur := none } .nothing
  | receive {b rest} : r.cur = none → r.ready = b :: rest →
      Move r .receive { r with cur := some b, idx := 0, ready := rest } .nothing
  | finish : r.cur = none → r.ready = [] → r.readyClosed = true →
      Move r .finish { r with inNext := false } .finished
  | close : Move r .close { r with quit := true } .nothing

/-- Every step is one of these. -/
theorem step_cases {r r' : Reader V E} {event : Event V E} {out : Out V}
    (h : r.step event = some (r', out)) : Move r event r' out := by
  unfold step at h
  cases event with
  | start | reset | add | filled | failed | leave =>
    simp only at h
    split at h
    · obtain ⟨rfl, rfl⟩ := by simpa using h
      constructor
      assumption
    · cases h
  | offer =>
    simp only at h
    split at h
    · rename_i b hprefetch
      split at h
      · obtain ⟨rfl, rfl⟩ := by simpa using h
        exact .offer hprefetch
      · cases h
    · cases h
  | take =>
    simp only at h
    split at h
    · rename_i b rest hprefetch hspent
      obtain ⟨rfl, rfl⟩ := by simpa using h
      exact .take hprefetch hspent
    · cases h
  | stop =>
    simp only at h
    split at h
    · rename_i hquit
      split at h
      · obtain ⟨rfl, rfl⟩ := by simpa using h
        exact .stopOffer hquit ‹_›
      · obtain ⟨rfl, rfl⟩ := by simpa using h
        exact .stopTake hquit ‹_›
      · cases h
    · cases h
  | next =>
    simp only at h
    split at h
    · cases h
    · obtain ⟨rfl, rfl⟩ := by simpa using h
      exact .next
  | view =>
    simp only at h
    split at h
    · rename_i b hnext hcur
      split at h
      · rename_i v rest hviews
        obtain ⟨rfl, rfl⟩ := by simpa using h
        exact .view hcur hviews
      · cases h
    · cases h
  | recycle =>
    simp only at h
    split at h
    · rename_i b hnext hcur
      split at h
      · rename_i hroom
        obtain ⟨rfl, rfl⟩ := by simpa using h
        exact .recycle hcur hroom.1
      · cases h
    · cases h
  | receive =>
    simp only at h
    split at h
    · rename_i b rest hnext hcur hready
      obtain ⟨rfl, rfl⟩ := by simpa using h
      exact .receive hcur hready
    · cases h
  | finish =>
    simp only at h
    split at h
    · rename_i hnext hcur hready
      split at h
      · obtain ⟨rfl, rfl⟩ := by simpa using h
        exact .finish hcur hready ‹_›
      · cases h
    · cases h
  | close =>
    obtain ⟨rfl, rfl⟩ := by simpa using h
    exact .close

/-! ## Where the batches are -/

/-- The batch the goroutine has. -/
def held (r : Reader V E) : List BatchId :=
  match r.prefetch with
  | .initial b | .reset b | .fill b | .offer b => [b]
  | .take => []
  | .leave b | .done b => b.toList

/-- All places a batch can be in. -/
def places (r : Reader V E) : List BatchId := r.held ++ r.ready ++ r.spent ++ r.cur.toList

/-- The two batches are split among the places, no batch in two of them. -/
def Split (r : Reader V E) : Prop := r.places.Perm [.first, .second]

/-- No step loses or doubles a batch. -/
theorem split_step {r r' : Reader V E} {event : Event V E} {out : Out V} (h : r.Split)
    (htaken : r.step event = some (r', out)) : r'.Split := by
  refine List.Perm.trans ?_ h
  rw [List.perm_iff_count]
  intro b'
  unfold places held
  cases step_cases htaken with
  | start hp | reset hp | add hp | filled hp | failed hp | leave hp => simp [hp]
  | stopOffer _ hp | stopTake _ hp => simp [hp]
  | offer hp =>
    simp [hp, List.count_append, List.count_cons]
    omega
  | take hp hspent =>
    simp [hp, hspent, List.count_append, List.count_cons]
    omega
  | recycle hcur hidx => simp [hcur, List.count_append, List.count_cons]
  | receive hcur hready =>
    simp [hcur, hready, List.count_append, List.count_cons]
    omega
  | next | view | finish | close => rfl

namespace Split

variable {r : Reader V E} (h : r.Split)

include h

/-- A batch the goroutine works on is nowhere else. -/
theorem held_alone {b : BatchId} (hb : r.held = [b]) :
    b ∉ r.ready ∧ b ∉ r.spent ∧ r.cur ≠ some b := by
  have hnodup : r.places.Nodup := h.nodup_iff.mpr (by decide)
  rw [places, hb] at hnodup
  simp only [List.cons_append, List.nil_append, List.nodup_cons, List.mem_append,
    Option.mem_toList, not_or] at hnodup
  exact ⟨hnodup.1.1.1, hnodup.1.1.2, hnodup.1.2⟩

/-- A batch of the consumer leaves room on `spent`. -/
theorem spent_room {b : BatchId} (hb : r.cur = some b) : r.spent.length < 2 := by
  have hlength := h.length_eq
  simp only [places, hb, List.length_append, Option.toList_some, List.length_cons,
    List.length_nil] at hlength
  omega

end Split

/-! ## What is delivered -/

/-- The views that are filled and not returned yet, in the order `Next` returns them. -/
def pending (r : Reader V E) : List V :=
  (match r.cur with
    | some b => (r.views b).drop r.idx
    | none => []) ++
  r.ready.flatMap r.views ++
  (match r.prefetch with
    | .offer b => r.views b
    | _ => [])

/-- Changing a batch that only the goroutine has changes nothing that is pending. -/
theorem pending_update {r : Reader V E} {b : BatchId} (hready : b ∉ r.ready)
    (hcur : r.cur ≠ some b) (hp : ∀ b, r.prefetch ≠ .offer b) (views : List V)
    {prefetch : Prefetch} (hp' : ∀ b, prefetch ≠ .offer b) :
    pending { r with views := Function.update r.views b views, prefetch := prefetch } =
      r.pending := by
  have hflat : r.ready.flatMap (Function.update r.views b views) = r.ready.flatMap r.views := by
    refine List.flatMap_congr fun b' hb' => ?_
    rw [Function.update_of_ne]
    rintro rfl
    exact hready hb'
  unfold pending
  simp only [hflat]
  congr 1
  · congr 1
    cases hr : r.cur with
    | none => rfl
    | some b' =>
      have hne : b' ≠ b := by
        rintro rfl
        exact hcur hr
      simp [Function.update_of_ne hne]

end Reader

/-- The steps of a run, latest first. -/
abbrev History (V E : Type) := List (Event V E × Out V)

/-- The views of the fills that returned nil, in order. -/
def filled (history : History V E) : List V :=
  history.reverse.flatMap fun e => match e.2 with
    | .filled views => views
    | _ => []

/-- The packets `Next` returned, in order. -/
def returned (history : History V E) : List V :=
  history.reverse.flatMap fun e => match e.2 with
    | .returned v => [v]
    | _ => []

/-- Without `Close`: the goroutine has left only after a failed fill, and the views returned and
pending are those filled. -/
structure Delivering (r : Reader V E) (history : History V E) : Prop where
  running : r.quit = false
  failed : ∀ b, r.prefetch = .leave b ∨ r.prefetch = .done b → r.err.isSome = true
  closed : r.readyClosed = true ↔ ∃ b, r.prefetch = .done b
  ordered : returned history ++ r.pending = filled history

/-- A step that is seen adds what is seen. -/
theorem filled_cons (e : Event V E × Out V) (history : History V E) :
    filled (e :: history) = filled history ++ match e.2 with
      | .filled views => views
      | _ => [] := by
  simp [filled]

/-- What one more step returns. -/
theorem returned_cons (e : Event V E × Out V) (history : History V E) :
    returned (e :: history) = returned history ++ match e.2 with
      | .returned v => [v]
      | _ => [] := by
  simp [returned]

/-- Every step but `Close` keeps the views in order. -/
theorem delivering_step {r r' : Reader V E} {history : History V E} {event : Event V E}
    {out : Out V} (h : Delivering r history) (hsplit : r.Split) (hclose : event ≠ .close)
    (htaken : r.step event = some (r', out)) : Delivering r' ((event, out) :: history) := by
  have hordered := h.ordered
  have hclosed := h.closed
  cases Reader.step_cases htaken with
  | @start b hp =>
    refine ⟨h.running, by simp, by simpa [hp] using hclosed, ?_⟩
    simpa [filled_cons, returned_cons, Reader.pending, hp] using hordered
  | @reset b hp =>
    obtain ⟨hready, -, hcur⟩ := hsplit.held_alone (b := b) (by simp [Reader.held, hp])
    refine ⟨h.running, by simp, by simpa [hp] using hclosed, ?_⟩
    rw [Reader.pending_update hready hcur (by simp [hp]) [] (by simp)]
    simpa [filled_cons, returned_cons] using hordered
  | @add b v hp =>
    obtain ⟨hready, -, hcur⟩ := hsplit.held_alone (b := b) (by simp [Reader.held, hp])
    refine ⟨h.running, by simp [hp], by simpa [hp] using hclosed, ?_⟩
    have hfill : ∀ b, r.prefetch ≠ .offer b := by simp [hp]
    rw [Reader.pending_update hready hcur hfill (r.views b ++ [v]) hfill]
    simpa [filled_cons, returned_cons] using hordered
  | @filled b hp =>
    refine ⟨h.running, by simp, by simpa [hp] using hclosed, ?_⟩
    rw [filled_cons, returned_cons, ← hordered]
    simp [Reader.pending, hp]
  | @failed b e hp =>
    refine ⟨h.running, by simp, by simpa [hp] using hclosed, ?_⟩
    simpa [filled_cons, returned_cons, Reader.pending, hp] using hordered
  | @offer b hp =>
    refine ⟨h.running, by simp, by simpa [hp] using hclosed, ?_⟩
    simpa [filled_cons, returned_cons, Reader.pending, hp] using hordered
  | @take b rest hp hspent =>
    refine ⟨h.running, by simp, by simpa [hp] using hclosed, ?_⟩
    simpa [filled_cons, returned_cons, Reader.pending, hp] using hordered
  | stopOffer hquit _ | stopTake hquit _ => exact absurd hquit (by simp [h.running])
  | @leave b hp =>
    refine ⟨h.running, fun b' _ => h.failed b (.inl hp), by simp, ?_⟩
    simpa [filled_cons, returned_cons, Reader.pending, hp] using hordered
  | next =>
    refine ⟨h.running, h.failed, hclosed, ?_⟩
    simpa [filled_cons, returned_cons, Reader.pending] using hordered
  | @view b v rest hcur hviews =>
    refine ⟨h.running, h.failed, hclosed, ?_⟩
    have hrest : (r.views b).drop (r.idx + 1) = rest := by
      rw [← List.drop_drop, hviews]
      rfl
    rw [filled_cons, returned_cons, ← hordered]
    simp [Reader.pending, hcur, hviews, hrest]
  | @recycle b hcur hidx =>
    refine ⟨h.running, h.failed, hclosed, ?_⟩
    rw [filled_cons, returned_cons, ← hordered]
    simp [Reader.pending, hcur, List.drop_eq_nil_of_le hidx]
  | @receive b rest hcur hready =>
    refine ⟨h.running, h.failed, hclosed, ?_⟩
    rw [filled_cons, returned_cons, ← hordered]
    simp [Reader.pending, hcur, hready]
  | finish =>
    refine ⟨h.running, h.failed, hclosed, ?_⟩
    simpa [filled_cons, returned_cons, Reader.pending] using hordered
  | close => exact absurd rfl hclose

/-- The runs of a reader. -/
abbrev Run : Reader V E → History V E → Prop :=
  Reached Reader.step (fun _ _ _ => True) newReader

/-- The batches are split in every state. -/
theorem Run.split {r : Reader V E} {history : History V E} (h : Run r history) : r.Split :=
  h.invariant (fun r _ => r.Split) (List.Perm.refl _)
    fun _ _ _ _ _ hsplit _ htaken => Reader.split_step hsplit htaken

/-- The views stay in order in every state of a run without `Close`. -/
theorem Run.delivering {r : Reader V E} {history : History V E} (h : Run r history)
    (hclose : ∀ e ∈ history, e.1 ≠ .close) : Delivering r history := by
  induction h with
  | init => exact ⟨rfl, by simp [newReader], by simp [newReader], by
      simp [newReader, Reader.pending, filled, returned]⟩
  | step before _ htaken ih =>
    rw [List.forall_mem_cons] at hclose
    exact delivering_step (ih hclose.2) (Run.split before) hclose.1 htaken

/-- A consumer in `Next` is never left waiting for nothing: a step of it or of the goroutine is
enabled. -/
theorem next_progress {r : Reader V E} {history : History V E} (hsplit : r.Split)
    (hdelivering : Delivering r history) (hnext : r.inNext = true) :
    ∃ event, event ≠ .close ∧ (r.step event).isSome = true := by
  cases hcur : r.cur with
  | some b =>
    cases hviews : (r.views b).drop r.idx with
    | cons v rest => exact ⟨.view, by simp, by simp [Reader.step, hnext, hcur, hviews]⟩
    | nil =>
      have hidx : (r.views b).length ≤ r.idx := List.drop_eq_nil_iff.mp hviews
      exact ⟨.recycle, by simp,
        by simp [Reader.step, hnext, hcur, hidx, hsplit.spent_room hcur]⟩
  | none =>
    cases hready : r.ready with
    | cons b rest => exact ⟨.receive, by simp, by simp [Reader.step, hnext, hcur, hready]⟩
    | nil =>
      cases hp : r.prefetch with
      | initial b => exact ⟨.start, by simp, by simp [Reader.step, hp]⟩
      | reset b => exact ⟨.reset, by simp, by simp [Reader.step, hp]⟩
      | fill b => exact ⟨.filled, by simp, by simp [Reader.step, hp]⟩
      | offer b => exact ⟨.offer, by simp, by simp [Reader.step, hp, hready]⟩
      | take =>
        -- Both batches have come back.
        have hlength := hsplit.length_eq
        simp only [Reader.places, Reader.held, hp, hready, hcur, List.append_nil,
          List.nil_append, Option.toList_none, List.length_cons, List.length_nil] at hlength
        cases hspent : r.spent with
        | nil => simp [hspent] at hlength
        | cons b rest => exact ⟨.take, by simp, by simp [Reader.step, hp, hspent]⟩
      | leave b => exact ⟨.leave, by simp, by simp [Reader.step, hp]⟩
      | done b =>
        have hclosed := hdelivering.closed.mpr ⟨b, hp⟩
        exact ⟨.finish, by simp,
          by simp [Reader.step, hnext, hcur, hready, hclosed]⟩

/-- In every state of every interleaving: the two batches are split among the goroutine, the
channels and the consumer; a batch that is reset or filled is not the consumer's, and no step
changes the consumer's; the consumer's send on `spent` does not block. Without `Close`, what
`Next` has returned are the views of the fills that returned nil up to the pending ones, in
order, it is never left waiting for nothing, and when it returns false a fill has failed and
nothing is pending. -/
theorem reader_handoff {r : Reader V E} {history : History V E} (h : Run r history) :
    r.Split ∧
    (∀ b, r.prefetch = .reset b ∨ r.prefetch = .fill b → r.cur ≠ some b) ∧
    (∀ b event r' out, r.cur = some b → r.step event = some (r', out) →
      r'.views b = r.views b) ∧
    (∀ b, r.inNext = true → r.cur = some b → (r.views b).length ≤ r.idx →
      (r.step .recycle).isSome = true) ∧
    ((∀ e ∈ history, e.1 ≠ .close) →
      returned history ++ r.pending = filled history ∧
      (r.inNext = true → ∃ event, event ≠ .close ∧ (r.step event).isSome = true) ∧
      ∀ r', r.step .finish = some (r', .finished) →
        returned history = filled history ∧ r.err.isSome = true) := by
  have hsplit := h.split
  have halone : ∀ b, r.prefetch = .reset b ∨ r.prefetch = .fill b → r.cur ≠ some b := by
    intro b hb
    refine (hsplit.held_alone (b := b) ?_).2.2
    rcases hb with hp | hp
    · simp [Reader.held, hp]
    · simp [Reader.held, hp]
  refine ⟨hsplit, halone, ?_, ?_, fun hclose => ⟨?_, ?_, ?_⟩⟩
  · intro b event r' out hcur htaken
    cases Reader.step_cases htaken with
    | @reset b' hp =>
      have hne : b ≠ b' := by
        rintro rfl
        exact halone b (.inl hp) hcur
      simp [Function.update_of_ne hne]
    | @add b' v hp =>
      have hne : b ≠ b' := by
        rintro rfl
        exact halone b (.inr hp) hcur
      simp [Function.update_of_ne hne]
    | _ => rfl
  · intro b hnext hcur hidx
    simp [Reader.step, hnext, hcur, hidx, hsplit.spent_room hcur]
  · exact (h.delivering hclose).ordered
  · exact next_progress hsplit (h.delivering hclose)
  · intro r' hfinish
    have hdelivering := h.delivering hclose
    cases Reader.step_cases hfinish with
    | finish hcur hready hclosed =>
      obtain ⟨b, hp⟩ := hdelivering.closed.mp hclosed
      refine ⟨?_, hdelivering.failed b (.inr hp)⟩
      simpa [Reader.pending, hcur, hready, hp] using hdelivering.ordered

/-- A batch of two packets is filled, handed over and half read while the goroutine has gone on
to the other batch. -/
theorem reader_handoff_overlap : ∃ (r : Reader Nat String) (history : _), Run r history ∧
    r.prefetch = .fill .second ∧ r.cur = some .first ∧ returned history = [7] ∧
      returned history ++ r.pending = filled history := by
  have hrun : Run (V := Nat) (E := String) _ _ :=
    Reached.init.play [.start, .reset, .add 7, .add 8, .filled, .offer, .take, .next, .receive,
      .reset, .view] rfl
  refine ⟨_, _, hrun, rfl, rfl, rfl, ((reader_handoff hrun).2.2.2.2 ?_).1⟩
  simp

end Dualnet.Pktbuf
