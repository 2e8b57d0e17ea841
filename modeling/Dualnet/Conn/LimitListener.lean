import Dualnet.Library.Runs

/-!
# The bound on accepted connections

The `limitListener` of `conn/factory.go` under any number of goroutines that accept and close. A
call of `Accept` takes a slot before it waits for a connection, and gives it back if that fails;
otherwise the connection has the slot until its first `Close`. A `Close` closes the connection
first and then goes through the `sync.Once`; a connection may be closed several times, from its
handler, from its reader and when the context ends.

`limit_listener_slots` is the result: the slots are neither exceeded nor lost.
-/

namespace Dualnet.Conn

open Library

/-- A `limitConn`: whether the connection was closed, the calls of `Close` that are past that and
not through the `Once`, and whether the `Once` has run. -/
structure LimitConn where
  closed : Bool := false
  closing : Nat := 0
  released : Bool := false

/-- A listener with its slots taken, the calls of `Accept` that have one, and the connections it
has accepted so far, numbered in that order. -/
structure LimitListener where
  sem : Nat := 0
  accepting : Nat := 0
  conns : Nat := 0
  conn : Nat → LimitConn := fun _ => {}

/-- A step of a goroutine. -/
inductive ListenerEvent where
  | acquire
  | accepted
  | failed
  | closeConn (k : Nat)
  | once (k : Nat)
  deriving DecidableEq

/-- The connection whose `Close` goes through its `Once`. -/
def ListenerEvent.through? : ListenerEvent → Option Nat
  | .once k => some k
  | _ => none

namespace LimitListener

variable (l : LimitListener)

/-- `<-l.sem`, which waits on an empty channel. -/
def release : Option LimitListener :=
  if 0 < l.sem then some { l with sem := l.sem - 1 } else none

/-- One step; `n` is the capacity of the channel. -/
def step (n : Nat) : ListenerEvent → Option (LimitListener × Unit)
  | .acquire =>
    if l.sem < n then
      some ({ l with sem := l.sem + 1, accepting := l.accepting + 1 }, ())
    else none
  | .accepted =>
    if 0 < l.accepting then
      some ({ l with accepting := l.accepting - 1, conns := l.conns + 1 }, ())
    else none
  | .failed =>
    if 0 < l.accepting then
      ({ l with accepting := l.accepting - 1 }.release).map fun l => (l, ())
    else none
  | .closeConn k =>
    if k < l.conns then
      let c := l.conn k
      some ({ l with
        conn := Function.update l.conn k
          { c with closed := true, closing := c.closing + 1 } }, ())
    else none
  | .once k =>
    let c := l.conn k
    if 0 < c.closing then
      if c.released then
        some ({ l with
          conn := Function.update l.conn k { c with closing := c.closing - 1 } }, ())
      else
        ({ l with
          conn := Function.update l.conn k
            { c with closing := c.closing - 1, released := true } }.release).map fun l => (l, ())
    else none

/-- The runs of a listener with `n` slots. -/
abbrev Run (n : Nat) : LimitListener → List (ListenerEvent × Unit) → Prop :=
  Reached (fun l => l.step n) (fun _ _ _ => True) {}

/-- The connections with a `Close` that has gone through the `Once`. -/
def throughOnce (history : List (ListenerEvent × Unit)) : Finset Nat :=
  (history.filterMap fun taken => taken.1.through?).toFinset

/-- How often an event has been taken. -/
def times (event : ListenerEvent) (history : List (ListenerEvent × Unit)) : Nat :=
  history.count (event, ())

/-- The accepted connections that have not given their slot back. -/
def holding : Finset Nat := (Finset.range l.conns).filter fun k => (l.conn k).released = false

/-- The accepted connections that are open. -/
def openConns : Finset Nat := (Finset.range l.conns).filter fun k => (l.conn k).closed = false

/-- A connection that is closed has given its slot back or is about to; one that was not accepted
yet has not been touched. -/
structure Tidy (accepted : Prop) (c : LimitConn) : Prop where
  released : c.released = true → c.closed = true
  closing : 0 < c.closing → c.closed = true
  closed : c.closed = true → accepted ∧ (c.released = true ∨ 0 < c.closing)

/-- What every step keeps. -/
structure Slots (n : Nat) (l : LimitListener) : Prop where
  count : l.sem = l.accepting + l.holding.card
  bound : l.sem ≤ n
  tidy : ∀ k, Tidy (k < l.conns) (l.conn k)

variable {l} {l' : LimitListener} {n : Nat}

/-- One connection changes. -/
theorem tidy_update (h : ∀ k, Tidy (k < l.conns) (l.conn k)) {k : Nat} {c : LimitConn}
    (hc : Tidy (k < l.conns) c) (j : Nat) : Tidy (j < l.conns) (Function.update l.conn k c j) :=
  (Function.forall_update_iff l.conn (p := fun j c => Tidy (j < l.conns) c)).mpr
    ⟨hc, fun j _ => h j⟩ j

/-- The slots change with the `Once` alone. -/
theorem Slots.update (h : Slots n l) {k : Nat} {c : LimitConn}
    (hreleased : c.released = (l.conn k).released) (hc : Tidy (k < l.conns) c) :
    Slots n { l with conn := Function.update l.conn k c } := by
  have hholding : holding { l with conn := Function.update l.conn k c } = l.holding := by
    refine Finset.filter_congr fun j _ => ?_
    by_cases hj : j = k
    · simp [hj, hreleased]
    · simp [hj]
  exact ⟨h.count.trans (by rw [hholding]), h.bound, tidy_update h.tidy hc⟩

/-- A connection takes over the slot of its `Accept`. -/
theorem Slots.accepted (h : Slots n l) (hpos : 0 < l.accepting) :
    Slots n { l with accepting := l.accepting - 1, conns := l.conns + 1 } := by
  have hnew : (l.conn l.conns).released = false := by
    by_contra hreleased
    have hclosed := (h.tidy l.conns).released (by simpa using hreleased)
    exact absurd ((h.tidy l.conns).closed hclosed).1 (Nat.lt_irrefl _)
  have hholding : holding { l with accepting := l.accepting - 1, conns := l.conns + 1 } =
      insert l.conns l.holding := by
    simp [holding, Finset.range_add_one, Finset.filter_insert, hnew]
  refine ⟨?_, h.bound, fun k => ⟨(h.tidy k).released, (h.tidy k).closing, fun hclosed => ?_⟩⟩
  · rw [hholding, Finset.card_insert_of_notMem (by simp [holding])]
    have := h.count
    simp only
    omega
  · exact ((h.tidy k).closed hclosed).imp_left Nat.lt_succ_of_lt

/-- A `Close` that goes through the `Once` of a connection that has its slot gives it back. -/
theorem Slots.release (h : Slots n l) {k : Nat} (hk : 0 < (l.conn k).closing)
    (hreleased : (l.conn k).released = false) :
    0 < l.sem ∧ Slots n { l with
      sem := l.sem - 1
      conn := Function.update l.conn k
        { l.conn k with closing := (l.conn k).closing - 1, released := true } } := by
  have hclosed := (h.tidy k).closing hk
  have hconn := ((h.tidy k).closed hclosed).1
  have hmem : k ∈ l.holding := by simp [holding, hconn, hreleased]
  have hpos : 0 < l.holding.card := Finset.card_pos.mpr ⟨k, hmem⟩
  have hholding : holding { l with
      sem := l.sem - 1
      conn := Function.update l.conn k
        { l.conn k with closing := (l.conn k).closing - 1, released := true } } =
      l.holding.erase k := by
    ext j
    by_cases hj : j = k
    · simp [holding, hj]
    · simp [holding, hj]
  have hcount := h.count
  refine ⟨by omega, ⟨?_, Nat.le_trans (Nat.sub_le _ _) h.bound, tidy_update h.tidy ?_⟩⟩
  · rw [hholding, Finset.card_erase_of_mem hmem]
    simp only
    omega
  · exact ⟨fun _ => hclosed, fun _ => hclosed, fun _ => ⟨hconn, .inl rfl⟩⟩

/-- What each step needs and what it leaves; of the calls of `Close` through a `Once`, `first`
runs it and the others do not. -/
inductive Moves (n : Nat) (l : LimitListener) : ListenerEvent → LimitListener → Prop where
  | acquire : l.sem < n →
      Moves n l .acquire { l with sem := l.sem + 1, accepting := l.accepting + 1 }
  | accepted : 0 < l.accepting →
      Moves n l .accepted { l with accepting := l.accepting - 1, conns := l.conns + 1 }
  | failed : 0 < l.accepting → 0 < l.sem →
      Moves n l .failed { l with sem := l.sem - 1, accepting := l.accepting - 1 }
  | closeConn {k} : k < l.conns →
      Moves n l (.closeConn k) { l with
        conn := Function.update l.conn k
          { l.conn k with closed := true, closing := (l.conn k).closing + 1 } }
  | again {k} : 0 < (l.conn k).closing → (l.conn k).released = true →
      Moves n l (.once k) { l with
        conn := Function.update l.conn k { l.conn k with closing := (l.conn k).closing - 1 } }
  | first {k} : 0 < (l.conn k).closing → (l.conn k).released = false → 0 < l.sem →
      Moves n l (.once k) { l with
        sem := l.sem - 1
        conn := Function.update l.conn k
          { l.conn k with closing := (l.conn k).closing - 1, released := true } }

/-- Inversion of `step`. -/
theorem step_cases {event : ListenerEvent} {out : Unit}
    (htaken : l.step n event = some (l', out)) : Moves n l event l' := by
  cases event with
  | acquire | accepted | closeConn k =>
    obtain ⟨hcan, htaken⟩ := Option.ite_none_right_eq_some.mp htaken
    obtain ⟨rfl, -⟩ := pair_inj htaken
    constructor
    exact hcan
  | failed =>
    obtain ⟨hpos, htaken⟩ := Option.ite_none_right_eq_some.mp htaken
    obtain ⟨l₁, hrelease, heq⟩ := Option.map_eq_some_iff.mp htaken
    obtain ⟨rfl, -⟩ := Prod.mk.inj heq
    obtain ⟨hsem, hrelease⟩ := Option.ite_none_right_eq_some.mp hrelease
    obtain rfl := Option.some.inj hrelease
    exact .failed hpos hsem
  | once k =>
    obtain ⟨hk, htaken⟩ := Option.ite_none_right_eq_some.mp htaken
    split at htaken
    · next hreleased =>
        obtain ⟨rfl, -⟩ := pair_inj htaken
        exact .again hk hreleased
    · next hreleased =>
        obtain ⟨l₁, hrelease, heq⟩ := Option.map_eq_some_iff.mp htaken
        obtain ⟨rfl, -⟩ := Prod.mk.inj heq
        obtain ⟨hsem, hrelease⟩ := Option.ite_none_right_eq_some.mp hrelease
        obtain rfl := Option.some.inj hrelease
        exact .first hk (by simpa using hreleased) hsem

/-- Every step keeps the slots. -/
theorem Slots.step (h : Slots n l) {event : ListenerEvent} (hmoves : Moves n l event l') :
    Slots n l' := by
  have hcount := h.count
  cases hmoves with
  | acquire hroom =>
    refine ⟨?_, hroom, h.tidy⟩
    show l.sem + 1 = l.accepting + 1 + l.holding.card
    omega
  | accepted hpos => exact h.accepted hpos
  | failed hpos hsem =>
    refine ⟨?_, Nat.le_trans (Nat.sub_le _ _) h.bound, h.tidy⟩
    show l.sem - 1 = l.accepting - 1 + l.holding.card
    omega
  | closeConn hk =>
    exact h.update rfl ⟨fun _ => rfl, fun _ => rfl, fun _ => ⟨hk, .inr (Nat.succ_pos _)⟩⟩
  | @again k hk hreleased =>
    have hclosed := (h.tidy k).closing hk
    exact h.update rfl ⟨fun _ => hclosed, fun _ => hclosed,
      fun _ => ⟨((h.tidy k).closed hclosed).1, .inl hreleased⟩⟩
  | first hk hreleased => exact (h.release hk hreleased).2

/-- The slots taken so far are the ones taken now, those of the calls of `Accept` that failed, and
one for each connection that has run its `Once`. -/
structure Balanced (l : LimitListener) (history : List (ListenerEvent × Unit)) : Prop where
  once : ∀ k, (l.conn k).released = true ↔ k ∈ throughOnce history
  balance : times .acquire history =
    l.sem + times .failed history + (throughOnce history).card

/-- Other steps give back no slot. -/
theorem throughOnce_other {event : ListenerEvent} (hevent : event.through? = none) (out : Unit)
    (history : List (ListenerEvent × Unit)) :
    throughOnce ((event, out) :: history) = throughOnce history := by
  simp [throughOnce, hevent]

/-- A `Close` that is through. -/
theorem throughOnce_once (k : Nat) (out : Unit) (history : List (ListenerEvent × Unit)) :
    throughOnce ((.once k, out) :: history) = insert k (throughOnce history) := by
  simp [throughOnce, ListenerEvent.through?]

/-- One more step. -/
theorem times_cons (event taken : ListenerEvent) (out : Unit)
    (history : List (ListenerEvent × Unit)) :
    times event ((taken, out) :: history) =
      times event history + if taken = event then 1 else 0 := by
  simp [times, List.count_cons]

/-- A connection changes, but not whether its slot was given back. -/
theorem released_update {given : Finset Nat} (h : ∀ k, (l.conn k).released = true ↔ k ∈ given)
    {k : Nat} {c : LimitConn} (hc : c.released = (l.conn k).released) (j : Nat) :
    (Function.update l.conn k c j).released = true ↔ j ∈ given := by
  by_cases hj : j = k
  · rw [hj, Function.update_self, hc, h]
  · rw [Function.update_of_ne hj, h]

/-- Every step keeps the balance: of the calls of `Close`, the first one through the `Once` gives
the slot back, and the others give nothing. -/
theorem Balanced.step {history : List (ListenerEvent × Unit)} (h : Balanced l history)
    {event : ListenerEvent} (hmoves : Moves n l event l') (out : Unit) :
    Balanced l' ((event, out) :: history) := by
  obtain ⟨honce, hbalance⟩ := h
  cases hmoves with
  | acquire =>
    refine ⟨by rwa [throughOnce_other rfl], ?_⟩
    rw [throughOnce_other rfl, times_cons, times_cons, if_pos rfl, if_neg (by simp), hbalance]
    simp only
    omega
  | accepted =>
    refine ⟨by rwa [throughOnce_other rfl], ?_⟩
    rwa [throughOnce_other rfl, times_cons, times_cons, if_neg (by simp), if_neg (by simp)]
  | failed hpos hsem =>
    refine ⟨by rwa [throughOnce_other rfl], ?_⟩
    rw [throughOnce_other rfl, times_cons, times_cons, if_pos rfl, if_neg (by simp), hbalance]
    simp only
    omega
  | closeConn =>
    refine ⟨fun j => ?_, ?_⟩
    · rw [throughOnce_other rfl]
      exact released_update honce (by rfl) j
    · rwa [throughOnce_other rfl, times_cons, times_cons, if_neg (by simp), if_neg (by simp)]
  | @again k hk hreleased =>
    have hinsert := Finset.insert_eq_of_mem ((honce k).mp hreleased)
    refine ⟨fun j => ?_, ?_⟩
    · rw [throughOnce_once, hinsert]
      exact released_update honce (by rfl) j
    · rwa [throughOnce_once, hinsert, times_cons, times_cons, if_neg (by simp), if_neg (by simp)]
  | @first k hk hreleased hsem =>
    have hnew : k ∉ throughOnce history := by simp [← honce k, hreleased]
    refine ⟨fun j => ?_, ?_⟩
    · rw [throughOnce_once, Finset.mem_insert, ← honce j]
      by_cases hj : j = k
      · simp [hj]
      · simp [hj]
    · rw [throughOnce_once, Finset.card_insert_of_notMem hnew, times_cons, times_cons,
        if_neg (by simp), if_neg (by simp), hbalance]
      simp only
      omega

/-- Every run is balanced. -/
theorem Run.balanced {history : List (ListenerEvent × Unit)} (h : Run n l history) :
    Balanced l history := by
  refine h.invariant Balanced ⟨?_, ?_⟩ ?_
  · simp [throughOnce]
  · simp [times, throughOnce]
  · intro l history event l' out hl _ htaken
    exact hl.step (step_cases htaken) out

/-- Every run keeps its slots. -/
theorem Run.slots {history : List (ListenerEvent × Unit)} (h : Run n l history) : Slots n l := by
  refine h.invariant (fun l _ => Slots n l) ?_ ?_
  · refine ⟨?_, Nat.zero_le n, fun k => ⟨?_, ?_, ?_⟩⟩ <;> simp [holding]
  · intro l history event l' out hl _ htaken
    exact hl.step (step_cases htaken)

/-- In every run at most `n` connections are open or being accepted. A slot is taken exactly for
each call of `Accept` that has one and each connection whose slot is not given back, which is one
whose `Close` has not been called or is not through; so `Accept` waits only if there are `n` of
them. Of the slots ever taken, each failed `Accept` and each connection with a `Close` that is
through has given back one, however often the connection was closed. Giving a slot back never
waits. -/
theorem limit_listener_slots {history : List (ListenerEvent × Unit)} (h : Run n l history) :
    l.accepting + l.openConns.card ≤ n ∧
    l.sem = l.accepting + l.holding.card ∧
    times .acquire history =
      l.sem + times .failed history + (throughOnce history).card ∧
    ((l.step n .acquire).isSome ↔ l.accepting + l.holding.card < n) ∧
    (∀ k ∈ l.holding, (l.conn k).closed = false ∨ 0 < (l.conn k).closing) ∧
    (0 < l.accepting → (l.step n .failed).isSome) ∧
    (∀ k, 0 < (l.conn k).closing → (l.step n (.once k)).isSome) := by
  have hl := h.slots
  have hcount := hl.count
  refine ⟨?_, hcount, h.balanced.balance, ?_, fun k hk => ?_, fun hpos => ?_, fun k hk => ?_⟩
  · have hsub : l.openConns ⊆ l.holding := by
      refine Finset.monotone_filter_right _ fun k _ hopen => ?_
      by_contra hreleased
      rw [(hl.tidy k).released (by simpa using hreleased)] at hopen
      cases hopen
    have hle := Finset.card_le_card hsub
    have hbound := hl.bound
    omega
  · rw [← hcount]
    simp [LimitListener.step]
  · obtain ⟨-, hreleased⟩ := Finset.mem_filter.mp hk
    cases hclosed : (l.conn k).closed with
    | false => exact .inl rfl
    | true => exact .inr (((hl.tidy k).closed hclosed).2.resolve_left (by simp [hreleased]))
  · have hsem : 0 < l.sem := by omega
    simp [LimitListener.step, LimitListener.release, hpos, hsem]
  · cases hreleased : (l.conn k).released with
    | true => simp [LimitListener.step, hk, hreleased]
    | false =>
      have hsem := (hl.release hk hreleased).1
      simp [LimitListener.step, LimitListener.release, hk, hreleased, hsem]

/-- With one slot, a connection that was closed twice makes room for exactly one other. -/
theorem limit_listener_slots_twice :
    ∃ l history, Run 1 l history ∧ times (.once 0) history = 2 ∧ l.conns = 2 ∧
      l.holding.card = 1 ∧ times .acquire history = 2 ∧
      times .acquire history = l.sem + times .failed history + (throughOnce history).card := by
  have hrun : Run 1 _ _ := Reached.init.play
    [.acquire, .accepted, .closeConn 0, .closeConn 0, .once 0, .acquire, .once 0, .accepted] rfl
  exact ⟨_, _, hrun, rfl, rfl, rfl, rfl, (limit_listener_slots hrun).2.2.1⟩

end LimitListener

end Dualnet.Conn
