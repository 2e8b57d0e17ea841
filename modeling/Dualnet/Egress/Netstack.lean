import Dualnet.Egress.Flow
import Dualnet.Library.Runs

/-!
# The flows of the userspace egress

`acquire` and `release` of `egress/netstack.go` and all flows of a `Netstack` together. The channel
`flows` is a counting semaphore; a request that finds no room is refused. The steps of all flows
interleave in any order, and what happened to one of them is its `trace`.

`flows_bounded_and_returned` is the result.
-/

namespace Dualnet.Egress

open Library

/-- `maxFlows`. -/
def maxFlows : Nat := 512

/-- A `Netstack`: the tokens in the channel `flows`, the flow requests so far, and the destinations
its dialer was called with. -/
structure Netstack where
  tokens : Nat
  flows : List Flow
  calls : List AddrPort

/-- A step of one flow. -/
inductive FlowEvent where
  | acquire
  | dial
  | run (event : LocalEvent)
  | release

/-- A request from the forwarder, or a step of the flow of an earlier request. -/
inductive Event where
  | request (proto : Proto) (a : List UInt8) (port : UInt16)
  | flow (i : Nat) (event : FlowEvent)

namespace Netstack

/-- `NewNetstack`. -/
def new : Netstack := ⟨0, [], []⟩

variable (n : Netstack)

/-- `acquire`. -/
def acquire : Netstack × Bool :=
  if n.tokens < maxFlows then ({ n with tokens := n.tokens + 1 }, true) else (n, false)

/-- `release`: receiving from an empty channel would block. -/
def release : Option Netstack :=
  if n.tokens = 0 then none else some { n with tokens := n.tokens - 1 }

/-- Update a flow. -/
def set (i : Nat) (f : Flow) : Netstack := { n with flows := n.flows.set i f }

/-- What a flow request starts. -/
def request : Proto → List UInt8 → UInt16 → Flow
  | .tcp => handleTCP
  | .udp => handleUDP

/-- A step of a flow: the flow and the state afterwards, with the flow not yet put back. -/
def flowStep (f : Flow) : FlowEvent → Option (Netstack × Flow × Outcome)
  | .acquire =>
    match f.phase with
    | .admitting dst =>
      let (n, ok) := n.acquire
      some (n, f.go (if ok then .spawned dst else f.proto.refuse), .acquired ok)
    | _ => none
  | .dial =>
    match f.phase with
    | .spawned dst => some ({ n with calls := dst :: n.calls }, f.go (.dialing dst), .quiet)
    | _ => none
  | .run event => (f.step event).map fun (f, out) => (n, f, out)
  | .release =>
    match f.phase with
    | .releasing => n.release.map fun n => (n, f.go .ended, .quiet)
    | _ => none

/-- One step; `none` if it cannot be taken. -/
def step : Event → Option (Netstack × Outcome)
  | .request proto a port =>
    some ({ n with flows := n.flows ++ [request proto a port] }, .quiet)
  | .flow i event =>
    n.flows[i]?.bind fun f =>
      (n.flowStep f event).map fun (n, f, out) => (n.set i f, out)

/-- The runs, in any interleaving of the flows. -/
abbrev Run : Netstack → List (Event × Outcome) → Prop :=
  Reached step (fun _ _ _ => True) new

end Netstack

/-! ## Tokens and dialed destinations -/

namespace Netstack

/-- How many flows are live: admitted, with their token not yet returned. -/
def live (n : Netstack) : Nat := n.flows.countP fun f => f.phase.holds

/-- Each live flow has one token; all flows are sound; only allowed destinations were dialed. -/
structure Sound (n : Netstack) : Prop where
  tokens : n.tokens = n.live
  bound : n.tokens ≤ maxFlows
  flows : ∀ f ∈ n.flows, f.Sound
  calls : ∀ dst ∈ n.calls, Allowed dst.addr

variable {n n' : Netstack} {i : Nat} {f f' : Flow} {event : FlowEvent} {out : Outcome}

/-- Everything a step of a flow can be. -/
inductive Taken (n : Netstack) (f : Flow) : FlowEvent → Netstack → Flow → Outcome → Prop where
  | enter {dst : AddrPort} (hphase : f.phase = .admitting dst) (hroom : n.tokens < maxFlows) :
      Taken n f .acquire { n with tokens := n.tokens + 1 } (f.go (.spawned dst)) (.acquired true)
  | refuse {dst : AddrPort} (hphase : f.phase = .admitting dst) :
      Taken n f .acquire n (f.go f.proto.refuse) (.acquired false)
  | dial {dst : AddrPort} (hphase : f.phase = .spawned dst) :
      Taken n f .dial { n with calls := dst :: n.calls } (f.go (.dialing dst)) .quiet
  | run {event : LocalEvent} {f' : Flow} {out : Outcome} (htaken : f.step event = some (f', out)) :
      Taken n f (.run event) n f' out
  | release (hphase : f.phase = .releasing) :
      Taken n f .release { n with tokens := n.tokens - 1 } (f.go .ended) .quiet

/-- Inversion of `flowStep`. -/
theorem taken_of_flowStep (h : n.flowStep f event = some (n', f', out)) :
    Taken n f event n' f' out := by
  cases event with
  | acquire =>
    simp only [flowStep, acquire] at h
    split at h
    · rename_i dst hphase
      split at h
      · rename_i hroom
        obtain ⟨rfl, rfl, rfl⟩ := by simpa using h
        exact .enter hphase hroom
      · obtain ⟨rfl, rfl, rfl⟩ := by simpa using h
        exact .refuse hphase
    · cases h
  | dial =>
    simp only [flowStep] at h
    split at h
    · rename_i dst hphase
      obtain ⟨rfl, rfl, rfl⟩ := by simpa using h
      exact .dial hphase
    · cases h
  | run event =>
    obtain ⟨⟨f₁, out₁⟩, htaken, heq⟩ := Option.map_eq_some_iff.mp h
    obtain ⟨rfl, rfl, rfl⟩ := by simpa using heq
    exact .run htaken
  | release =>
    simp only [flowStep, release] at h
    split at h
    · rename_i hphase
      split at h
      · cases h
      · obtain ⟨rfl, rfl, rfl⟩ := by simpa using h
        exact .release hphase
    · cases h

/-- A step of a flow keeps it sound, accounts for the token it takes or returns and dials no
destination but its own. -/
theorem Taken.sound (htaken : Taken n f event n' f' out) (h : f.Sound) :
    f'.Sound ∧ n'.flows = n.flows ∧
      (f.phase.holds.toNat ≤ n.tokens →
        n'.tokens + f.phase.holds.toNat = n.tokens + f'.phase.holds.toNat) ∧
      (n.tokens ≤ maxFlows → n'.tokens ≤ maxFlows) ∧
      (∀ dst ∈ n'.calls, dst ∈ n.calls ∨ Allowed dst.addr) ∧ out ≠ .panicked := by
  have hconns := h.conns
  cases htaken with
  | @enter dst hphase hroom =>
    rw [hphase] at hconns ⊢
    refine ⟨h.move ?_ nofun hconns (.inr ?_) nofun, rfl, fun _ => rfl, fun _ => hroom,
      fun _ hdst => .inl hdst, nofun⟩ <;> rw [hphase] <;> rfl
  | @refuse dst hphase =>
    rw [hphase] at hconns ⊢
    refine ⟨h.move ?_ ?_ ?_ (.inl ?_) ?_, rfl, fun _ => ?_, id, fun _ hdst => .inl hdst, nofun⟩
    · rw [hphase]
      cases f.proto <;> rfl
    · cases f.proto with
      | tcp => exact fun _ => rfl
      | udp => nofun
    · cases f.proto <;> exact hconns
    · cases f.proto <;> rfl
    · cases f.proto <;> nofun
    · change n.tokens + 0 = n.tokens + f.proto.refuse.holds.toNat
      cases f.proto <;> rfl
  | @dial dst hphase =>
    rw [hphase] at hconns ⊢
    refine ⟨h.move ?_ nofun hconns (.inl rfl) nofun, rfl, fun _ => rfl, id, fun dst' hdst => ?_,
      nofun⟩
    · rw [hphase]; rfl
    · rcases List.mem_cons.mp hdst with rfl | hdst
      · exact .inr (h.target dst' (by rw [hphase]; rfl))
      · exact .inl hdst
  | run htaken =>
    obtain ⟨hsound, hholds, hout⟩ := (Flow.taken_of_step htaken).sound h
    exact ⟨hsound, rfl, fun _ => by rw [hholds], id, fun _ hdst => .inl hdst, hout⟩
  | release hphase =>
    rw [hphase] at hconns ⊢
    refine ⟨h.move ?_ nofun hconns (.inl rfl) nofun, rfl, fun htoken => ?_, fun hle => ?_,
      fun _ hdst => .inl hdst, nofun⟩
    · rw [hphase]; rfl
    · exact Nat.sub_add_cancel htoken
    · exact (Nat.sub_le ..).trans hle

/-- Replacing one flow changes the number of live flows by that flow only. -/
theorem live_set (hf : n.flows[i]? = some f) (f' : Flow) :
    (n.set i f').live + f.phase.holds.toNat = n.live + f'.phase.holds.toNat := by
  obtain ⟨hi, rfl⟩ := List.getElem?_eq_some_iff.mp hf
  have hpos : (n.flows[i]).phase.holds = true → 0 < n.flows.countP fun f => f.phase.holds :=
    fun hholds => List.countP_pos_iff.mpr ⟨_, List.getElem_mem hi, hholds⟩
  change (n.flows.set i f').countP _ + _ = _
  rw [List.countP_set hi, live]
  cases hbefore : (n.flows[i]).phase.holds with
  | false => cases f'.phase.holds <;> rfl
  | true =>
    have hone := hpos hbefore
    cases f'.phase.holds
    · exact Nat.sub_add_cancel hone
    · exact congrArg (· + 1) (Nat.sub_add_cancel hone)

/-- A fresh stack is sound. -/
theorem Sound.new : new.Sound := ⟨rfl, Nat.zero_le _, nofun, nofun⟩

/-- Inversion of a step of a flow. -/
theorem taken_of_step (h : n.step (.flow i event) = some (n', out)) :
    ∃ f f' n₁, n.flows[i]? = some f ∧ Taken n f event n₁ f' out ∧ n' = n₁.set i f' := by
  obtain ⟨f, hf, h⟩ := Option.bind_eq_some_iff.mp h
  obtain ⟨⟨n₁, f', out'⟩, hstep, heq⟩ := Option.map_eq_some_iff.mp h
  obtain ⟨rfl, rfl⟩ := Prod.mk.inj heq
  exact ⟨f, f', n₁, hf, taken_of_flowStep hstep, rfl⟩

/-- The token of a flow is one of those taken. -/
theorem Sound.holds_le (h : n.Sound) (hf : n.flows[i]? = some f) :
    f.phase.holds.toNat ≤ n.tokens := by
  cases hholds : f.phase.holds with
  | false => exact Nat.zero_le _
  | true =>
    rw [h.tokens]
    exact List.countP_pos_iff.mpr ⟨f, List.mem_of_getElem? hf, hholds⟩

/-- Every step keeps this and does not panic. -/
theorem Sound.step {event : Event} (h : n.Sound) (htaken : n.step event = some (n', out)) :
    n'.Sound ∧ out ≠ .panicked := by
  cases event with
  | request proto a port =>
    obtain ⟨rfl, rfl⟩ := pair_inj htaken
    obtain ⟨hsound, hholds⟩ : (request proto a port).Sound ∧
        (request proto a port).phase.holds = false := by
      cases proto <;> exact Flow.Sound.handle _ a port
    refine ⟨⟨?_, h.bound, ?_, h.calls⟩, nofun⟩
    · change n.tokens = (n.flows ++ [request proto a port]).countP _
      rw [List.countP_append, List.countP_singleton, hholds]
      exact h.tokens
    · intro f hf
      rcases List.mem_append.mp hf with hf | hf
      · exact h.flows f hf
      · obtain rfl := List.mem_singleton.mp hf
        exact hsound
  | flow i event =>
    obtain ⟨f, f', n₁, hf, hflow, rfl⟩ := taken_of_step htaken
    obtain ⟨hsound, hflows, htokens, hbound, hcalls, hout⟩ :=
      hflow.sound (h.flows f (List.mem_of_getElem? hf))
    refine ⟨⟨?_, hbound h.bound, ?_, ?_⟩, hout⟩
    · have hlive := live_set (n := n₁) (hflows ▸ hf) f'
      have hsame : n₁.live = n.live := by rw [live, hflows, live]
      have htokens := htokens (h.holds_le hf)
      have hbefore := h.tokens
      change n₁.tokens = (n₁.set i f').live
      omega
    · intro g hg
      rcases List.mem_or_eq_of_mem_set hg with hg | rfl
      · exact h.flows g (hflows ▸ hg)
      · exact hsound
    · intro dst hdst
      rcases hcalls dst hdst with hdst | hallowed
      · exact h.calls dst hdst
      · exact hallowed

end Netstack

/-! ## What happened to one flow -/

/-- The steps of one flow, latest first. -/
def trace (i : Nat) (history : List (Event × Outcome)) : List (FlowEvent × Outcome) :=
  history.filterMap fun taken =>
    match taken with
    | (.flow j event, out) => if j = i then some (event, out) else none
    | (.request .., _) => none

/-- A request is no step of a flow. -/
@[simp] theorem trace_request (i : Nat) (proto : Proto) (a : List UInt8) (port : UInt16)
    (out : Outcome) (history : List (Event × Outcome)) :
    trace i ((.request proto a port, out) :: history) = trace i history := rfl

/-- A step of the flow. -/
@[simp] theorem trace_self (i : Nat) (event : FlowEvent) (out : Outcome)
    (history : List (Event × Outcome)) :
    trace i ((.flow i event, out) :: history) = (event, out) :: trace i history := by
  simp [trace]

/-- A step of another flow. -/
theorem trace_other {i j : Nat} (h : j ≠ i) (event : FlowEvent) (out : Outcome)
    (history : List (Event × Outcome)) :
    trace i ((.flow j event, out) :: history) = trace i history := by
  simp [trace, h]

/-- `acquire` answered true. -/
def isAdmission : FlowEvent × Outcome → Bool
  | (.acquire, .acquired true) => true
  | _ => false

/-- `release` took a token out. -/
def isReturn : FlowEvent × Outcome → Bool
  | (.release, _) => true
  | _ => false

/-- `Complete` was called. -/
def isCompletion : FlowEvent × Outcome → Bool
  | (.run .complete, _) => true
  | _ => false

/-- The dialer returned a connection. -/
def isConnection : FlowEvent × Outcome → Bool
  | (.run (.dialed true), _) => true
  | _ => false

namespace Flow

/-- The phase and the fields of a flow agree with its steps. -/
structure Recorded (f : Flow) (trace : List (FlowEvent × Outcome)) : Prop where
  admissions : trace.countP isAdmission = f.phase.holds.toNat + f.phase.returned.toNat
  returns : trace.countP isReturn = f.phase.returned.toNat
  completions : trace.countP isCompletion = f.completed.length
  connections : ∀ taken ∈ trace, isConnection taken = true → f.out ≠ .absent

variable {f f' : Flow} {out : Outcome}

/-- A new flow has taken no step. -/
theorem Recorded.handle (proto : Proto) (a : List UInt8) (port : UInt16) :
    (handle proto a port).Recorded [] := by
  have hrefuse : (⟨proto, proto.refuse, [], .absent, .absent⟩ : Flow).Recorded [] := by
    cases proto <;> exact ⟨rfl, rfl, rfl, nofun⟩
  unfold Egress.handle
  dsimp only
  split
  · exact hrefuse
  · split
    · exact hrefuse
    · exact ⟨rfl, rfl, rfl, nofun⟩

/-- A flow that fails has not returned its token. -/
@[simp] theorem returned_fail (proto : Proto) : proto.fail.returned = false := by
  cases proto <;> rfl

/-- Nor has one that is served. -/
@[simp] theorem returned_serve (proto : Proto) : proto.serve.returned = false := by
  cases proto <;> rfl

/-- What a step of a flow's goroutines does to the fields the record speaks of. -/
theorem Taken.fields {event : LocalEvent} (htaken : f.Taken event f' out) :
    f.phase.returned = false ∧ f'.phase.returned = false ∧
      f'.completed.length = f.completed.length + (isCompletion (.run event, out)).toNat ∧
      (isConnection (.run event, out) = true ∨ f.out ≠ .absent → f'.out ≠ .absent) := by
  cases htaken with
  | refuse hphase | reset hphase | accept hphase | endpointFailed hphase | pipe hphase hp
  | send hphase hpipe | receive hphase hdone hmain | drain hphase hmain | closeA hphase hmain =>
    exact ⟨by rw [hphase]; rfl, rfl, rfl, fun hout => hout.resolve_left nofun⟩
  | dialed hphase | closeB hphase hmain => exact ⟨by rw [hphase]; rfl, rfl, rfl, fun _ => nofun⟩
  | dialFailed hphase =>
    exact ⟨by rw [hphase]; rfl, returned_fail _, rfl, fun hout => hout.resolve_left nofun⟩
  | endpoint hphase =>
    exact ⟨by rw [hphase]; rfl, returned_serve _, rfl, fun hout => hout.resolve_left nofun⟩
  | closeOut hphase => exact ⟨by rw [hphase]; rfl, returned_fail _, rfl, fun _ => nofun⟩

end Flow

namespace Netstack

variable {n n' : Netstack} {i : Nat} {f f' : Flow} {event : FlowEvent} {out : Outcome}
  {steps : List (FlowEvent × Outcome)} {history : List (Event × Outcome)}

/-- A step of a flow is recorded. -/
theorem Taken.recorded (htaken : Taken n f event n' f' out) (hsound : f.Sound)
    (h : f.Recorded steps) : f'.Recorded ((event, out) :: steps) := by
  obtain ⟨hadmissions, hreturns, hcompletions, hconnections⟩ := h
  have hadd : ∀ p : FlowEvent × Outcome → Bool,
      ((event, out) :: steps).countP p = steps.countP p + (p (event, out)).toNat := by
    intro p
    rw [List.countP_cons]
    cases p (event, out) <;> rfl
  have hconn : (isConnection (event, out) = true ∨ f.out ≠ .absent → f'.out ≠ .absent) →
      ∀ taken ∈ (event, out) :: steps, isConnection taken = true → f'.out ≠ .absent := by
    intro hout taken hmem hc
    rcases List.mem_cons.mp hmem with rfl | hmem
    · exact hout (.inl hc)
    · exact hout (.inr (hconnections taken hmem hc))
  cases htaken with
  | enter hphase _ | dial hphase | release hphase =>
    rw [hphase] at hadmissions hreturns
    refine ⟨?_, ?_, ?_, hconn fun hout => hout.resolve_left nofun⟩ <;> rw [hadd]
    · rw [hadmissions]; rfl
    · rw [hreturns]; rfl
    · rw [hcompletions]; rfl
  | refuse hphase =>
    rw [hphase] at hadmissions hreturns
    refine ⟨?_, ?_, ?_, hconn fun hout => hout.resolve_left nofun⟩ <;> rw [hadd]
    · rw [hadmissions]
      change 0 = f.proto.refuse.holds.toNat + f.proto.refuse.returned.toNat
      cases f.proto <;> rfl
    · rw [hreturns]
      change 0 = f.proto.refuse.returned.toNat
      cases f.proto <;> rfl
    · rw [hcompletions]; rfl
  | run hstep =>
    obtain ⟨hbefore, hafter, hcompleted, hout⟩ := (Flow.taken_of_step hstep).fields
    obtain ⟨-, hholds, -⟩ := (Flow.taken_of_step hstep).sound hsound
    rw [hbefore] at hadmissions hreturns
    refine ⟨?_, ?_, ?_, hconn hout⟩ <;> rw [hadd]
    · rw [hadmissions, hafter, hholds]; rfl
    · rw [hreturns, hafter]; rfl
    · rw [hcompletions, hcompleted]

/-- Every flow agrees with its steps, and an index without flow has none. -/
def Recorded (n : Netstack) (history : List (Event × Outcome)) : Prop :=
  ∀ i, (n.flows[i]? = none → trace i history = []) ∧
    ∀ f, n.flows[i]? = some f → f.Recorded (trace i history)

/-- Every step keeps this. -/
theorem Recorded.step {event : Event} (h : n.Recorded history) (hsound : n.Sound)
    (htaken : n.step event = some (n', out)) : n'.Recorded ((event, out) :: history) := by
  intro j
  obtain ⟨hnone, hsome⟩ := h j
  cases event with
  | request proto a port =>
    obtain ⟨rfl, rfl⟩ := pair_inj htaken
    rw [trace_request]
    refine ⟨fun hj => hnone ?_, fun f hf => ?_⟩
    · have hlength := List.getElem?_eq_none_iff.mp hj
      rw [List.length_append] at hlength
      exact List.getElem?_eq_none_iff.mpr (Nat.le_of_add_right_le hlength)
    · rcases Nat.lt_or_ge j n.flows.length with hlt | hge
      · exact hsome f ((List.getElem?_append_left hlt).symm.trans hf)
      · rw [hnone (List.getElem?_eq_none_iff.mpr hge)]
        have hlast : [request proto a port][j - n.flows.length]? = some f :=
          (List.getElem?_append_right hge).symm.trans hf
        obtain rfl := List.mem_singleton.mp (List.mem_of_getElem? hlast)
        cases proto <;> exact Flow.Recorded.handle _ a port
  | flow i event =>
    obtain ⟨f, f', n₁, hf, hflow, rfl⟩ := taken_of_step htaken
    obtain ⟨-, hflows, -⟩ := hflow.sound (hsound.flows f (List.mem_of_getElem? hf))
    have hset : (n₁.set i f').flows[j]? = if i = j then some f' else n.flows[j]? := by
      change (n₁.flows.set i f')[j]? = _
      obtain ⟨hlt, -⟩ := List.getElem?_eq_some_iff.mp hf
      rw [hflows, List.getElem?_set, if_pos hlt]
    rw [hset]
    by_cases hij : i = j
    · subst hij
      rw [if_pos rfl, trace_self]
      refine ⟨nofun, fun g hg => ?_⟩
      obtain rfl := Option.some.inj hg
      exact hflow.recorded (hsound.flows f (List.mem_of_getElem? hf)) (hsome f hf)
    · rw [if_neg hij, trace_other hij]
      exact ⟨hnone, hsome⟩

/-- Every state of a run is sound and recorded, and no step panicked. -/
theorem Run.sound (h : Run n history) : n.Sound ∧ n.Recorded history ∧
    ∀ taken ∈ history, taken.2 ≠ .panicked := by
  refine h.invariant (fun n history => n.Sound ∧ n.Recorded history ∧
    ∀ taken ∈ history, taken.2 ≠ .panicked) ⟨Sound.new, fun _ => ⟨fun _ => rfl, nofun⟩, nofun⟩ ?_
  rintro n history event n' out ⟨hsound, hrecorded, hcalm⟩ - htaken
  obtain ⟨hsound', hout⟩ := hsound.step htaken
  exact ⟨hsound', hrecorded.step hsound htaken, List.forall_mem_cons.mpr ⟨hout, hcalm⟩⟩

/-! ## No flow is stuck -/

/-- A pipe that has not sent is left. -/
theorem exists_unsent {pipe : Side → PipePhase} (h : sends pipe < 2) : ∃ dst, pipe dst ≠ .sent := by
  by_contra hall
  have hsent : ∀ dst, pipe dst = .sent := fun dst => not_not.mp fun hne => hall ⟨dst, hne⟩
  simp [sends, hsent] at h

/-- A flow in `bridge` has a step: a pipe that has not sent can fail or send, and once one has
sent, `bridge` itself goes on. -/
theorem exists_bridge_step {b : Bridge} (hphase : f.phase = .bridging b) (hsound : b.Sound) :
    ∃ event, (f.step event).isSome := by
  have hpipe : b.done = 0 → ∃ event, (f.step event).isSome := by
    intro hdone
    have hsends : sends b.pipe < 2 := by
      rw [← hsound, hdone]
      cases b.main <;> decide
    obtain ⟨dst, hdst⟩ := exists_unsent hsends
    cases hp : b.pipe dst with
    | reading =>
      exact ⟨.pipe dst (.read [] true), by simp [Flow.step, hphase, hp, PipePhase.step]⟩
    | writing data readErr =>
      exact ⟨.pipe dst (.wrote true), by simp [Flow.step, hphase, hp, PipePhase.step]⟩
    | returned => exact ⟨.send dst, by simp [Flow.step, hphase, hp, hdone]⟩
    | sent => exact absurd hp hdst
  by_cases hdone : b.done = 0
  · exact hpipe hdone
  · cases hmain : b.main with
    | waiting | draining => exact ⟨.receive, by simp [Flow.step, hphase, hdone, hmain]⟩
    | closingA => exact ⟨.closeA, by simp [Flow.step, hphase, hmain]⟩
    | closingB => exact ⟨.closeB, by simp [Flow.step, hphase, hmain]⟩

/-- A step of the flow is a step of the egress. -/
theorem step_isSome (hf : n.flows[i]? = some f) (h : (n.flowStep f event).isSome) :
    (n.step (.flow i event)).isSome := by
  obtain ⟨⟨n₁, f₁, out₁⟩, hstep⟩ := Option.isSome_iff_exists.mp h
  simp [step, hf, hstep]

/-- An admission does not wait. -/
theorem Sound.acquire_isSome {dst : AddrPort} (hf : n.flows[i]? = some f)
    (hphase : f.phase = .admitting dst) : (n.step (.flow i .acquire)).isSome :=
  step_isSome hf (by simp [flowStep, hphase])

/-- The token of a flow that returns it is in the channel. -/
theorem Sound.release_isSome (h : n.Sound) (hf : n.flows[i]? = some f)
    (hphase : f.phase = .releasing) : (n.step (.flow i .release)).isSome := by
  have htoken := h.holds_le hf
  rw [hphase] at htoken
  refine step_isSome hf ?_
  simp [flowStep, hphase, release, (Nat.pos_of_ne_zero (Nat.ne_of_gt htoken)).ne']

/-- A flow that is not finished can take a step. -/
theorem Sound.not_stuck (h : n.Sound) (hf : n.flows[i]? = some f)
    (hopen : f.phase.finished = false) : ∃ event, (n.step (.flow i event)).isSome := by
  have hrun : (∃ event, (f.step event).isSome) → ∃ event, (n.step (.flow i event)).isSome := by
    rintro ⟨event, hevent⟩
    exact ⟨.run event, step_isSome hf (by simpa [flowStep] using hevent)⟩
  cases hphase : f.phase with
  | admitting dst => exact ⟨.acquire, Sound.acquire_isSome hf hphase⟩
  | spawned dst => exact ⟨.dial, step_isSome hf (by simp [flowStep, hphase])⟩
  | releasing => exact ⟨.release, h.release_isSome hf hphase⟩
  | refusing | failing | created => exact hrun ⟨.complete, by simp [Flow.step, hphase]⟩
  | dialing dst => exact hrun ⟨.dialed false, by simp [Flow.step, hphase]⟩
  | dialed => exact hrun ⟨.endpoint false, by simp [Flow.step, hphase]⟩
  | closing => exact hrun ⟨.closeOut, by simp [Flow.step, hphase]⟩
  | bridging b =>
    have hflow := h.flows f (List.mem_of_getElem? hf)
    exact hrun (exists_bridge_step hphase (hflow.bridge b hphase))
  | refused | ended =>
    rw [hphase] at hopen
    cases hopen

/-! ## The flows together -/

/-- Once both connections are closed, every step brings the flow closer to its end. -/
theorem Taken.left_lt (htaken : Taken n f event n' f' out) (h : f.Sound)
    (hdraining : f.phase.draining = true) :
    f'.phase.draining = true ∧ f'.phase.left < f.phase.left := by
  cases htaken with
  | run hstep => exact (Flow.taken_of_step hstep).left_lt h hdraining
  | release hphase =>
    rw [hphase]
    exact ⟨rfl, Nat.one_pos⟩
  | enter hphase hroom | refuse hphase | dial hphase =>
    rw [hphase] at hdraining
    cases hdraining

/-- What the steps of a flow add up to. It is admitted at most once; its token is returned once if
it was admitted, at the latest when it ends; a TCP request is completed once; and a connection the
dialer returned is closed when the token is returned. -/
structure Accounted (f : Flow) (steps : List (FlowEvent × Outcome)) : Prop where
  admitted : steps.countP isAdmission ≤ 1
  returned : steps.countP isReturn ≤ steps.countP isAdmission
  ended : f.phase.finished = true → steps.countP isReturn = steps.countP isAdmission
  completed : f.proto = .tcp → steps.countP isCompletion ≤ 1
  answered : f.proto = .tcp → f.phase.finished = true → steps.countP isCompletion = 1
  closed : steps.countP isReturn = 1 → (∃ taken ∈ steps, isConnection taken = true) →
    f.out = .closed

/-- What the records add up to. -/
theorem accounted {steps : List (FlowEvent × Outcome)} (h : f.Sound)
    (hrecorded : f.Recorded steps) : Accounted f steps := by
  obtain ⟨hadmissions, hreturns, hcompletions, hconnections⟩ := hrecorded
  have hone : f.phase.holds.toNat + f.phase.returned.toNat ≤ 1 := by
    cases f.phase <;> simp [FlowPhase.holds, FlowPhase.returned]
  have hcompleted := h.completed
  refine ⟨by omega, by omega, fun hover => ?_, fun htcp => ?_, fun htcp hover => ?_,
    fun hreturned hdialed => ?_⟩
  · have hidle : f.phase.holds = false := by
      cases hphase : f.phase with
      | refused | ended => rfl
      | _ =>
        rw [hphase] at hover
        cases hover
    rw [hadmissions, hreturns, hidle]
    exact (Nat.zero_add _).symm
  · rw [hcompletions, hcompleted]
    exact Bool.toNat_le _
  · have hanswered : f.phase.answered = true := by
      cases hphase : f.phase with
      | refused | ended => rfl
      | _ =>
        rw [hphase] at hover
        cases hover
    rw [hcompletions, hcompleted, hanswered, htcp]
    rfl
  · obtain ⟨taken, hmem, hc⟩ := hdialed
    have hthere := hconnections taken hmem hc
    have hended : f.phase = .ended := by
      rw [hreturns] at hreturned
      cases hphase : f.phase with
      | ended => rfl
      | _ =>
        rw [hphase] at hreturned
        cases hreturned
    have hconns := h.conns
    rw [hended] at hconns
    cases hout : f.out with
    | absent => exact absurd hout hthere
    | opened => exact absurd hout hconns.2
    | closed => rfl

/-- The egress dials allowed destinations only and leaks no flow, in every interleaving of requests,
dials, endpoint creations and bridges. At most `maxFlows` flows are live; `acquire` and `release` do
not block and nothing panics; each flow is accounted for; when all flows have ended, all tokens are
back. A flow that has not ended has a step, and once both ends of its bridge are closed each of its
steps leads to the end. -/
theorem flows_bounded_and_returned (h : Run n history) :
    (∀ dst ∈ n.calls, Allowed dst.addr) ∧ n.live ≤ maxFlows ∧
    (∀ taken ∈ history, taken.2 ≠ .panicked) ∧
    (∀ i f, n.flows[i]? = some f →
      (∀ dst, f.phase = .admitting dst → (n.step (.flow i .acquire)).isSome) ∧
      (f.phase = .releasing → (n.step (.flow i .release)).isSome) ∧
      Accounted f (trace i history)) ∧
    ((∀ f ∈ n.flows, f.phase.finished = true) → n.tokens = 0) ∧
    (∀ i f, n.flows[i]? = some f → f.phase.finished = false →
      ∃ event, (n.step (.flow i event)).isSome) ∧
    ∀ i f event n' out, n.flows[i]? = some f → f.phase.draining = true →
      n.step (.flow i event) = some (n', out) →
      ∃ f', n'.flows[i]? = some f' ∧ f'.phase.draining = true ∧ f'.phase.left < f.phase.left := by
  obtain ⟨hsound, hrecorded, hcalm⟩ := h.sound
  refine ⟨hsound.calls, hsound.tokens ▸ hsound.bound, hcalm, fun i f hf => ⟨?_, ?_, ?_⟩, ?_,
    fun i f hf hopen => hsound.not_stuck hf hopen, ?_⟩
  · exact fun dst hphase => Sound.acquire_isSome hf hphase
  · exact fun hphase => hsound.release_isSome hf hphase
  · exact accounted (hsound.flows f (List.mem_of_getElem? hf)) ((hrecorded i).2 f hf)
  · intro hover
    rw [hsound.tokens]
    refine List.countP_eq_zero.mpr fun f hf => ?_
    have hover := hover f hf
    cases hphase : f.phase with
    | refused | ended => exact Bool.false_ne_true
    | _ =>
      rw [hphase] at hover
      cases hover
  · intro i f event n' out hf hdraining hstep
    obtain ⟨f₁, f', n₁, hf₁, htaken, rfl⟩ := taken_of_step hstep
    obtain rfl := Option.some.inj (hf.symm.trans hf₁)
    have hflow := hsound.flows f (List.mem_of_getElem? hf)
    obtain ⟨-, hflows, -⟩ := htaken.sound hflow
    refine ⟨f', ?_, htaken.left_lt hflow hdraining⟩
    obtain ⟨hlt, -⟩ := List.getElem?_eq_some_iff.mp hf
    change (n₁.flows.set i f')[i]? = _
    rw [hflows, List.getElem?_set_self hlt]

/-- A TCP flow to 8.8.8.8 whose client finishes first, and a TCP request to the cloud metadata
address 169.254.169.254, given in its IPv4-mapped form, that is reset. -/
theorem flows_bounded_and_returned_two_requests : ∃ n history, Run n history ∧
    n.calls.map AddrPort.port = [53] ∧ n.flows.map (fun f => f.completed) = [[false], [true]] ∧
    n.tokens = 0 ∧ (∀ dst ∈ n.calls, Allowed dst.addr) := by
  have hplay : play step new []
      [.request .tcp [8, 8, 8, 8] 53, .flow 0 .acquire,
        .request .tcp [0, 0, 0, 0, 0, 0, 0, 0, 0, 0, 255, 255, 169, 254, 169, 254] 80,
        .flow 0 .dial, .flow 1 (.run .complete), .flow 0 (.run (.dialed true)),
        .flow 0 (.run (.endpoint true)), .flow 0 (.run .complete),
        .flow 0 (.run (.pipe .b (.read [1] true))), .flow 0 (.run (.pipe .b (.wrote false))),
        .flow 0 (.run (.send .b)), .flow 0 (.run .receive), .flow 0 (.run .closeA),
        .flow 0 (.run .closeB), .flow 0 (.run (.pipe .a (.read [] true))),
        .flow 0 (.run (.send .a)), .flow 0 (.run .receive), .flow 0 .release] =
      some (_, _) := rfl
  have hrun : Run _ _ := Reached.init.play _ hplay
  exact ⟨_, _, hrun, rfl, rfl, rfl, (flows_bounded_and_returned hrun).1⟩

end Netstack

end Dualnet.Egress
