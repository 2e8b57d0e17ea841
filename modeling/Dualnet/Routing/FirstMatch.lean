import Dualnet.Routing.PlainReading

/-!
# Routing by the first match

Where connections and guards answer alike at all times and everything sent is delivered, a table
acts on a packet by its first row that fires: it matches, its target takes the packet and its
conditions hold.
-/

namespace Dualnet.Routing

open Library Wire

variable {C G F : Type} (isSender : C → Bool) (conns : String → Option C)
  (conditions : String → Option G) (finalizers : String → Option F)
  (accepts : C → Bool) (passes : G → Bool)

/-- Answers that depend on nothing but the connection or guard asked; sends are delivered. -/
def steady : Answers C G F :=
  ⟨fun _ c _ => accepts c, fun _ g _ _ => passes g, fun _ _ _ _ => true⟩

/-- The row applies to the packet. -/
def Rule.fires (processed : Bool) (src : String) (ru : Rule) : Bool :=
  ru.matches processed src && ((conns ru.target).filter isSender).any accepts &&
    (ru.conditions.filterMap conditions).all passes

/-- What a row that applies does with the packet. -/
def Rule.disposal (e : Envelope) (payload : Bytes) (ru : Rule) : Option (Event C G F) :=
  (conns ru.target).map fun c =>
    match if ru.egress = "" then none else finalizers ru.egress with
    | some f => .finalize f e.owner c payload
    | none => .send c e payload true

variable {isSender conns conditions finalizers accepts passes}
  {src : String} {e : Envelope} {payload : Bytes}

/-- It accepts as given. -/
@[simp] theorem steady_accepts {log : List (Event C G F)} {c : C} {owner : Owner} :
    (steady accepts passes).accepts log c owner = accepts c := rfl

/-- It passes as given. -/
@[simp] theorem steady_pass {log : List (Event C G F)} {g : G} {owner : Owner}
    {dst : Option Netip.Addr} : (steady accepts passes).pass log g owner dst = passes g := rfl

/-- It always sends. -/
@[simp] theorem steady_send {log : List (Event C G F)} {c : C} :
    (steady accepts passes).send log c e payload = true := rfl

/-- Asking the guards tells whether all hold, and disposes of nothing. -/
theorem allPass_steady {owner : Owner} {dst : Option Netip.Addr} (gs : List G)
    {log : List (Event C G F)} (hlog : ∀ ev ∈ log, ev.delivers = false) :
    (allPass (steady accepts passes) owner dst gs log).1 = gs.all passes ∧
      ∀ ev ∈ (allPass (steady accepts passes) owner dst gs log).2, ev.delivers = false := by
  induction gs generalizing log with
  | nil => exact ⟨rfl, hlog⟩
  | cons g gs ih =>
    have hasked : ∀ answer, ∀ ev ∈ log ++ [.pass g owner dst answer], ev.delivers = false := by
      simpa [or_imp, forall_and, Event.delivers] using hlog
    rw [allPass, List.all_cons]
    cases hg : passes g with
    | true => simpa [hg] using ih (hasked true)
    | false => simpa [hg] using hasked false

/-- Nothing is found among calls that dispose of nothing. -/
theorem find_delivers_eq_none {log : List (Event C G F)} (hlog : ∀ ev ∈ log, ev.delivers = false) :
    log.find? Event.delivers = none := by
  rw [List.find?_eq_none]
  exact fun ev hev => by simp [hlog ev hev]

/-- The call by which a table disposes of a packet is that of its first row that fires. -/
theorem plainRead_steady (rules : List Rule) {log : List (Event C G F)}
    (hlog : ∀ ev ∈ log, ev.delivers = false) :
    (plainRead isSender conns conditions finalizers (steady accepts passes) src e payload rules
      log).find? Event.delivers =
    (rules.find? (Rule.fires isSender conns conditions accepts passes e.processed src)).bind
      (Rule.disposal conns finalizers e payload) := by
  induction rules generalizing log with
  | nil => simpa [plainRead] using find_delivers_eq_none hlog
  | cons ru rest ih =>
    rw [plainRead, List.find?_cons, Rule.fires]
    cases hm : ru.matches e.processed src with
    | false => simpa using ih hlog
    | true =>
      cases hc : (conns ru.target).filter isSender with
      | none => simpa using ih hlog
      | some c =>
        have hasked : ∀ answer, ∀ ev ∈ log ++ [.accepts c e.owner answer],
            ev.delivers = false := by
          simpa [or_imp, forall_and, Event.delivers] using hlog
        cases ha : accepts c with
        | false => simpa [ha] using ih (hasked false)
        | true =>
          obtain ⟨hpass, hquiet⟩ := @allPass_steady C G F accepts passes e.owner
            (dstIP payload) (ru.conditions.filterMap conditions) _ (hasked true)
          have hconn : conns ru.target = some c := (Option.filter_eq_some_iff.mp hc).1
          simp only [steady_accepts, steady_send, ha, Bool.not_true, Bool.false_eq_true, if_false,
            if_true, Option.any_some, Bool.and_self, Bool.true_and, ← hpass]
          cases hok : (allPass _ e.owner (dstIP payload) (ru.conditions.filterMap conditions)
            (log ++ [.accepts c e.owner true])).1 with
          | false => simpa using ih hquiet
          | true =>
            simp only [Rule.disposal, hconn, Option.map_some, Option.bind_some, Bool.not_true,
              Bool.false_eq_true, if_false]
            cases if ru.egress = "" then none else finalizers ru.egress <;>
              rw [List.find?_append, find_delivers_eq_none hquiet] <;> rfl

/-- The router disposes of a packet by the first row of its table that fires. -/
theorem route_steady {rules : List Rule} {sources : List String} {r : Router C G F}
    (h : compile isSender rules conns sources conditions finalizers = .ok r)
    (hempty : finalizers "" = none) {connName : C → String} (hsrc : src ∈ sources) :
    (r.route (steady accepts passes) connName src e payload).1.find? Event.delivers =
      (rules.find? (Rule.fires isSender conns conditions accepts passes e.processed src)).bind
        (Rule.disposal conns finalizers e payload) := by
  have hfaithful := @faithful_of_forwardsForward C G F isSender conns conditions finalizers
    (steady accepts passes) src e payload rules sources r h (.inl hempty) connName r.recorder hsrc
  rw [← plainRead_steady rules (List.forall_mem_nil _), ← hfaithful.route_eq]

end Dualnet.Routing
