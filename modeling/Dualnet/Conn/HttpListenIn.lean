import Dualnet.Library.Runs

/-!
# Superseded uploads

The requests an `httpListenIn` of `conn/http.go` serves. A request that names a channel takes the
place of an earlier one of that channel: under the lock it puts its own handle into `active`, and
after the lock is released it cuts the earlier one off by pulling its read deadline. A request that
ends takes its handle out, if it is still there. The steps are the two halves of `replace` and the
end of a request, in any order among any number of requests. What is counted is the calls of
`cancel`: a request that is between two frames sets a deadline of its own afterwards and reads on.

`upload_supersede_safety` is the result.
-/

namespace Dualnet.Conn

open Library

/-- Where a request is. -/
inductive ServeInPhase where
  /-- In `replace`, after the lock: the handle it found is to be cut off. -/
  | swapped (old : Option Nat)
  | reading
  /-- After `remove`, and whether the handle was still there. -/
  | returned (listed : Bool)
  deriving DecidableEq

/-- An `httpListenIn`. The requests are numbered in the order of their `replace`; each has a
channel, a phase, and the number of times its read deadline was pulled. -/
structure HttpListenIn where
  count : Nat := 0
  chanID : Nat → String := fun _ => ""
  phase : Nat → ServeInPhase := fun _ => .reading
  cuts : Nat → Nat := fun _ => 0
  active : String → Option Nat := fun _ => none

/-- A step of a request. -/
inductive ServeInEvent where
  | request (chanID : String)
  | cutOff (h : Nat)
  | finish (h : Nat)

namespace HttpListenIn

section Steps

variable (c : HttpListenIn)

/-- The locked half of `replace`, in a new request. -/
def swap (chanID : String) : HttpListenIn where
  count := c.count + 1
  chanID := Function.update c.chanID c.count chanID
  phase := Function.update c.phase c.count (.swapped (c.active chanID))
  cuts := Function.update c.cuts c.count 0
  active := Function.update c.active chanID (some c.count)

/-- The other half: `old.cancel()`. -/
def cancelOld (h : Nat) (old : Option Nat) : HttpListenIn where
  count := c.count
  chanID := c.chanID
  phase := Function.update c.phase h .reading
  cuts := old.elim c.cuts fun o => Function.update c.cuts o (c.cuts o + 1)
  active := c.active

/-- `remove`. -/
def remove (h : Nat) : HttpListenIn :=
  let listed := c.active (c.chanID h) == some h
  { c with
    phase := Function.update c.phase h (.returned listed)
    active := if listed then Function.update c.active (c.chanID h) none else c.active }

/-- One step. -/
def step : ServeInEvent → Option (HttpListenIn × Unit)
  | .request chanID => some (c.swap chanID, ())
  | .cutOff h =>
    if h < c.count then
      match c.phase h with
      | .swapped old => some (c.cancelOld h old, ())
      | _ => none
    else none
  | .finish h =>
    if h < c.count then
      match c.phase h with
      | .reading => some (c.remove h, ())
      | _ => none
    else none

end Steps

/-- The runs of an `httpListenIn`. -/
abbrev Run : HttpListenIn → List (ServeInEvent × Unit) → Prop :=
  Reached step (fun _ _ _ => True) {}

/-- A later request has the channel of this one. -/
def Superseded (c : HttpListenIn) (h : Nat) : Prop :=
  ∃ h', h < h' ∧ h' < c.count ∧ c.chanID h' = c.chanID h

/-- A request that has not returned. -/
def Serving (c : HttpListenIn) (h : Nat) : Prop := ∀ listed, c.phase h ≠ .returned listed

/-- A later request is about to cut this one off. -/
def Pending (c : HttpListenIn) (h : Nat) : Prop := ∃ h' < c.count, c.phase h' = .swapped (some h)

/-- What every step keeps. -/
structure Orderly (c : HttpListenIn) : Prop where
  active : ∀ chanID h, c.active chanID = some h ↔
    h < c.count ∧ c.chanID h = chanID ∧ ¬ c.Superseded h ∧ c.Serving h
  pending : ∀ h' h, h' < c.count → c.phase h' = .swapped (some h) →
    h < h' ∧ c.chanID h' = c.chanID h ∧ c.cuts h = 0 ∧ c.phase h ≠ .returned true
  once : ∀ h₁ h₂ h, h₁ < c.count → h₂ < c.count → c.phase h₁ = .swapped (some h) →
    c.phase h₂ = .swapped (some h) → h₁ = h₂
  cut : ∀ h < c.count, c.cuts h = 0 ∨ c.cuts h = 1 ∧ c.Superseded h
  superseded : ∀ h < c.count, c.Superseded h →
    c.cuts h = 1 ∨ c.phase h = .returned true ∨ c.Pending h
  ended : ∀ h < c.count, c.phase h = .returned true → c.cuts h = 0
  unlisted : ∀ h < c.count, c.phase h = .returned false → c.Superseded h

variable {c : HttpListenIn}

/-- What a new request supersedes. -/
theorem superseded_swap {chanID : String} {h : Nat} :
    (c.swap chanID).Superseded h ↔
      h < c.count ∧ (c.Superseded h ∨ c.chanID h = chanID) := by
  constructor
  · rintro ⟨h', hlt, hcount, heq⟩
    have hh : h < c.count := Nat.lt_of_lt_of_le hlt (Nat.lt_succ_iff.mp hcount)
    refine ⟨hh, ?_⟩
    simp only [swap, Function.update_of_ne hh.ne] at heq
    by_cases hnew : h' = c.count
    · subst hnew
      exact .inr (by simpa using heq.symm)
    · rw [Function.update_of_ne hnew] at heq
      exact .inl ⟨h', hlt, by simp only [swap] at hcount; omega, heq⟩
  · rintro ⟨hh, ⟨h', hlt, hcount, heq⟩ | heq⟩
    · refine ⟨h', hlt, by simp only [swap]; omega, ?_⟩
      simpa [swap, Function.update_of_ne hh.ne, Function.update_of_ne hcount.ne] using heq
    · exact ⟨c.count, hh, by simp [swap], by simp [swap, Function.update_of_ne hh.ne, heq]⟩

/-- A new request leaves the others as they are. -/
theorem swap_old (chanID : String) {h : Nat} (hh : h < c.count) :
    (c.swap chanID).chanID h = c.chanID h ∧ (c.swap chanID).phase h = c.phase h ∧
      (c.swap chanID).cuts h = c.cuts h := by
  simp [swap, Function.update_of_ne hh.ne]

/-- The new request. -/
theorem swap_new (c : HttpListenIn) (chanID : String) :
    (c.swap chanID).chanID c.count = chanID ∧
      (c.swap chanID).phase c.count = .swapped (c.active chanID) ∧
      (c.swap chanID).cuts c.count = 0 := by
  simp [swap]

/-- One request more. -/
theorem lt_swap_count {chanID : String} {h : Nat} :
    h < (c.swap chanID).count ↔ h < c.count ∨ h = c.count := by
  simp only [swap]
  omega

/-- It takes its channel over. -/
theorem swap_active (c : HttpListenIn) (chanID k : String) :
    (c.swap chanID).active k = if k = chanID then some c.count else c.active k := by
  simp [swap, Function.update_apply]

/-- A new request is listed for its channel, in the place of the last one. -/
theorem Orderly.swap_active (hc : c.Orderly) (chanID k : String) (h : Nat) :
    (c.swap chanID).active k = some h ↔ h < (c.swap chanID).count ∧
      (c.swap chanID).chanID h = k ∧ ¬ (c.swap chanID).Superseded h ∧
      (c.swap chanID).Serving h := by
  rw [HttpListenIn.swap_active, superseded_swap, lt_swap_count]
  rcases Nat.lt_trichotomy h c.count with hh | rfl | hh
  · obtain ⟨hchan, hphase, -⟩ := swap_old chanID hh
    have hserving : (c.swap chanID).Serving h ↔ c.Serving h := by simp only [Serving, hphase]
    rw [hchan, hserving]
    split
    · next hk =>
        refine ⟨fun heq => absurd (Option.some.inj heq) hh.ne', ?_⟩
        rintro ⟨-, hchan, hnot, -⟩
        exact absurd ⟨hh, .inr (hchan.trans hk)⟩ hnot
    · next hk =>
        simp only [hc.active k h, hh, true_and, true_or, not_or]
        constructor
        · rintro ⟨rfl, hsup, hserv⟩
          exact ⟨rfl, ⟨hsup, hk⟩, hserv⟩
        · rintro ⟨hchan, ⟨hsup, -⟩, hserv⟩
          exact ⟨hchan, hsup, hserv⟩
  · have hserving : (c.swap chanID).Serving c.count := by
      intro listed
      rw [(swap_new c chanID).2.1]
      simp
    rw [(swap_new c chanID).1]
    simp only [Nat.lt_irrefl, false_and, not_false_eq_true, true_and, or_true, hserving, and_true]
    split
    · next hk => simp [hk]
    · next hk =>
        simp only [hc.active k c.count, Nat.lt_irrefl, false_and, false_iff]
        exact Ne.symm hk
  · have hnot : ¬ (h < c.count ∨ h = c.count) := by omega
    simp only [hnot, false_and, iff_false]
    split
    · exact fun heq => absurd (Option.some.inj heq) hh.ne
    · rw [hc.active k h]
      exact fun hlisted => absurd hlisted.1 (by omega)

/-- What a new request is to cut off serves and was the last of its channel. -/
theorem Orderly.swap_found (hc : c.Orderly) {chanID : String} {h : Nat}
    (hphase : (c.swap chanID).phase c.count = .swapped (some h)) :
    h < c.count ∧ c.chanID h = chanID ∧ ¬ c.Superseded h ∧ c.Serving h := by
  rw [(swap_new c chanID).2.1, ServeInPhase.swapped.injEq] at hphase
  exact (hc.active chanID h).mp hphase

/-- A request that becomes superseded is going to be cut off, unless it has ended. -/
theorem Orderly.swap_superseded (hc : c.Orderly) {chanID : String} {h : Nat} (hh : h < c.count)
    (hsup : c.Superseded h ∨ c.chanID h = chanID) :
    c.cuts h = 1 ∨ c.phase h = .returned true ∨ (c.swap chanID).Pending h := by
  by_cases hbefore : c.Superseded h
  · refine (hc.superseded h hh hbefore).imp_right (Or.imp_right ?_)
    rintro ⟨h', hh', hphase⟩
    exact ⟨h', lt_swap_count.mpr (.inl hh'), by rw [(swap_old chanID hh').2.1, hphase]⟩
  · -- it was the last of its channel: listed, or taken out by itself
    have hchan : c.chanID h = chanID := hsup.resolve_left hbefore
    cases hphase : c.phase h with
    | returned listed =>
      cases listed with
      | true => exact .inr (.inl rfl)
      | false => exact absurd (hc.unlisted h hh hphase) hbefore
    | swapped | reading =>
      have hserving : c.Serving h := by simp [Serving, hphase]
      have hactive := (hc.active chanID h).mpr ⟨hh, hchan, hbefore, hserving⟩
      exact .inr (.inr ⟨c.count, lt_swap_count.mpr (.inr rfl), by
        rw [(swap_new c chanID).2.1, hactive]⟩)

/-- A new request keeps the order. -/
theorem Orderly.swap (hc : c.Orderly) (chanID : String) : (c.swap chanID).Orderly := by
  refine ⟨hc.swap_active chanID, fun h' h hh' hphase => ?_, fun h₁ h₂ h hh₁ hh₂ hp₁ hp₂ => ?_,
    fun h hh => ?_, fun h _ hsup => ?_, fun h hh hphase => ?_, fun h hh hphase => ?_⟩
  · rcases lt_swap_count.mp hh' with hh' | rfl
    · rw [(swap_old chanID hh').2.1] at hphase
      obtain ⟨hlt, hchan, hcuts, hnot⟩ := hc.pending h' h hh' hphase
      obtain ⟨hchan', hphase', hcuts'⟩ := swap_old chanID (Nat.lt_trans hlt hh')
      rw [hchan', hphase', hcuts', (swap_old chanID hh').1]
      exact ⟨hlt, hchan, hcuts, hnot⟩
    · obtain ⟨hh, hchan, hlast, hserving⟩ := hc.swap_found hphase
      obtain ⟨hchan', hphase', hcuts'⟩ := swap_old chanID hh
      rw [hchan', hphase', hcuts', (swap_new c chanID).1, hchan]
      exact ⟨hh, rfl, (hc.cut h hh).resolve_right fun hcut => hlast hcut.2, hserving true⟩
  · have hdistinct : ∀ h' < c.count, (c.swap chanID).phase h' = .swapped (some h) →
        (c.swap chanID).phase c.count ≠ .swapped (some h) := by
      intro h' hh' hp hnew
      rw [(swap_old chanID hh').2.1] at hp
      obtain ⟨hlt, hchan, -, -⟩ := hc.pending h' h hh' hp
      exact (hc.swap_found hnew).2.2.1 ⟨h', hlt, hh', hchan⟩
    rcases lt_swap_count.mp hh₁ with hh₁ | rfl <;> rcases lt_swap_count.mp hh₂ with hh₂ | rfl
    · rw [(swap_old chanID hh₁).2.1] at hp₁
      rw [(swap_old chanID hh₂).2.1] at hp₂
      exact hc.once h₁ h₂ h hh₁ hh₂ hp₁ hp₂
    · exact absurd hp₂ (hdistinct h₁ hh₁ hp₁)
    · exact absurd hp₁ (hdistinct h₂ hh₂ hp₂)
    · rfl
  · rcases lt_swap_count.mp hh with hh | rfl
    · rw [(swap_old chanID hh).2.2, superseded_swap]
      exact (hc.cut h hh).imp_right (And.imp_right fun hsup => ⟨hh, .inl hsup⟩)
    · exact .inl (swap_new c chanID).2.2
  · obtain ⟨hh, hsup⟩ := superseded_swap.mp hsup
    rw [(swap_old chanID hh).2.1, (swap_old chanID hh).2.2]
    exact hc.swap_superseded hh hsup
  · rcases lt_swap_count.mp hh with hh | rfl
    · rw [(swap_old chanID hh).2.1] at hphase
      rw [(swap_old chanID hh).2.2]
      exact hc.ended h hh hphase
    · exact (swap_new c chanID).2.2
  · rcases lt_swap_count.mp hh with hh | rfl
    · rw [(swap_old chanID hh).2.1] at hphase
      exact superseded_swap.mpr ⟨hh, .inl (hc.unlisted h hh hphase)⟩
    · rw [(swap_new c chanID).2.1] at hphase
      cases hphase

/-- The caller goes on reading. -/
theorem cancelOld_phase (c : HttpListenIn) (h : Nat) (old : Option Nat) (h' : Nat) :
    (c.cancelOld h old).phase h' = if h' = h then .reading else c.phase h' := by
  simp [cancelOld, Function.update_apply]

/-- The old request is cancelled. -/
theorem cancelOld_cuts (c : HttpListenIn) (h : Nat) (old : Option Nat) (h' : Nat) :
    (c.cancelOld h old).cuts h' = if old = some h' then c.cuts h' + 1 else c.cuts h' := by
  cases old with
  | none => simp [cancelOld]
  | some o =>
    by_cases ho : h' = o
    · subst ho
      simp [cancelOld]
    · simp [cancelOld, Function.update_of_ne ho, Ne.symm ho]

/-- A cut-off is of a superseded request, and the only one of it. -/
theorem Orderly.cancelOld (hc : c.Orderly) {h : Nat} {old : Option Nat} (hh : h < c.count)
    (hphase : c.phase h = .swapped old) : (c.cancelOld h old).Orderly := by
  have hserving : ∀ h', (c.cancelOld h old).Serving h' ↔ c.Serving h' := by
    intro h'
    simp only [Serving, cancelOld_phase]
    split
    · next heq => simp [heq, hphase]
    · exact Iff.rfl
  -- no other request is about to cut off what this one does
  have hother : ∀ h' o, h' < c.count → (c.cancelOld h old).phase h' = .swapped (some o) →
      c.phase h' = .swapped (some o) ∧ old ≠ some o := by
    intro h' o hh' hp
    rw [cancelOld_phase] at hp
    split at hp
    · cases hp
    · next hne => exact ⟨hp, fun heq => hne (hc.once h' h o hh' hh hp (hphase.trans (by rw [heq])))⟩
  have hsup : ∀ h', (c.cancelOld h old).Superseded h' ↔ c.Superseded h' := fun _ => Iff.rfl
  have hold : ∀ o, old = some o → o < h ∧ c.chanID h = c.chanID o ∧ c.cuts o = 0 ∧
      c.phase o ≠ .returned true := fun o ho => hc.pending h o hh (hphase.trans (by rw [ho]))
  refine ⟨fun k h' => ?_, fun h' o hh' hp => ?_, fun h₁ h₂ o hh₁ hh₂ hp₁ hp₂ => ?_,
    fun h' hh' => ?_, fun h' hh' hs => ?_, fun h' hh' hp => ?_, fun h' hh' hp => ?_⟩
  · rw [hserving]
    exact hc.active k h'
  · obtain ⟨hp, hne⟩ := hother h' o hh' hp
    obtain ⟨hlt, hchan, hcuts, hnot⟩ := hc.pending h' o hh' hp
    refine ⟨hlt, hchan, by rw [cancelOld_cuts, if_neg hne, hcuts], ?_⟩
    rw [cancelOld_phase]
    split
    · simp
    · exact hnot
  · exact hc.once h₁ h₂ o hh₁ hh₂ (hother h₁ o hh₁ hp₁).1 (hother h₂ o hh₂ hp₂).1
  · rw [cancelOld_cuts, hsup]
    split
    · next heq =>
        obtain ⟨hlt, hchan, hcuts, -⟩ := hold h' heq
        exact .inr ⟨by rw [hcuts], h, hlt, hh, hchan⟩
    · exact hc.cut h' hh'
  · rw [cancelOld_cuts, cancelOld_phase]
    split
    · next heq => exact .inl (by rw [(hold h' heq).2.2.1])
    · next hne =>
        rcases hc.superseded h' hh' hs with hone | hret | ⟨g, hg, hp⟩
        · exact .inl hone
        · refine .inr (.inl ?_)
          rw [if_neg (fun heq => ?_), hret]
          rw [heq, hphase] at hret
          cases hret
        · refine .inr (.inr ⟨g, hg, ?_⟩)
          rw [cancelOld_phase, if_neg (fun heq => ?_), hp]
          rw [heq, hphase, ServeInPhase.swapped.injEq] at hp
          exact hne hp
  · rw [cancelOld_phase] at hp
    split at hp
    · cases hp
    · rw [cancelOld_cuts, if_neg (fun heq => (hold h' heq).2.2.2 hp)]
      exact hc.ended h' hh' hp
  · rw [cancelOld_phase] at hp
    split at hp
    · cases hp
    · exact hc.unlisted h' hh' hp

/-- The request has returned. -/
theorem remove_phase (c : HttpListenIn) (h h' : Nat) :
    (c.remove h).phase h' =
      if h' = h then .returned (c.active (c.chanID h) == some h) else c.phase h' := by
  simp [remove, Function.update_apply]

/-- It gives up a channel it still has. -/
theorem remove_active (c : HttpListenIn) (h : Nat) (k : String) :
    (c.remove h).active k = if c.active k = some h ∧ k = c.chanID h then none else c.active k := by
  by_cases hlisted : c.active (c.chanID h) = some h
  · simp only [remove, hlisted, beq_self_eq_true, if_true, Function.update_apply]
    by_cases hk : k = c.chanID h
    · simp [hk, hlisted]
    · simp [hk]
  · have hfalse : (c.active (c.chanID h) == some h) = false := by simpa using hlisted
    simp only [remove, hfalse, Bool.false_eq_true, if_false]
    rw [if_neg]
    rintro ⟨hk, rfl⟩
    exact hlisted hk

/-- A request that ends takes out no other. -/
theorem Orderly.remove (hc : c.Orderly) {h : Nat} (hh : h < c.count)
    (hphase : c.phase h = .reading) : (c.remove h).Orderly := by
  have hsup : ∀ h', (c.remove h).Superseded h' ↔ c.Superseded h' := fun _ => Iff.rfl
  have hserving : ∀ h', (c.remove h).Serving h' ↔ h' ≠ h ∧ c.Serving h' := by
    intro h'
    simp only [Serving, remove_phase]
    by_cases heq : h' = h
    · simp [heq]
    · simp [heq]
  have hswapped : ∀ h' o, (c.remove h).phase h' = .swapped o ↔ c.phase h' = .swapped o := by
    intro h' o
    rw [remove_phase]
    split
    · next heq => simp [heq, hphase]
    · exact Iff.rfl
  refine ⟨fun k h' => ?_, fun h' o hh' hp => ?_, fun h₁ h₂ o hh₁ hh₂ hp₁ hp₂ => ?_,
    hc.cut, fun h' hh' hs => ?_, fun h' hh' hp => ?_, fun h' hh' hp => ?_⟩
  · rw [hserving, remove_active, hsup]
    have hactive := hc.active k h'
    by_cases heq : h' = h
    · subst heq
      simp only [ne_eq, not_true_eq_false, false_and, and_false, iff_false]
      split
      · simp
      · next hnot => exact fun hlisted => hnot ⟨hlisted, (hactive.mp hlisted).2.1.symm⟩
    · simp only [ne_eq, heq, not_false_eq_true, true_and]
      rw [show (c.remove h).count = c.count from rfl, show (c.remove h).chanID = c.chanID from rfl,
        ← hactive]
      split
      · next hlisted =>
          rw [hlisted.1]
          simp [Ne.symm heq]
      · exact Iff.rfl
  · obtain ⟨hlt, hchan, hcuts, hnot⟩ := hc.pending h' o hh' ((hswapped h' _).mp hp)
    refine ⟨hlt, hchan, hcuts, ?_⟩
    rw [remove_phase]
    split
    · next heq =>
        -- a later request of the channel has taken its place in the map
        subst heq
        have hnot : c.active (c.chanID o) ≠ some o := by
          intro hlisted
          exact ((hc.active _ _).mp hlisted).2.2.1 ⟨h', hlt, hh', hchan⟩
        simpa using hnot
    · exact hnot
  · exact hc.once h₁ h₂ o hh₁ hh₂ ((hswapped h₁ _).mp hp₁) ((hswapped h₂ _).mp hp₂)
  · rcases hc.superseded h' hh' hs with hone | hret | ⟨g, hg, hp⟩
    · exact .inl hone
    · refine .inr (.inl ?_)
      rw [remove_phase, if_neg (fun heq => ?_), hret]
      rw [heq, hphase] at hret
      cases hret
    · exact .inr (.inr ⟨g, hg, (hswapped g _).mpr hp⟩)
  · rw [remove_phase] at hp
    split at hp
    · next heq =>
        subst heq
        have hlisted : c.active (c.chanID h') = some h' := by simpa using hp
        exact (hc.cut h' hh').resolve_right fun hcut => ((hc.active _ _).mp hlisted).2.2.1 hcut.2
    · exact hc.ended h' hh' hp
  · rw [remove_phase] at hp
    split at hp
    · next heq =>
        subst heq
        have hnot : c.active (c.chanID h') ≠ some h' := by simpa using hp
        by_contra hlast
        exact hnot ((hc.active _ _).mpr ⟨hh', rfl, hlast, by simp [Serving, hphase]⟩)
    · exact hc.unlisted h' hh' hp

/-- Every state reached is orderly. -/
theorem Run.orderly {history : List (ServeInEvent × Unit)} (h : Run c history) : c.Orderly := by
  refine h.invariant (fun c _ => c.Orderly) ?_ ?_
  · refine ⟨?_, ?_, ?_, ?_, ?_, ?_, ?_⟩ <;> simp
  · intro c history event c' out hc _ htaken
    cases event with
    | request chanID =>
      obtain ⟨rfl, -⟩ := pair_inj htaken
      exact hc.swap chanID
    | cutOff h =>
      obtain ⟨hh, htaken⟩ := Option.ite_none_right_eq_some.mp htaken
      split at htaken
      · next old hphase =>
          obtain ⟨rfl, -⟩ := pair_inj htaken
          exact hc.cancelOld hh hphase
      · cases htaken
    | finish h =>
      obtain ⟨hh, htaken⟩ := Option.ite_none_right_eq_some.mp htaken
      split at htaken
      · next hphase =>
          obtain ⟨rfl, -⟩ := pair_inj htaken
          exact hc.remove hh hphase
      · cases htaken

/-- In every order of the steps `active` holds, for each channel, the last request that named it as
long as that request is served, so that it is empty when all have returned. A request is cut off at
most once, and only for a later one of its channel; a superseded request whose successors are past
`replace` was cut off, unless it had ended before. -/
theorem upload_supersede_safety {history : List (ServeInEvent × Unit)} (h : Run c history) :
    (∀ chanID h, c.active chanID = some h ↔
      h < c.count ∧ c.chanID h = chanID ∧ ¬ c.Superseded h ∧ c.Serving h) ∧
    ((∀ h < c.count, ¬ c.Serving h) → ∀ chanID, c.active chanID = none) ∧
    (∀ h < c.count, c.cuts h ≤ 1 ∧ (c.cuts h = 1 → c.Superseded h)) ∧
    (∀ h < c.count, c.Superseded h → ¬ c.Pending h →
      (c.cuts h = 1 ↔ c.phase h ≠ .returned true)) := by
  have hc := h.orderly
  refine ⟨hc.active, fun hdone chanID => ?_, fun h hh => ?_, fun h hh hsup hpending => ?_⟩
  · refine Option.eq_none_iff_forall_ne_some.mpr fun h hactive => ?_
    obtain ⟨hh, -, -, hserving⟩ := (hc.active chanID h).mp hactive
    exact hdone h hh hserving
  · rcases hc.cut h hh with hzero | ⟨hone, hsup⟩
    · simp [hzero]
    · exact ⟨hone.le, fun _ => hsup⟩
  · constructor
    · intro hone hret
      have := hc.ended h hh hret
      omega
    · intro hnot
      exact (hc.superseded h hh hsup).resolve_right (not_or.mpr ⟨hnot, hpending⟩)

/-- Three requests of one channel, of which the first ends before the second comes and the second
is cut off by the third. -/
theorem upload_supersede_safety_thrice :
    ∃ c history, Run c history ∧ c.count = 3 ∧ c.cuts 0 = 0 ∧ c.cuts 1 = 1 ∧
      c.active "a" = some 2 ∧ ¬ c.Superseded 2 := by
  have hrun : Run _ _ := Reached.init.play
    [.request "a", .cutOff 0, .finish 0, .request "a", .cutOff 1, .request "a", .cutOff 2,
      .finish 1]
    rfl
  exact ⟨_, _, hrun, rfl, rfl, rfl, rfl, (((upload_supersede_safety hrun).1 "a" 2).mp rfl).2.2.1⟩

end HttpListenIn

end Dualnet.Conn
