import Dualnet.Library.Checks

/-!
# Scripts that undo themselves

A script changes the entries a system holds, place by place, and collects a chain of changes
that undo it, latest first. A command has its effect or fails without one; a script goes on
past the failure of an attempted command and stops at the failure of an installing one. A removal
takes the first entry that the system picks for it, which need not be the one it names.

`Undoable.teardown_eq` says when running the chain gives the first store back, and
`exec_undoable` that every partial run of a tidy script is of that kind, where the entries of the
script can be told apart (`Fits`).
-/

namespace Dualnet.Library

/-- The entries a system holds, by place. -/
abbrev Store (π ε : Type) := π → List ε

/-- What a command changes. -/
inductive Change (π ε : Type) where
  | add (place : π) (entry : ε)
  | remove (place : π) (entry : ε)
  | put (place : π) (entries : List ε)
  /-- A command the system does not know: it always fails. -/
  | unknown

/-- How a system takes commands: which entries may be added next to those held, fewer of which
admit at least as much, and which entries a removal picks, the one it names among them. -/
structure System (π ε : Type) where
  admits : π → List ε → ε → Bool
  picks : π → ε → ε → Bool
  admits_mono : ∀ {place l l' x}, l' ⊆ l → admits place l x = true → admits place l' x = true
  picks_self : ∀ place x, picks place x x = true

variable {π ε : Type}

/-- The place a command changes. -/
def Change.place? : Change π ε → Option π
  | add place _ | remove place _ | put place _ => some place
  | unknown => none

section Lists

variable (sys : System π ε)

/-- What a command does to the entries of its place. -/
def Change.effect (l : List ε) : Change π ε → List ε
  | add _ entry => l ++ [entry]
  | remove place entry => l.eraseP (sys.picks place entry)
  | put _ entries => entries
  | unknown => l

/-- Whether the system accepts a command, by the entries of its place. -/
def Change.accepted (l : List ε) : Change π ε → Bool
  | add place entry => sys.admits place l entry
  | remove place entry => l.any (sys.picks place entry)
  | put _ _ => true
  | unknown => false

end Lists

/-! ## Running a script -/

/-- One instruction of a script. -/
inductive Instr (π ε : Type) where
  /-- Run a command and ignore its error. -/
  | attempt (c : Change π ε)
  /-- Run a command, stop if it fails, and add its undo step to the chain. -/
  | install (c : Change π ε) (undo : Option (Change π ε))
  /-- Add a step to the chain. -/
  | defer (undo : Change π ε)
  /-- Stop with an error. -/
  | abort

/-- How far a script has come: the store, the chain and the number of installing commands run. -/
structure Progress (π ε : Type) where
  store : Store π ε
  chain : List (Change π ε) := []
  installs : Nat := 0

section Run

variable [DecidableEq π] (sys : System π ε)

/-- The store after a command, or `none` when the command fails. -/
def Change.perform (c : Change π ε) (s : Store π ε) : Option (Store π ε) :=
  match c.place? with
  | none => none
  | some place =>
    if c.accepted sys (s place) then some (Function.update s place (c.effect sys (s place)))
    else none

/-- The store after a command whose error is ignored. -/
def Change.attempted (s : Store π ε) (c : Change π ε) : Store π ε := (c.perform sys s).getD s

/-- Run an instruction; `refuses` says which installing commands fail for reasons of their own. -/
def Instr.exec (refuses : Nat → Bool) (p : Progress π ε) :
    Instr π ε → Except (Progress π ε) (Progress π ε)
  | attempt c => .ok { p with store := c.attempted sys p.store }
  | install c undo =>
    match if refuses p.installs then none else c.perform sys p.store with
    | none => .error { p with installs := p.installs + 1 }
    | some store => .ok ⟨store, undo.toList ++ p.chain, p.installs + 1⟩
  | defer undo => .ok { p with chain := undo :: p.chain }
  | abort => .error p

/-- Run the instructions in turn; an error carries the progress made. -/
def exec (refuses : Nat → Bool) (script : List (Instr π ε)) (p : Progress π ε) :
    Except (Progress π ε) (Progress π ε) :=
  script.foldlM (Instr.exec sys refuses) p

/-- Run the chain, past individual failures. -/
def teardown (chain : List (Change π ε)) (s : Store π ε) : Store π ε :=
  chain.foldl (Change.attempted sys) s

/-- Run a script from a store: the store at the end and, if it succeeded, the chain that undoes
it; a script that fails runs its chain. -/
def runScript (refuses : Nat → Bool) (script : List (Instr π ε)) (s : Store π ε) :
    Store π ε × Option (List (Change π ε)) :=
  match exec sys refuses script { store := s } with
  | .ok p => (p.store, some p.chain)
  | .error p => (teardown sys p.chain p.store, none)

variable {sys} {refuses : Nat → Bool} {script : List (Instr π ε)} {chain : List (Change π ε)}
  {place : π}

/-- What an attempted removal leaves. -/
@[simp] theorem attempted_remove (s : Store π ε) (place : π) (entry : ε) :
    Change.attempted sys s (.remove place entry) =
      Function.update s place ((s place).eraseP (sys.picks place entry)) := by
  cases hany : (s place).any (sys.picks place entry) with
  | true => simp [Change.attempted, Change.perform, Change.place?, Change.accepted,
      Change.effect, hany]
  | false =>
    have hnone : ∀ x ∈ s place, ¬ sys.picks place entry x = true := List.any_eq_false.mp hany
    simp [Change.attempted, Change.perform, Change.place?, Change.accepted, hany,
      List.eraseP_of_forall_not hnone]

/-- What an attempted put leaves. -/
@[simp] theorem attempted_put (s : Store π ε) (place : π) (entries : List ε) :
    Change.attempted sys s (.put place entries) = Function.update s place entries := by
  simp [Change.attempted, Change.perform, Change.place?, Change.accepted, Change.effect]

/-- A command that has its effect was accepted at its place. -/
theorem perform_eq_some {c : Change π ε} {s s' : Store π ε} (hplace : c.place? = some place) :
    c.perform sys s = some s' ↔
      c.accepted sys (s place) = true ∧ Function.update s place (c.effect sys (s place)) = s' := by
  simp only [Change.perform, hplace]
  split <;> simp_all

/-- An installing command that succeeds has its effect and adds its undo step. -/
theorem exec_install_eq_ok {c : Change π ε} {undo : Option (Change π ε)} {p p' : Progress π ε} :
    (Instr.install c undo).exec sys refuses p = .ok p' ↔
      refuses p.installs = false ∧ ∃ store, c.perform sys p.store = some store ∧
        p' = ⟨store, undo.toList ++ p.chain, p.installs + 1⟩ := by
  cases hrefuses : refuses p.installs with
  | true => simp [Instr.exec, hrefuses]
  | false =>
    cases hperform : c.perform sys p.store with
    | none => simp [Instr.exec, hrefuses, hperform]
    | some store =>
      simp only [Instr.exec, hrefuses, hperform, Bool.false_eq_true, if_false,
        Except.ok.injEq, Option.some.injEq, exists_eq_left', true_and]
      exact eq_comm

/-- A script fails with the progress its instructions before the failing one made. -/
theorem exec_eq_error {p q : Progress π ε} (h : exec sys refuses script p = .error q) :
    ∃ part p', part <+: script ∧ exec sys refuses part p = .ok p' ∧ q.store = p'.store ∧
      q.chain = p'.chain := by
  induction script generalizing p with
  | nil => cases h
  | cons i script ih =>
    rw [exec, List.foldlM_cons] at h
    cases hstep : i.exec sys refuses p with
    | ok next =>
      rw [hstep] at h
      obtain ⟨part, p', hpart, hexec, hstore⟩ := ih h
      refine ⟨i :: part, p', (List.prefix_cons_inj i).mpr hpart, ?_, hstore⟩
      rw [exec, List.foldlM_cons, hstep]
      exact hexec
    | error e =>
      rw [hstep] at h
      cases h
      refine ⟨[], p, List.nil_prefix, rfl, ?_⟩
      cases i with
      | attempt | defer => cases hstep
      | abort =>
        cases hstep
        exact ⟨rfl, rfl⟩
      | install c undo =>
        simp only [Instr.exec] at hstep
        split at hstep <;> cases hstep
        exact ⟨rfl, rfl⟩

/-- A script succeeds with the store and the chain its instructions leave. -/
theorem runScript_eq_some {s s' : Store π ε} :
    runScript sys refuses script s = (s', some chain) ↔
      ∃ q, exec sys refuses script { store := s } = .ok q ∧ q.store = s' ∧ q.chain = chain := by
  unfold runScript
  cases exec sys refuses script { store := s } with
  | ok q => simp
  | error q => simp

/-! ## Undoing a script -/

/-- The entries a chain removes from a place. -/
def removals (place : π) (chain : List (Change π ε)) : List ε :=
  chain.filterMap fun
    | .remove p entry => if p = place then some entry else none
    | _ => none

/-- The removals of a chain. -/
theorem mem_removals {entry : ε} : entry ∈ removals place chain ↔ .remove place entry ∈ chain := by
  rw [removals, List.mem_filterMap]
  constructor
  · rintro ⟨c, hc, heq⟩
    cases c with
    | remove p x =>
      by_cases hp : p = place
      · simp only [hp, if_true, Option.some.injEq] at heq
        rwa [← heq, ← hp]
      · simp [hp] at heq
    | add | put | unknown => cases heq
  · exact fun h => ⟨_, h, by simp⟩

/-- Entries that can be told apart: those that one removal picks are not held together. -/
def Apart (sys : System π ε) (place : π) (own : List ε) : Prop :=
  ∀ x ∈ own, ∀ l ⊆ own, sys.admits place l x = true → ∀ w ∈ l, ∀ y ∈ own,
    sys.picks place y x = true → sys.picks place y w = true → w = x

/-- A store and the entries `own` that a script adds to it, but for the places `puts`, which it
overwrites: the entries can be told apart, and their removals pick nothing of the store. -/
structure Fits (sys : System π ε) (s : Store π ε) (puts : π → Prop) (own : π → List ε) :
    Prop where
  apart : ∀ place, ¬ puts place → Apart sys place (own place)
  fresh : ∀ place, ¬ puts place → ∀ x ∈ own place, ∀ y ∈ s place, sys.picks place x y = false

/-- A change that leads back to the store `s`: it puts a place of `puts` back, or removes an entry
of `own` from another place. -/
inductive LeadsBack (s : Store π ε) (puts : π → Prop) (own : π → List ε) : Change π ε → Prop where
  | put {place : π} (h : puts place) : LeadsBack s puts own (.put place (s place))
  | remove {place : π} {entry : ε} (h : ¬ puts place) (hown : entry ∈ own place) :
      LeadsBack s puts own (.remove place entry)

/-- The removal of an entry of the list picks no other entry of it. -/
def Coherent (sys : System π ε) (place : π) (l : List ε) : Prop :=
  ∀ x ∈ l, ∀ y ∈ l, sys.picks place x y = true → y = x

/-- Progress whose chain gives the store `s` back. -/
structure Undoable (sys : System π ε) (s : Store π ε) (puts : π → Prop) (own : π → List ε)
    (p : Progress π ε) : Prop where
  chain : ∀ c ∈ p.chain, LeadsBack s puts own c
  added : ∀ place, ¬ puts place → ∃ l, p.store place = s place ++ l ∧
    l.Subperm (removals place p.chain) ∧ Coherent sys place l
  kept : ∀ place, puts place → p.store place = s place ∨ .put place (s place) ∈ p.chain

section Undo

variable {s : Store π ε} {puts : π → Prop} {own : π → List ε} {deferred : List π}

omit [DecidableEq π] in
/-- Fewer entries. -/
theorem Coherent.sublist {l l' : List ε} (h : Coherent sys place l) (hl : l'.Sublist l) :
    Coherent sys place l' :=
  fun x hx y hy => h x (hl.subset hx) y (hl.subset hy)

omit [DecidableEq π] in
/-- A list whose entries are all to be removed has one removal less to go after the first. -/
theorem Coherent.subperm_eraseP {l r : List ε} {x : ε} (h : Coherent sys place l)
    (hl : l.Subperm (x :: r)) : (l.eraseP (sys.picks place x)).Subperm r := by
  by_cases hx : x ∈ l
  · -- what is removed is `x`
    obtain ⟨y, l₁, l₂, -, hy, rfl, herase⟩ := List.exists_of_eraseP hx (sys.picks_self place x)
    obtain rfl : y = x := h x hx y (by simp) hy
    rw [herase]
    exact (List.subperm_cons y).mp (List.perm_middle.symm.subperm.trans hl)
  · obtain ⟨l', hperm, hsub⟩ := hl
    have hx' : x ∉ l' := fun hmem => hx (hperm.subset hmem)
    rcases List.sublist_cons_iff.mp hsub with hsub | ⟨_, rfl, -⟩
    · exact List.eraseP_sublist.subperm.trans (hperm.symm.subperm.trans hsub.subperm)
    · exact absurd List.mem_cons_self hx'

/-- Tearing down a place that is not put back removes entries that were added, and all of them if
the chain has a removal for each. -/
theorem teardown_removes (hfits : Fits sys s puts own)
    (hchain : ∀ c ∈ chain, LeadsBack s puts own c) (hplace : ¬ puts place) {s' : Store π ε}
    {l : List ε} (hs' : s' place = s place ++ l) :
    ∃ l', l'.Sublist l ∧ teardown sys chain s' place = s place ++ l' ∧
      (Coherent sys place l → l.Subperm (removals place chain) → l' = []) := by
  induction chain generalizing s' l with
  | nil => exact ⟨l, List.Sublist.refl l, hs', fun _ hl => List.subperm_nil.mp hl⟩
  | cons c chain ih =>
    obtain ⟨hc, hrest⟩ := List.forall_mem_cons.mp hchain
    have ih : ∀ l₁, c.attempted sys s' place = s place ++ l₁ → _ := fun _ => ih hrest
    rw [teardown, List.foldl_cons, ← teardown]
    cases hc with
    | put h =>
      have hne : place ≠ _ := fun heq => hplace (heq ▸ h)
      simpa [removals] using ih l (by simpa [Function.update_of_ne hne] using hs')
    | @remove p entry h hown =>
      by_cases hp : place = p
      · subst hp
        have hpast : ∀ y ∈ s place, ¬ sys.picks place entry y = true := fun y hy => by
          simp [hfits.fresh place hplace entry hown y hy]
        obtain ⟨l', hsub, heq, hnil⟩ := ih (l.eraseP (sys.picks place entry))
          (by simp [hs', List.eraseP_append_right _ hpast])
        refine ⟨l', hsub.trans List.eraseP_sublist, heq, fun hcoherent hl => ?_⟩
        refine hnil (hcoherent.sublist List.eraseP_sublist) (hcoherent.subperm_eraseP ?_)
        simpa [removals] using hl
      · simpa [removals, Ne.symm hp] using
          ih l (by simpa [Function.update_of_ne hp] using hs')

/-- Tearing down a place that is put back gives its entries back. -/
theorem teardown_puts (hchain : ∀ c ∈ chain, LeadsBack s puts own c) (hplace : puts place)
    {s' : Store π ε} (h : s' place = s place ∨ .put place (s place) ∈ chain) :
    teardown sys chain s' place = s place := by
  induction chain generalizing s' with
  | nil => simpa [teardown] using h
  | cons c chain ih =>
    rw [teardown, List.foldl_cons, ← teardown]
    refine ih (fun d hd => hchain d (by simp [hd])) ?_
    cases hchain c (by simp) with
    | @put p hp =>
      by_cases heq : place = p
      · subst heq
        simp
      · simpa [Function.update_of_ne heq, heq] using h
    | @remove p entry hp hown =>
      have hne : place ≠ p := fun heq => hp (heq ▸ hplace)
      simpa [Function.update_of_ne hne] using h

/-- Running the chain of undoable progress gives the first store back. -/
theorem Undoable.teardown_eq {p : Progress π ε} (hfits : Fits sys s puts own)
    (h : Undoable sys s puts own p) : teardown sys p.chain p.store = s := by
  funext place
  by_cases hplace : puts place
  · exact teardown_puts h.chain hplace (h.kept place hplace)
  · obtain ⟨l, hl, hsub, hcoherent⟩ := h.added place hplace
    obtain ⟨l', -, heq, hnil⟩ := teardown_removes hfits h.chain hplace hl
    rw [heq, hnil hcoherent hsub, List.append_nil]

/-- An instruction whose undo step leads back to `s`; `deferred` are the places whose entries the
chain puts back already. -/
inductive Tidy (sys : System π ε) (s : Store π ε) (puts : π → Prop) (own : π → List ε)
    (deferred : List π) : Instr π ε → Prop where
  | attemptRemove {place : π} {entry : ε} (h : ¬ puts place)
      (hfresh : ∀ y ∈ s place, sys.picks place entry y = false) :
      Tidy sys s puts own deferred (.attempt (.remove place entry))
  | attemptPut {place : π} (h : puts place) :
      Tidy sys s puts own deferred (.attempt (.put place (s place)))
  | installAdd {place : π} {entry : ε} (h : ¬ puts place) (hown : entry ∈ own place) :
      Tidy sys s puts own deferred (.install (.add place entry) (some (.remove place entry)))
  | installPut {place : π} {entries : List ε} (h : puts place) :
      Tidy sys s puts own deferred (.install (.put place entries) (some (.put place (s place))))
  | fill {place : π} {entry : ε} (h : puts place) (hplace : place ∈ deferred) :
      Tidy sys s puts own deferred (.install (.add place entry) none)
  | defer {place : π} (h : puts place) :
      Tidy sys s puts own deferred (.defer (.put place (s place)))
  | abort : Tidy sys s puts own deferred .abort

/-- One more removal. -/
theorem removals_cons_remove (place p : π) (entry : ε) (chain : List (Change π ε)) :
    removals place (.remove p entry :: chain) =
      if p = place then entry :: removals place chain else removals place chain := by
  by_cases hp : p = place <;> simp [removals, hp]

/-- A put removes nothing. -/
theorem removals_cons_put (place p : π) (entries : List ε) (chain : List (Change π ε)) :
    removals place (.put p entries :: chain) = removals place chain := by
  simp [removals]

/-- What the chain removes is its own. -/
theorem Undoable.subset_own {p : Progress π ε} (hp : Undoable sys s puts own p) {l : List ε}
    (hl : l.Subperm (removals place p.chain)) : l ⊆ own place := by
  intro x hx
  cases hp.chain _ (mem_removals.mp (hl.subset hx)) with
  | remove _ hown => exact hown

omit [DecidableEq π] in
/-- An entry that is admitted next to others can be told apart from them. -/
theorem Coherent.concat {l : List ε} {x : ε} (h : Coherent sys place l)
    (hapart : Apart sys place (own place)) (hl : l ⊆ own place) (hx : x ∈ own place)
    (hadmits : sys.admits place l x = true) : Coherent sys place (l ++ [x]) := by
  have hself := sys.picks_self place
  intro y hy z hz hpicks
  simp only [List.mem_append, List.mem_singleton] at hy hz
  rcases hy with hy | rfl <;> rcases hz with hz | rfl
  · exact h y hy z hz hpicks
  · exact (hapart z hx l hl hadmits y hy y (hl hy) hpicks (hself y)).symm
  · exact hapart y hx l hl hadmits z hz y hx (hself y) hpicks
  · rfl

/-- A tidy instruction keeps progress undoable, and steps of the chain stay in it. -/
theorem Undoable.step (hfits : Fits sys s puts own) {i : Instr π ε} {p p' : Progress π ε}
    (hp : Undoable sys s puts own p) (hi : Tidy sys s puts own deferred i)
    (hdeferred : ∀ place ∈ deferred, .put place (s place) ∈ p.chain)
    (h : i.exec sys refuses p = .ok p') : Undoable sys s puts own p' ∧ p.chain ⊆ p'.chain := by
  cases hi with
  | @attemptRemove place entry hplace hfresh =>
    cases h
    refine ⟨⟨hp.chain, fun q hq => ?_, fun q hq => ?_⟩, fun _ => id⟩
    · obtain ⟨l, hl, hsub, hcoherent⟩ := hp.added q hq
      by_cases heq : q = place
      · subst heq
        have hpast : ∀ y ∈ s q, ¬ sys.picks q entry y = true := fun y hy => by simp [hfresh y hy]
        refine ⟨l.eraseP (sys.picks q entry), ?_, List.eraseP_sublist.subperm.trans hsub,
          hcoherent.sublist List.eraseP_sublist⟩
        simp [hl, List.eraseP_append_right _ hpast]
      · exact ⟨l, by simpa [Function.update_of_ne heq] using hl, hsub, hcoherent⟩
    · have hne : q ≠ place := fun heq => hplace (heq ▸ hq)
      simpa [Function.update_of_ne hne] using hp.kept q hq
  | @attemptPut place hplace =>
    cases h
    refine ⟨⟨hp.chain, fun q hq => ?_, fun q hq => ?_⟩, fun _ => id⟩
    · have hne : q ≠ place := fun heq => hq (heq ▸ hplace)
      simpa [Function.update_of_ne hne] using hp.added q hq
    · by_cases heq : q = place
      · exact .inl (by simp [heq])
      · simpa [Function.update_of_ne heq] using hp.kept q hq
  | @installAdd place entry hplace hown =>
    obtain ⟨-, store, hstore, rfl⟩ := exec_install_eq_ok.mp h
    obtain ⟨hadmits, rfl⟩ := (perform_eq_some rfl).mp hstore
    refine ⟨⟨?_, fun q hq => ?_, fun q hq => ?_⟩, List.subset_cons_self _ _⟩
    · exact List.forall_mem_cons.mpr ⟨.remove hplace hown, hp.chain⟩
    · obtain ⟨l, hl, hsub, hcoherent⟩ := hp.added q hq
      simp only [Option.toList_some, List.cons_append, List.nil_append, removals_cons_remove]
      by_cases heq : q = place
      · -- one more entry at the place, one more removal in the chain
        subst heq
        have hadmits : sys.admits q l entry = true :=
          sys.admits_mono (List.subset_append_right (s q) l) (hl ▸ hadmits)
        refine ⟨l ++ [entry], by simp [Change.effect, hl], ?_, hcoherent.concat
          (hfits.apart q hq) (hp.subset_own hsub) hown hadmits⟩
        rw [if_pos rfl]
        exact (List.perm_append_singleton entry l).subperm.trans
          ((List.subperm_cons entry).mpr hsub)
      · refine ⟨l, by simpa [Function.update_of_ne heq] using hl, ?_, hcoherent⟩
        rwa [if_neg (Ne.symm heq)]
    · have hne : q ≠ place := fun heq => hplace (heq ▸ hq)
      simpa [Function.update_of_ne hne] using hp.kept q hq
  | @installPut place entries hplace =>
    obtain ⟨-, store, hstore, rfl⟩ := exec_install_eq_ok.mp h
    obtain ⟨-, rfl⟩ := (perform_eq_some rfl).mp hstore
    refine ⟨⟨?_, fun q hq => ?_, fun q hq => ?_⟩, List.subset_cons_self _ _⟩
    · exact List.forall_mem_cons.mpr ⟨.put hplace, hp.chain⟩
    · have hne : q ≠ place := fun heq => hq (heq ▸ hplace)
      simpa [Function.update_of_ne hne, removals_cons_put] using hp.added q hq
    · by_cases heq : q = place
      · exact .inr (by simp [heq])
      · simpa [Function.update_of_ne heq, heq] using hp.kept q hq
  | @fill place entry hplace hmem =>
    obtain ⟨-, store, hstore, rfl⟩ := exec_install_eq_ok.mp h
    obtain ⟨-, rfl⟩ := (perform_eq_some rfl).mp hstore
    refine ⟨⟨hp.chain, fun q hq => ?_, fun q hq => ?_⟩, fun _ => id⟩
    · have hne : q ≠ place := fun heq => hq (heq ▸ hplace)
      simpa [Function.update_of_ne hne] using hp.added q hq
    · by_cases heq : q = place
      · exact .inr (heq ▸ hdeferred place hmem)
      · simpa [Function.update_of_ne heq] using hp.kept q hq
  | @defer place hplace =>
    cases h
    refine ⟨⟨?_, fun q hq => ?_, fun q hq => ?_⟩, List.subset_cons_self _ _⟩
    · exact List.forall_mem_cons.mpr ⟨.put hplace, hp.chain⟩
    · simpa [removals_cons_put] using hp.added q hq
    · exact (hp.kept q hq).imp_right (List.mem_cons_of_mem _)
  | abort => cases h

/-- Every run of tidy instructions keeps progress undoable. -/
theorem exec_undoable (hfits : Fits sys s puts own) {p p' : Progress π ε}
    (hscript : ∀ i ∈ script, Tidy sys s puts own deferred i) (hp : Undoable sys s puts own p)
    (hdeferred : ∀ place ∈ deferred, .put place (s place) ∈ p.chain)
    (h : exec sys refuses script p = .ok p') : Undoable sys s puts own p' ∧ p.chain ⊆ p'.chain := by
  refine foldlM_invariant (fun q => Undoable sys s puts own q ∧ p.chain ⊆ q.chain) ?_ h
    ⟨hp, fun _ => id⟩
  rintro i hi q q' hstep ⟨hq, hsub⟩
  obtain ⟨hq', hsub'⟩ :=
    hq.step hfits (hscript i hi) (fun place hplace => hsub (hdeferred place hplace)) hstep
  exact ⟨hq', fun _ hc => hsub' (hsub hc)⟩

variable {head body : List (Instr π ε)}

/-- Nothing has been done yet. -/
theorem undoable_start (s : Store π ε) (puts : π → Prop) (own : π → List ε) :
    Undoable sys s puts own { store := s } :=
  ⟨by simp, fun _ _ => ⟨[], by simp, List.nil_subperm, by simp [Coherent]⟩, fun _ _ => .inl rfl⟩

end Undo

/-! ## Several scripts, each with its chain -/

/-- A script that runs while a chain is there puts its own in front of it. -/
theorem exec_on_chain {p q : Progress π ε} (h : exec sys refuses script p = .ok q)
    (chain : List (Change π ε)) :
    exec sys refuses script { p with chain := p.chain ++ chain } =
      .ok { q with chain := q.chain ++ chain } := by
  induction script generalizing p with
  | nil =>
    cases h
    rfl
  | cons i script ih =>
    rw [exec, List.foldlM_cons, bind_eq_ok] at h
    obtain ⟨next, hstep, hrest⟩ := h
    have hnext : i.exec sys refuses { p with chain := p.chain ++ chain } =
        .ok { next with chain := next.chain ++ chain } := by
      cases i with
      | attempt | defer =>
        cases hstep
        rfl
      | abort => cases hstep
      | install c undo =>
        obtain ⟨hrefuses, store, hperform, rfl⟩ := exec_install_eq_ok.mp hstep
        exact exec_install_eq_ok.mpr ⟨hrefuses, store, hperform, by simp⟩
    rw [exec, List.foldlM_cons, hnext]
    exact ih hrest

/-- A property of the entries of a place that the commands of a script keep. -/
theorem exec_keeps {P : List ε → Prop} {p q : Progress π ε}
    (hscript : ∀ c, (.attempt c ∈ script ∨ ∃ undo, .install c undo ∈ script) →
      c.place? = some place → ∀ l, P l → P (c.effect sys l)) (h : exec sys refuses script p = .ok q)
    (hp : P (p.store place)) : P (q.store place) := by
  have hperform : ∀ c s s', (.attempt c ∈ script ∨ ∃ undo, .install c undo ∈ script) →
      Change.perform sys c s = some s' → P (s place) → P (s' place) := by
    intro c s s' hc hs' hs
    cases hplace : c.place? with
    | none => simp [Change.perform, hplace] at hs'
    | some place' =>
      obtain ⟨-, rfl⟩ := (perform_eq_some hplace).mp hs'
      by_cases heq : place = place'
      · subst heq
        rw [Function.update_self]
        exact hscript c hc hplace _ hs
      · rwa [Function.update_of_ne heq]
  refine foldlM_invariant (fun q => P (q.store place)) ?_ h hp
  intro i hi q q' hstep hq
  cases i with
  | attempt c =>
    cases hstep
    unfold Change.attempted
    cases hs' : c.perform sys q.store with
    | none => exact hq
    | some s' => exact hperform c _ _ (.inl hi) hs' hq
  | install c undo =>
    obtain ⟨-, store, hstore, rfl⟩ := exec_install_eq_ok.mp hstep
    exact hperform c _ _ (.inr ⟨undo, hi⟩) hstore hq
  | defer =>
    cases hstep
    exact hq
  | abort => cases hstep

/-- Undo scripts from the latest to the first. -/
def unwind (sys : System π ε) (stack : List (List (Change π ε))) (s : Store π ε) :
    Store π ε :=
  stack.foldl (fun s chain => teardown sys chain s) s

/-- A stack is unwound like one chain. -/
theorem unwind_eq (stack : List (List (Change π ε))) (s : Store π ε) :
    unwind sys stack s = teardown sys stack.flatten s := by
  rw [teardown, List.foldl_flatten]
  rfl

/-- A tidy script on top of what is undoable: what it leaves is, and if it fails the store it
leaves is undone by the chains that were there. -/
theorem Undoable.runScript {s : Store π ε} {puts : π → Prop} {own : π → List ε}
    (hfits : Fits sys s puts own) {store : Store π ε}
    (hp : Undoable sys s puts own { store := store, chain := chain })
    (hscript : ∀ i ∈ script, Tidy sys s puts own [] i) {store' : Store π ε}
    {result : Option (List (Change π ε))}
    (h : Library.runScript sys refuses script store = (store', result)) :
    (∀ chain', result = some chain' →
      Undoable sys s puts own { store := store', chain := chain' ++ chain }) ∧
    (result = none → teardown sys chain store' = s) := by
  have hpart : ∀ part, part <+: script → ∀ q,
      exec sys refuses part { store := store } = .ok q →
        Undoable sys s puts own { q with chain := q.chain ++ chain } := by
    intro part hpart q hq
    have hexec : exec sys refuses part { store := store, chain := chain } =
        .ok { q with chain := q.chain ++ chain } := by
      simpa using exec_on_chain hq chain
    exact (exec_undoable hfits (fun i hi => hscript i (hpart.subset hi)) hp (by simp) hexec).1
  unfold Library.runScript at h
  split at h
  · next q hq =>
      cases h
      refine ⟨fun chain' heq => ?_, by simp⟩
      obtain ⟨hchain, hadded, hkept⟩ := hpart script (List.prefix_refl _) q hq
      cases heq
      exact ⟨hchain, hadded, hkept⟩
  · next q hq =>
      cases h
      refine ⟨by simp, fun _ => ?_⟩
      obtain ⟨part, p', hprefix, hp', hstore, hchain⟩ := exec_eq_error hq
      have hundo : teardown sys (p'.chain ++ chain) p'.store = s :=
        (hpart part hprefix p' hp').teardown_eq hfits
      rw [hstore, hchain, ← hundo]
      simp only [teardown, List.foldl_append]

end Run

end Dualnet.Library
