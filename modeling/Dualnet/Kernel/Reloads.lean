import Dualnet.Kernel.Host
import Dualnet.Library.Runs

/-!
# Reloads of geo sets, one after the other

`watchReload` of `kernelnode/run_linux.go`: on SIGHUP one goroutine reloads every geo set, and a
goroutine of its own reloads a set at its interval. Each flush and each line of a batch is a
command of its own, between which the others may run theirs; `reloadMu` is what keeps them apart.

`reloads_serialized`: at all times a table that is not being reloaded holds what its latest reload
alone makes of the machine `apply` left, and nothing but geo tables is touched.
-/

namespace Dualnet.Kernel

open Library Text Config

/-- A `loadGeo` that has `reloadMu`: before its flush, before it reads its set, and with the lines
of its batch that are left. -/
inductive Loading where
  | flush (g : GeoBinding)
  | read (g : GeoBinding)
  | batch (g : GeoBinding) (files : String → Except String String) (lines : List Argv)

/-- The goroutines of `watchReload` and the machine. -/
structure Reloads where
  host : Host
  /-- The sets that `reloadAll` has still to reload, while the SIGHUP goroutine is in it. -/
  signalled : Option (List GeoBinding) := none
  /-- Who has the mutex, and whether it is the SIGHUP goroutine. -/
  loading : Option (Loading × Bool) := none

inductive ReloadEvent where
  /-- The SIGHUP goroutine takes a signal. -/
  | signal
  /-- It locks the mutex for its next set. -/
  | lockSignalled
  /-- It has reloaded all sets. -/
  | signalDone
  /-- The interval of a set is over and its goroutine locks the mutex. -/
  | lockTick (g : GeoBinding)
  | flush
  /-- The reload reads its set from the files as they are now. -/
  | read (files : String → Except String String)
  /-- The batch runs its next line. -/
  | line
  /-- The batch is done. -/
  | unlock

/-- A reload that is over: its set and the files it read. -/
abbrev Reload := GeoBinding × (String → Except String String)

abbrev ReloadHistory := List (ReloadEvent × Option Reload)

/-- One step, and the reload that it ends. `ticks` are the sets with a reload interval. -/
def reloadStep (p : Plan) (ticks : GeoBinding → Bool) (s : Reloads) :
    ReloadEvent → Option (Reloads × Option Reload)
  | .signal =>
    if s.signalled.isNone && !p.geo.isEmpty then
      some ({ s with signalled := some p.geo }, none)
    else none
  | .lockSignalled => match s.loading, s.signalled with
      | none, some (g :: rest) =>
        some ({ s with signalled := some rest, loading := some (.flush g, true) }, none)
      | _, _ => none
  | .signalDone => match s.signalled with
      | some [] =>
        if s.loading.any Prod.snd then none else some ({ s with signalled := none }, none)
      | _ => none
  | .lockTick g =>
    if s.loading.isNone && p.geo.contains g && ticks g then
      some ({ s with loading := some (.flush g, false) }, none)
    else none
  | .flush => match s.loading with
      | some (.flush g, own) =>
        let host := (command (flushTable g.table)).attempted machine s.host
        some ({ s with host, loading := some (.read g, own) }, none)
      | _ => none
  | .read files => match s.loading with
      | some (.read g, own) => match readPrefixes files g.set with
          | .error _ => some ({ s with loading := none }, some (g, files))
          | .ok prefixes =>
            let lines := prefixes.map fun cidr => geoRoute cidr g.wan g.table
            some ({ s with loading := some (.batch g files lines, own) }, none)
      | _ => none
  | .line => match s.loading with
      | some (.batch g files (line :: lines), own) =>
        match (command line).perform machine s.host with
        | none => some ({ s with loading := none }, some (g, files))
        | some host => some ({ s with host, loading := some (.batch g files lines, own) }, none)
      | _ => none
  | .unlock => match s.loading with
      | some (.batch g files [], _) => some ({ s with loading := none }, some (g, files))
      | _ => none

/-- The runs of the goroutines on the machine that `apply` left. -/
abbrev ReloadRun (p : Plan) (ticks : GeoBinding → Bool) (h₀ : Host) :
    Reloads → ReloadHistory → Prop :=
  Reached (reloadStep p ticks) (fun _ _ _ => True) { host := h₀ }

/-- The set that is being loaded. -/
def Loading.binding : Loading → GeoBinding
  | .flush g | .read g | .batch g _ _ => g

/-- The latest reload of a table that is over. -/
def latest (place : Place) : ReloadHistory → Option Reload
  | [] => none
  | (_, none) :: history => latest place history
  | (_, some r) :: history => if .table r.1.table = place then some r else latest place history

/-- Every table as its latest reload alone makes it. -/
def settled (h₀ : Host) (history : ReloadHistory) : Host := fun place =>
  (latest place history).elim (h₀ place) fun r => (h₀.loadGeo r.2 r.1).1 place

/-! ## One reload -/

section Loads

variable {g : GeoBinding} {files : String → Except String String} {h h' : Host} {place : Place}

/-- A batch for a table leaves the rest alone. -/
theorem runBatch_of_ne (prefixes : List String) (hplace : place ≠ .table g.table) :
    (runBatch (prefixes.map fun cidr => geoRoute cidr g.wan g.table) h).1 place = h place := by
  induction prefixes generalizing h with
  | nil => rfl
  | cons cidr prefixes ih =>
    simp only [List.map_cons, runBatch, perform_geoRoute]
    split
    · rfl
    · next hperform =>
        obtain ⟨-, hperform⟩ := Option.ite_none_right_eq_some.mp hperform
        obtain rfl := Option.some.inj hperform
        rw [ih, Function.update_of_ne hplace]

/-- What it makes of the table depends on the table only. -/
theorem runBatch_congr (prefixes : List String)
    (htable : h (.table g.table) = h' (.table g.table)) :
    (runBatch (prefixes.map fun cidr => geoRoute cidr g.wan g.table) h).1 (.table g.table) =
      (runBatch (prefixes.map fun cidr => geoRoute cidr g.wan g.table) h').1 (.table g.table) := by
  induction prefixes generalizing h h' with
  | nil => exact htable
  | cons cidr prefixes ih =>
    simp only [List.map_cons, runBatch, perform_geoRoute, htable]
    by_cases hfresh : (h' (.table g.table)).all (·.head? != some cidr)
    · rw [if_pos hfresh, if_pos hfresh]
      exact ih (by simp only [Function.update_self])
    · rw [if_neg hfresh, if_neg hfresh]
      exact htable

/-- A reload leaves other places alone. -/
theorem loadGeo_of_ne (hplace : place ≠ .table g.table) :
    (h.loadGeo files g).1 place = h place := by
  rcases hread : readPrefixes files g.set with e | prefixes
  · rw [loadGeo_error hread]
    exact Function.update_of_ne hplace _ _
  · rw [loadGeo_ok hread, runBatch_of_ne prefixes hplace, Function.update_of_ne hplace]

/-- What a reload makes of its table does not depend on what was there. -/
theorem loadGeo_table : (h.loadGeo files g).1 (.table g.table) =
    (h'.loadGeo files g).1 (.table g.table) := by
  have hflushed : Function.update h (.table g.table) [] (.table g.table) =
      Function.update h' (.table g.table) [] (.table g.table) := by
    rw [Function.update_self, Function.update_self]
  rcases hread : readPrefixes files g.set with e | prefixes
  · rw [loadGeo_error hread, loadGeo_error hread]
    exact hflushed
  · rw [loadGeo_ok hread, loadGeo_ok hread]
    exact runBatch_congr prefixes hflushed

/-- A reload that ends is the latest of its table. -/
theorem settled_cons {h₀ : Host} {event : ReloadEvent} {r : Reload} {history : ReloadHistory} :
    settled h₀ ((event, some r) :: history) = ((settled h₀ history).loadGeo r.2 r.1).1 := by
  funext place
  by_cases hplace : .table r.1.table = place
  · subst hplace
    simp only [settled, latest, if_true, Option.elim_some]
    exact loadGeo_table
  · rw [loadGeo_of_ne (Ne.symm hplace)]
    simp only [settled, latest, hplace, if_false]

end Loads

/-! ## All reloads -/

/-- How far the reload under way has changed the machine `base`; what is left of it makes
`loadGeo` of it. -/
def Partly (base host : Host) : Option Loading → Prop
  | none | some (.flush _) => host = base
  | some (.read g) => host = Function.update base (.table g.table) []
  | some (.batch g files lines) => (runBatch lines host).1 = (base.loadGeo files g).1 ∧
      ∃ prefixes : List String, lines = prefixes.map fun cidr => geoRoute cidr g.wan g.table

section Serial

variable {p : Plan} {ticks : GeoBinding → Bool} {h₀ base : Host} {s s' : Reloads}
  {event : ReloadEvent} {out : Option Reload} {history : ReloadHistory}

/-- Places other than the table under way are as before the reload. -/
theorem Partly.of_ne {host : Host} {loading : Option Loading} (h : Partly base host loading)
    {place : Place} (hplace : ∀ l ∈ loading, place ≠ .table l.binding.table) :
    host place = base place := by
  cases loading with
  | none => exact congrFun h place
  | some l =>
    cases l with
    | flush g => exact congrFun h place
    | read g => exact (congrFun h place).trans (Function.update_of_ne (hplace _ rfl) _ _)
    | batch g files lines =>
      have hne : place ≠ .table g.table := hplace _ rfl
      obtain ⟨hrest, prefixes, rfl⟩ := h
      calc host place
          = (runBatch (prefixes.map fun cidr => geoRoute cidr g.wan g.table) host).1 place :=
            (runBatch_of_ne prefixes hne).symm
        _ = (base.loadGeo files g).1 place := congrFun hrest place
        _ = base place := loadGeo_of_ne hne

/-- One step, with the reload that it ends made at once. -/
theorem Partly.step (h : Partly base s.host (s.loading.map Prod.fst))
    (htaken : reloadStep p ticks s event = some (s', out)) :
    Partly (out.elim base fun r => (base.loadGeo r.2 r.1).1) s'.host
      (s'.loading.map Prod.fst) := by
  cases event with
  | signal =>
    obtain ⟨-, htaken⟩ := Option.ite_none_right_eq_some.mp htaken
    obtain ⟨rfl, rfl⟩ := pair_inj htaken
    exact h
  | lockSignalled =>
    simp only [reloadStep] at htaken
    split at htaken
    · next g rest hloading _ =>
        obtain ⟨rfl, rfl⟩ := pair_inj htaken
        rw [hloading] at h
        exact h
    · cases htaken
  | signalDone =>
    simp only [reloadStep] at htaken
    split at htaken
    · obtain ⟨-, htaken⟩ := Option.ite_none_left_eq_some.mp htaken
      obtain ⟨rfl, rfl⟩ := pair_inj htaken
      exact h
    · cases htaken
  | lockTick g =>
    obtain ⟨hfree, htaken⟩ := Option.ite_none_right_eq_some.mp htaken
    obtain ⟨rfl, rfl⟩ := pair_inj htaken
    simp only [Bool.and_eq_true, Option.isNone_iff_eq_none] at hfree
    rw [hfree.1.1] at h
    exact h
  | flush =>
    simp only [reloadStep] at htaken
    split at htaken
    · next g own hloading =>
        obtain ⟨rfl, rfl⟩ := pair_inj htaken
        rw [hloading] at h
        change Change.attempted machine s.host _ = Function.update base _ []
        rw [command_flushTable, attempted_put, show s.host = base from h]
    · cases htaken
  | read files =>
    simp only [reloadStep] at htaken
    split at htaken
    · next g own hloading =>
        rw [hloading] at h
        replace h : s.host = Function.update base (.table g.table) [] := h
        split at htaken
        · next e hread =>
            obtain ⟨rfl, rfl⟩ := pair_inj htaken
            change s.host = (base.loadGeo files g).1
            rw [h, loadGeo_error hread]
        · next prefixes hread =>
            obtain ⟨rfl, rfl⟩ := pair_inj htaken
            refine ⟨?_, prefixes, rfl⟩
            change (runBatch _ s.host).1 = (base.loadGeo files g).1
            rw [h, loadGeo_ok hread]
    · cases htaken
  | line =>
    simp only [reloadStep] at htaken
    split at htaken
    · next g files line lines own hloading =>
        rw [hloading] at h
        obtain ⟨hrest, prefixes, hlines⟩ := h
        split at htaken
        · next hperform =>
            obtain ⟨rfl, rfl⟩ := pair_inj htaken
            simp only [runBatch, hperform] at hrest
            exact hrest
        · next host hperform =>
            obtain ⟨rfl, rfl⟩ := pair_inj htaken
            simp only [runBatch, hperform] at hrest
            obtain ⟨cidr, prefixes', -, -, hlines'⟩ := List.map_eq_cons_iff.mp hlines.symm
            exact ⟨hrest, prefixes', hlines'.symm⟩
    · cases htaken
  | unlock =>
    simp only [reloadStep] at htaken
    split at htaken
    · next g files own hloading =>
        obtain ⟨rfl, rfl⟩ := pair_inj htaken
        rw [hloading] at h
        exact h.1
    · cases htaken

/-- However the goroutines interleave, a place that is not under reload is at all times what its
latest reload, by itself and in one step, makes of the machine that `apply` left; a place without
reloads is as `apply` left it. -/
theorem reloads_serialized (hrun : ReloadRun p ticks h₀ s history) {place : Place}
    (hfree : ∀ l ∈ s.loading, place ≠ .table l.1.binding.table) :
    s.host place = (latest place history).elim (h₀ place) fun r =>
      (h₀.loadGeo r.2 r.1).1 place := by
  have hpartly : Partly (settled h₀ history) s.host (s.loading.map Prod.fst) := by
    refine hrun.invariant (fun (s : Reloads) history =>
      Partly (settled h₀ history) s.host (s.loading.map Prod.fst)) ?_ ?_
    · rfl
    · intro s history event s' out hbefore _ htaken
      have hafter := hbefore.step htaken
      cases out with
      | none => exact hafter
      | some r =>
        rw [settled_cons]
        exact hafter
  refine hpartly.of_ne fun l hl => ?_
  obtain ⟨l', hl', rfl⟩ := Option.map_eq_some_iff.mp hl
  exact hfree l' hl'

/-- A signal comes while the set's own goroutine has flushed the table, and waits for it; the table
is then what the reload for the signal makes of it, with nothing of the one before. -/
theorem reloads_serialized_overlap : ∃ s history,
    ReloadRun { geo := [iranGeo] } (fun _ => true) geoLoaded s history ∧ s.loading = none ∧
    history.filterMap Prod.snd =
      [(iranGeo, fun _ => .ok "5.2.0.0/16\n"), (iranGeo, fun _ => .ok "5.1.0.0/16\n")] ∧
    s.host (.table iranGeo.table) =
      (geoLoaded.loadGeo (fun _ => .ok "5.2.0.0/16\n") iranGeo).1 (.table iranGeo.table) := by
  have hold : readPrefixes (fun _ => .ok "5.1.0.0/16\n") iranGeo.set = .ok ["5.1.0.0/16"] := by
    decide +kernel
  have hnew : readPrefixes (fun _ => .ok "5.2.0.0/16\n") iranGeo.set = .ok ["5.2.0.0/16"] := by
    decide +kernel
  have begin : ReloadRun { geo := [iranGeo] } (fun _ => true) geoLoaded _ [] := .init
  have hticked := ((begin.next (.lockTick iranGeo) trivial rfl).next .flush trivial rfl).next
    .signal trivial rfl
  have hbatch := hticked.next (.read fun _ => .ok "5.1.0.0/16\n") trivial
    (by simp only [reloadStep, hold]; rfl)
  have hline := hbatch.next .line trivial
    (by simp only [reloadStep, List.map_cons, perform_geoRoute]; rfl)
  have hsignalled := (((hline.next .unlock trivial rfl).next .lockSignalled trivial rfl).next
    .flush trivial rfl).next (.read fun _ => .ok "5.2.0.0/16\n") trivial
      (by simp only [reloadStep, hnew]; rfl)
  have hrun := (hsignalled.next .line trivial
    (by simp only [reloadStep, List.map_cons, perform_geoRoute]; rfl)).next .unlock trivial rfl
  exact ⟨_, _, hrun, rfl, rfl, reloads_serialized hrun (by simp)⟩

end Serial

end Dualnet.Kernel
