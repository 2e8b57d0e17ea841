import Mathlib.Data.List.Basic
import Mathlib.Tactic

/-!
# Searching a list for its first match

An ordered table is read from the top, and the first entry that applies decides. The lemmas
here carry such a search over to another list with the same answers.
-/

namespace Dualnet.Library

variable {α β : Type}

/-- A search depends only on the answers of the list's own elements. -/
theorem findSome_congr {f g : α → Option β} {l : List α} (h : ∀ a ∈ l, f a = g a) :
    l.findSome? f = l.findSome? g := by
  induction l with
  | nil => rfl
  | cons a l ih =>
    rw [List.findSome?_cons, List.findSome?_cons, h a (by simp), ih fun b hb => h b (by simp [hb])]

/-- Indexing with the place of the first element found gives that element. -/
theorem getD_findIdx? {q : α → Bool} {l : List α} {a : α} (h : l.find? q = some a) (d : Nat)
    (x : α) : l.getD ((l.findIdx? q).getD d) x = a := by
  rw [List.find?_eq_bind_findIdx?_getElem?, Option.bind_eq_some_iff] at h
  obtain ⟨i, hi, ha⟩ := h
  rw [hi, Option.getD_some, List.getD_eq_getElem?_getD, ha, Option.getD_some]

/-- A search that ignores the positions is a search of the plain list. -/
theorem findSome_zipIdx (g : α → Option β) (l : List α) (n : Nat) :
    (l.zipIdx n).findSome? (fun e => g e.1) = l.findSome? g := by
  rw [← Function.comp_def g Prod.fst, ← List.findSome?_map, List.zipIdx_map_fst]

/-- A search for the image of the first accepted element. -/
theorem findSome_ite (accepts : α → Bool) (g : α → β) (l : List α) :
    l.findSome? (fun a => if accepts a then some (g a) else none) = (l.find? accepts).map g := by
  induction l with
  | nil => rfl
  | cons a l ih =>
    rw [List.findSome?_cons, List.find?_cons]
    cases accepts a <;> simp [ih]

/-- Moving elements that are not accepted to the front changes no search. -/
theorem find_moved_first {moved accepts : α → Bool} {l : List α}
    (h : ∀ a ∈ l, accepts a = true → moved a = false) :
    (l.filter moved ++ l.filter fun a => !moved a).find? accepts = l.find? accepts := by
  have hmoved : (l.filter moved).find? accepts = none := by
    rw [List.find?_eq_none]
    intro a ha hacc
    obtain ⟨ha, hmoved⟩ := List.mem_filter.mp ha
    simp [h a ha hacc] at hmoved
  rw [List.find?_append, hmoved, Option.none_or, List.find?_filter]
  refine List.find?_congr fun a ha => ?_
  cases hacc : accepts a with
  | true => simp [h a ha hacc]
  | false => simp

/-- Where an accepted element is moved to the front, a search finds an element that was moved. -/
theorem exists_find_moved_first {moved accepts : α → Bool} {l : List α} {a : α} (ha : a ∈ l)
    (hmoved : moved a = true) (hacc : accepts a = true) :
    ∃ b ∈ l, moved b = true ∧ accepts b = true ∧
      (l.filter moved ++ l.filter fun a => !moved a).find? accepts = some b := by
  cases hfound : (l.filter moved).find? accepts with
  | none => exact absurd hacc (List.find?_eq_none.mp hfound a (List.mem_filter.mpr ⟨ha, hmoved⟩))
  | some b =>
    obtain ⟨hb, hmoved⟩ := List.mem_filter.mp (List.mem_of_find?_eq_some hfound)
    exact ⟨b, hb, hmoved, List.find?_some hfound, by rw [List.find?_append, hfound]; rfl⟩

/-- The first match agrees with an accepted element `a` in all that `g` sees, provided that every
match up to the end of a part of the list that contains `a` does. -/
theorem find_agrees {accepts : α → Bool} {g : α → β} {front back : List α} {a : α}
    (ha : a ∈ front) (hacc : accepts a = true)
    (h : ∀ b ∈ front, accepts b = true → g b = g a) :
    ((front ++ back).find? accepts).map g = some (g a) := by
  cases hfound : front.find? accepts with
  | none => exact absurd hacc (List.find?_eq_none.mp hfound a ha)
  | some b =>
    rw [List.find?_append, hfound, Option.some_or, Option.map_some,
      h b (List.mem_of_find?_eq_some hfound) (List.find?_some hfound)]

end Dualnet.Library
