import Mathlib.Data.List.Basic
import Mathlib.Tactic

/-!
# Keeping the first element of each key

`keepFirst key seen l` is the list a loop builds that appends an element only when its key has
not been seen before. It is `l` without the later elements of each key, so a search of it finds
what a search of `l` finds as long as equal keys mean equal elements.
-/

namespace Dualnet.Library

variable {α κ : Type} [DecidableEq κ] (key : α → κ)

/-- The elements of a list whose key is neither in `seen` nor the key of an earlier element. -/
def keepFirst (seen : List κ) : List α → List α
  | [] => []
  | a :: l => if key a ∈ seen then keepFirst seen l else a :: keepFirst (key a :: seen) l

variable {key}

/-- Nothing new is kept, and the order stays. -/
theorem keepFirst_sublist (seen : List κ) (l : List α) : (keepFirst key seen l).Sublist l := by
  induction l generalizing seen with
  | nil => exact .slnil
  | cons a l ih =>
    rw [keepFirst]
    split
    · exact (ih _).cons a
    · exact (ih _).cons_cons a

/-- Every key that was not seen before is still there. -/
theorem exists_mem_keepFirst {seen : List κ} {l : List α} {a : α} (ha : a ∈ l)
    (hseen : key a ∉ seen) : ∃ b ∈ keepFirst key seen l, key b = key a := by
  induction l generalizing seen with
  | nil => cases ha
  | cons c l ih =>
    rw [keepFirst]
    by_cases hc : key c = key a
    · exact ⟨c, by simp [hc, hseen], hc⟩
    · have hal : a ∈ l := (List.mem_cons.mp ha).resolve_left fun h => hc (h ▸ rfl)
      split
      · exact ih hal hseen
      · have hseen' : key a ∉ key c :: seen := by simp [hseen, Ne.symm hc]
        obtain ⟨b, hb, hkey⟩ := ih hal hseen'
        exact ⟨b, .tail _ hb, hkey⟩

/-- What is kept has a key that was not seen before. -/
theorem key_of_mem_keepFirst {seen : List κ} {l : List α} {a : α}
    (h : a ∈ keepFirst key seen l) : key a ∉ seen := by
  induction l generalizing seen with
  | nil => cases h
  | cons c l ih =>
    rw [keepFirst] at h
    split at h
    case isTrue => exact ih h
    case isFalse hc =>
      rcases List.mem_cons.mp h with rfl | hmem
      · exact hc
      · exact fun ha => ih hmem (List.mem_cons_of_mem _ ha)

/-- A relation holds along what is kept if it holds from each element to each later one whose key
is not seen before the first. -/
theorem pairwise_keepFirst {R : α → α → Prop} {seen : List κ} {l : List α}
    (h : ∀ pre a post, l = pre ++ a :: post → ∀ b ∈ post, key b ∉ seen →
      (∀ c ∈ pre, key c ≠ key b) → R a b) : (keepFirst key seen l).Pairwise R := by
  induction l generalizing seen with
  | nil => exact .nil
  | cons c l ih =>
    have hrest : ∀ seen', (∀ k ∈ seen, k ∈ seen') → key c ∈ seen' →
        (keepFirst key seen' l).Pairwise R := by
      intro seen' hsub hc
      refine ih fun pre a post hl b hb hseen hpre => ?_
      refine h (c :: pre) a post (by rw [hl]; rfl) b hb (mt (hsub _) hseen) ?_
      simp only [List.mem_cons, forall_eq_or_imp]
      exact ⟨fun heq => hseen (heq ▸ hc), hpre⟩
    rw [keepFirst]
    split
    case isTrue hc => exact hrest seen (fun _ hk => hk) hc
    case isFalse hc =>
      refine List.pairwise_cons.mpr ⟨fun b hb => ?_,
        hrest _ (fun _ hk => List.mem_cons_of_mem _ hk) List.mem_cons_self⟩
      exact h [] c l rfl b ((keepFirst_sublist _ _).subset hb)
        (fun hk => key_of_mem_keepFirst hb (List.mem_cons_of_mem _ hk)) (by simp)

/-- If the later of two elements has a key of its own up to the first, the first elements of their
keys are kept in this order. -/
theorem exists_pair_keepFirst {R : α → α → Prop} {seen : List κ} {a b : α} {pre post : List α}
    (h : (keepFirst key seen (pre ++ a :: post)).Pairwise R) (hb : b ∈ post)
    (hne : key a ≠ key b) (hpre : ∀ c ∈ pre, key c ≠ key b) (ha : key a ∉ seen)
    (hseen : key b ∉ seen) :
    ∃ a' ∈ pre ++ a :: post, ∃ b' ∈ pre ++ a :: post, key a' = key a ∧ key b' = key b ∧ R a' b' := by
  have hfrom : ∀ c (rest : List α) (seen : List κ), key b ∉ seen → b ∈ rest → key c = key a →
      (c :: keepFirst key (key c :: seen) rest).Pairwise R →
      ∃ b' ∈ rest, key b' = key b ∧ R c b' := by
    intro c rest seen hseen hrest hc h
    have hkey : key b ∉ key c :: seen := by simp [hseen, hc, Ne.symm hne]
    obtain ⟨b', hb', hkey⟩ := exists_mem_keepFirst hrest hkey
    exact ⟨b', (keepFirst_sublist _ _).subset hb', hkey, (List.pairwise_cons.mp h).1 b' hb'⟩
  induction pre generalizing seen with
  | nil =>
    rw [List.nil_append, keepFirst, if_neg ha] at h
    obtain ⟨b', hb', hkey, hR⟩ := hfrom a post seen hseen hb rfl h
    exact ⟨a, List.mem_cons_self, b', List.mem_cons_of_mem _ hb', rfl, hkey, hR⟩
  | cons c pre ih =>
    have hpre' : ∀ d ∈ pre, key d ≠ key b := fun d hd => hpre d (List.mem_cons_of_mem _ hd)
    rw [List.cons_append, keepFirst] at h
    by_cases hc : key c ∈ seen
    · rw [if_pos hc] at h
      obtain ⟨a', ha', b', hb', hR⟩ := ih h hpre' ha hseen
      exact ⟨a', .tail _ ha', b', .tail _ hb', hR⟩
    · rw [if_neg hc] at h
      by_cases hca : key c = key a
      · obtain ⟨b', hb', hkey, hR⟩ :=
          hfrom c (pre ++ a :: post) seen hseen (by simp [hb]) hca h
        exact ⟨c, .head _, b', .tail _ hb', hca, hkey, hR⟩
      · have hcb := hpre c (.head _)
        obtain ⟨a', ha', b', hb', hR⟩ := ih (List.pairwise_cons.mp h).2 hpre'
          (by simp [ha, Ne.symm hca]) (by simp [hseen, Ne.symm hcb])
        exact ⟨a', .tail _ ha', b', .tail _ hb', hR⟩

/-- Where the key of an accepted element is its own, a search finds the same element. -/
theorem find_keepFirst {seen : List κ} {l : List α} {accepts : α → Bool}
    (hkey : ∀ a ∈ l, accepts a = true → ∀ b ∈ l, key a = key b → a = b)
    (hseen : ∀ a ∈ l, key a ∈ seen → accepts a = false) :
    (keepFirst key seen l).find? accepts = l.find? accepts := by
  induction l generalizing seen with
  | nil => rfl
  | cons a l ih =>
    have hkey' : ∀ b ∈ l, accepts b = true → ∀ c ∈ l, key b = key c → b = c :=
      fun b hb hacc c hc => hkey b (.tail _ hb) hacc c (.tail _ hc)
    rw [keepFirst]
    split
    case isTrue hmem =>
      rw [ih hkey' fun b hb => hseen b (.tail _ hb), List.find?_cons_of_neg]
      simp [hseen a (by simp) hmem]
    case isFalse hmem =>
      rw [List.find?_cons, List.find?_cons]
      cases hacc : accepts a with
      | true => rfl
      | false =>
        refine ih hkey' fun b hb hkeyb => ?_
        rcases List.mem_cons.mp hkeyb with heq | hold
        · by_contra hne
          have hb' : accepts b = true := by simpa using hne
          rw [← hkey b (.tail _ hb) hb' a (by simp) heq] at hacc
          exact hne hacc
        · exact hseen b (.tail _ hb) hold

/-! ## Splits -/

section Splits

variable {α β : Type}

/-- What holds of every element with what is before and after it, by positions. -/
theorem forall_splits_iff {l : List α} {P : List α → α → List α → Prop} :
    (∀ pre a post, l = pre ++ a :: post → P pre a post) ↔
      ∀ i : Fin l.length, P (l.take i) l[i] (l.drop (i + 1)) := by
  constructor
  · intro h i
    refine h _ _ _ ((List.take_append_drop i l).symm.trans ?_)
    rw [List.drop_eq_getElem_cons i.isLt]
    rfl
  · rintro h pre a post rfl
    simpa using h ⟨pre.length, by simp⟩

/-- A split of the images of some elements comes from a split of the list. -/
theorem exists_split_of_map_filter {p : α → Bool} {f : α → β} {l : List α} {pre post : List β}
    {b : β} (h : (l.filter p).map f = pre ++ b :: post) :
    ∃ pre' a post', l = pre' ++ a :: post' ∧ p a = true ∧ f a = b ∧
      (pre'.filter p).map f = pre ∧ (post'.filter p).map f = post := by
  obtain ⟨l₁, l₂, hl, rfl, hl₂⟩ := List.map_eq_append_iff.mp h
  obtain ⟨a, l₃, rfl, rfl, rfl⟩ := List.map_eq_cons_iff.mp hl₂
  obtain ⟨m₁, m₂, rfl, rfl, hm₂⟩ := List.filter_eq_append_iff.mp hl
  obtain ⟨n₁, n₂, rfl, hn₁, ha, rfl⟩ := List.filter_eq_cons_iff.mp hm₂
  refine ⟨m₁ ++ n₁, a, n₂, by simp, ha, rfl, ?_, rfl⟩
  rw [List.filter_append, List.filter_eq_nil_iff.mpr hn₁, List.append_nil]

end Splits

end Dualnet.Library
