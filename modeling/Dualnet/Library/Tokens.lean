import Mathlib.Data.List.TakeWhile
import Mathlib.Tactic

/-!
# Tokens between separators

Text over an arbitrary alphabet with a class of blank symbols: trimming, cutting at the first or
the last occurrence of a symbol, the words between runs of blanks, and the trimmed pieces between
single separators. Each reader has a lemma for text that has the form it reads and one that
recovers the form from what it read.
-/

namespace Dualnet.Library.Tokens

variable {α : Type} {blank : α → Bool}

/-! ## Blank runs, words and trimmed tokens -/

/-- Nothing but blanks. -/
def Blank (blank : α → Bool) (w : List α) : Prop := ∀ c ∈ w, blank c = true

/-- A non-empty run without a blank. -/
def Word (blank : α → Bool) (t : List α) : Prop := t ≠ [] ∧ ∀ c ∈ t, blank c = false

/-- A text that neither starts nor ends with a blank. -/
def Trimmed (blank : α → Bool) (t : List α) : Prop :=
  (∀ c ∈ t.head?, blank c = false) ∧ ∀ c ∈ t.getLast?, blank c = false

/-- The text without the blanks at its two ends. -/
def trim (blank : α → Bool) (s : List α) : List α :=
  ((s.dropWhile blank).reverse.dropWhile blank).reverse

/-- The empty text is blank. -/
@[simp] theorem blank_nil : Blank blank [] := by simp [Blank]

/-- A blank text, by characters. -/
@[simp] theorem blank_cons {c : α} {w : List α} :
    Blank blank (c :: w) ↔ blank c = true ∧ Blank blank w := by
  simp [Blank]

/-- A text without blanks has none at its ends. -/
theorem trimmed_of_forall {t : List α} (h : ∀ c ∈ t, blank c = false) : Trimmed blank t :=
  ⟨fun _ hc => h _ (List.mem_of_mem_head? hc), fun _ hc => h _ (List.mem_of_mem_getLast? hc)⟩

/-- Dropping the blanks in front of a text that starts with none of them. -/
theorem dropWhile_pad {w t : List α} (hw : Blank blank w)
    (ht : ∀ c ∈ t.head?, blank c = false) : (w ++ t).dropWhile blank = t := by
  induction w with
  | nil =>
    cases t with
    | nil => rfl
    | cons c t => simp [ht c (by simp)]
  | cons c w ih =>
    rw [blank_cons] at hw
    simp [hw.1, ih hw.2]

/-- Trimming takes exactly the blanks around a trimmed text. -/
theorem trim_pad {w t w' : List α} (hw : Blank blank w) (ht : Trimmed blank t)
    (hw' : Blank blank w') : trim blank (w ++ t ++ w') = t := by
  cases t with
  | nil =>
    have hall : (w ++ [] ++ w').dropWhile blank = [] := by
      rw [List.dropWhile_eq_nil_iff]
      intro c hc
      simp only [List.append_nil, List.mem_append] at hc
      exact hc.elim (hw c) (hw' c)
    rw [trim, hall]
    rfl
  | cons c t =>
    have hfront : (w ++ (c :: t) ++ w').dropWhile blank = c :: t ++ w' := by
      rw [List.append_assoc]
      exact dropWhile_pad hw (by simpa using ht.1)
    have hback : Blank blank w'.reverse := fun d hd => hw' d (List.mem_reverse.mp hd)
    rw [trim, hfront, List.reverse_append,
      dropWhile_pad hback (by rw [List.head?_reverse]; exact ht.2), List.reverse_reverse]

/-- A trimmed text stays as it is. -/
theorem trim_eq_self {t : List α} (ht : Trimmed blank t) : trim blank t = t := by
  have hnil : Blank blank ([] : List α) := blank_nil
  simpa using trim_pad hnil ht hnil

/-- What is left after dropping the leading blanks starts with none. -/
theorem head_dropWhile (blank : α → Bool) (s : List α) :
    ∀ c ∈ (s.dropWhile blank).head?, blank c = false := by
  intro c hc
  have := List.head?_dropWhile_not blank s
  rw [Option.mem_def.mp hc] at this
  simpa using this

/-- A text is its trimmed form between blanks. -/
theorem exists_pad (blank : α → Bool) (s : List α) :
    ∃ w w', Blank blank w ∧ Blank blank w' ∧ s = w ++ trim blank s ++ w' := by
  have htake : ∀ l : List α, Blank blank (l.takeWhile blank) := fun l c hc =>
    List.mem_takeWhile_imp hc
  refine ⟨s.takeWhile blank, ((s.dropWhile blank).reverse.takeWhile blank).reverse, htake s,
    fun c hc => htake _ c (List.mem_reverse.mp hc), ?_⟩
  rw [trim, List.append_assoc, ← List.reverse_append, List.takeWhile_append_dropWhile,
    List.reverse_reverse, List.takeWhile_append_dropWhile]

/-- Trimming trims. -/
theorem trimmed_trim (s : List α) : Trimmed blank (trim blank s) := by
  have hlast : ∀ c ∈ (trim blank s).getLast?, blank c = false := by
    rw [trim, List.getLast?_reverse]
    exact head_dropWhile blank _
  refine ⟨fun c hc => ?_, hlast⟩
  -- the first symbol that is kept is the first one after the leading blanks
  have hsuffix : (s.dropWhile blank).reverse.dropWhile blank <:+ (s.dropWhile blank).reverse :=
    List.dropWhile_suffix blank
  obtain ⟨rest, hrest⟩ : trim blank s <+: s.dropWhile blank := by
    rw [← List.reverse_suffix, trim, List.reverse_reverse]
    exact hsuffix
  refine head_dropWhile blank s c ?_
  rw [← hrest, List.head?_append, Option.mem_def.mp hc]
  rfl

/-! ## Cutting at one symbol -/

section Cut

variable [BEq α] [LawfulBEq α]

/-- The index of the first occurrence. -/
def index (c : α) (s : List α) : Option Nat := s.findIdx? (· == c)

/-- The index of the last occurrence. -/
def lastIndex (c : α) (s : List α) : Option Nat :=
  (index c s.reverse).map fun i => s.length - 1 - i

/-- The first occurrence is found. -/
theorem index_complete {c : α} {a b : List α} (h : c ∉ a) :
    index c (a ++ c :: b) = some a.length := by
  have hnone : a.findIdx? (· == c) = none := by
    rw [List.findIdx?_eq_none_iff]
    intro d hd
    simpa using fun hdc : d = c => h (hdc ▸ hd)
  simp [index, List.findIdx?_append, hnone, List.findIdx?_cons]

/-- What is found is the first occurrence. -/
theorem index_sound {c : α} {s : List α} {i : Nat} (h : index c s = some i) :
    ∃ a b, s = a ++ c :: b ∧ c ∉ a ∧ i = a.length := by
  obtain ⟨hi, hc, hbefore⟩ := List.findIdx?_eq_some_iff_getElem.mp h
  refine ⟨s.take i, s.drop (i + 1), ?_, ?_, ?_⟩
  · rw [← beq_iff_eq.mp hc, ← List.drop_eq_getElem_cons hi, List.take_append_drop]
  · intro hmem
    obtain ⟨j, hj, hjc⟩ := List.mem_take_iff_getElem.mp hmem
    exact hbefore j (by omega) (by simp [hjc])
  · simp [Nat.le_of_lt hi]

/-- The last occurrence is found. -/
theorem lastIndex_complete {c : α} {a b : List α} (h : c ∉ b) :
    lastIndex c (a ++ c :: b) = some a.length := by
  have hrev : (a ++ c :: b).reverse = b.reverse ++ c :: a.reverse := by simp
  rw [lastIndex, hrev, index_complete (by simpa using h)]
  simp

/-- What is found is the last occurrence. -/
theorem lastIndex_sound {c : α} {s : List α} {i : Nat} (h : lastIndex c s = some i) :
    ∃ a b, s = a ++ c :: b ∧ c ∉ b ∧ i = a.length := by
  obtain ⟨j, hj, rfl⟩ := Option.map_eq_some_iff.mp h
  obtain ⟨b, a, hs, hb, rfl⟩ := index_sound hj
  have hs' : s = a.reverse ++ c :: b.reverse := by
    rw [← List.reverse_reverse s, hs]
    simp
  refine ⟨a.reverse, b.reverse, hs', by simpa using hb, ?_⟩
  rw [hs']
  simp

end Cut

/-! ## Words -/

/-- The maximal runs without a blank. -/
def words (blank : α → Bool) (s : List α) : List (List α) :=
  (s.splitOnP blank).filter (!·.isEmpty)

/-- Leading blanks do not matter. -/
theorem words_blank_cons {c : α} {s : List α} (h : blank c = true) :
    words blank (c :: s) = words blank s := by
  simp [words, List.splitOnP_cons_eq_if_modifyHead, h]

/-- Nor does leading padding. -/
theorem words_pad {w s : List α} (hw : Blank blank w) :
    words blank (w ++ s) = words blank s := by
  induction w with
  | nil => rfl
  | cons c w ih =>
    rw [blank_cons] at hw
    rw [List.cons_append, words_blank_cons hw.1, ih hw.2]

/-- Padding has no words. -/
theorem words_of_blank {w : List α} (hw : Blank blank w) : words blank w = [] := by
  simpa [words, List.splitOnP_nil] using words_pad (s := []) hw

/-- A word is its only word. -/
theorem words_of_word {t : List α} (ht : Word blank t) : words blank t = [t] := by
  rw [words, List.splitOnP_eq_singleton ht.2]
  simp [ht.1]

/-- A word between blanks is the first of the words. -/
theorem words_cons {w t rest : List α} (hw : Blank blank w) (ht : Word blank t)
    (hrest : ∀ c ∈ rest.head?, blank c = true) :
    words blank (w ++ t ++ rest) = t :: words blank rest := by
  rw [List.append_assoc, words_pad hw]
  cases rest with
  | nil => simp [words_of_word ht, words_of_blank]
  | cons c rest =>
    have hc : blank c = true := hrest c (by simp)
    rw [words_blank_cons hc, words, List.splitOnP_append_cons_of_forall_mem ht.2 c hc]
    simp [ht.1, words]

/-- Words with blanks around them and at least one blank between each two. -/
inductive Spaced (blank : α → Bool) : List α → List (List α) → Prop
  | nil {w : List α} : Blank blank w → Spaced blank w []
  | cons {w t rest : List α} {ts : List (List α)} : Blank blank w → Word blank t →
      (∀ c ∈ rest.head?, blank c = true) → Spaced blank rest ts →
      Spaced blank (w ++ t ++ rest) (t :: ts)

variable {sep : α} {s : List α} {ts : List (List α)}

/-- A text is blank, or has a first word between blanks. -/
theorem exists_first_word (blank : α → Bool) (s : List α) :
    Blank blank s ∨ ∃ w t rest, s = w ++ t ++ rest ∧ Blank blank w ∧ Word blank t ∧
      ∀ c ∈ rest.head?, blank c = true := by
  induction s with
  | nil => exact .inl blank_nil
  | cons c s ih =>
    by_cases hc : blank c = true
    · obtain hs | ⟨w, t, rest, rfl, hw, ht, hrest⟩ := ih
      · exact .inl (blank_cons.mpr ⟨hc, hs⟩)
      · exact .inr ⟨c :: w, t, rest, rfl, blank_cons.mpr ⟨hc, hw⟩, ht, hrest⟩
    · refine .inr ⟨[], c :: s.takeWhile (!blank ·), s.dropWhile (!blank ·), ?_, blank_nil,
        ⟨by simp, fun d hd => ?_⟩, fun d hd => ?_⟩
      · simp [List.takeWhile_append_dropWhile]
      · obtain rfl | hd := List.mem_cons.mp hd
        · simpa using hc
        · simpa using List.mem_takeWhile_imp hd
      · simpa using head_dropWhile (!blank ·) s d hd

/-- The words of a text are the ones it is made of. -/
theorem spaced_iff : Spaced blank s ts ↔ words blank s = ts := by
  constructor
  · intro h
    induction h with
    | nil hw => exact words_of_blank hw
    | cons hw ht hrest _ ih => rw [words_cons hw ht hrest, ih]
  · intro h
    induction ts generalizing s with
    | nil =>
      obtain hs | ⟨w, t, rest, rfl, hw, ht, hrest⟩ := exists_first_word blank s
      · exact .nil hs
      · rw [words_cons hw ht hrest] at h
        cases h
    | cons t ts ih =>
      obtain hs | ⟨w, u, rest, rfl, hw, hu, hrest⟩ := exists_first_word blank s
      · rw [words_of_blank hs] at h
        cases h
      · rw [words_cons hw hu hrest, List.cons.injEq] at h
        obtain ⟨rfl, hts⟩ := h
        exact .cons hw hu hrest (ih hts)

/-- Every word is one. -/
theorem Spaced.word {s t : List α} (h : Spaced blank s ts) (ht : t ∈ ts) : Word blank t := by
  induction h with
  | nil => cases ht
  | cons _ hword _ _ ih =>
    obtain rfl | ht := List.mem_cons.mp ht
    · exact hword
    · exact ih ht

/-- A text has the symbols of its words, and blanks. -/
theorem Spaced.mem_iff {c : α} (h : Spaced blank s ts) (hc : blank c = false) :
    c ∈ s ↔ ∃ t ∈ ts, c ∈ t := by
  have hnot : ∀ {w : List α}, Blank blank w → c ∉ w := fun hw hmem => by
    simp [hw c hmem] at hc
  induction h with
  | nil hw => simp [hnot hw]
  | cons hw _ _ _ ih => simp [hnot hw, ih]

/-- Padding may come before spaced words. -/
theorem Spaced.pad {w s : List α} (hw : Blank blank w) (h : Spaced blank s ts) :
    Spaced blank (w ++ s) ts := by
  rw [spaced_iff, words_pad hw]
  exact spaced_iff.mp h

/-- Words with one blank after each. -/
theorem spaced_join {c : α} (hc : blank c = true) (ht : ∀ t ∈ ts, Word blank t) :
    Spaced blank ([c].intercalate ts ++ [c]) ts := by
  induction ts with
  | nil => exact .nil (by simp [hc])
  | cons t ts ih =>
    obtain ⟨hword, hts⟩ := List.forall_mem_cons.mp ht
    cases ts with
    | nil =>
      simpa using Spaced.cons blank_nil hword (by simp [hc]) (.nil (w := [c]) (by simp [hc]))
    | cons u ts =>
      have hrest := (ih hts).pad (w := [c]) (by simp [hc])
      simpa using Spaced.cons blank_nil hword (by simp [hc]) hrest

/-! ## Pieces between separators -/

/-- A token that can stand between separators. -/
structure Token (blank : α → Bool) (sep : α) (t : List α) : Prop where
  ne_nil : t ≠ []
  trimmed : Trimmed blank t
  no_sep : sep ∉ t

/-- Tokens with blanks around them and one separator between each two. -/
inductive Separated (blank : α → Bool) (sep : α) : List α → List (List α) → Prop
  | last {w t w' : List α} : Blank blank w → Token blank sep t → Blank blank w' →
      Separated blank sep (w ++ t ++ w') [t]
  | more {w t w' s : List α} {ts : List (List α)} : Blank blank w → Token blank sep t →
      Blank blank w' → Separated blank sep s ts →
      Separated blank sep (w ++ t ++ w' ++ sep :: s) (t :: ts)

/-- A padded token has no separator. -/
theorem not_mem_pad {w t w' : List α} (hsep : blank sep = false) (hw : Blank blank w)
    (ht : Token blank sep t) (hw' : Blank blank w') : sep ∉ w ++ t ++ w' := by
  have hblank : ∀ {v : List α}, Blank blank v → sep ∉ v := fun hv hmem => by
    simp [hv sep hmem] at hsep
  simp [hblank hw, ht.no_sep, hblank hw']

/-- Separated tokens have the symbols of the tokens, the separator and blanks. -/
theorem Separated.mem {sep c : α} (h : Separated blank sep s ts) (hc : blank c = false)
    (hmem : c ∈ s) : c = sep ∨ ∃ t ∈ ts, c ∈ t := by
  have hnot : ∀ {w : List α}, Blank blank w → c ∉ w := fun hw hmem => by
    simp [hw c hmem] at hc
  induction h with
  | last hw _ hw' => exact .inr (by simpa [hnot hw, hnot hw'] using hmem)
  | more hw _ hw' _ ih =>
    simp only [List.mem_append, List.mem_cons, hnot hw, hnot hw', false_or, or_false] at hmem
    obtain hmem | rfl | hmem := hmem
    · exact .inr ⟨_, by simp, hmem⟩
    · exact .inl rfl
    · refine (ih hmem).imp_right ?_
      rintro ⟨t, ht, hct⟩
      exact ⟨t, by simp [ht], hct⟩

/-- What is separated are tokens. -/
theorem Separated.token {s t : List α} (h : Separated blank sep s ts) (ht : t ∈ ts) :
    Token blank sep t := by
  induction h with
  | last _ htoken _ =>
    obtain rfl := List.mem_singleton.mp ht
    exact htoken
  | more _ htoken _ _ ih =>
    obtain rfl | ht := List.mem_cons.mp ht
    · exact htoken
    · exact ih ht

/-- Tokens are made of the text. -/
theorem Separated.mem_of_token {s t : List α} (h : Separated blank sep s ts) (ht : t ∈ ts) :
    ∀ c ∈ t, c ∈ s := by
  intro c hc
  induction h with
  | last _ _ _ =>
    obtain rfl := List.mem_singleton.mp ht
    simp [hc]
  | more _ _ _ _ ih =>
    obtain rfl | ht := List.mem_cons.mp ht
    · simp [hc]
    · simp [ih ht]

/-- Padding may come before separated tokens. -/
theorem Separated.pad {w s : List α} (hw : Blank blank w) (h : Separated blank sep s ts) :
    Separated blank sep (w ++ s) ts := by
  have hpad : ∀ {v : List α}, Blank blank v → Blank blank (w ++ v) := fun hv c hc =>
    (List.mem_append.mp hc).elim (hw c) (hv c)
  cases h with
  | last hv ht hv' => simpa using Separated.last (hpad hv) ht hv'
  | more hv ht hv' hs => simpa using Separated.more (hpad hv) ht hv' hs

/-- Tokens joined by a separator with blanks around it. -/
theorem separated_join {w w' : List α} (hw : Blank blank w) (hw' : Blank blank w') (hne : ts ≠ [])
    (ht : ∀ t ∈ ts, Token blank sep t) :
    Separated blank sep ((w ++ sep :: w').intercalate ts) ts := by
  induction ts with
  | nil => exact absurd rfl hne
  | cons t ts ih =>
    obtain ⟨htoken, hts⟩ := List.forall_mem_cons.mp ht
    cases ts with
    | nil => simpa using Separated.last blank_nil htoken blank_nil
    | cons u ts =>
      simpa using Separated.more blank_nil htoken hw ((ih (by simp) hts).pad hw')

/-- A text with no separator in it trims to a token, unless it is blank. -/
theorem token_trim {p : List α} (hne : trim blank p ≠ []) (hsep : sep ∉ p) :
    Token blank sep (trim blank p) := by
  refine ⟨hne, trimmed_trim p, fun hmem => hsep ?_⟩
  obtain ⟨w, w', -, -, hpad⟩ := exists_pad blank p
  rw [hpad]
  simp [hmem]

/-- Pieces none of which is empty are separated tokens. -/
theorem separated_intercalate {ps : List (List α)} (hne : ps ≠ []) (hsep : ∀ p ∈ ps, sep ∉ p)
    (hgap : ∀ p ∈ ps, trim blank p ≠ []) :
    Separated blank sep ([sep].intercalate ps) (ps.map (trim blank)) := by
  induction ps with
  | nil => exact absurd rfl hne
  | cons p ps ih =>
    obtain ⟨w, w', hw, hw', hpad⟩ := exists_pad blank p
    have hp := token_trim (hgap p (by simp)) (hsep p (by simp))
    cases ps with
    | nil =>
      have hlast := Separated.last hw hp hw'
      rw [← hpad] at hlast
      simpa using hlast
    | cons q ps =>
      have hrest := ih (by simp) (fun r hr => hsep r (by simp [hr]))
        (fun r hr => hgap r (by simp [hr]))
      have hmore := Separated.more hw hp hw' hrest
      rw [← hpad] at hmore
      simpa using hmore

section Pieces

variable [BEq α] [LawfulBEq α]

/-- The pieces between the separators, trimmed, without the empty ones. -/
def pieces (blank : α → Bool) (sep : α) (s : List α) : List (List α) :=
  ((s.splitOn sep).map (trim blank)).filter (!·.isEmpty)

/-- A piece has no separator in it. -/
theorem not_mem_of_mem_splitOn {s p : List α} (h : p ∈ s.splitOn sep) : sep ∉ p := by
  induction s generalizing p with
  | nil =>
    rw [List.splitOn_nil, List.mem_singleton] at h
    simp [h]
  | cons c s ih =>
    rw [List.splitOn_cons_eq_if_modifyHead] at h
    split at h
    · obtain rfl | h := List.mem_cons.mp h
      · simp
      · exact ih h
    · rename_i hc
      obtain ⟨q, qs, hq⟩ := List.exists_cons_of_ne_nil (List.splitOn_ne_nil sep s)
      rw [hq, List.modifyHead_cons, List.mem_cons] at h
      obtain rfl | h := h
      · have hcs : sep ≠ c := fun hcs => hc (beq_iff_eq.mpr hcs.symm)
        simpa [hcs] using ih (p := q) (by simp [hq])
      · exact ih (by simp [hq, h])

/-- No two separators, no separator and no end of the text have only blanks between them. -/
def NoGap (blank : α → Bool) (sep : α) (s : List α) : Prop :=
  ∀ p ∈ s.splitOn sep, trim blank p ≠ []

/-- Separated tokens are the pieces, and none of the pieces is empty. -/
theorem Separated.splitOn (hsep : blank sep = false) (h : Separated blank sep s ts) :
    (s.splitOn sep).map (trim blank) = ts ∧ ∀ t ∈ ts, t ≠ [] := by
  induction h with
  | last hw ht hw' =>
    rw [List.splitOn_eq_singleton (not_mem_pad hsep hw ht hw')]
    rw [List.map_singleton, trim_pad hw ht.trimmed hw']
    exact ⟨rfl, by simpa using ht.ne_nil⟩
  | more hw ht hw' _ ih =>
    rw [List.splitOn_append_cons_self_of_not_mem (not_mem_pad hsep hw ht hw'), List.map_cons,
      trim_pad hw ht.trimmed hw', ih.1]
    exact ⟨rfl, List.forall_mem_cons.mpr ⟨ht.ne_nil, ih.2⟩⟩

/-- The pieces of a text are its tokens exactly if the text has no gap. -/
theorem separated_iff (hsep : blank sep = false) :
    Separated blank sep s ts ↔ pieces blank sep s = ts ∧ NoGap blank sep s := by
  constructor
  · intro h
    obtain ⟨hts, hne⟩ := h.splitOn hsep
    refine ⟨?_, fun p hp => hne _ (hts ▸ List.mem_map_of_mem hp)⟩
    rw [pieces, hts, List.filter_eq_self]
    intro t ht
    simpa using hne t ht
  · rintro ⟨rfl, hgap⟩
    have hpieces : pieces blank sep s = (s.splitOn sep).map (trim blank) := by
      rw [pieces, List.filter_eq_self]
      intro t ht
      obtain ⟨p, hp, rfl⟩ := List.mem_map.mp ht
      simpa using hgap p hp
    rw [hpieces]
    have h := separated_intercalate (List.splitOn_ne_nil sep s)
      (fun p hp => not_mem_of_mem_splitOn hp) hgap
    rwa [List.intercalate_splitOn] at h

end Pieces

end Dualnet.Library.Tokens
