import Dualnet.Peers.Registry

/-!
# The two indexes of the registry

`byID` and `byKey` share their records. `Indexed` says how they fit together, and every part of a
call keeps it.
-/

namespace Dualnet.Peers

open Library Wire

variable {S : Type}

/-- How the indexes fit together: `byID` finds the record of an id, `byKey` only records that
`byID` finds too and that carry the key, and the cap holds. -/
structure Indexed (r : Registry S) : Prop where
  allocated : ∀ id p, r.byID.lookup id = some p → p < r.next
  ids : ∀ id p, r.byID.lookup id = some p → (r.heap p).id = id ∧ id ≠ Owner.zero
  keys : ∀ k p, r.byKey.lookup k = some p →
    (r.heap p).key = k ∧ r.byID.lookup (r.heap p).id = some p
  capped : 0 < r.maxPeers → (r.byID.size : Int) ≤ r.maxPeers

namespace Indexed

variable {r : Registry S}

/-- The records are as many as the ids, and each has at most one key. -/
theorem byKey_size (h : Indexed r) : r.byKey.size ≤ r.byID.size := by
  -- A key is told apart by the id of the record it leads to.
  refine FMap.size_le_of_injection
    (fun k => ((r.byKey.lookup k).map fun p => (r.heap p).id).getD Owner.zero) ?_ ?_
  · intro k hk
    obtain ⟨p, hp⟩ := Option.isSome_iff_exists.mp (AList.lookup_isSome.mpr hk)
    rw [hp]
    exact AList.lookup_isSome.mp (by simp [(h.keys k p hp).2])
  · intro k hk k' hk' heq
    obtain ⟨p, hp⟩ := Option.isSome_iff_exists.mp (AList.lookup_isSome.mpr hk)
    obtain ⟨p', hp'⟩ := Option.isSome_iff_exists.mp (AList.lookup_isSome.mpr hk')
    simp only [hp, hp', Option.map_some, Option.getD_some] at heq
    have hlookup := (h.keys k p hp).2
    rw [heq, (h.keys k' p' hp').2] at hlookup
    rw [← (h.keys k p hp).1, ← (h.keys k' p' hp').1, Option.some.inj hlookup]

/-- Two ids do not share a record. -/
theorem id_unique (h : Indexed r) {id id' : Owner} {p : Ptr} (hp : r.byID.lookup id = some p)
    (hp' : r.byID.lookup id' = some p) : id = id' :=
  (h.ids id p hp).1.symm.trans (h.ids id' p hp').1

/-- The id a `Register` works on is not zero. -/
theorem idFor_ne_zero (h : Indexed r) {claimed id : Owner} {peerKey : String}
    {draws : List Owner} (hid : r.idFor claimed peerKey draws = some id) : id ≠ Owner.zero := by
  unfold Registry.idFor at hid
  split at hid
  · split at hid
    · rename_i p hp
      obtain rfl := Option.some.inj hid
      exact (h.ids _ p (h.keys peerKey p hp).2).2
    · have hdraw := List.find?_some hid
      simp only [Bool.and_eq_true, Bool.not_eq_true'] at hdraw
      intro hzero
      exact absurd hdraw.1 (by simp [Owner.isZero_eq_true.mpr hzero])
  · rename_i hclaimed
    obtain rfl := Option.some.inj hid
    simpa using hclaimed

/-- A brand-new record, under an id that has none and with room left. -/
theorem alloc (h : Indexed r) {id : Owner} (hid : id ≠ Owner.zero)
    (hnone : r.byID.lookup id = none) (hfull : r.full = false) : Indexed (r.alloc id) := by
  refine ⟨fun id' p hp => ?_, fun id' p hp => ?_, fun k p hp => ?_, fun hmax => ?_⟩
  · rw [Registry.alloc_lookup] at hp
    split at hp
    · exact Option.some.inj hp ▸ Nat.lt_succ_self r.next
    · exact Nat.lt_succ_of_lt (h.allocated id' p hp)
  · rw [Registry.alloc_lookup] at hp
    split at hp
    · rename_i heq
      obtain rfl := Option.some.inj hp
      subst heq
      exact ⟨by simp [Registry.alloc], hid⟩
    · rw [Registry.alloc_heap r id (h.allocated id' p hp)]
      exact h.ids id' p hp
  · obtain ⟨hkey, hlookup⟩ := h.keys k p hp
    have hp' := h.allocated _ p hlookup
    rw [Registry.alloc_heap r id hp', Registry.alloc_lookup, if_neg]
    · exact ⟨hkey, hlookup⟩
    · rintro rfl
      rw [hnone] at hlookup
      cases hlookup
  · have hroom : ¬ r.maxPeers ≤ r.byID.size := by
      have hmax' : 0 < r.maxPeers := hmax
      simpa [Registry.full, hmax'] using hfull
    have hsize : (r.alloc id).byID.size = r.byID.size + 1 := by
      simp [Registry.alloc, FMap.size_insert, hnone]
    rw [hsize]
    show ((r.byID.size + 1 : Nat) : Int) ≤ r.maxPeers
    push_cast
    omega

/-- Refreshing a record that is there, under any key. -/
theorem refresh (h : Indexed r) {id : Owner} {p : Ptr} (hp : r.byID.lookup id = some p)
    (peerKey : String) (ts : UInt64) (sink : Option S) (now : Int) :
    Indexed (r.refresh p peerKey ts sink now) := by
  have hid : ∀ q, ((r.refresh p peerKey ts sink now).heap q).id = (r.heap q).id := by
    intro q
    rw [Registry.refresh_heap]
    split
    · rename_i heq
      rw [heq]
    · rfl
  refine ⟨fun id' q hq => ?_, fun id' q hq => ?_, fun k q hq => ?_, fun hmax => ?_⟩
  · rw [Registry.refresh_byID] at hq
    rw [Registry.refresh_next]
    exact h.allocated id' q hq
  · rw [Registry.refresh_byID] at hq
    rw [hid]
    exact h.ids id' q hq
  · rw [hid, Registry.refresh_byID, Registry.refresh_heap]
    rw [Registry.refresh_byKey] at hq
    split at hq
    · -- The key stays: so do the entries and the keys of all records.
      rename_i hkey
      obtain ⟨hk, hlookup⟩ := h.keys k q hq
      refine ⟨?_, hlookup⟩
      split
      · rename_i heq
        rw [← hkey, ← heq, hk]
      · exact hk
    split at hq
    · rename_i hk
      obtain rfl := Option.some.inj hq
      rw [if_pos rfl, (h.ids id p hp).1]
      exact ⟨hk.symm, hp⟩
    split at hq
    · cases hq
    · rename_i hk
      obtain ⟨hkey, hlookup⟩ := h.keys k q hq
      have hne : q ≠ p := by
        rintro rfl
        exact hk hkey.symm
      rw [if_neg hne]
      exact ⟨hkey, hlookup⟩
  · rw [Registry.refresh_byID]
    rw [Registry.refresh_maxPeers] at hmax ⊢
    exact h.capped hmax

/-- Dropping a record. -/
theorem drop (h : Indexed r) {id : Owner} {p : Ptr}
    (hp : ∀ q, r.byID.lookup id = some q → q = p) : Indexed (r.drop id p) := by
  refine ⟨fun id' q hq => ?_, fun id' q hq => ?_, fun k q hq => ?_, fun hmax => ?_⟩
  · exact h.allocated id' q (FMap.lookup_of_lookup_erase hq)
  · exact h.ids id' q (FMap.lookup_of_lookup_erase hq)
  · have hold : r.byKey.lookup k = some q := by
      unfold Registry.drop at hq
      simp only at hq
      split at hq
      · exact FMap.lookup_of_lookup_erase hq
      · exact hq
    obtain ⟨hkey, hlookup⟩ := h.keys k q hold
    refine ⟨hkey, ?_⟩
    show (r.byID.erase id).lookup (r.heap q).id = some q
    rw [FMap.lookup_erase_ite, if_neg]
    · exact hlookup
    · -- The dropped record's own entry went with it.
      intro heq
      obtain rfl : q = p := hp q (heq ▸ hlookup)
      subst hkey
      simp [Registry.drop, hold] at hq
  · exact Int.le_trans (Int.ofNat_le.mpr (FMap.size_erase_le _ _)) (h.capped hmax)

/-- `GC`. -/
theorem gc (h : Indexed r) (now : Int) : Indexed (r.gc now).1 := by
  have hboth : Indexed (r.gc now).1 ∧
      ∀ id p, (r.gc now).1.byID.lookup id = some p → r.byID.lookup id = some p := by
    refine r.gc_induction now (P := fun r' => Indexed r' ∧
      ∀ id p, r'.byID.lookup id = some p → r.byID.lookup id = some p) ⟨h, fun _ _ h => h⟩ ?_
    rintro r' id p ⟨hr', hsub⟩ hp
    refine ⟨hr'.drop fun q hq => ?_, fun id' q hq => hsub id' q (FMap.lookup_of_lookup_erase hq)⟩
    exact Option.some.inj ((hsub id q hq).symm.trans hp)
  exact hboth.1

/-- `GC` takes no entry out of `byKey` whose record stays. -/
theorem gc_byKey (h : Indexed r) (now : Int) {k : String} {p : Ptr}
    (hstays : (r.gc now).1.byID.lookup (r.heap p).id = some p) :
    (r.gc now).1.byKey.lookup k = some p ↔ r.byKey.lookup k = some p := by
  have hall : (r.gc now).1.heap = r.heap ∧
      ((r.gc now).1.byID.lookup (r.heap p).id = some p →
        ((r.gc now).1.byKey.lookup k = some p ↔ r.byKey.lookup k = some p)) := by
    refine r.gc_induction now (P := fun r' => r'.heap = r.heap ∧
      (r'.byID.lookup (r.heap p).id = some p →
        (r'.byKey.lookup k = some p ↔ r.byKey.lookup k = some p)))
      ⟨rfl, fun _ => Iff.rfl⟩ ?_
    rintro r' id q ⟨hheap, hr'⟩ hq
    refine ⟨hheap, fun hp => ?_⟩
    rw [← hr' (FMap.lookup_of_lookup_erase hp)]
    -- The dropped record is another one, so is the entry dropped with it.
    have hne : q ≠ p := by
      rintro rfl
      have hgone : (r'.byID.erase id).lookup (r.heap q).id = some q := hp
      rw [(h.ids id q hq).1, AList.lookup_erase] at hgone
      cases hgone
    unfold Registry.drop
    simp only
    split
    · rename_i hown
      rw [FMap.lookup_erase_ite]
      split
      · rename_i hk
        rw [hk, hown]
        simpa using hne
      · rfl
    · rfl
  exact hall.2 hstays

end Indexed

end Dualnet.Peers
