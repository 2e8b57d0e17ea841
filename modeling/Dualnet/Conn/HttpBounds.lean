import Dualnet.Conn.HttpListenOut

/-!
# How much an HTTP downlink remembers

`peer_state_bounded_iff`: under a cap the stream map stays within it along every run. The map of
stamps does not: `remove` forgets a stream and keeps its stamp. It is within the cap exactly if
every GET that brings a new id comes while the ids with a stream and those that have left are
together fewer than the cap.
-/

namespace Dualnet.Conn

open Library Wire

/-- The runs of a listener, with any calls. -/
abbrev AnyRun (multiple : Bool) (maxPeers : Int) :
    HttpListenOut → List (DownCall × DownOutcome) → Prop :=
  Reached HttpListenOut.step (fun _ _ _ => True) (.new multiple maxPeers)

namespace HttpListenOut

variable (c : HttpListenOut)

/-- The id a GET is for: zero in single mode, the claimed one, or the first draw with no stream. -/
def wanted (claimed : Owner) (draws : List Owner) : Option Owner :=
  if !c.multiple then some Owner.zero
  else if claimed.isZero then c.mint draws else some claimed

/-- The ids that have been here and have no stream now. -/
def away : List Owner := c.lastTS.keys.filter fun id => (c.byID.lookup id).isNone

/-- A GET for an id that was never here and that nothing turns away: the stream map has room, and
a GET that claims its id has a stamp. -/
def NewID : DownCall → Prop
  | .reserve claimed ts _ draws =>
    c.full = false ∧ (c.multiple = true ∧ claimed = Owner.zero ∨ 0 < ts) ∧
      ∃ id ∈ c.wanted claimed draws, id ∉ c.lastTS
  | .remove _ _ => False

/-- A new id comes only while the ids with a stream and those that have left leave room for it. -/
def HasRoomFor (call : DownCall) : Prop :=
  c.NewID call → ((c.byID.size + c.away.length : Nat) : Int) < c.maxPeers

/-- Every id with a stream has a stamp. -/
def Stamped : Prop := ∀ id ∈ c.byID, id ∈ c.lastTS

variable {c}

/-- The ids with a stamp are those with a stream and those that have left. -/
theorem Stamped.size_eq (h : c.Stamped) : c.lastTS.size = c.byID.size + c.away.length := by
  have hhere : ∀ id, id ∈ c.byID ↔
      id ∈ c.lastTS.keys.filter fun id => !(c.byID.lookup id).isNone := by
    intro id
    rw [List.mem_filter, Option.not_isNone, AList.lookup_isSome, AList.mem_keys.symm]
    exact ⟨fun hid => ⟨h id hid, hid⟩, And.right⟩
  rw [FMap.size_eq_length_dedup hhere, (c.lastTS.keys_nodup.filter _).dedup, FMap.size, away,
    Nat.add_comm]
  exact List.length_eq_length_filter_add fun id => (c.byID.lookup id).isNone

/-- An id without a stamp has the stamp zero and no stream. -/
theorem Stamped.unseen (h : c.Stamped) {id : Owner} (hid : id ∉ c.lastTS) :
    c.stampOf id = 0 ∧ c.byID.lookup id = none := by
  rw [stampOf, AList.lookup_eq_none.mpr hid]
  exact ⟨rfl, AList.lookup_eq_none.mpr (mt (h id) hid)⟩

/-- A GET with a new id is accepted under it. -/
theorem Stamped.reserve_new (h : c.Stamped) {claimed id : Owner} {ts : UInt64} {dc : Stream}
    {draws : List Owner} (hfull : c.full = false)
    (hts : c.multiple = true ∧ claimed = Owner.zero ∨ 0 < ts)
    (hid : c.wanted claimed draws = some id) (hnew : id ∉ c.lastTS) :
    c.reserve claimed ts dc draws = some (c.install id ts dc, id, true) := by
  obtain ⟨hstamp, hstream⟩ := h.unseen hnew
  unfold wanted at hid
  unfold reserve
  cases hm : c.multiple with
  | false =>
    obtain rfl : Owner.zero = id := by simpa [hm] using hid
    have hts : ¬ ts ≤ 0 := UInt64.not_le.mpr (by simpa [hm] using hts)
    simp [hstamp, hts, hfull]
  | true =>
    by_cases hclaimed : claimed.isZero = true
    · have hmint : c.mint draws = some id := by simpa [hm, hclaimed] using hid
      simp [hclaimed, hfull, hmint]
    · obtain rfl : claimed = id := by simpa [hm, hclaimed] using hid
      have hts : ¬ ts ≤ 0 := by
        rw [Owner.isZero_eq_true] at hclaimed
        exact UInt64.not_le.mpr (hts.resolve_left fun hzero => hclaimed hzero.2)
      simp [hclaimed, hstamp, hts, hfull]

/-- What a call does to the ids with a stamp: a new id is added, and otherwise they stay. -/
theorem Stamped.step (h : c.Stamped) {c' : HttpListenOut} {call : DownCall} {out : DownOutcome}
    (htaken : c.step call = some (c', out)) :
    c'.Stamped ∧ c'.maxPeers = c.maxPeers ∧
      (c.NewID call → c'.lastTS.size = c.lastTS.size + 1) ∧
      (¬ c.NewID call → c'.lastTS.size = c.lastTS.size) := by
  cases call with
  | remove id dc =>
    obtain ⟨rfl, rfl⟩ := pair_inj htaken
    unfold remove
    split
    · refine ⟨fun id' hid' => h id' ?_, rfl, False.elim, fun _ => rfl⟩
      exact (AList.mem_erase.mp hid').2
    · exact ⟨h, rfl, False.elim, fun _ => rfl⟩
  | reserve claimed ts dc draws =>
    obtain ⟨⟨c'', id, ok⟩, hcall, heq⟩ := Option.map_eq_some_iff.mp htaken
    obtain ⟨rfl, rfl⟩ := Prod.mk.inj heq
    have hinstall : (c.install id ts dc).Stamped := by
      intro id' hid'
      rw [install, AList.mem_insert] at hid' ⊢
      exact hid'.imp_right (h id')
    have hsize : (c.install id ts dc).lastTS.size =
        if (c.lastTS.lookup id).isSome then c.lastTS.size else c.lastTS.size + 1 :=
      FMap.size_insert c.lastTS id ts
    have hadded : c.NewID (.reserve claimed ts dc draws) →
        c''.lastTS.size = c.lastTS.size + 1 := by
      rintro ⟨hfull, hts, id', hwanted, hnew⟩
      have hnone := AList.lookup_eq_none.mpr hnew
      obtain ⟨rfl, rfl, -⟩ := by
        simpa using hcall.symm.trans (h.reserve_new hfull hts hwanted hnew)
      rw [hsize, hnone]
      rfl
    have hkept : ∀ {x : HttpListenOut}, x = c.install id ts dc →
        (id ∉ c.lastTS → c.NewID (.reserve claimed ts dc draws)) →
        ¬ c.NewID (.reserve claimed ts dc draws) → x.lastTS.size = c.lastTS.size := by
      rintro _ rfl hnew hold
      rw [hsize, if_pos (AList.lookup_isSome.mpr (by_contra fun hid => hold (hnew hid)))]
    rcases c.reserve_cases hcall with ⟨rfl, rfl⟩ | ⟨rfl, hm, rfl, hfull, hmint, hc'⟩ |
        ⟨rfl, hclaimed, hsingle, hstamp, hroom, hc'⟩
    · exact ⟨h, rfl, hadded, fun _ => rfl⟩
    · refine ⟨hc' ▸ hinstall, by rw [hc']; rfl, hadded, hkept hc' fun hid => ?_⟩
      exact ⟨hfull, .inl ⟨hm, rfl⟩, id, by simpa [wanted, hm, Owner.isZero_eq_true.mpr] using hmint,
        hid⟩
    · refine ⟨hc' ▸ hinstall, by rw [hc']; rfl, hadded, hkept hc' fun hid => ?_⟩
      obtain ⟨hzero, hstream⟩ := h.unseen hid
      refine ⟨hroom.resolve_left (by simp [hstream]), .inr (hzero ▸ hstamp), id, ?_, hid⟩
      cases hm : c.multiple with
      | false => simp [wanted, hm, hsingle hm]
      | true =>
        obtain ⟨rfl, hne⟩ := hclaimed hm
        simp [wanted, hm, mt Owner.isZero_eq_true.mp hne]

/-- A call keeps the stream map within the cap. -/
theorem step_streams {maxPeers : Int} (hmax : 0 < maxPeers) (hcap : c.maxPeers = maxPeers)
    (hstreams : (c.byID.size : Int) ≤ maxPeers) {c' : HttpListenOut} {call : DownCall}
    {out : DownOutcome} (htaken : c.step call = some (c', out)) :
    (c'.byID.size : Int) ≤ maxPeers := by
  cases call with
  | remove id dc =>
    obtain ⟨rfl, rfl⟩ := pair_inj htaken
    unfold remove
    split
    · exact Int.le_trans (Int.ofNat_le.mpr (FMap.size_erase_le _ _)) hstreams
    · exact hstreams
  | reserve claimed ts dc draws =>
    obtain ⟨⟨c'', id, ok⟩, hcall, heq⟩ := Option.map_eq_some_iff.mp htaken
    obtain ⟨rfl, rfl⟩ := Prod.mk.inj heq
    have hinstall : (c.byID.lookup id).isSome = true ∨ c.full = false →
        ((c.install id ts dc).byID.size : Int) ≤ maxPeers := by
      intro hroom
      rw [install, FMap.size_insert]
      split
      · exact hstreams
      · rename_i hnone
        have hfull := hroom.resolve_left hnone
        simp only [full, hcap, hmax, decide_true, Bool.true_and, decide_eq_false_iff_not] at hfull
        push_cast
        omega
    rcases c.reserve_cases hcall with ⟨rfl, rfl⟩ | ⟨rfl, -, -, hroom, -, rfl⟩ |
        ⟨rfl, -, -, -, hroom, rfl⟩
    · exact hstreams
    · exact hinstall (.inr hroom)
    · exact hinstall hroom

end HttpListenOut

/-- The runs in which there is room for every new id. -/
abbrev RoomyRun (multiple : Bool) (maxPeers : Int) :
    HttpListenOut → List (DownCall × DownOutcome) → Prop :=
  Reached HttpListenOut.step (fun c _ call => c.HasRoomFor call) (.new multiple maxPeers)

/-- The cap is as it was, the stream map is within it, and every stream's id has a stamp. -/
structure Bounded (maxPeers : Int) (c : HttpListenOut) : Prop where
  cap : c.maxPeers = maxPeers
  streams : (c.byID.size : Int) ≤ maxPeers
  stamped : c.Stamped

/-- A fresh listener. -/
theorem bounded_new (multiple : Bool) {maxPeers : Int} (hmax : 0 < maxPeers) :
    Bounded maxPeers (.new multiple maxPeers) :=
  ⟨rfl, Int.le_of_lt hmax, fun id hid => absurd hid (AList.notMem_empty id)⟩

/-- Every call keeps this. -/
theorem Bounded.step {maxPeers : Int} (hmax : 0 < maxPeers) {c c' : HttpListenOut}
    (h : Bounded maxPeers c) {call : DownCall} {out : DownOutcome}
    (htaken : c.step call = some (c', out)) : Bounded maxPeers c' :=
  ⟨(h.stamped.step htaken).2.1.trans h.cap,
    HttpListenOut.step_streams hmax h.cap h.streams htaken, (h.stamped.step htaken).1⟩

/-- With room for every new id the stamp map stays within the cap. -/
theorem RoomyRun.stamps {multiple : Bool} {maxPeers : Int} (hmax : 0 < maxPeers)
    {c : HttpListenOut} {history : List (DownCall × DownOutcome)}
    (h : RoomyRun multiple maxPeers c history) : (c.lastTS.size : Int) ≤ maxPeers := by
  have hboth : Bounded maxPeers c ∧ (c.lastTS.size : Int) ≤ maxPeers := by
    refine h.invariant (fun c _ => Bounded maxPeers c ∧ (c.lastTS.size : Int) ≤ maxPeers)
      ⟨bounded_new multiple hmax, Int.le_of_lt hmax⟩ ?_
    rintro c history call c' out ⟨hbounded, hstamps⟩ hroom htaken
    obtain ⟨-, -, hadded, hkept⟩ := hbounded.stamped.step htaken
    refine ⟨hbounded.step hmax htaken, ?_⟩
    by_cases hnew : c.NewID call
    · have hroom := hroom hnew
      rw [← hbounded.stamped.size_eq, hbounded.cap] at hroom
      rw [hadded hnew]
      push_cast
      omega
    · rw [hkept hnew]
      exact hstamps
  exact hboth.2

/-- In every state of a run under a cap the stream map is within the cap, and the stamp map is
exactly if at each call of the run there was room for a new id. -/
theorem peer_state_bounded_iff {multiple : Bool} {maxPeers : Int} (hmax : 0 < maxPeers)
    {c : HttpListenOut} {history : List (DownCall × DownOutcome)}
    (h : AnyRun multiple maxPeers c history) :
    (c.byID.size : Int) ≤ maxPeers ∧
      ((c.lastTS.size : Int) ≤ maxPeers ↔ RoomyRun multiple maxPeers c history) := by
  have hbounded : Bounded maxPeers c := h.invariant (fun c _ => Bounded maxPeers c)
    (bounded_new multiple hmax) fun _ _ _ _ _ hc _ htaken => hc.step hmax htaken
  refine ⟨hbounded.streams, fun hstamps => ?_, RoomyRun.stamps hmax⟩
  -- the stamps never get fewer, so the bound held before each call too
  clear hbounded
  induction h with
  | init => exact .init
  | @step c c' history call out before _ htaken ih =>
    have hbounded : Bounded maxPeers c := before.invariant (fun c _ => Bounded maxPeers c)
      (bounded_new multiple hmax) fun _ _ _ _ _ hc _ htaken => hc.step hmax htaken
    obtain ⟨-, -, hadded, hkept⟩ := hbounded.stamped.step htaken
    have hgrows : c.lastTS.size ≤ c'.lastTS.size := by
      by_cases hnew : c.NewID call
      · exact hadded hnew ▸ Nat.le_succ _
      · exact (hkept hnew).ge
    refine .step (ih (by omega)) (fun hnew => ?_) htaken
    have hsize := hadded hnew
    rw [← hbounded.stamped.size_eq, hbounded.cap]
    omega

/-- Under a cap of one, a peer that connects, leaves and comes back under its id, while a GET for
another id is turned away. -/
theorem peer_state_bounded_visit : ∃ c history, AnyRun true 1 c history ∧
    history.length = 4 ∧ (c.byID.size : Int) ≤ 1 ∧ (c.lastTS.size : Int) ≤ 1 ∧
    RoomyRun true 1 c history := by
  have hrun : AnyRun true 1 _ _ := Reached.init.play [.reserve Owner.zero 10 0 [⟨1, 1, 1, 1⟩],
    .remove ⟨1, 1, 1, 1⟩ 0, .reserve ⟨1, 1, 1, 1⟩ 20 1 [], .reserve Owner.zero 30 2 []] rfl
  obtain ⟨hstreams, hstamps⟩ := peer_state_bounded_iff (by decide) hrun
  exact ⟨_, _, hrun, rfl, hstreams, by decide, hstamps.mp (by decide)⟩

/-- Under a cap of one, two peers that connect and leave one after the other: their stamps
stay. -/
theorem stamps_exceed_cap : ∃ c history, AnyRun true 1 c history ∧ c.byID.size = 0 ∧
    c.lastTS.size = 2 := by
  have hrun : AnyRun true 1 _ _ := Reached.init.play [.reserve Owner.zero 10 0 [⟨1, 1, 1, 1⟩],
    .remove ⟨1, 1, 1, 1⟩ 0, .reserve Owner.zero 20 1 [⟨2, 2, 2, 2⟩], .remove ⟨2, 2, 2, 2⟩ 1] rfl
  exact ⟨_, _, hrun, by decide, by decide⟩

end Dualnet.Conn
