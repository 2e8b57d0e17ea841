import Dualnet.Library.Maps
import Dualnet.Library.Runs
import Dualnet.Wire.Envelope

/-!
# The streams of the HTTP downlink

`httpListenOut` of `conn/http.go`: which stream serves which id, and the stamp of the last GET
accepted per id. `reserve` installs the stream of an authenticated GET, `remove` forgets it
when its handler ends. A stream is named by its address; the random ids a minting `reserve`
draws are given to it.
-/

namespace Dualnet.Conn

open Library Wire

/-- The address of an `httpDownConn`. -/
abbrev Stream := Nat

/-- The tracked part of an `httpListenOut`; `closed` lists the streams whose `done` channel was
closed because a newer one took their id. -/
structure HttpListenOut where
  multiple : Bool
  maxPeers : Int
  byID : FMap Owner Stream
  lastTS : FMap Owner UInt64
  closed : List Stream

namespace HttpListenOut

/-- A fresh listener. -/
def new (multiple : Bool) (maxPeers : Int) : HttpListenOut := ⟨multiple, maxPeers, ∅, ∅, []⟩

variable (c : HttpListenOut)

/-- The cap leaves no room for another id. -/
def full : Bool := 0 < c.maxPeers && c.maxPeers ≤ c.byID.size

/-- `lastTS[id]`: zero for an id never seen. -/
def stampOf (id : Owner) : UInt64 := (c.lastTS.lookup id).getD 0

/-- The minting loop: the first draw with no stream. With no such draw it is still running. -/
def mint (draws : List Owner) : Option Owner :=
  draws.find? fun id => (c.byID.lookup id).isNone

/-- Install `dc` under `id`, superseding the stream that is there. -/
def install (id : Owner) (ts : UInt64) (dc : Stream) : HttpListenOut :=
  { c with
    byID := c.byID.insert id dc
    lastTS := c.lastTS.insert id ts
    closed := c.closed ++ (c.byID.lookup id).toList }

/-- `reserve`: the id to use and whether the GET is accepted. -/
def reserve (claimed : Owner) (ts : UInt64) (dc : Stream) (draws : List Owner) :
    Option (HttpListenOut × Owner × Bool) :=
  let id := if c.multiple then claimed else Owner.zero
  if c.multiple && claimed.isZero then
    if c.full then some (c, Owner.zero, false)
    else (c.mint draws).map fun id => (c.install id ts dc, id, true)
  else if ts ≤ c.stampOf id then some (c, Owner.zero, false)
  else if (c.byID.lookup id).isNone && c.full then some (c, Owner.zero, false)
  else some (c.install id ts dc, id, true)

/-- `remove`: forget the stream unless another one took its id over. -/
def remove (id : Owner) (dc : Stream) : HttpListenOut :=
  if c.byID.lookup id = some dc then { c with byID := c.byID.erase id } else c

/-- `lookup`: the stream a packet of this owner goes to. -/
def lookup (owner : Owner) : Option Stream :=
  if c.multiple then c.byID.lookup owner else c.byID.lookup Owner.zero

/-- Everything `reserve` can do: refuse and change nothing, install a minted id, or install the
id of the existing-peer path under a newer stamp, where it has a stream or the cap leaves room. -/
theorem reserve_cases {claimed : Owner} {ts : UInt64} {dc : Stream} {draws : List Owner}
    {c' : HttpListenOut} {id : Owner} {ok : Bool}
    (h : c.reserve claimed ts dc draws = some (c', id, ok)) :
    (ok = false ∧ c' = c) ∨
    (ok = true ∧ c.multiple = true ∧ claimed = Owner.zero ∧ c.full = false ∧
      c.mint draws = some id ∧ c' = c.install id ts dc) ∨
    (ok = true ∧ (c.multiple = true → id = claimed ∧ claimed ≠ Owner.zero) ∧
      (c.multiple = false → id = Owner.zero) ∧ c.stampOf id < ts ∧
      ((c.byID.lookup id).isSome = true ∨ c.full = false) ∧ c' = c.install id ts dc) := by
  unfold reserve at h
  simp only at h
  generalize hown : (if c.multiple = true then claimed else Owner.zero) = own at h
  split at h
  · rename_i hmint
    rw [Bool.and_eq_true, Owner.isZero_eq_true] at hmint
    split at h
    · obtain ⟨rfl, rfl, rfl⟩ := by simpa using h
      exact .inl ⟨rfl, rfl⟩
    · rename_i hroom
      rw [Option.map_eq_some_iff] at h
      obtain ⟨id', hid, heq⟩ := h
      obtain ⟨rfl, rfl, rfl⟩ := by simpa using heq
      exact .inr (.inl ⟨rfl, hmint.1, hmint.2, by simpa using hroom, hid, rfl⟩)
  rename_i hmint
  split at h
  · obtain ⟨rfl, rfl, rfl⟩ := by simpa using h
    exact .inl ⟨rfl, rfl⟩
  rename_i hstamp
  split at h
  · obtain ⟨rfl, rfl, rfl⟩ := by simpa using h
    exact .inl ⟨rfl, rfl⟩
  rename_i hroom
  obtain ⟨rfl, rfl, rfl⟩ := by simpa using h
  have hroom : (c.byID.lookup own).isSome = true ∨ c.full = false := by
    cases hlookup : c.byID.lookup own with
    | none => exact .inr (by simpa [hlookup] using hroom)
    | some _ => exact .inl rfl
  refine .inr (.inr ⟨rfl, fun hm => ?_, fun hm => ?_, UInt64.not_le.mp hstamp, hroom, rfl⟩)
  · rw [hm, if_pos rfl] at hown
    refine ⟨hown.symm, fun hzero => hmint ?_⟩
    simp [hm, hzero]
  · rw [hm, if_neg Bool.false_ne_true] at hown
    exact hown.symm

/-- Installing stamps the id and no other. -/
theorem install_stampOf (id id' : Owner) (ts : UInt64) (dc : Stream) :
    (c.install id ts dc).stampOf id' = if id' = id then ts else c.stampOf id' := by
  unfold stampOf install
  simp only
  rw [FMap.lookup_insert_ite]
  split <;> rfl

/-- `remove` forgets streams, never stamps. -/
theorem remove_stampOf (id id' : Owner) (dc : Stream) :
    (c.remove id dc).stampOf id' = c.stampOf id' := by
  unfold remove
  split <;> rfl

/-- `remove` does not change the mode. -/
@[simp] theorem remove_multiple (id : Owner) (dc : Stream) :
    (c.remove id dc).multiple = c.multiple := by
  unfold remove
  split <;> rfl

end HttpListenOut

/-- A call on the listener. -/
inductive DownCall where
  | reserve (claimed : Owner) (ts : UInt64) (dc : Stream) (draws : List Owner)
  | remove (id : Owner) (dc : Stream)

/-- What the caller gets back. -/
inductive DownOutcome where
  | reserved (id : Owner) (ok : Bool)
  | removed

/-- One call. -/
def HttpListenOut.step (c : HttpListenOut) : DownCall → Option (HttpListenOut × DownOutcome)
  | .reserve claimed ts dc draws =>
    (c.reserve claimed ts dc draws).map fun (c, id, ok) => (c, .reserved id ok)
  | .remove id dc => some (c.remove id dc, .removed)

/-- No call changes the mode. -/
theorem HttpListenOut.step_multiple {c c' : HttpListenOut} {call : DownCall} {out : DownOutcome}
    (h : c.step call = some (c', out)) : c'.multiple = c.multiple := by
  cases call with
  | remove id dc =>
    obtain ⟨rfl, rfl⟩ := pair_inj h
    exact c.remove_multiple id dc
  | reserve claimed ts dc draws =>
    simp only [step, Option.map_eq_some_iff] at h
    obtain ⟨⟨c'', id, ok⟩, hcall, heq⟩ := h
    obtain ⟨rfl, rfl⟩ := Prod.mk.inj heq
    rcases c.reserve_cases hcall with ⟨-, rfl⟩ | ⟨-, -, -, -, -, rfl⟩ |
      ⟨-, -, -, -, -, rfl⟩ <;> rfl

/-! ## Accepted GETs along a run -/

/-- The claimed id and stamp of an accepted GET. -/
def acceptedGet : DownCall × DownOutcome → Option (Owner × UInt64)
  | (.reserve claimed ts _ _, .reserved _ true) => some (claimed, ts)
  | _ => none

/-- The accepted GETs of a history, latest first. -/
def acceptedGets (history : List (DownCall × DownOutcome)) : List (Owner × UInt64) :=
  history.filterMap acceptedGet

/-- No GET is accepted twice, and the stamps accepted for one non-zero claimed id, or by the
single-mode listener, increase. -/
structure ReplayFree (multiple : Bool) (accepted : List (Owner × UInt64)) : Prop where
  nodup : accepted.Nodup
  increasing : accepted.Pairwise fun later earlier =>
    (multiple = true → later.1 = earlier.1 ∧ earlier.1 ≠ Owner.zero) → earlier.2 < later.2

/-- A minting GET repeats no earlier first-contact GET, and the id it draws has not been claimed
under a newer stamp. -/
def FirstContact (c : HttpListenOut) (history : List (DownCall × DownOutcome)) :
    DownCall → Prop
  | .reserve claimed ts _ draws =>
    c.multiple = true → claimed = Owner.zero → c.full = false →
      (Owner.zero, ts) ∉ acceptedGets history ∧
        ∀ id, c.mint draws = some id → id ≠ Owner.zero →
          ∀ a ∈ acceptedGets history, a.1 = id → a.2 ≤ ts
  | .remove _ _ => True

/-- The runs whose minting GETs are first contacts. -/
abbrev DownRun (multiple : Bool) (maxPeers : Int) :
    HttpListenOut → List (DownCall × DownOutcome) → Prop :=
  Reached HttpListenOut.step FirstContact (.new multiple maxPeers)

/-- The freshness map covers every accepted GET: under the zero id in single mode, under the
claimed id, unless that is zero, in multiple mode. -/
structure StampsCovered (c : HttpListenOut) (accepted : List (Owner × UInt64)) : Prop where
  single : c.multiple = false → ∀ a ∈ accepted, a.2 ≤ c.stampOf Owner.zero
  multiple : c.multiple = true → ∀ a ∈ accepted, a.1 ≠ Owner.zero → a.2 ≤ c.stampOf a.1
  replayFree : ReplayFree c.multiple accepted

/-- Nothing is accepted before the first call. -/
theorem stampsCovered_new (multiple : Bool) (maxPeers : Int) :
    StampsCovered (.new multiple maxPeers) [] := by
  refine ⟨by simp, by simp, List.nodup_nil, List.Pairwise.nil⟩

/-- A call that accepts no GET keeps the accepted ones covered, as long as it keeps the mode and
the stamps. -/
theorem stampsCovered_frame {c c' : HttpListenOut} {accepted : List (Owner × UInt64)}
    (h : StampsCovered c accepted) (hmultiple : c'.multiple = c.multiple)
    (hstamps : ∀ id, c'.stampOf id = c.stampOf id) : StampsCovered c' accepted := by
  refine ⟨?_, ?_, ?_⟩
  · simpa only [hmultiple, hstamps] using h.single
  · simpa only [hmultiple, hstamps] using h.multiple
  · simpa only [hmultiple] using h.replayFree

/-- Accepting one more GET keeps the history free of replays if the GET is new and newer than
those it is compared with. -/
theorem ReplayFree.cons {multiple : Bool} {accepted : List (Owner × UInt64)} {claimed : Owner}
    {ts : UInt64} (h : ReplayFree multiple accepted) (hnew : (claimed, ts) ∉ accepted)
    (hnewer : ∀ a ∈ accepted, (multiple = true → claimed = a.1 ∧ a.1 ≠ Owner.zero) → a.2 < ts) :
    ReplayFree multiple ((claimed, ts) :: accepted) :=
  ⟨List.nodup_cons.mpr ⟨hnew, h.nodup⟩, List.pairwise_cons.mpr ⟨hnewer, h.increasing⟩⟩

/-- Installing a minted id under a first contact keeps the accepted GETs covered. -/
theorem stampsCovered_mint {c : HttpListenOut} {accepted : List (Owner × UInt64)} {id : Owner}
    {ts : UInt64} {dc : Stream} (h : StampsCovered c accepted) (hm : c.multiple = true)
    (hnew : (Owner.zero, ts) ∉ accepted)
    (hclaimed : id ≠ Owner.zero → ∀ a ∈ accepted, a.1 = id → a.2 ≤ ts) :
    StampsCovered (c.install id ts dc) ((Owner.zero, ts) :: accepted) := by
  refine ⟨fun hm' => absurd (hm.symm.trans hm') (by simp), fun _ a ha hzero => ?_, ?_⟩
  · rcases List.mem_cons.mp ha with rfl | ha
    · exact absurd rfl hzero
    · rw [HttpListenOut.install_stampOf]
      split
      · rename_i heq
        exact hclaimed (heq ▸ hzero) a ha heq
      · exact h.multiple hm a ha hzero
  · refine ReplayFree.cons h.replayFree hnew fun a _ hsame => ?_
    obtain ⟨hzero, hne⟩ := hsame hm
    exact absurd hzero.symm hne

/-- The existing-peer path keeps the accepted GETs covered: its GET is newer than all it is
compared with. -/
theorem stampsCovered_existing {c : HttpListenOut} {accepted : List (Owner × UInt64)}
    {claimed id : Owner} {ts : UInt64} {dc : Stream} (h : StampsCovered c accepted)
    (hclaimed : c.multiple = true → id = claimed ∧ claimed ≠ Owner.zero)
    (hsingle : c.multiple = false → id = Owner.zero) (hnewer : c.stampOf id < ts) :
    StampsCovered (c.install id ts dc) ((claimed, ts) :: accepted) := by
  have hcovered : ∀ a ∈ accepted, (c.multiple = true → claimed = a.1 ∧ a.1 ≠ Owner.zero) →
      a.2 < ts := by
    intro a ha hsame
    refine UInt64.lt_of_le_of_lt ?_ hnewer
    cases hm : c.multiple with
    | false => exact hsingle hm ▸ h.single hm a ha
    | true =>
      obtain ⟨heq, hne⟩ := hsame hm
      rw [(hclaimed hm).1, heq]
      exact h.multiple hm a ha hne
  refine ⟨fun hm a ha => ?_, fun hm a ha hzero => ?_, ?_⟩
  · rw [HttpListenOut.install_stampOf, if_pos (hsingle hm).symm]
    rcases List.mem_cons.mp ha with rfl | ha
    · exact UInt64.le_refl ts
    · exact UInt64.le_of_lt (hcovered a ha fun hm' => absurd (hm.symm.trans hm') (by simp))
  · rw [HttpListenOut.install_stampOf, (hclaimed hm).1]
    rcases List.mem_cons.mp ha with rfl | ha
    · exact (if_pos rfl).symm ▸ UInt64.le_refl ts
    · split
      · rename_i heq
        exact UInt64.le_of_lt (hcovered a ha fun _ => ⟨heq.symm, hzero⟩)
      · exact h.multiple hm a ha hzero
  · refine h.replayFree.cons (fun hmem => ?_) hcovered
    have hself : c.multiple = true → claimed = (claimed, ts).1 ∧ (claimed, ts).1 ≠ Owner.zero :=
      fun hm => ⟨rfl, (hclaimed hm).2⟩
    exact absurd (hcovered _ hmem hself) (UInt64.lt_irrefl ts)

/-- Every state of a run covers the GETs accepted so far. -/
theorem DownRun.covered {multiple : Bool} {maxPeers : Int} {c : HttpListenOut}
    {history : List (DownCall × DownOutcome)} (h : DownRun multiple maxPeers c history) :
    StampsCovered c (acceptedGets history) := by
  refine h.invariant (fun c history => StampsCovered c (acceptedGets history))
    (stampsCovered_new multiple maxPeers) ?_
  intro c history call c' out hcovered hfirst htaken
  cases call with
  | remove id dc =>
    obtain ⟨rfl, rfl⟩ := pair_inj htaken
    exact stampsCovered_frame hcovered (c.remove_multiple id dc)
      fun id' => c.remove_stampOf id id' dc
  | reserve claimed ts dc draws =>
    simp only [HttpListenOut.step, Option.map_eq_some_iff] at htaken
    obtain ⟨⟨c'', id, ok⟩, hcall, heq⟩ := htaken
    obtain ⟨rfl, rfl⟩ := Prod.mk.inj heq
    rcases c.reserve_cases hcall with ⟨rfl, rfl⟩ | ⟨rfl, hm, rfl, hroom, hmint, rfl⟩ |
        ⟨rfl, hclaimed, hsingle, hnewer, -, rfl⟩
    · exact hcovered
    · obtain ⟨hnew, hdraw⟩ := hfirst hm rfl hroom
      exact stampsCovered_mint hcovered hm hnew (hdraw id hmint)
    · exact stampsCovered_existing hcovered hclaimed hsingle hnewer

/-- Along every run whose minting GETs are first contacts, no GET is accepted twice and the
stamps accepted for one peer increase. -/
theorem accepted_gets_replay_free {multiple : Bool} {maxPeers : Int} {c : HttpListenOut}
    {history : List (DownCall × DownOutcome)} (h : DownRun multiple maxPeers c history) :
    ReplayFree multiple (acceptedGets history) := by
  have hmode : c.multiple = multiple := by
    refine h.invariant (fun c _ => c.multiple = multiple) rfl ?_
    intro c _ call c' out hmode _ htaken
    exact (HttpListenOut.step_multiple htaken).trans hmode
  exact hmode ▸ h.covered.replayFree

/-- A first contact and a reconnect under the minted id, with a newer stamp. -/
theorem accepted_gets_replay_free_reconnect : ∃ c history, DownRun true 0 c history ∧
    acceptedGets history = [(⟨1, 1, 1, 1⟩, 12), (Owner.zero, 10)] ∧
    ReplayFree true (acceptedGets history) := by
  have hfirst : FirstContact (.new true 0) [] (.reserve Owner.zero 10 0 [⟨1, 1, 1, 1⟩]) := by
    simp [FirstContact, acceptedGets]
  have hrun : DownRun true 0 _ _ := .step .init hfirst rfl
  have hrun : DownRun true 0 _ _ := .step hrun
    (show FirstContact _ _ (.reserve ⟨1, 1, 1, 1⟩ 12 1 []) from
      fun _ hzero _ => absurd hzero (by decide)) rfl
  exact ⟨_, _, hrun, rfl, accepted_gets_replay_free hrun⟩

/-- A replayed first-contact GET is accepted again: the minting path looks at no stamp. -/
theorem first_contact_replayed : ∃ c history,
    Reached HttpListenOut.step (fun _ _ _ => True) (.new true 0) c history ∧
      acceptedGets history = [(Owner.zero, 10), (Owner.zero, 10)] ∧
      ¬ ReplayFree true (acceptedGets history) := by
  have hrun : Reached HttpListenOut.step (fun _ _ _ => True) (.new true 0) _ _ :=
    .step (.step .init trivial (show HttpListenOut.step _
      (.reserve Owner.zero 10 0 [⟨1, 1, 1, 1⟩]) = _ from rfl)) trivial
      (show HttpListenOut.step _ (.reserve Owner.zero 10 1 [⟨2, 2, 2, 2⟩]) = _ from rfl)
  exact ⟨_, _, hrun, rfl, fun h => absurd h.nodup (by decide)⟩

end Dualnet.Conn
