import Dualnet.Finalizer.Sections

/-!
# Return tracking under any interleaving

The mapping changes in four ways only (`step_track`), and a reply on its way out was looked up
after it was read (`Replying`). From these `return_tracking` follows for every interleaving: the
cap holds, a mapping is what the last write section of `Submit` for its address set, only that
section makes mappings or changes their owner and target, and a collection drops exactly what is
idle.
-/

namespace Dualnet.Finalizer

open Library Wire

variable {T : Type}

/-- A step with the state it was taken in. -/
abbrev Taken (T : Type) := State T × Event T × Out T

/-! ## The mapping -/

/-- No mapping is new, and none has another owner or target. -/
def Keeps (track track' : FMap Netip.Addr (Entry T)) : Prop :=
  ∀ ip e', track'.lookup ip = some e' →
    ∃ e, track.lookup ip = some e ∧ e.owner = e'.owner ∧ e.target = e'.target

namespace State

variable (f : State T)

/-- What `Submit`'s write section leaves: its own mapping and the others. -/
theorem lookup_record {maxTrack : Int} {owner : Owner} {target : T} {src ip : Netip.Addr}
    {now : Int} {e : Entry T} (h : (f.record maxTrack owner target src now).lookup ip = some e) :
    ip = src ∧ e = ⟨owner, target, now⟩ ∨ ip ≠ src ∧ f.track.lookup ip = some e := by
  have hinsert : (f.track.insert src ⟨owner, target, now⟩).lookup ip = some e →
      ip = src ∧ e = ⟨owner, target, now⟩ ∨ ip ≠ src ∧ f.track.lookup ip = some e := by
    intro h
    rw [FMap.lookup_insert_ite] at h
    split at h
    · exact .inl ⟨‹_›, (Option.some.inj h).symm⟩
    · exact .inr ⟨‹_›, h⟩
  unfold record at h
  split at h
  · exact hinsert h
  · rename_i hnone
    split at h
    · exact hinsert h
    · refine .inr ⟨?_, h⟩
      rintro rfl
      rw [hnone] at h
      cases h

/-- `Submit`'s write section keeps the cap. -/
theorem size_record {maxTrack : Int} (hmax : 0 < maxTrack)
    (hsize : (f.track.size : Int) ≤ maxTrack) (owner : Owner) (target : T) (src : Netip.Addr)
    (now : Int) : ((f.record maxTrack owner target src now).size : Int) ≤ maxTrack := by
  unfold record
  split
  · rename_i e he
    rw [FMap.size_insert, he]
    exact hsize
  · rename_i hnone
    split
    · rename_i hroom
      rw [FMap.size_insert, hnone]
      simp only [Option.isSome_none, Bool.false_eq_true, if_false]
      push_cast
      omega
    · exact hsize

/-- `Run`'s write section bumps a timestamp at most. -/
theorem touch_keeps (dst : Netip.Addr) (now : Int) : Keeps f.track (f.touch dst now) := by
  intro ip e' he'
  unfold touch at he'
  split at he'
  · rename_i cur hcur
    rw [FMap.lookup_insert_ite] at he'
    split at he'
    · rename_i hip
      obtain rfl := Option.some.inj he'
      exact ⟨cur, hip ▸ hcur, rfl, rfl⟩
    · exact ⟨e', he', rfl, rfl⟩
  · exact ⟨e', he', rfl, rfl⟩

/-- `Run`'s write section adds no mapping. -/
theorem size_touch (dst : Netip.Addr) (now : Int) : (f.touch dst now).size = f.track.size := by
  unfold touch
  split
  · rename_i cur hcur
    rw [FMap.size_insert, hcur]
    rfl
  · rfl

/-- A collection drops exactly the mappings older than the ttl. -/
theorem lookup_gc (ttl now : Int) (ip : Netip.Addr) : (f.gc ttl now).1.lookup ip =
    (f.track.lookup ip).filter fun e => !decide (e.lastSeen < now - ttl) :=
  FMap.lookup_sweep _ _ _

/-- A collection changes no mapping that stays. -/
theorem gc_keeps (ttl now : Int) : Keeps f.track (f.gc ttl now).1 := by
  intro ip e' he'
  rw [lookup_gc, Option.filter_eq_some_iff] at he'
  exact ⟨e', he'.1, rfl, rfl⟩

variable [DecidableEq T]

/-- What a step can do to the mapping: a write section of `Submit` records its flow, and every
other step leaves it alone, bumps a timestamp, or is a collection. -/
theorem step_track {ttl maxTrack : Int} {f f' : State T} {event : Event T} {out : Out T}
    (h : f.step ttl maxTrack event = some (f', out)) :
    (∃ caller src owner target now, event = .write caller ∧ out = .written src owner target ∧
      f'.track = f.record maxTrack owner target src now) ∨
    ((∀ caller, event ≠ .write caller) ∧ (∀ src owner target, out ≠ .written src owner target) ∧
      (f'.track = f.track ∨ (∃ dst now, f'.track = f.touch dst now) ∨
        ∃ now, f'.track = (f.gc ttl now).1)) := by
  cases step_cases h with
  | @write caller owner target payload src now hlocal =>
    exact .inl ⟨caller, src, owner, target, now, rfl, rfl, rfl⟩
  | @refresh caller pkt dst now e hlocal =>
    exact .inr ⟨by simp, by simp, .inr (.inl ⟨dst, now, rfl⟩)⟩
  | @gc now => exact .inr ⟨by simp, by simp, .inr (.inr ⟨now, rfl⟩)⟩
  | _ => exact .inr ⟨by simp, by simp, .inl rfl⟩

end State

/-! ## Replies -/

/-- The latest reply the caller has read, and the steps since. -/
def LastRead (steps : List (Taken T)) (caller : Nat) (pkt : Bytes) (since : List (Taken T)) :
    Prop :=
  (∃ f out earlier, steps = since ++ (f, .reply caller pkt, out) :: earlier) ∧
    ∀ taken ∈ since, ∀ other, taken.2.1 ≠ .reply caller other

/-- The latest reply the caller has read and the mapping that was there for its destination at a
moment after that. -/
def LookedUp (steps : List (Taken T)) (caller : Nat) (pkt : Bytes) (e : Entry T) : Prop :=
  ∃ dst since, dstIP pkt = some dst ∧ LastRead steps caller pkt since ∧
    ∃ taken ∈ since, taken.1.track.lookup dst = some e

/-- A caller about to look a reply up has read it, and one about to send it has looked it up
since. -/
def Replying (steps : List (Taken T)) (caller : Nat) : Local T → Prop
  | .lookup pkt dst _ => dstIP pkt = some dst ∧ ∃ since, LastRead steps caller pkt since
  | .refresh pkt _ _ e => LookedUp steps caller pkt e
  | .send pkt e => LookedUp steps caller pkt e
  | _ => True

variable {steps : List (Taken T)} {caller : Nat}

/-- The read is the latest one until the caller reads again. -/
theorem LastRead.cons {steps since : List (Taken T)} {pkt : Bytes}
    (h : LastRead steps caller pkt since) {taken : Taken T}
    (hquiet : ∀ other, taken.2.1 ≠ .reply caller other) :
    LastRead (taken :: steps) caller pkt (taken :: since) := by
  obtain ⟨⟨f, out, earlier, rfl⟩, hsince⟩ := h
  exact ⟨⟨f, out, earlier, rfl⟩, List.forall_mem_cons.mpr ⟨hquiet, hsince⟩⟩

/-- A step that reads no reply for the caller does not change that. -/
theorem Replying.cons {local' : Local T} (h : Replying steps caller local') {taken : Taken T}
    (hquiet : ∀ other, taken.2.1 ≠ .reply caller other) :
    Replying (taken :: steps) caller local' := by
  have hlookedUp : ∀ pkt e, LookedUp steps caller pkt e →
      LookedUp (taken :: steps) caller pkt e := by
    rintro pkt e ⟨dst, since, hdst, hread, t, ht, hentry⟩
    exact ⟨dst, taken :: since, hdst, hread.cons hquiet, t, List.mem_cons_of_mem _ ht, hentry⟩
  cases local' with
  | lookup pkt dst now =>
    obtain ⟨hdst, since, hread⟩ := h
    exact ⟨hdst, taken :: since, hread.cons hquiet⟩
  | refresh pkt dst now e => exact hlookedUp pkt e h
  | send pkt e => exact hlookedUp pkt e h
  | _ => trivial

/-- Changing what one caller does next, in a step that reads no reply for another. -/
theorem replying_goto {f : State T} {next : Local T} (h : ∀ c, Replying steps c (f.callers c))
    {taken : Taken T} (hreads : ∀ c other, taken.2.1 = .reply c other → c = caller)
    (hnext : Replying (taken :: steps) caller next) (c : Nat) :
    Replying (taken :: steps) c ((f.goto caller next).callers c) := by
  by_cases hc : c = caller
  · subst hc
    simpa [State.goto] using hnext
  · have hquiet : ∀ other, taken.2.1 ≠ .reply c other := fun other hread => hc (hreads c other hread)
    simpa [State.goto, Function.update_of_ne hc] using (h c).cons hquiet

/-- Every section leaves each caller with a reply it has looked up. -/
theorem replying_step [DecidableEq T] {ttl maxTrack : Int} {f f' : State T} {event : Event T}
    {out : Out T} (h : ∀ c, Replying steps c (f.callers c))
    (htaken : f.step ttl maxTrack event = some (f', out)) :
    ∀ c, Replying ((f, event, out) :: steps) c (f'.callers c) := by
  cases State.step_cases htaken with
  | reflect | gc | refreshClock => exact fun c => (h c).cons (by simp)
  | submit | untracked | fresh | stale | write | inject | unknown | send =>
    exact replying_goto h (by simp) trivial
  | @unparsed caller pkt hlocal =>
    -- The reader of a reply without a destination stays where it is, between two replies.
    intro c
    by_cases hc : c = caller
    · rw [hc, hlocal]
      trivial
    · exact (h c).cons (by simp [Ne.symm hc])
  | @reply caller pkt dst hlocal hdst =>
    have hread : LastRead ((f, .reply caller pkt, .nothing) :: steps) caller pkt [] :=
      ⟨⟨f, _, steps, rfl⟩, by simp⟩
    refine replying_goto h (fun c other hread => ?_) ⟨hdst, [], hread⟩
    cases hread
    rfl
  | @old caller pkt dst now e hlocal hentry | @current caller pkt dst now e hlocal hentry =>
    -- The lookup itself is the moment at which the entry was there.
    have hread := h caller
    rw [hlocal] at hread
    obtain ⟨hdst, since, hread⟩ := hread
    have hlookedUp : LookedUp ((f, .lookup caller, .nothing) :: steps) caller pkt e :=
      ⟨dst, (f, .lookup caller, .nothing) :: since, hdst, hread.cons (by simp), _,
        List.mem_cons_self, hentry⟩
    exact replying_goto h (by simp) hlookedUp
  | @refresh caller pkt dst now e hlocal =>
    have hread := h caller
    rw [hlocal] at hread
    have hsend : Replying steps caller (.send pkt e) := hread
    exact replying_goto h (by simp) (hsend.cons (by simp))

/-! ## Whole runs -/

/-- What a write section of `Submit` for this address was about. -/
def writtenFor (ip : Netip.Addr) : Taken T → Option (Owner × T)
  | (_, _, .written src owner target) => if src = ip then some (owner, target) else none
  | _ => none

/-- Owner and target of the most recent write section of `Submit` for this address. -/
def lastWritten (ip : Netip.Addr) (steps : List (Taken T)) : Option (Owner × T) :=
  steps.findSome? (writtenFor ip)

/-- The cap holds, the mappings are those written last, and replies were looked up. -/
structure Tracked (maxTrack : Int) (f : State T) (steps : List (Taken T)) : Prop where
  capped : 0 < maxTrack → (f.track.size : Int) ≤ maxTrack
  written : ∀ ip e, f.track.lookup ip = some e → lastWritten ip steps = some (e.owner, e.target)
  replying : ∀ c, Replying steps c (f.callers c)

variable [DecidableEq T]

/-- Every step keeps it. -/
theorem tracked_step {ttl maxTrack : Int} {f f' : State T} {event : Event T} {out : Out T}
    (h : Tracked maxTrack f steps) (htaken : f.step ttl maxTrack event = some (f', out)) :
    Tracked maxTrack f' ((f, event, out) :: steps) := by
  rcases State.step_track htaken with ⟨caller, src, owner, target, now, rfl, rfl, htrack⟩ |
      ⟨-, hout, htrack⟩
  · refine ⟨fun hmax => ?_, fun ip e he => ?_, replying_step h.replying htaken⟩
    · rw [htrack]
      exact f.size_record hmax (h.capped hmax) owner target src now
    · rw [htrack] at he
      rcases f.lookup_record he with ⟨rfl, rfl⟩ | ⟨hip, hold⟩
      · simp [lastWritten, writtenFor]
      · have hskip : lastWritten ip ((f, .write caller, .written src owner target) :: steps) =
            lastWritten ip steps := by
          simp [lastWritten, writtenFor, Ne.symm hip]
        rw [hskip]
        exact h.written ip e hold
  · have hskip : ∀ ip, lastWritten ip ((f, event, out) :: steps) = lastWritten ip steps := by
      intro ip
      cases out with
      | written src owner target => exact absurd rfl (hout src owner target)
      | _ => rfl
    have hkeeps : Keeps f.track f'.track ∧ f'.track.size ≤ f.track.size := by
      rcases htrack with heq | ⟨dst, now, heq⟩ | ⟨now, heq⟩
      · rw [heq]
        exact ⟨fun ip e he => ⟨e, he, rfl, rfl⟩, Nat.le_refl _⟩
      · rw [heq]
        exact ⟨f.touch_keeps dst now, Nat.le_of_eq (f.size_touch dst now)⟩
      · rw [heq]
        exact ⟨f.gc_keeps ttl now, FMap.size_sweep_le _ _⟩
    refine ⟨fun hmax => ?_, fun ip e' he' => ?_, replying_step h.replying htaken⟩
    · exact Int.le_trans (Int.ofNat_le.mpr hkeeps.2) (h.capped hmax)
    · obtain ⟨e, he, howner, htarget⟩ := hkeeps.1 ip e' he'
      rw [hskip, ← howner, ← htarget]
      exact h.written ip e he

/-- Every state of every interleaving is tracked. -/
theorem tracked_steps {ttl maxTrack start : Int} {f : State T}
    (h : Steps (State.step ttl maxTrack) (new start) steps f) : Tracked maxTrack f steps := by
  induction h with
  | refl =>
    refine ⟨fun hmax => Int.le_of_lt hmax, fun ip e he => ?_, fun c => trivial⟩
    simp [new] at he
  | step _ htaken ih => exact tracked_step ih htaken

/-- In every state of every interleaving of `Submit`s, reply loops, collections and clock
refreshes: the mapping is within the cap; a flow's owner and target are those of the most recent
write section of `Submit` for its address, and no other step makes a flow or changes them; a
reply goes out processed and unchanged, to the owner and target its destination had at a moment
after it was read; and a collection drops exactly the flows idle beyond the ttl. -/
theorem return_tracking {ttl maxTrack start : Int} {f : State T} {steps : List (Taken T)}
    (h : Steps (State.step ttl maxTrack) (new start) steps f) :
    (0 < maxTrack → (f.track.size : Int) ≤ maxTrack) ∧
    (∀ ip e, f.track.lookup ip = some e → lastWritten ip steps = some (e.owner, e.target)) ∧
    (∀ event f' out, f.step ttl maxTrack event = some (f', out) →
      (∀ caller, event ≠ .write caller) → Keeps f.track f'.track) ∧
    (∀ caller f' target env pkt,
      f.step ttl maxTrack (.send caller) = some (f', .sent target env pkt) →
        ∃ e, LookedUp steps caller pkt e ∧ target = e.target ∧ env = ⟨e.owner, true⟩) ∧
    ∀ now f' out, f.step ttl maxTrack (.gc now) = some (f', out) →
      ∀ ip, f'.track.lookup ip =
        (f.track.lookup ip).filter fun e => !decide (e.lastSeen < now - ttl) := by
  have htracked := tracked_steps h
  refine ⟨htracked.capped, htracked.written, ?_, ?_, ?_⟩
  · intro event f' out htaken hwrite
    rcases State.step_track htaken with ⟨caller, src, owner, target, now, rfl, -⟩ |
        ⟨-, -, heq | ⟨dst, now, heq⟩ | ⟨now, heq⟩⟩
    · exact absurd rfl (hwrite caller)
    · rw [heq]
      exact fun ip e he => ⟨e, he, rfl, rfl⟩
    · rw [heq]
      exact f.touch_keeps dst now
    · rw [heq]
      exact f.gc_keeps ttl now
  · intro caller f' target env pkt htaken
    have hreplying := htracked.replying caller
    cases State.step_cases htaken with
    | @send caller pkt e hlocal =>
      rw [hlocal] at hreplying
      exact ⟨e, hreplying, rfl, rfl⟩
  · intro now f' out htaken ip
    obtain ⟨rfl, rfl⟩ := pair_inj htaken
    exact f.lookup_gc ttl now ip

/-- A packet is submitted and its reply looked up; the reply then goes to the owner and target
of the submission. -/
theorem return_tracking_reply : ∃ (f f' : State String) (steps : List (Taken String)) (e : _),
    Steps (State.step 60 1) (new 0) steps f ∧
      f.step 60 1 (.send 1) = some (f', .sent "tun" ⟨⟨1, 1, 1, 1⟩, true⟩
        (0x45 :: List.replicate 19 0)) ∧
      LookedUp steps 1 (0x45 :: List.replicate 19 0) e ∧ e.target = "tun" := by
  have hsubmitted : Steps (State.step 60 1) (new 0) _ _ := .step (.step (.step .refl
    (show State.step 60 1 _ (.submit 0 ⟨1, 1, 1, 1⟩ "tun" (0x45 :: List.replicate 19 0)) = _
      from rfl)) (show State.step 60 1 _ (.check 0) = _ from rfl))
    (show State.step 60 1 _ (.write 0) = _ from rfl)
  have hreplied : Steps (State.step 60 1) (new 0) _ _ := .step (.step hsubmitted
    (show State.step 60 1 _ (.reply 1 (0x45 :: List.replicate 19 0)) = _ from rfl))
    (show State.step 60 1 _ (.lookup 1) = _ from rfl)
  obtain ⟨e, hlookedUp, htarget, -⟩ := (return_tracking hreplied).2.2.2.1 1 _ _ _ _ rfl
  exact ⟨_, _, _, e, hreplied, rfl, hlookedUp, htarget.symm⟩

end Dualnet.Finalizer
