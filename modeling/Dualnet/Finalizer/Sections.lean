import Dualnet.Library.Maps
import Dualnet.Library.Runs
import Dualnet.Wire.Ping

/-!
# The lock sections of the finalizer

Package `finalizer`: the return mapping of the flows sent to the internet. `Submit`, the reply
loop of `Run`, `GC` and the clock refresh run concurrently; what one of them does under the lock
is one step, and between its steps a caller holds what it has read. There are any number of
callers. Reply targets are an arbitrary type, compared by identity; time is an integer number of
nanoseconds.
-/

namespace Dualnet.Finalizer

open Library Wire

variable {T : Type}

/-- A return mapping. -/
structure Entry (T : Type) where
  owner : Owner
  target : T
  lastSeen : Int
  deriving DecidableEq

/-- What a caller is about to do. -/
inductive Local (T : Type) where
  /-- Between two calls, or two replies. -/
  | idle
  /-- `Submit` has read the clock and takes the read lock next. -/
  | check (owner : Owner) (target : T) (payload : Bytes) (src : Netip.Addr) (now : Int)
  /-- `Submit` found no fresh mapping and takes the write lock next. -/
  | write (owner : Owner) (target : T) (payload : Bytes) (src : Netip.Addr) (now : Int)
  /-- `Submit` hands the packet to the egress next. -/
  | inject (payload : Bytes)
  /-- `Run` has a reply, has read the clock and takes the read lock next. -/
  | lookup (pkt : Bytes) (dst : Netip.Addr) (now : Int)
  /-- `Run` found a mapping with another `lastSeen` and takes the write lock next. -/
  | refresh (pkt : Bytes) (dst : Netip.Addr) (now : Int) (e : Entry T)
  /-- `Run` sends the reply next. -/
  | send (pkt : Bytes) (e : Entry T)

/-- The finalizer and its callers. -/
structure State (T : Type) where
  clock : Int
  track : FMap Netip.Addr (Entry T)
  callers : Nat → Local T

/-- A step of one caller, a collection, or a clock refresh. -/
inductive Event (T : Type) where
  | submit (caller : Nat) (owner : Owner) (target : T) (payload : Bytes)
  | check (caller : Nat)
  | write (caller : Nat)
  | inject (caller : Nat)
  | reply (caller : Nat) (pkt : Bytes)
  | lookup (caller : Nat)
  | refresh (caller : Nat)
  | send (caller : Nat)
  | gc (now : Int)
  | refreshClock (now : Int)

/-- What can be seen of a step. -/
inductive Out (T : Type) where
  | nothing
  /-- A packet handed to a reply target. -/
  | sent (target : T) (e : Envelope) (payload : Bytes)
  /-- A packet handed to the egress. -/
  | injected (payload : Bytes)
  /-- A write section of `Submit`, with what it was about. -/
  | written (src : Netip.Addr) (owner : Owner) (target : T)
  /-- The number of mappings a collection dropped. -/
  | dropped (n : Nat)

/-- `New`. -/
def new (now : Int) : State T := ⟨now, ∅, fun _ => .idle⟩

namespace State

variable (f : State T)

/-- Set what a caller does next. -/
def goto (caller : Nat) (next : Local T) : State T :=
  { f with callers := Function.update f.callers caller next }

/-- The mapping of the flow is there and unchanged. -/
def fresh [DecidableEq T] (owner : Owner) (target : T) (src : Netip.Addr) (now : Int) : Bool :=
  match f.track.lookup src with
  | some e => e.owner == owner && e.target == target && e.lastSeen == now
  | none => false

/-- The write section of `Submit`: rebind a flow that is there, record a new one under the
cap. -/
def record (maxTrack : Int) (owner : Owner) (target : T) (src : Netip.Addr) (now : Int) :
    FMap Netip.Addr (Entry T) :=
  match f.track.lookup src with
  | some _ => f.track.insert src ⟨owner, target, now⟩
  | none =>
    if maxTrack ≤ 0 ∨ (f.track.size : Int) < maxTrack then
      f.track.insert src ⟨owner, target, now⟩
    else f.track

/-- The write section of `Run`: bump the timestamp of a flow that is still there. -/
def touch (dst : Netip.Addr) (now : Int) : FMap Netip.Addr (Entry T) :=
  match f.track.lookup dst with
  | some cur => f.track.insert dst { cur with lastSeen := now }
  | none => f.track

/-- `GC`: drop the mappings idle beyond the ttl. -/
def gc (ttl now : Int) : FMap Netip.Addr (Entry T) × Nat :=
  f.track.sweep fun _ e => e.lastSeen < now - ttl

/-- One step; `none` if the caller is not there. -/
def step [DecidableEq T] (ttl maxTrack : Int) (f : State T) :
    Event T → Option (State T × Out T)
  | .submit caller owner target payload =>
    match f.callers caller with
    | .idle =>
      if isPing payload then some (f, .sent target ⟨owner, true⟩ payload)
      else match srcIP payload with
        | some src => some (f.goto caller (.check owner target payload src f.clock), .nothing)
        | none => some (f.goto caller (.inject payload), .nothing)
    | _ => none
  | .check caller =>
    match f.callers caller with
    | .check owner target payload src now =>
      if f.fresh owner target src now then some (f.goto caller (.inject payload), .nothing)
      else some (f.goto caller (.write owner target payload src now), .nothing)
    | _ => none
  | .write caller =>
    match f.callers caller with
    | .write owner target payload src now =>
      some ({ f.goto caller (.inject payload) with
        track := f.record maxTrack owner target src now }, .written src owner target)
    | _ => none
  | .inject caller =>
    match f.callers caller with
    | .inject payload => some (f.goto caller .idle, .injected payload)
    | _ => none
  | .reply caller pkt =>
    match f.callers caller with
    | .idle =>
      match dstIP pkt with
      | some dst => some (f.goto caller (.lookup pkt dst f.clock), .nothing)
      | none => some (f, .nothing)
    | _ => none
  | .lookup caller =>
    match f.callers caller with
    | .lookup pkt dst now =>
      match f.track.lookup dst with
      | some e =>
        if e.lastSeen ≠ now then some (f.goto caller (.refresh pkt dst now e), .nothing)
        else some (f.goto caller (.send pkt e), .nothing)
      | none => some (f.goto caller .idle, .nothing)
    | _ => none
  | .refresh caller =>
    match f.callers caller with
    | .refresh pkt dst now e =>
      some ({ f.goto caller (.send pkt e) with track := f.touch dst now }, .nothing)
    | _ => none
  | .send caller =>
    match f.callers caller with
    | .send pkt e => some (f.goto caller .idle, .sent e.target ⟨e.owner, true⟩ pkt)
    | _ => none
  | .gc now => some ({ f with track := (f.gc ttl now).1 }, .dropped (f.gc ttl now).2)
  | .refreshClock now => some ({ f with clock := now }, .nothing)

/-- The steps by what their caller was about to do and what the section found. -/
inductive Section [DecidableEq T] (ttl maxTrack : Int) (f : State T) :
    Event T → State T → Out T → Prop where
  | reflect {caller owner target payload} : f.callers caller = .idle → isPing payload = true →
      Section ttl maxTrack f (.submit caller owner target payload) f
        (.sent target ⟨owner, true⟩ payload)
  | submit {caller owner target payload src} : f.callers caller = .idle →
      srcIP payload = some src → Section ttl maxTrack f (.submit caller owner target payload)
        (f.goto caller (.check owner target payload src f.clock)) .nothing
  | untracked {caller owner target payload} : f.callers caller = .idle →
      Section ttl maxTrack f (.submit caller owner target payload)
        (f.goto caller (.inject payload)) .nothing
  | fresh {caller owner target payload src now} :
      f.callers caller = .check owner target payload src now →
      Section ttl maxTrack f (.check caller) (f.goto caller (.inject payload)) .nothing
  | stale {caller owner target payload src now} :
      f.callers caller = .check owner target payload src now →
      Section ttl maxTrack f (.check caller)
        (f.goto caller (.write owner target payload src now)) .nothing
  | write {caller owner target payload src now} :
      f.callers caller = .write owner target payload src now →
      Section ttl maxTrack f (.write caller)
        { f.goto caller (.inject payload) with
          track := f.record maxTrack owner target src now } (.written src owner target)
  | inject {caller payload} : f.callers caller = .inject payload →
      Section ttl maxTrack f (.inject caller) (f.goto caller .idle) (.injected payload)
  | reply {caller pkt dst} : f.callers caller = .idle → dstIP pkt = some dst →
      Section ttl maxTrack f (.reply caller pkt) (f.goto caller (.lookup pkt dst f.clock)) .nothing
  | unparsed {caller pkt} : f.callers caller = .idle →
      Section ttl maxTrack f (.reply caller pkt) f .nothing
  | old {caller pkt dst now e} : f.callers caller = .lookup pkt dst now →
      f.track.lookup dst = some e →
      Section ttl maxTrack f (.lookup caller) (f.goto caller (.refresh pkt dst now e)) .nothing
  | current {caller pkt dst now e} : f.callers caller = .lookup pkt dst now →
      f.track.lookup dst = some e →
      Section ttl maxTrack f (.lookup caller) (f.goto caller (.send pkt e)) .nothing
  | unknown {caller pkt dst now} : f.callers caller = .lookup pkt dst now →
      Section ttl maxTrack f (.lookup caller) (f.goto caller .idle) .nothing
  | refresh {caller pkt dst now e} : f.callers caller = .refresh pkt dst now e →
      Section ttl maxTrack f (.refresh caller)
        { f.goto caller (.send pkt e) with track := f.touch dst now } .nothing
  | send {caller pkt e} : f.callers caller = .send pkt e →
      Section ttl maxTrack f (.send caller) (f.goto caller .idle)
        (.sent e.target ⟨e.owner, true⟩ pkt)
  | gc {now} : Section ttl maxTrack f (.gc now) { f with track := (f.gc ttl now).1 }
      (.dropped (f.gc ttl now).2)
  | refreshClock {now} : Section ttl maxTrack f (.refreshClock now) { f with clock := now } .nothing

/-- Every step is one of the sections. -/
theorem step_cases [DecidableEq T] {ttl maxTrack : Int} {f f' : State T} {event : Event T}
    {out : Out T} (h : f.step ttl maxTrack event = some (f', out)) :
    Section ttl maxTrack f event f' out := by
  unfold step at h
  cases event with
  | submit caller owner target payload =>
    simp only at h
    split at h
    · rename_i hlocal
      split at h
      · obtain ⟨rfl, rfl⟩ := pair_inj h
        exact .reflect hlocal ‹_›
      · split at h
        · obtain ⟨rfl, rfl⟩ := pair_inj h
          exact .submit hlocal ‹_›
        · obtain ⟨rfl, rfl⟩ := pair_inj h
          exact .untracked hlocal
    · cases h
  | check caller =>
    simp only at h
    split at h
    · rename_i hlocal
      split at h
      · obtain ⟨rfl, rfl⟩ := pair_inj h
        exact .fresh hlocal
      · obtain ⟨rfl, rfl⟩ := pair_inj h
        exact .stale hlocal
    · cases h
  | write caller | inject caller | refresh caller | send caller =>
    simp only at h
    split at h
    · rename_i hlocal
      obtain ⟨rfl, rfl⟩ := pair_inj h
      constructor
      exact hlocal
    · cases h
  | reply caller pkt =>
    simp only at h
    split at h
    · rename_i hlocal
      split at h
      · obtain ⟨rfl, rfl⟩ := pair_inj h
        exact .reply hlocal ‹_›
      · obtain ⟨rfl, rfl⟩ := pair_inj h
        exact .unparsed hlocal
    · cases h
  | lookup caller =>
    simp only at h
    split at h
    · rename_i hlocal
      split at h
      · rename_i hentry
        split at h
        · obtain ⟨rfl, rfl⟩ := pair_inj h
          exact .old hlocal hentry
        · obtain ⟨rfl, rfl⟩ := pair_inj h
          exact .current hlocal hentry
      · obtain ⟨rfl, rfl⟩ := pair_inj h
        exact .unknown hlocal
    · cases h
  | gc now =>
    obtain ⟨rfl, rfl⟩ := pair_inj h
    exact .gc
  | refreshClock now =>
    obtain ⟨rfl, rfl⟩ := pair_inj h
    exact .refreshClock

end State

end Dualnet.Finalizer
