import Dualnet.Conn.Assignment
import Dualnet.Conn.Delivery
import Dualnet.Conn.TcpDownlink
import Dualnet.Conn.TcpUplink

/-!
# The TCP return path

A `tcpListenOut` with all its connections, and the `tcpConnectIn` at the other end of each. A `Send`
looks the sink of the packet's owner up in the registry and calls it later; meanwhile the owner may
be registered by another connection or be collected.

`return_path_isolated` is the result: what a client hands on, however many bytes of its connection
arrive, are packets of `Send`s in the order they were committed, none twice, and all of owners that
were registered on this very connection.
-/

namespace Dualnet.Pktbuf

variable {α σ : Type} {size : α → Nat} {arenaCap maxPackets : Nat}
  {flush : σ → List α → Option (σ × Option String)} {w w' : Writer α σ}

/-- A flush leaves the batch that is built. -/
theorem Writer.flushLocked_building (h : w.flushLocked flush = some w') :
    w'.building = w.building := by
  unfold flushLocked at h
  split at h
  · obtain rfl := Option.some.inj h
    rfl
  · obtain ⟨r, -, rfl⟩ := Option.map_eq_some_iff.mp h
    rfl

/-- The packet an operation starts to build. -/
def Op.taken : Op α → List α
  | .reserve p => [p]
  | .commit | .tick => []

/-- A packet is built once and committed once. -/
theorem Writer.perform_building {op : Op α} {out : Option α}
    (h : w.perform size arenaCap maxPackets flush op = some (w', out)) :
    (out.toList ++ w'.building.toList).Perm (op.taken ++ w.building.toList) := by
  cases op with
  | reserve p =>
    obtain ⟨w₁, hreserve, heq⟩ := Option.map_eq_some_iff.mp h
    obtain ⟨rfl, rfl⟩ := Prod.mk.inj heq
    unfold reserve at hreserve
    split at hreserve
    · cases hreserve
    · next hfree =>
        have hnone : w.building = none := by
          cases hbuilding : w.building with
          | none => rfl
          | some q => simp [hbuilding] at hfree
        rw [hnone]
        split at hreserve
        · obtain ⟨w₂, -, rfl⟩ := Option.map_eq_some_iff.mp hreserve
          exact .refl _
        · obtain rfl := Option.some.inj hreserve
          exact .refl _
  | commit =>
    obtain ⟨⟨w₁, p⟩, hcommit, heq⟩ := Option.map_eq_some_iff.mp h
    obtain ⟨rfl, rfl⟩ := Prod.mk.inj heq
    obtain ⟨q, hq, hcommit⟩ := Option.bind_eq_some_iff.mp hcommit
    rw [hq]
    dsimp only at hcommit
    split at hcommit
    · obtain ⟨w₂, hflush, heq⟩ := Option.map_eq_some_iff.mp hcommit
      obtain ⟨rfl, rfl⟩ := Prod.mk.inj heq
      rw [flushLocked_building hflush]
      exact .refl _
    · obtain ⟨rfl, rfl⟩ := Library.pair_inj hcommit
      exact .refl _
  | tick =>
    obtain ⟨w₁, htick, heq⟩ := Option.map_eq_some_iff.mp h
    obtain ⟨rfl, rfl⟩ := Prod.mk.inj heq
    unfold tryFlush at htick
    split at htick
    · obtain rfl := Option.some.inj htick
      exact .refl _
    · rw [flushLocked_building htick]
      exact .refl _

end Dualnet.Pktbuf

namespace Dualnet.Conn

open Cipher Library Peers Wire

/-! ## The client -/

/-- `tcpConnectIn.stream` from the bytes that arrive, reading at most `n` frames after the first:
the first frame is the assignment, the rest is handed on. -/
def StreamConnectIn.tcpStream (tag : Mac) (sc : StreamCipher) (c : StreamConnectIn) (n : Nat)
    (src : Source) : StreamConnectIn × List Packet :=
  match sc.wrapReader src with
  | .error _ => (c, [])
  | .ok r =>
    match r.readAll maxPacket (n + 1) with
    | [] => (c, [])
    | first :: frames => ((c.tcpHandshake tag first).1, ingest 0 frames)

/-! ## The listener -/

/-- A `tcpListenOut` with its connections. `lookups` are the `Send`s that have found their sink and
not called it yet. -/
structure TcpReturn where
  reg : Registry Stream
  links : Stream → Downlink
  lookups : List (Stream × Packet)

/-- A step: the `Register` of a handler for the registration it has read or for a keepalive, another
step of a connection, the two halves of a `Send`, or `GC`. -/
inductive ReturnEvent where
  | register (k : Stream) (claimed : Owner) (now : Int) (draws : List Owner)
  | keepalive (k : Stream) (claimed : Owner) (ts : UInt64) (now : Int) (draws : List Owner)
  | link (k : Stream) (event : DownEvent)
  | lookup (p : Packet)
  | call (k : Stream) (p : Packet)
  | gc (now : Int)

/-- What a step shows. -/
inductive ReturnOut where
  | quiet
  | registered (k : Stream) (id : Owner) (ok : Bool)
  | found (k : Stream) (p : Packet)
  | committed (k : Stream) (blob : Bytes)

/-- What a step of a connection shows. -/
def ReturnOut.ofCommit (k : Stream) : Option Bytes → ReturnOut
  | none => .quiet
  | some blob => .committed k blob

/-- The packet whose `Send` found this connection. -/
def ReturnOut.foundOn (k : Stream) : ReturnOut → Option Packet
  | .found k' p => if k' = k then some p else none
  | _ => none

/-- What was committed on this connection. -/
def ReturnOut.committedOn (k : Stream) : ReturnOut → Option Bytes
  | .committed k' blob => if k' = k then some blob else none
  | _ => none

/-- The steps a connection takes without the registry. -/
def DownEvent.own : DownEvent → Bool
  | .register _ | .call _ => false
  | .assign _ | .add | .leave | .close | .cancel | .batch _ _ => true

namespace TcpReturn

def new (sc : StreamCipher) (nonce : Stream → Vector UInt8 12) (multiple : Bool)
    (ttl maxPeers : Int) : TcpReturn :=
  ⟨Peers.new multiple ttl maxPeers, fun k => .new sc (nonce k), []⟩

/-- One step, where the registration of a connection has the stamp `stamp k` and comes from
`addr k`. -/
def step (tag : Mac) (stamp : Stream → UInt64) (addr : Stream → String) (s : TcpReturn) :
    ReturnEvent → Option (TcpReturn × ReturnOut)
  | .register k claimed now draws =>
    match (s.links k).handler with
    | .accepted =>
      (s.reg.register claimed (addr k) (stamp k) (some k) now draws).bind fun (reg, id, ok) =>
        ((s.links k).step tag (stamp k) (.register (if ok then some id else none))).map
          fun (link, _) => ({ s with reg := reg, links := Function.update s.links k link },
            .registered k id ok)
    | _ => none
  | .keepalive k claimed ts now draws =>
    match (s.links k).handler with
    | .reading =>
      (s.reg.register claimed (addr k) ts (some k) now draws).map fun (reg, id, ok) =>
        ({ s with reg := reg }, .registered k id ok)
    | _ => none
  | .link k event =>
    if event.own then
      ((s.links k).step tag (stamp k) event).map fun (link, out) =>
        ({ s with links := Function.update s.links k link }, .ofCommit k out)
    else none
  | .lookup p =>
    -- the locked half of `Registry.Send`
    match (s.reg.held p.1.owner).bind Prod.fst with
    | none => some (s, .quiet)
    | some k => some ({ s with lookups := (k, p) :: s.lookups }, .found k p)
  | .call k p =>
    if (k, p) ∈ s.lookups then
      ((s.links k).step tag (stamp k) (.call p.blob)).map fun (link, _) =>
        ({ s with links := Function.update s.links k link, lookups := s.lookups.erase (k, p) },
          .quiet)
    else none
  | .gc now => some ({ s with reg := (s.reg.gc now).1 }, .quiet)

abbrev Run (sc : StreamCipher) (nonce : Stream → Vector UInt8 12) (tag : Mac)
    (stamp : Stream → UInt64) (addr : Stream → String) (multiple : Bool) (ttl maxPeers : Int) :
    TcpReturn → List (ReturnEvent × ReturnOut) → Prop :=
  Reached (step tag stamp addr) (fun _ _ _ => True) (new sc nonce multiple ttl maxPeers)

/-! ## What the history shows -/

/-- A `Register` of this connection was accepted for the id. -/
def Granted (history : List (ReturnEvent × ReturnOut)) (k : Stream) (id : Owner) : Prop :=
  ∃ event, (event, .registered k id true) ∈ history

/-- The packets whose `Send` found the sink of this connection. -/
def found (k : Stream) (history : List (ReturnEvent × ReturnOut)) : List Packet :=
  history.filterMap fun entry => entry.2.foundOn k

/-- What was committed on this connection, in order. -/
def commits (k : Stream) (history : List (ReturnEvent × ReturnOut)) : List Bytes :=
  (history.filterMap fun entry => entry.2.committedOn k).reverse

variable {history : List (ReturnEvent × ReturnOut)} {event : ReturnEvent} {out : ReturnOut}
  {k : Stream}

/-- What one more step finds. -/
theorem found_cons :
    found k ((event, out) :: history) = (out.foundOn k).toList ++ found k history := by
  rw [found, List.filterMap_cons]
  cases out.foundOn k <;> simp [found]

/-- What one more step commits. -/
theorem commits_cons :
    commits k ((event, out) :: history) = commits k history ++ (out.committedOn k).toList := by
  rw [commits, List.filterMap_cons]
  cases out.committedOn k <;> simp [commits]

/-- What was granted stays so. -/
theorem Granted.later {id : Owner} (h : Granted history k id) :
    Granted ((event, out) :: history) k id := by
  obtain ⟨earlier, hmem⟩ := h
  exact ⟨earlier, List.mem_cons_of_mem _ hmem⟩

end TcpReturn

/-! ## The packets in a connection -/

namespace Downlink

variable {tag : Mac} {ts : UInt64} {s s' : Downlink} {event : DownEvent} {out : Option Bytes}

/-- The packets of `Send`s that are in the sink and not committed. -/
def inside (s : Downlink) : Multiset Bytes := ↑s.callers + ↑s.writer.building.toList

/-- The packet a `Send` calls the sink with. -/
def called : DownEvent → List Bytes
  | .call blob => [blob]
  | _ => []

/-- A packet that is committed was inside; what is inside has been called with. -/
theorem inside_step (htaken : s.step tag ts event = some (s', out)) :
    ↑out.toList + s'.inside ≤ ↑(called event) + s.inside := by
  cases event with
  | register result =>
    simp only [step] at htaken
    split at htaken
    · obtain ⟨rfl, rfl⟩ := pair_inj htaken
      exact le_refl _
    · obtain ⟨rfl, rfl⟩ := pair_inj htaken
      exact le_refl _
    · cases htaken
  | assign fate | add | leave | close =>
    simp only [step] at htaken
    split at htaken
    · obtain ⟨rfl, rfl⟩ := pair_inj htaken
      exact le_refl _
    · cases htaken
  | cancel =>
    obtain ⟨rfl, rfl⟩ := pair_inj htaken
    exact le_refl _
  | call blob =>
    obtain ⟨-, htaken⟩ := Option.ite_none_right_eq_some.mp htaken
    split at htaken
    · obtain ⟨rfl, rfl⟩ := pair_inj htaken
      exact add_le_add_left (Multiset.zero_le _) _
    · obtain ⟨rfl, rfl⟩ := pair_inj htaken
      simp [inside, called]
  | batch op fate =>
    obtain ⟨hoffers, htaken⟩ := Option.ite_none_right_eq_some.mp htaken
    obtain ⟨⟨writer, out'⟩, hperform, hs'⟩ := Option.map_eq_some_iff.mp htaken
    obtain ⟨rfl, rfl⟩ := Prod.mk.inj hs'
    have hbuilt := Multiset.coe_eq_coe.mpr (Pktbuf.Writer.perform_building hperform)
    have hcallers : (↑(s.callersAfter op) + ↑op.taken : Multiset Bytes) = ↑s.callers := by
      cases op with
      | reserve blob =>
        have hmem : blob ∈ s.callers := by simpa [offers] using hoffers
        rw [Multiset.coe_add, Multiset.coe_eq_coe]
        exact (List.perm_append_singleton _ _).trans (List.perm_cons_erase hmem).symm
      | commit | tick => simp [callersAfter, Pktbuf.Op.taken]
    rw [← Multiset.coe_add, ← Multiset.coe_add] at hbuilt
    refine le_of_eq ?_
    simp only [inside, called, Multiset.coe_nil, zero_add, ← hcallers]
    rw [add_assoc, ← hbuilt]
    abel

end Downlink

/-! ## One connection of the listener -/

namespace TcpReturn

variable {sc : StreamCipher} {nonce : Stream → Vector UInt8 12} {tag : Mac}
  {stamp : Stream → UInt64} {addr : Stream → String} {multiple : Bool} {ttl maxPeers : Int}
  {s s' : TcpReturn} {history : List (ReturnEvent × ReturnOut)} {event : ReturnEvent}
  {out : ReturnOut} {k j : Stream}

/-- The `Send`s that have found this connection and not called its sink. -/
def waiting (lookups : List (Stream × Packet)) (k : Stream) : Multiset Bytes :=
  ↑(lookups.filterMap fun (k', p) => if k' = k then some p.blob else none)

/-- The connection has taken steps of its own, and its packets are of `Send`s that found it. -/
structure Served (sc : StreamCipher) (nonce : Vector UInt8 12) (tag : Mac) (ts : UInt64)
    (history : List (ReturnEvent × ReturnOut)) (k : Stream) (link : Downlink)
    (waiting : Multiset Bytes) : Prop where
  run : ∃ past, Downlink.Run sc nonce tag ts link past ∧
    Pktbuf.committed past = commits k history ∧
    ∀ id, (.register (some id), none) ∈ past → Granted history k id
  flow : ↑(commits k history) + link.inside + waiting ≤ ↑((found k history).map Packet.blob)

/-- A step that shows nothing of the connection. -/
theorem Served.frame {link : Downlink} {waiting : Multiset Bytes}
    (h : Served sc (nonce k) tag (stamp k) history k link waiting)
    (hcommitted : out.committedOn k = none) (hfound : out.foundOn k = none) :
    Served sc (nonce k) tag (stamp k) ((event, out) :: history) k link waiting := by
  obtain ⟨past, hrun, hpast, hregistered⟩ := h.run
  refine ⟨⟨past, hrun, ?_, fun id hid => (hregistered id hid).later⟩, ?_⟩
  · rw [commits_cons, hcommitted]
    simpa using hpast
  · rw [commits_cons, found_cons, hcommitted, hfound]
    simpa using h.flow

/-- A `Send` finds the connection. -/
theorem Served.found {link : Downlink} {waiting : Multiset Bytes} {p : Packet}
    (h : Served sc (nonce k) tag (stamp k) history k link waiting)
    (hcommitted : out.committedOn k = none) (hfound : out.foundOn k = some p) :
    Served sc (nonce k) tag (stamp k) ((event, out) :: history) k link ({p.blob} + waiting) := by
  obtain ⟨past, hrun, hpast, hregistered⟩ := h.run
  refine ⟨⟨past, hrun, ?_, fun id hid => (hregistered id hid).later⟩, ?_⟩
  · rw [commits_cons, hcommitted]
    simpa using hpast
  · rw [commits_cons, found_cons, hcommitted, hfound, Option.toList_none, List.append_nil,
      Option.toList_some, List.singleton_append, List.map_cons, ← Multiset.cons_coe,
      ← Multiset.singleton_add, add_left_comm]
    exact add_le_add_right h.flow _

/-- A step of the connection. -/
theorem Served.step {link link' : Downlink} {waiting waiting' : Multiset Bytes}
    {down : DownEvent} {packet : Option Bytes}
    (h : Served sc (nonce k) tag (stamp k) history k link waiting)
    (htaken : link.step tag (stamp k) down = some (link', packet))
    (hcommitted : out.committedOn k = packet) (hfound : out.foundOn k = none)
    (hgranted : ∀ id, down = .register (some id) → Granted ((event, out) :: history) k id)
    (hwaiting : ↑(Downlink.called down) + waiting' = waiting) :
    Served sc (nonce k) tag (stamp k) ((event, out) :: history) k link' waiting' := by
  obtain ⟨past, hrun, hpast, hregistered⟩ := h.run
  refine ⟨⟨(down, packet) :: past, .step hrun trivial htaken, ?_, fun id hid => ?_⟩, ?_⟩
  · rw [Pktbuf.committed_cons, commits_cons, hcommitted, hpast]
  · rcases List.mem_cons.mp hid with heq | hid
    · exact hgranted id (Prod.mk.inj heq).1.symm
    · exact (hregistered id hid).later
  · have hinside := Downlink.inside_step htaken
    rw [commits_cons, found_cons, hcommitted, hfound, ← Multiset.coe_add]
    calc (↑(commits k history) + ↑packet.toList + link'.inside + waiting' : Multiset Bytes)
        = ↑(commits k history) + (↑packet.toList + link'.inside) + waiting' := by abel
      _ ≤ ↑(commits k history) + (↑(Downlink.called down) + link.inside) + waiting' := by gcongr
      _ = ↑(commits k history) + link.inside + waiting := by rw [← hwaiting]; abel
      _ ≤ _ := by simpa using h.flow

/-! ## The listener -/

/-- What every step keeps. -/
structure Wired (sc : StreamCipher) (nonce : Stream → Vector UInt8 12) (tag : Mac)
    (stamp : Stream → UInt64) (multiple : Bool) (s : TcpReturn)
    (history : List (ReturnEvent × ReturnOut)) : Prop where
  indexed : Indexed s.reg
  mode : s.reg.multiple = multiple
  held : ∀ owner k seen, s.reg.held owner = some (some k, seen) →
    Granted history k (tracked multiple owner)
  sends : ∀ k, ∀ p ∈ found k history, Granted history k (tracked multiple p.1.owner)
  served : ∀ k, Served sc (nonce k) tag (stamp k) history k (s.links k) (waiting s.lookups k)

/-- After a `Register` of a connection the registry holds what was granted. -/
theorem Wired.register (h : Wired sc nonce tag stamp multiple s history) {claimed id : Owner}
    {peerKey : String} {ts : UInt64} {now : Int} {draws : List Owner} {reg : Registry Stream}
    {ok : Bool} (hcall : s.reg.register claimed peerKey ts (some k) now draws = some (reg, id, ok)) :
    Indexed reg ∧ reg.multiple = multiple ∧ ∀ owner j seen, reg.held owner = some (some j, seen) →
      Granted ((event, .registered k id ok) :: history) j (tracked multiple owner) := by
  obtain ⟨hindexed, hmode, -, hheld⟩ := h.indexed.register hcall
  refine ⟨hindexed, hmode.trans h.mode, fun owner j seen hj => ?_⟩
  rw [hheld owner] at hj
  split at hj
  · next hnew =>
      obtain ⟨rfl, howner⟩ := hnew
      obtain ⟨hj, -⟩ := pair_inj hj
      obtain rfl := Option.some.inj hj
      have hid : tracked multiple owner = id := by
        rw [h.mode] at howner
        cases hm : multiple with
        | true => simpa [tracked] using howner hm
        | false => simp [tracked, s.reg.register_single_id (h.mode.trans hm) hcall]
      rw [hid]
      exact ⟨event, List.mem_cons_self⟩
  · exact (h.held owner j seen hj).later

/-- So it does for all that was found. -/
theorem Wired.sends_later (h : Wired sc nonce tag stamp multiple s history)
    (hfound : ∀ k, out.foundOn k = none) (k : Stream) :
    ∀ p ∈ found k ((event, out) :: history),
      Granted ((event, out) :: history) k (tracked multiple p.1.owner) := by
  intro p hp
  rw [found_cons, hfound] at hp
  exact (h.sends k p hp).later

/-- A step of one connection leaves the others alone. -/
theorem Wired.served_update (h : Wired sc nonce tag stamp multiple s history) {link : Downlink}
    {lookups : List (Stream × Packet)} (hcommitted : ∀ j, j ≠ k → out.committedOn j = none)
    (hfound : ∀ j, out.foundOn j = none)
    (hwaiting : ∀ j, j ≠ k → waiting lookups j = waiting s.lookups j)
    (hlink : Served sc (nonce k) tag (stamp k) ((event, out) :: history) k link
      (waiting lookups k)) (j : Stream) :
    Served sc (nonce j) tag (stamp j) ((event, out) :: history) j
      (Function.update s.links k link j) (waiting lookups j) := by
  by_cases hj : j = k
  · subst hj
    rw [Function.update_self]
    exact hlink
  · rw [Function.update_of_ne hj, hwaiting j hj]
    exact (h.served j).frame (hcommitted j hj) (hfound j)

/-- What waits after one more look-up. -/
theorem waiting_cons (p : Packet) (lookups : List (Stream × Packet)) (j : Stream) :
    waiting ((k, p) :: lookups) j =
      (if k = j then {p.blob} else 0) + waiting lookups j := by
  by_cases hj : k = j
  · simp [waiting, hj]
  · simp [waiting, hj]

/-- A `Send` that calls the sink waits no longer. -/
theorem waiting_erase {p : Packet} {lookups : List (Stream × Packet)} (h : (k, p) ∈ lookups)
    (j : Stream) :
    (if k = j then {p.blob} else 0) + waiting (lookups.erase (k, p)) j = waiting lookups j := by
  rw [← waiting_cons]
  exact Multiset.coe_eq_coe.mpr ((List.perm_cons_erase h).filterMap _).symm

/-- Every step keeps this. -/
theorem Wired.step (h : Wired sc nonce tag stamp multiple s history)
    (htaken : s.step tag stamp addr event = some (s', out)) :
    Wired sc nonce tag stamp multiple s' ((event, out) :: history) := by
  cases event with
  | register k claimed now draws =>
    simp only [TcpReturn.step] at htaken
    split at htaken
    · obtain ⟨⟨reg, id, ok⟩, hcall, htaken⟩ := Option.bind_eq_some_iff.mp htaken
      obtain ⟨⟨link, packet⟩, hstep, heq⟩ := Option.map_eq_some_iff.mp htaken
      obtain ⟨rfl, rfl⟩ := Prod.mk.inj heq
      obtain ⟨hindexed, hmode, hheld⟩ := h.register hcall
      refine ⟨hindexed, hmode, hheld, h.sends_later fun _ => rfl,
        h.served_update (fun _ _ => rfl) (fun _ => rfl) (fun _ _ => rfl) ?_⟩
      have hpacket : packet = none := by
        simp only [Downlink.step] at hstep
        split at hstep <;> simp_all
      refine (h.served k).step hstep hpacket.symm rfl (fun id' hid' => ?_) (zero_add _)
      cases ok with
      | true =>
        obtain rfl : id = id' := by simpa using hid'
        exact ⟨_, List.mem_cons_self⟩
      | false => simp at hid'
    · cases htaken
  | keepalive k claimed ts now draws =>
    simp only [TcpReturn.step] at htaken
    split at htaken
    · obtain ⟨⟨reg, id, ok⟩, hcall, heq⟩ := Option.map_eq_some_iff.mp htaken
      obtain ⟨rfl, rfl⟩ := Prod.mk.inj heq
      obtain ⟨hindexed, hmode, hheld⟩ := h.register hcall
      exact ⟨hindexed, hmode, hheld, h.sends_later fun _ => rfl,
        fun j => (h.served j).frame rfl rfl⟩
    · cases htaken
  | link k down =>
    obtain ⟨hown, htaken⟩ := Option.ite_none_right_eq_some.mp htaken
    obtain ⟨⟨link, packet⟩, hstep, heq⟩ := Option.map_eq_some_iff.mp htaken
    obtain ⟨rfl, rfl⟩ := Prod.mk.inj heq
    have hregister : ∀ id, down ≠ .register (some id) := by
      rintro id rfl
      simp [DownEvent.own] at hown
    have hcalled : Downlink.called down = [] := by
      cases down <;> simp_all [DownEvent.own, Downlink.called]
    have hquiet : ∀ j, (ReturnOut.ofCommit k packet).foundOn j = none := by
      intro j
      cases packet <;> rfl
    refine ⟨h.indexed, h.mode, fun owner j seen hj => (h.held owner j seen hj).later,
      h.sends_later hquiet, h.served_update (fun j hj => ?_) hquiet (fun _ _ => rfl) ?_⟩
    · cases packet with
      | none => rfl
      | some blob => simp [ReturnOut.ofCommit, ReturnOut.committedOn, Ne.symm hj]
    · refine (h.served k).step hstep ?_ (hquiet k) (fun id hid => absurd hid (hregister id)) ?_
      · cases packet <;> simp [ReturnOut.ofCommit, ReturnOut.committedOn]
      · rw [hcalled]
        exact zero_add _
  | lookup p =>
    simp only [TcpReturn.step] at htaken
    split at htaken
    · obtain ⟨rfl, rfl⟩ := pair_inj htaken
      exact ⟨h.indexed, h.mode, fun owner j seen hj => (h.held owner j seen hj).later,
        h.sends_later fun _ => rfl, fun j => (h.served j).frame rfl rfl⟩
    · next k hk =>
        obtain ⟨rfl, rfl⟩ := pair_inj htaken
        obtain ⟨⟨sink, seen⟩, hheld, rfl⟩ := Option.bind_eq_some_iff.mp hk
        have hgranted := h.held p.1.owner k seen hheld
        refine ⟨h.indexed, h.mode, fun owner j seen hj => (h.held owner j seen hj).later,
          fun j q hq => ?_, fun j => ?_⟩
        · rw [found_cons] at hq
          rcases List.mem_append.mp hq with hq | hq
          · simp only [ReturnOut.foundOn] at hq
            split at hq
            · next hkj =>
                obtain rfl : q = p := by simpa using hq
                exact hkj ▸ hgranted.later
            · simp at hq
          · exact (h.sends j q hq).later
        · by_cases hj : k = j
          · subst hj
            rw [waiting_cons, if_pos rfl]
            exact (h.served k).found rfl (if_pos rfl)
          · rw [waiting_cons, if_neg hj, zero_add]
            exact (h.served j).frame rfl (if_neg hj)
  | call k p =>
    obtain ⟨hmem, htaken⟩ := Option.ite_none_right_eq_some.mp htaken
    obtain ⟨⟨link, packet⟩, hstep, heq⟩ := Option.map_eq_some_iff.mp htaken
    obtain ⟨rfl, rfl⟩ := Prod.mk.inj heq
    refine ⟨h.indexed, h.mode, fun owner j seen hj => (h.held owner j seen hj).later,
      h.sends_later fun _ => rfl, h.served_update (fun _ _ => rfl) (fun _ => rfl)
        (fun j hj => ?_) ?_⟩
    · simpa [Ne.symm hj] using waiting_erase hmem j
    · have hpacket : packet = none := by
        obtain ⟨-, hstep⟩ := Option.ite_none_right_eq_some.mp hstep
        split at hstep <;> exact (Prod.mk.inj (Option.some.inj hstep)).2.symm
      refine (h.served k).step hstep hpacket.symm rfl (fun _ hid => by cases hid) ?_
      simpa [Downlink.called] using waiting_erase hmem k
  | gc now =>
    obtain ⟨rfl, rfl⟩ := pair_inj htaken
    obtain ⟨-, -, hmode, -, -⟩ := s.reg.gc_frame now
    refine ⟨h.indexed.gc now, hmode.trans h.mode, fun owner j seen hj => ?_,
      h.sends_later fun _ => rfl, fun j => (h.served j).frame rfl rfl⟩
    rw [Registry.gc_held] at hj
    exact (h.held owner j seen (Option.filter_eq_some_iff.mp hj).1).later

/-- It holds in every run. -/
theorem Run.wired (h : Run sc nonce tag stamp addr multiple ttl maxPeers s history) :
    Wired sc nonce tag stamp multiple s history := by
  refine h.invariant (fun s history => Wired sc nonce tag stamp multiple s history) ?_ ?_
  · refine ⟨⟨?_, ?_, ?_, fun hmax => Int.le_of_lt hmax⟩, rfl, ?_, by simp [found], fun k => ?_⟩
    · simp [new, Peers.new]
    · simp [new, Peers.new]
    · simp [new, Peers.new]
    · intro owner k seen hheld
      cases multiple <;> simp [new, Peers.new, Registry.held] at hheld
    · exact ⟨⟨[], .init, rfl, by simp⟩, by simp [new, Downlink.inside, Downlink.new,
        Pktbuf.Writer.new, waiting, commits, found]⟩
  · intro s history event s' out hs _ htaken
    exact hs.step htaken

end TcpReturn

/-! ## At the client -/

section Client

variable {sc : StreamCipher} {nonce : Vector UInt8 12} {tag : Mac} {ts : UInt64}

/-- The wire carries nothing, or the assignment and packets that were committed. -/
theorem Downlink.Run.frames {link : Downlink} {past : List (DownEvent × Option Bytes)}
    (h : Downlink.Run sc nonce tag ts link past) :
    ∃ frames w, (sc.wrapWriter nonce).writeFrames frames = .ok w ∧ link.wire <+: w.out ∧
      (frames = [] ∨ ∃ id data, frames = Downlink.assignment tag id ts :: data ∧
        (.register (some id), none) ∈ past ∧ data <+: Pktbuf.committed past) := by
  cases h.sound with
  | hidden _ _ _ _ _ writer | registered _ _ _ writer =>
    obtain ⟨hwire, -⟩ := Downlink.wire_of_fresh writer
    exact ⟨[], _, rfl, hwire ▸ List.nil_prefix, .inl rfl⟩
  | assigned id _ registration writer _ =>
    obtain ⟨handed, hpc, hcommitted⟩ := writer
    obtain ⟨data, hdata, hwrote, -⟩ := hpc.frames
    refine ⟨_, _, hwrote.1, hwrote.2, .inr ⟨id, data, rfl, registration, ?_⟩⟩
    rw [hcommitted]
    exact hdata.trans (List.prefix_append _ _)

/-- A client that reads an assignment keeps its id or takes the assigned one. -/
theorem tcpHandshake_assignment (c : StreamConnectIn) (id : Owner) :
    (c.tcpHandshake tag (Downlink.assignment tag id ts)).1.curID = c.curID ∨
      (c.tcpHandshake tag (Downlink.assignment tag id ts)).1.curID = id := by
  rw [StreamConnectIn.tcpHandshake, Downlink.assignment, decodeControl_encodeControl]
  simp only [StreamConnectIn.adopt]
  split
  · split
    · exact .inr rfl
    · exact .inl rfl
  · exact .inl rfl

/-- Blobs tell packets apart. -/
theorem blob_injective : Function.Injective Packet.blob := by
  intro p q hpq
  have hparse := congrArg parseEnvelope hpq
  rw [Packet.blob, Packet.blob, parseEnvelope_putEnvelope, parseEnvelope_putEnvelope] at hparse
  exact Option.some.inj hparse

/-- What a client makes of a connection with such frames. -/
theorem tcpStream_of_frames {frames : List Bytes} {w : Cipher.Writer} {src : Source}
    {done : List Packet} (hwrite : (sc.wrapWriter nonce).writeFrames frames = .ok w)
    (hsrc : src.bytes <+: w.out) (c : StreamConnectIn) (n : Nat) {P : Owner → Prop}
    (hframes : frames = [] ∨ ∃ id data, frames = Downlink.assignment tag id ts :: data ∧ P id ∧
      data <+: done.map Packet.blob) :
    (∃ m, (c.tcpStream tag sc n src).2 = plausiblePackets (done.take m)) ∧
      ((c.tcpStream tag sc n src).1.curID = c.curID ∨ P (c.tcpStream tag sc n src).1.curID) := by
  rcases received_prefix hwrite hsrc (n + 1) with ⟨err, herr⟩ | ⟨r, hr, hread⟩
  · have hnothing : c.tcpStream tag sc n src = (c, []) := by
      simp [StreamConnectIn.tcpStream, herr]
    rw [hnothing]
    exact ⟨⟨0, rfl⟩, .inl rfl⟩
  · simp only [StreamConnectIn.tcpStream, hr]
    cases hall : r.readAll maxPacket (n + 1) with
    | nil => exact ⟨⟨0, rfl⟩, .inl rfl⟩
    | cons first rest =>
      rw [hall] at hread
      rcases hframes with rfl | ⟨id, data, rfl, hid, hdata⟩
      · simp at hread
      · obtain ⟨rfl, hrest⟩ := List.cons_prefix_cons.mp hread
        have htaken : rest = (done.take rest.length).map Packet.blob := by
          rw [List.map_take]
          exact List.prefix_iff_eq_take.mp (hrest.trans hdata)
        obtain ⟨m, hm⟩ := ingest_blobs (done.take rest.length) 0
        refine ⟨⟨min m rest.length, ?_⟩, ?_⟩
        · rw [← List.take_take, ← hm, ← htaken]
        · refine (tcpHandshake_assignment c id).imp_right fun hcur => ?_
          rw [hcur]
          exact hid

end Client

namespace TcpReturn

variable {sc : StreamCipher} {nonce : Stream → Vector UInt8 12} {tag : Mac}
  {stamp : Stream → UInt64} {addr : Stream → String} {multiple : Bool} {ttl maxPeers : Int}
  {s : TcpReturn} {history : List (ReturnEvent × ReturnOut)}

/-- In every interleaving of handlers, `Send`s, ticks, write failures and `GC`s, and however many
bytes of a connection arrive: the client at its other end hands on the plausible ones of the first
packets that were committed on it; these are packets of `Send`s that found this connection, none
twice, of owners that were registered on it. The client keeps its id or takes one that was
registered on it. -/
theorem return_path_isolated (h : Run sc nonce tag stamp addr multiple ttl maxPeers s history)
    (k : Stream) {src : Source} (hsrc : src.bytes <+: (s.links k).wire) (n : Nat)
    (c : StreamConnectIn) :
    ∃ done : List Packet, done.map Packet.blob = commits k history ∧
      done.Subperm (found k history) ∧
      (∀ p ∈ done, Granted history k (tracked multiple p.1.owner)) ∧
      (∃ m, (c.tcpStream tag sc n src).2 = plausiblePackets (done.take m)) ∧
      ((c.tcpStream tag sc n src).1.curID = c.curID ∨
        Granted history k (c.tcpStream tag sc n src).1.curID) := by
  have hwired := h.wired
  obtain ⟨⟨past, hrun, hpast, hregistered⟩, hflow⟩ := hwired.served k
  have hsub : (commits k history).Subperm ((found k history).map Packet.blob) := by
    refine Multiset.coe_le.mp (le_trans ?_ hflow)
    rw [add_assoc]
    exact Multiset.le_add_right _ _
  obtain ⟨done, hdone⟩ : commits k history ∈ Set.range (List.map Packet.blob) := by
    rw [Set.range_list_map]
    intro blob hblob
    obtain ⟨p, -, hp⟩ := List.mem_map.mp (hsub.subset hblob)
    exact ⟨p, hp⟩
  rw [← hdone] at hsub
  have hfound := (List.map_subperm_map_iff blob_injective).mp hsub
  obtain ⟨frames, w, hwrite, hwire, hframes⟩ := hrun.frames
  have hframes : frames = [] ∨ ∃ id data, frames = Downlink.assignment tag id (stamp k) :: data ∧
      Granted history k id ∧ data <+: done.map Packet.blob := by
    rw [hdone, ← hpast]
    refine hframes.imp_right ?_
    rintro ⟨id, data, hcons, hid, hdata⟩
    exact ⟨id, data, hcons, hregistered id hid, hdata⟩
  obtain ⟨hpackets, hcur⟩ := tcpStream_of_frames hwrite (hsrc.trans hwire) c n hframes
  exact ⟨done, hdone, hfound, fun p hp => hwired.sends k p (hfound.subset hp), hpackets, hcur⟩

/-- Two clients of one listener: the packet of the first one's owner is committed on its connection,
and none on the other. -/
theorem return_path_isolated_two : ∃ s history,
    Run .none (fun _ => Vector.replicate 12 0) (fun _ => Vector.replicate 8 0) (fun _ => 1)
      (fun k => toString k) true 100 0 s history ∧
    commits 0 history = [Packet.blob (⟨⟨0, 0, 0, 7⟩, true⟩, [0x45])] ∧ commits 1 history = [] ∧
    ∃ done : List Packet, done.map Packet.blob = commits 0 history ∧
      ∀ p ∈ done, Granted history 0 p.1.owner := by
  obtain ⟨s, history, hrun, hs⟩ : ∃ s history,
      Run .none (fun _ => Vector.replicate 12 0) (fun _ => Vector.replicate 8 0) (fun _ => 1)
        (fun k => toString k) true 100 0 s history ∧
      commits 0 history = [Packet.blob (⟨⟨0, 0, 0, 7⟩, true⟩, [0x45])] ∧ commits 1 history = [] :=
    ⟨_, _, Reached.init.play [.register 0 ⟨0, 0, 0, 7⟩ 0 [], .register 1 ⟨0, 0, 0, 8⟩ 0 [],
      .lookup (⟨⟨0, 0, 0, 7⟩, true⟩, [0x45]), .link 1 (.assign ⟨none, 0⟩),
      .link 0 (.assign ⟨none, 0⟩), .call 0 (⟨⟨0, 0, 0, 7⟩, true⟩, [0x45]),
      .link 0 (.batch (.reserve (Packet.blob (⟨⟨0, 0, 0, 7⟩, true⟩, [0x45]))) ⟨none, 0⟩),
      .link 0 (.batch .commit ⟨none, 0⟩)] rfl, rfl, rfl⟩
  have hsrc : (Source.mk [(s.links 0).wire] false).bytes <+: (s.links 0).wire := by
    simp [Source.bytes]
  obtain ⟨done, hdone, -, hgranted, -⟩ := return_path_isolated hrun 0 hsrc 1 ⟨Owner.zero, 0⟩
  exact ⟨s, history, hrun, hs.1, hs.2, done, hdone, hgranted⟩

end TcpReturn

end Dualnet.Conn
