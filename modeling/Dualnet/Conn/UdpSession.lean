import Dualnet.Conn.Datagram
import Dualnet.Conn.Stamps
import Dualnet.Peers.Held

/-!
# Sessions over datagrams

Any number of dialing receivers (`udpConnectIn`) and the multiple-mode listener that sends to them
(`udpListenOut`), over a network that loses, repeats and reorders datagrams and to which others add
datagrams that no key holder made. A receiver registers from time to time, moves to another address
when it reconnects, and takes over the id it is assigned; the listener learns addresses from what
it receives, and forgets idle peers.

The ids drawn for two receivers are assumed to differ, and so are their addresses: `own` says whose
an address is and `pool` for whom an id can be drawn. `udp_session_isolation` says that then the
ids, the return paths and the packets of two receivers are never mixed up.
-/

namespace Dualnet.Conn

open Cipher Library Peers Wire

/-! ## The model -/

def msgRegister : UInt8 := 0x01

def msgKeepalive : UInt8 := 0x02

def msgPong : UInt8 := 0x04

/-- The loop of `udpListenOut.Start` on one datagram: the registry afterwards, and what is written
to the address the datagram came from. -/
def udpListenOutRead (tag : Mac) (reg : Registry String) (addr : String) (dg : Bytes) (now : Int)
    (draws : List Owner) : Option (Registry String × Option Bytes) :=
  match decodeControl tag dg with
  | .error _ => some (reg, none)
  | .ok control =>
    if control.typ == msgRegister || control.typ == msgKeepalive then
      (reg.register control.id addr control.ts (some addr) now draws).map
        fun (reg', assigned, ok) =>
          if !ok then (reg', none)
          else if reg.multiple then
            if control.id.isZero then
              (reg', some (encodeControl tag ⟨msgAssignID, assigned, 0, control.ts⟩))
            else (reg', none)
          else (reg', some [msgPong])
    else some (reg, none)

/-- A `udpConnectIn` with the address its socket sends from. -/
structure UdpPeer where
  addr : String
  carrier : UdpConnectIn
  lastTS : UInt64

/-- A `sendControl` that has read the id and the socket and has not written yet. -/
structure SendControl where
  client : Nat
  id : Owner
  addr : String
  deriving DecidableEq

/-- The receivers, the registry of the listener, and all datagrams sent so far, each with the
address of the receiver. -/
structure UdpSession where
  clients : Nat → UdpPeer
  sending : List SendControl
  reg : Registry String
  toListener : List (String × Bytes)
  toClient : List (String × Bytes)

inductive UdpEvent where
  /-- The locked part of `sendControl`. -/
  | load (i : Nat)
  /-- The rest of it, at the clock reading `now`. -/
  | write (sc : SendControl) (keepalive : Bool) (now : UInt64)
  /-- `Reconnect` puts a new socket in. -/
  | reconnect (i : Nat) (addr : String)
  | arrive (addr : String) (dg : Bytes) (now : Int) (draws : List Owner)
  | gc (now : Int)
  /-- `udpListenOut.Send`, with the buffer it gets. -/
  | send (nonce : Vector UInt8 12) (fresh : Nat) (m : Memory UInt8) (buf : Room) (e : Envelope)
      (payload : Bytes)
  /-- `udpConnectIn.handleDatagram`, with the place the datagram was received at. -/
  | receive (i : Nat) (dg : Bytes) (m : Memory UInt8) (a : Nat)

/-- The control `sendControl` writes. -/
def controlFor (keepalive : Bool) (id : Owner) (ts : UInt64) : Control :=
  ⟨if keepalive then msgKeepalive else msgRegister, id, 0, ts⟩

namespace UdpSession

section Steps

variable (tag : Mac) (cipher : PacketCipher) (s : UdpSession)

/-- Receivers that have dialed from the given addresses, and a listener that knows none. -/
def start (addr : Nat → String) (ttl maxPeers : Int) : UdpSession where
  clients i := ⟨addr i, ⟨Owner.zero⟩, 0⟩
  sending := []
  reg := Peers.new true ttl maxPeers
  toListener := []
  toClient := []

/-- One step. -/
def step : UdpEvent → Option (UdpSession × Effect)
  | .load i =>
    let c := s.clients i
    some ({ s with sending := ⟨i, c.carrier.curID, c.addr⟩ :: s.sending }, .nothing)
  | .write sc keepalive now =>
    if sc ∈ s.sending then
      let c := s.clients sc.client
      let ts := nextStamp now c.lastTS
      some ({ s with
        clients := Function.update s.clients sc.client { c with lastTS := ts }
        sending := s.sending.erase sc
        toListener :=
          (sc.addr, encodeControl tag (controlFor keepalive sc.id ts)) :: s.toListener },
        .nothing)
    else none
  | .reconnect i addr =>
    some ({ s with clients := Function.update s.clients i { s.clients i with addr := addr } },
      .nothing)
  | .arrive addr dg now draws =>
    (udpListenOutRead tag s.reg addr dg now draws).map fun (reg, reply) =>
      ({ s with
        reg := reg
        toClient := (reply.map fun dg => (addr, dg)).toList ++ s.toClient }, .nothing)
  | .gc now => some ({ s with reg := (s.reg.gc now).1 }, .nothing)
  | .send nonce fresh m buf e payload =>
    let sink := (s.reg.sinkFor e.owner).1
    let datagram :=
      (udpListenOutSend cipher nonce fresh (sink.map fun _ _ => none) m buf e payload).2.2.1
    some ({ s with
      toClient := (sink.bind fun addr => datagram.map fun dg => (addr, dg)).toList ++
        s.toClient }, .nothing)
  | .receive i dg m a =>
    let c := s.clients i
    let handled := c.carrier.handleDatagram tag (openReceived cipher m a) dg
    some ({ s with clients := Function.update s.clients i { c with carrier := handled.1 } },
      handled.2)

end Steps

/-- What arrives was sent, from and to the address it arrives with, or carries no control that
its receiver would follow; a receiver keeps to its own addresses and does not come to the end of the
stamps, and ids are drawn for the one the datagram came from. -/
def Truthful (tag : Mac) (own : String → Nat) (pool : Owner → Nat) (s : UdpSession) :
    UdpEvent → Prop
  | .write sc _ _ => (s.clients sc.client).lastTS.toNat < 2 ^ 64 - 1
  | .reconnect i addr => own addr = i
  | .arrive addr dg _ draws =>
    ((addr, dg) ∈ s.toListener ∨ ∀ control, decodeControl tag dg = .ok control →
      control.typ ≠ msgRegister ∧ control.typ ≠ msgKeepalive) ∧
    ∀ id ∈ draws, pool id = own addr
  | .receive i dg _ _ =>
    (∃ addr, own addr = i ∧ (addr, dg) ∈ s.toClient) ∨ assignment tag dg = none
  | _ => True

/-- The runs over such a network. -/
abbrev Run (tag : Mac) (cipher : PacketCipher) (own : String → Nat) (pool : Owner → Nat)
    (addr : Nat → String) (ttl maxPeers : Int) : UdpSession → List (UdpEvent × Effect) → Prop :=
  Reached (step tag cipher) (fun s _ event => Truthful tag own pool s event)
    (start addr ttl maxPeers)

end UdpSession

/-! ## The registry -/

section Registry

variable {own : String → Nat} {pool : Owner → Nat} {stamp : Nat → UInt64} {r r' : Registry String}
  {claimed id : Owner} {addr : String} {ts : UInt64} {now : Int} {draws : List Owner} {ok : Bool}

/-- The records lead to the receivers their ids were drawn for, and carry no stamp those have not
given out. -/
structure Sorted (own : String → Nat) (pool : Owner → Nat) (stamp : Nat → UInt64)
    (r : Registry String) : Prop where
  indexed : Indexed r
  multiple : r.multiple = true
  sinks : ∀ id p, r.byID.lookup id = some p →
    (∃ addr, (r.heap p).sink = some addr ∧ own addr = pool id) ∧ (r.heap p).lastTS ≤ stamp (pool id)
  keys : ∀ k p, r.byKey.lookup k = some p → pool (r.heap p).id = own k

/-- A fresh registry is sorted. -/
theorem sorted_new (ttl maxPeers : Int) : Sorted own pool stamp (Peers.new true ttl maxPeers) := by
  refine ⟨⟨?_, ?_, ?_, fun hmax => Int.le_of_lt hmax⟩, rfl, ?_, ?_⟩ <;> simp [Peers.new]

namespace Sorted

/-- Stamps that are given out later do no harm. -/
theorem mono {stamp' : Nat → UInt64} (h : Sorted own pool stamp r) (hle : ∀ i, stamp i ≤ stamp' i) :
    Sorted own pool stamp' r := by
  refine ⟨h.indexed, h.multiple, fun id p hp => ?_, h.keys⟩
  obtain ⟨hsink, hts⟩ := h.sinks id p hp
  exact ⟨hsink, UInt64.le_trans hts (hle _)⟩

/-- A sweep keeps this. -/
theorem gc (h : Sorted own pool stamp r) (now : Int) : Sorted own pool stamp (r.gc now).1 := by
  obtain ⟨hheap, -, hmultiple, -, hids⟩ := r.gc_frame now
  refine ⟨h.indexed.gc now, hmultiple.trans h.multiple, fun id p hp => ?_, fun k p hp => ?_⟩
  · rw [hheap]
    exact h.sinks id p (hids id p hp)
  · have hstays := ((h.indexed.gc now).keys k p hp).2
    rw [hheap] at hstays ⊢
    exact h.keys k p ((h.indexed.gc_byKey now hstays).mp hp)

/-- The id a `Register` works on is one of the receiver it came from. -/
theorem idFor (h : Sorted own pool stamp r)
    (hclaimed : claimed = Owner.zero ∨ pool claimed = own addr)
    (hdraws : ∀ id ∈ draws, pool id = own addr) (hid : r.idFor claimed addr draws = some id) :
    pool id = own addr := by
  unfold Registry.idFor at hid
  split at hid
  · split at hid
    · next p hp =>
        obtain rfl := Option.some.inj hid
        exact h.keys addr p hp
    · exact hdraws id (List.mem_of_find?_eq_some hid)
  · next hzero =>
        obtain rfl := Option.some.inj hid
        exact hclaimed.resolve_left fun heq => hzero (Owner.isZero_eq_true.mpr heq)

/-- Refreshing the record of an id from its own receiver. What the record held before does not
matter. -/
theorem refresh {p : Ptr} (hindexed : Indexed r) (hmultiple : r.multiple = true)
    (hp : r.byID.lookup id = some p)
    (hothers : ∀ id' q, id' ≠ id → r.byID.lookup id' = some q →
      (∃ addr, (r.heap q).sink = some addr ∧ own addr = pool id') ∧
        (r.heap q).lastTS ≤ stamp (pool id'))
    (hkeys : ∀ k q, r.byKey.lookup k = some q → pool (r.heap q).id = own k)
    (hid : pool id = own addr) (hts : ts ≤ stamp (own addr)) :
    Sorted own pool stamp (r.refresh p addr ts (some addr) now) := by
  refine ⟨hindexed.refresh hp .., by rw [Registry.refresh_multiple, hmultiple], fun id' q hq => ?_,
    fun k q hq => ?_⟩
  · rw [Registry.refresh_byID] at hq
    rw [Registry.refresh_heap]
    by_cases hsame : id' = id
    · subst hsame
      rw [if_pos (Option.some.inj (hq.symm.trans hp))]
      exact ⟨⟨addr, rfl, hid.symm⟩, hid ▸ hts⟩
    · rw [if_neg fun heq : q = p => hsame (hindexed.id_unique hq (heq ▸ hp))]
      exact hothers id' q hsame hq
  · have hown : ∀ q, ((r.refresh p addr ts (some addr) now).heap q).id = (r.heap q).id := by
      intro q
      rw [Registry.refresh_heap]
      split
      · next heq => rw [heq]
      · rfl
    rw [hown]
    rw [Registry.refresh_byKey] at hq
    split at hq
    · exact hkeys k q hq
    split at hq
    · next heq =>
        obtain rfl := Option.some.inj hq
        rw [(hindexed.ids id p hp).1, hid, heq]
    split at hq
    · cases hq
    · exact hkeys k q hq

/-- A `Register` of a receiver leads its id to it, and changes no other's record. -/
theorem register (h : Sorted own pool stamp r)
    (hclaimed : claimed = Owner.zero ∨ pool claimed = own addr)
    (hdraws : ∀ id ∈ draws, pool id = own addr) (hts : ts ≤ stamp (own addr))
    (hcall : r.register claimed addr ts (some addr) now draws = some (r', id, ok)) :
    Sorted own pool stamp r' ∧ (ok = true → pool id = own addr) := by
  rcases r.register_cases hcall with ⟨rfl, rfl⟩ | ⟨-, hm, -⟩ | ⟨-, -, hid, hnone, hfull, rfl⟩ |
      ⟨p, -, -, hid, hp, -, rfl⟩
  · exact ⟨h, by simp⟩
  · exact absurd (h.multiple.symm.trans hm) (by simp)
  · have hown := h.idFor hclaimed hdraws hid
    have halloc := h.indexed.alloc (h.indexed.idFor_ne_zero hid) hnone hfull
    have hlookup : (r.alloc id).byID.lookup id = some r.next := by
      rw [Registry.alloc_lookup, if_pos rfl]
    refine ⟨refresh halloc h.multiple hlookup (fun id' q hne hq => ?_) (fun k q hq => ?_) hown hts,
      fun _ => hown⟩
    · rw [Registry.alloc_lookup, if_neg hne] at hq
      rw [Registry.alloc_heap r id (h.indexed.allocated id' q hq)]
      exact h.sinks id' q hq
    · have hq' := h.indexed.allocated _ q (h.indexed.keys k q hq).2
      rw [Registry.alloc_heap r id hq']
      exact h.keys k q hq
  · have hown := h.idFor hclaimed hdraws hid
    exact ⟨refresh h.indexed h.multiple hp (fun id' q _ hq => h.sinks id' q hq) h.keys hown hts,
      fun _ => hown⟩

/-- The sink of an owner is an address of the receiver the id was drawn for. -/
theorem sinkFor (h : Sorted own pool stamp r) {owner : Owner}
    (hsink : (r.sinkFor owner).1 = some addr) : own addr = pool owner := by
  simp only [Registry.sinkFor, h.multiple, if_true] at hsink
  split at hsink
  · next p hp =>
      obtain ⟨⟨addr', hsink', hown⟩, -⟩ := h.sinks owner p hp
      rw [hsink'] at hsink
      exact Option.some.inj hsink ▸ hown
  · cases hsink

end Sorted

end Registry

/-! ## The session -/

section Session

variable {tag : Mac} {cipher : PacketCipher} {own : String → Nat} {pool : Owner → Nat}

/-- The listener registers the sender of a control, and answers one without an id. -/
theorem udpListenOutRead_control {reg : Registry String} (hm : reg.multiple = true) (addr : String)
    (keepalive : Bool) (id : Owner) (ts : UInt64) (now : Int) (draws : List Owner) :
    udpListenOutRead tag reg addr (encodeControl tag (controlFor keepalive id ts)) now draws =
      (reg.register id addr ts (some addr) now draws).map fun (reg', assigned, ok) =>
        (reg', if ok && id.isZero then some (encodeControl tag ⟨msgAssignID, assigned, 0, ts⟩)
          else none) := by
  have htyp : ((controlFor keepalive id ts).typ == msgRegister ||
      (controlFor keepalive id ts).typ == msgKeepalive) = true := by
    cases keepalive <;> simp [controlFor]
  simp only [udpListenOutRead, decodeControl_encodeControl, htyp, if_true, hm]
  refine Option.map_congr fun result _ => ?_
  obtain ⟨reg', assigned, ok⟩ := result
  cases ok <;> cases hzero : id.isZero <;> simp [controlFor, hzero]

/-- What the listener makes of a datagram of a receiver, or of one without a control to follow. -/
theorem udpListenOutRead_sorted {stamp : Nat → UInt64} {reg reg' : Registry String} {addr : String}
    {dg : Bytes} {now : Int} {draws : List Owner} {reply : Option Bytes}
    (h : Sorted own pool stamp reg)
    (hdg : (∃ keepalive id ts, dg = encodeControl tag (controlFor keepalive id ts) ∧
        (id = Owner.zero ∨ pool id = own addr) ∧ ts ≤ stamp (own addr)) ∨
      ∀ control, decodeControl tag dg = .ok control →
        control.typ ≠ msgRegister ∧ control.typ ≠ msgKeepalive)
    (hdraws : ∀ id ∈ draws, pool id = own addr)
    (hread : udpListenOutRead tag reg addr dg now draws = some (reg', reply)) :
    Sorted own pool stamp reg' ∧ ∀ dg', reply = some dg' →
      ∃ id ts, dg' = encodeControl tag ⟨msgAssignID, id, 0, ts⟩ ∧ pool id = own addr := by
  rcases hdg with ⟨keepalive, id, ts, rfl, hid, hts⟩ | hother
  · rw [udpListenOutRead_control h.multiple, Option.map_eq_some_iff] at hread
    obtain ⟨⟨reg'', assigned, ok⟩, hcall, heq⟩ := hread
    obtain ⟨rfl, rfl⟩ := Prod.mk.inj heq
    obtain ⟨hsorted, hassigned⟩ := h.register hid hdraws hts hcall
    refine ⟨hsorted, fun dg' hdg' => ?_⟩
    obtain ⟨haccepted, hdg'⟩ := Option.ite_none_right_eq_some.mp hdg'
    rw [Bool.and_eq_true] at haccepted
    exact ⟨assigned, ts, (Option.some.inj hdg').symm, hassigned haccepted.1⟩
  · have hignored : udpListenOutRead tag reg addr dg now draws = some (reg, none) := by
      unfold udpListenOutRead
      split
      · rfl
      · next control hdecode =>
          obtain ⟨hregister, hkeepalive⟩ := hother control hdecode
          simp [hregister, hkeepalive]
    rw [hread] at hignored
    obtain ⟨rfl, rfl⟩ := pair_inj hignored
    exact ⟨h, by simp⟩

/-- The id changes by an authenticated assignment only. -/
theorem handleDatagram_curID (openBlob : Bytes → Option Bytes) (c : UdpConnectIn) (dg : Bytes) :
    (c.handleDatagram tag openBlob dg).1.curID =
      ((assignment tag dg).map Prod.fst).getD c.curID := by
  have heq := congrArg Prod.fst (c.receive_eq tag openBlob dg)
  have hreceive : (c.receive tag openBlob dg).1 = (c.handleDatagram tag openBlob dg).1 := by
    unfold UdpConnectIn.receive
    split <;> next hhandle => rw [hhandle]
  rw [← hreceive, heq]

namespace UdpSession

/-- A datagram to this address that was meant for it: the assignment of an id of its receiver, or
a packet for one. -/
def Meant (tag : Mac) (cipher : PacketCipher) (own : String → Nat) (pool : Owner → Nat)
    (addr : String) (dg : Bytes) : Prop :=
  (∃ id ts, dg = encodeControl tag ⟨msgAssignID, id, 0, ts⟩ ∧ pool id = own addr) ∨
    ∃ nonce e payload, dg = [msgData] ++ cipher.sealed nonce (putEnvelope e payload) ∧
      pool e.owner = own addr

/-- No id, return path or datagram of one receiver is another's. -/
structure Apart (tag : Mac) (cipher : PacketCipher) (own : String → Nat) (pool : Owner → Nat)
    (s : UdpSession) : Prop where
  addrs : ∀ i, own (s.clients i).addr = i
  ids : ∀ i, (s.clients i).carrier.curID = Owner.zero ∨ pool (s.clients i).carrier.curID = i
  sending : ∀ sc ∈ s.sending, own sc.addr = sc.client ∧
    (sc.id = Owner.zero ∨ pool sc.id = sc.client)
  toListener : ∀ m ∈ s.toListener, ∃ keepalive id ts,
    m.2 = encodeControl tag (controlFor keepalive id ts) ∧
      (id = Owner.zero ∨ pool id = own m.1) ∧ ts ≤ (s.clients (own m.1)).lastTS
  toClient : ∀ m ∈ s.toClient, Meant tag cipher own pool m.1 m.2
  reg : Sorted own pool (fun i => (s.clients i).lastTS) s.reg

variable {s s' : UdpSession} {addr : Nat → String} {ttl maxPeers : Int}

/-- It holds at the start. -/
theorem apart_start (haddr : ∀ i, own (addr i) = i) :
    Apart tag cipher own pool (start addr ttl maxPeers) :=
  ⟨haddr, fun _ => .inl rfl, by simp [start], by simp [start], by simp [start],
    sorted_new ttl maxPeers⟩

/-- A step that changes one receiver, keeps its addresses and ids its own and its stamps above those
given out. -/
theorem Apart.update (h : Apart tag cipher own pool s) {i : Nat} {c : UdpPeer}
    (haddr : own c.addr = i) (hid : c.carrier.curID = Owner.zero ∨ pool c.carrier.curID = i)
    (hts : (s.clients i).lastTS ≤ c.lastTS) :
    Apart tag cipher own pool { s with clients := Function.update s.clients i c } := by
  have hall := (Function.forall_update_iff s.clients
    (p := fun j c => own c.addr = j ∧ (c.carrier.curID = Owner.zero ∨ pool c.carrier.curID = j) ∧
      (s.clients j).lastTS ≤ c.lastTS)).mpr
    ⟨⟨haddr, hid, hts⟩, fun j _ => ⟨h.addrs j, h.ids j, UInt64.le_refl _⟩⟩
  refine ⟨fun j => (hall j).1, fun j => (hall j).2.1, h.sending, fun m hm => ?_, h.toClient,
    h.reg.mono fun j => (hall j).2.2⟩
  obtain ⟨keepalive, id, ts, hm, hid, hts⟩ := h.toListener m hm
  exact ⟨keepalive, id, ts, hm, hid, UInt64.le_trans hts (hall _).2.2⟩

/-- What a receiver makes of a datagram meant for it. -/
theorem Meant.handleDatagram {addr : String} {dg : Bytes} (h : Meant tag cipher own pool addr dg)
    (m : Memory UInt8) (a : Nat) (c : UdpConnectIn) :
    (∃ id, c.handleDatagram tag (openReceived cipher m a) dg = (⟨id⟩, .setID id) ∧
      pool id = own addr) ∨
    ∃ e payload, c.handleDatagram tag (openReceived cipher m a) dg = (c, arrival e payload) ∧
      pool e.owner = own addr := by
  rcases h with ⟨id, ts, rfl, hid⟩ | ⟨nonce, e, payload, rfl, hid⟩
  · refine .inl ⟨id, ?_, hid⟩
    have hdecode := decodeControl_encodeControl tag ⟨msgAssignID, id, 0, ts⟩
    have hcons : encodeControl tag ⟨msgAssignID, id, 0, ts⟩ =
        msgAssignID :: (encodeControl tag ⟨msgAssignID, id, 0, ts⟩).tail := rfl
    have hdata : msgAssignID ≠ msgData := by decide
    rw [hcons] at hdecode ⊢
    rw [UdpConnectIn.handleDatagram, if_neg hdata, if_pos rfl, hdecode]
    simp
  · exact .inr ⟨e, payload, handleDatagram_sealed tag cipher nonce m a c e payload, hid⟩

/-- Every step keeps the receivers apart. -/
theorem Apart.step (h : Apart tag cipher own pool s) {event : UdpEvent} {effect : Effect}
    (htruthful : Truthful tag own pool s event)
    (htaken : s.step tag cipher event = some (s', effect)) : Apart tag cipher own pool s' := by
  cases event with
  | load i =>
    obtain ⟨rfl, -⟩ := pair_inj htaken
    refine ⟨h.addrs, h.ids, ?_, h.toListener, h.toClient, h.reg⟩
    exact List.forall_mem_cons.mpr ⟨⟨h.addrs i, h.ids i⟩, h.sending⟩
  | write sc keepalive now =>
    obtain ⟨hsc, htaken⟩ := Option.ite_none_right_eq_some.mp htaken
    obtain ⟨rfl, -⟩ := pair_inj htaken
    obtain ⟨haddr, hid⟩ := h.sending sc hsc
    have hlt : _ < nextStamp now (s.clients sc.client).lastTS := lt_nextStamp htruthful
    have hupdate := h.update (i := sc.client)
      (c := { s.clients sc.client with lastTS := nextStamp now (s.clients sc.client).lastTS })
      (h.addrs _) (h.ids _) (UInt64.le_of_lt hlt)
    refine ⟨hupdate.addrs, hupdate.ids,
      fun sc' hsc' => h.sending sc' (List.mem_of_mem_erase hsc'),
      List.forall_mem_cons.mpr ⟨?_, hupdate.toListener⟩, h.toClient, hupdate.reg⟩
    refine ⟨keepalive, sc.id, nextStamp now (s.clients sc.client).lastTS, rfl, ?_, ?_⟩
    · rw [haddr]
      exact hid
    · simp [haddr]
  | reconnect i addr =>
    obtain ⟨rfl, -⟩ := pair_inj htaken
    exact h.update htruthful (h.ids i) (UInt64.le_refl _)
  | arrive addr dg now draws =>
    obtain ⟨⟨reg, reply⟩, hread, heq⟩ := Option.map_eq_some_iff.mp htaken
    obtain ⟨rfl, -⟩ := Prod.mk.inj heq
    obtain ⟨hdg, hdraws⟩ := htruthful
    obtain ⟨hreg, hreply⟩ := udpListenOutRead_sorted h.reg
      (hdg.imp_left fun hsent => h.toListener _ hsent) hdraws hread
    refine ⟨h.addrs, h.ids, h.sending, h.toListener,
      List.forall_mem_append.mpr ⟨fun m hm => ?_, h.toClient⟩, hreg⟩
    obtain ⟨dg', rfl, rfl⟩ := by simpa using hm
    exact .inl (hreply dg' rfl)
  | gc now =>
    obtain ⟨rfl, -⟩ := pair_inj htaken
    exact ⟨h.addrs, h.ids, h.sending, h.toListener, h.toClient, h.reg.gc now⟩
  | send nonce fresh m buf e payload =>
    obtain ⟨rfl, -⟩ := pair_inj htaken
    refine ⟨h.addrs, h.ids, h.sending, h.toListener,
      List.forall_mem_append.mpr ⟨fun msg hmsg => ?_, h.toClient⟩, h.reg⟩
    rw [Option.mem_toList, Option.bind_eq_some_iff] at hmsg
    obtain ⟨addr, hsink, hmsg⟩ := hmsg
    obtain ⟨m', buf', hbuild⟩ := buildDatagram_eq cipher nonce [msgData] m buf fresh e payload
    rw [hsink, Option.map_some, udpListenOutSend, hbuild] at hmsg
    obtain rfl := Option.some.inj hmsg
    exact .inr ⟨nonce, e, payload, rfl, (h.reg.sinkFor hsink).symm⟩
  | receive i dg m a =>
    obtain ⟨rfl, -⟩ := pair_inj htaken
    refine h.update (h.addrs i) ?_ (UInt64.le_refl _)
    dsimp only
    rcases htruthful with ⟨addr, rfl, hsent⟩ | hnone
    · rcases (h.toClient _ hsent).handleDatagram m a (s.clients (own addr)).carrier with
        ⟨id, heq, hid⟩ | ⟨e, payload, heq, -⟩
      · rw [heq]
        exact .inr hid
      · rw [heq]
        exact h.ids _
    · rw [handleDatagram_curID, hnone]
      exact h.ids i

variable {history : List (UdpEvent × Effect)}

/-- It holds in every run. -/
theorem Run.apart (haddr : ∀ i, own (addr i) = i)
    (h : Run tag cipher own pool addr ttl maxPeers s history) : Apart tag cipher own pool s := by
  refine h.invariant (fun s _ => Apart tag cipher own pool s) (apart_start haddr) ?_
  intro s history event s' effect hs htruthful htaken
  exact hs.step htruthful htaken

/-- In every run two receivers hold different ids, an id a receiver holds was drawn for it, the
listener sends the packets of an owner only to addresses of the receiver its id was drawn for, and
every packet on its way to an address is one for an id of the receiver there. -/
theorem udp_session_isolation (haddr : ∀ i, own (addr i) = i)
    (h : Run tag cipher own pool addr ttl maxPeers s history) :
    (∀ i, (s.clients i).carrier.curID ≠ Owner.zero → pool (s.clients i).carrier.curID = i) ∧
    (∀ i j, i ≠ j → (s.clients i).carrier.curID ≠ Owner.zero →
      (s.clients i).carrier.curID ≠ (s.clients j).carrier.curID) ∧
    (∀ owner dest, (s.reg.sinkFor owner).1 = some dest → own dest = pool owner) ∧
    (∀ dest dg, (dest, dg) ∈ s.toClient → ∀ m a c e payload,
      (UdpConnectIn.handleDatagram tag (openReceived cipher m a) c dg).2 = .ingress e payload →
        own dest = pool e.owner) := by
  have hs := h.apart haddr
  refine ⟨fun i => (hs.ids i).resolve_left, fun i j hne hi heq => ?_,
    fun owner dest => hs.reg.sinkFor, fun dest dg hsent m a c e payload heffect => ?_⟩
  · have hi' := (hs.ids i).resolve_left hi
    have hj' := (hs.ids j).resolve_left (heq ▸ hi)
    exact hne (hi'.symm.trans (heq ▸ hj'))
  · rcases (hs.toClient _ hsent).handleDatagram m a c with ⟨id, heq, -⟩ | ⟨e', payload', heq, hown⟩
    · rw [heq] at heffect
      cases heffect
    · rw [heq] at heffect
      obtain ⟨rfl, -⟩ : e' = e ∧ payload' = payload := by
        unfold arrival at heffect
        split at heffect
        · exact Effect.ingress.inj heffect
        · cases heffect
      exact hown.symm

/-- The receiver `i` has the addresses of `2 * i + 2` and of `2 * i + 3` letters. -/
def letters (n : Nat) : String := String.ofList (List.replicate n 'a')

def lettersOwn (addr : String) : Nat := addr.length / 2 - 1

/-- The ids that start with `i` are for the receiver `i`. -/
def firstByte (id : Owner) : Nat := (id.bytes.getD 0 0).toNat

/-- Letters tell clients apart. -/
theorem lettersOwn_letters (i : Nat) : lettersOwn (letters (2 * i + 2)) = i := by
  simp [lettersOwn, letters]

/-- Two receivers have registered and one of them has taken over its id. -/
theorem two_registered :
    ∃ s history, Run (fun _ => Vector.replicate 8 0) .none lettersOwn firstByte
        (fun i => letters (2 * i + 2)) 60 2 s history ∧
      (s.clients 1).carrier.curID = ⟨1, 0, 0, 1⟩ ∧ (s.clients 0).carrier.curID = Owner.zero ∧
      (s.clients 0).lastTS = 7 ∧ (s.reg.sinkFor ⟨0, 0, 0, 1⟩).1 = some "aa" ∧
      s.reg.byID.lookup ⟨0, 0, 0, 2⟩ = none := by
  have hstamp : (0 : UInt64).toNat < 2 ^ 64 - 1 := by decide
  have h : Run (fun _ => Vector.replicate 8 0) .none lettersOwn firstByte
    (fun i => letters (2 * i + 2)) 60 2 _ _ := .init
  have h₁ := h.next (.load 1) trivial rfl
  have h₂ := h₁.next (.write ⟨1, Owner.zero, "aaaa"⟩ false 5) hstamp rfl
  have h₃ := h₂.next (.arrive "aaaa" _ 0 [⟨1, 0, 0, 1⟩]) ⟨.inl List.mem_cons_self, by decide⟩ rfl
  have h₄ := h₃.next (.receive 1 _ (fun _ => 0) 0)
    (.inl ⟨"aaaa", by decide, List.mem_cons_self⟩) rfl
  have h₅ := h₄.next (.load 0) trivial rfl
  have h₆ := h₅.next (.write ⟨0, Owner.zero, "aa"⟩ false 7) hstamp rfl
  have h₇ := h₆.next (.arrive "aa" _ 0 [⟨0, 0, 0, 1⟩]) ⟨.inl List.mem_cons_self, by decide⟩ rfl
  exact ⟨_, _, h₇, rfl, rfl, rfl, rfl, rfl⟩

/-- Two clients, each with a session of its own. -/
theorem udp_session_isolation_two :
    ∃ s history, Run (fun _ => Vector.replicate 8 0) .none lettersOwn firstByte
        (fun i => letters (2 * i + 2)) 60 2 s history ∧
      (s.reg.sinkFor ⟨0, 0, 0, 1⟩).1 = some "aa" ∧ lettersOwn "aa" = firstByte ⟨0, 0, 0, 1⟩ ∧
      (s.clients 1).carrier.curID ≠ (s.clients 0).carrier.curID := by
  obtain ⟨s, history, h, hid, -, -, hsink, -⟩ := two_registered
  obtain ⟨-, hdistinct, hpaths, -⟩ := udp_session_isolation lettersOwn_letters h
  refine ⟨s, history, h, hsink, hpaths _ _ hsink, hdistinct 1 0 (by decide) ?_⟩
  rw [hid]
  decide

end UdpSession

end Session

end Dualnet.Conn
