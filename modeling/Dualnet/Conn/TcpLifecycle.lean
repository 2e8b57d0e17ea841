import Dualnet.Conn.TcpUplink

/-!
# The socket of the TCP uplink

`TcpUplink` follows the packets of a `tcpConnectOut`; this module follows its socket. A `dial` runs
outside the lock, so it can end at any point between flushes, `Reconnect` and `Close`. The steps
are the sections under `mu`; the clock may show anything at each of them. Beside the fields of the
source the state counts the running dials and keeps the sockets that dials came back with and those
that were closed.

`connection_lifecycle` is the result; `Sender.Run.shown` says that the runs of `TcpUplink` are runs
of this model.
-/

namespace Dualnet.Conn

open Cipher Library Wire

/-- The address of a `net.Conn`. -/
abbrev Socket := Nat

/-- `reconnectBackoff`, in nanoseconds. -/
def reconnectBackoff : Int := 1000000000

/-- The fields of a `tcpConnectOut` that `mu` guards, and what it did with goroutines and sockets.
`bw` and `obf` are given by the socket they write to, times in nanoseconds since the zero time. -/
structure TcpConnectOut where
  conn : Option Socket
  bw : Option Socket
  obf : Option Socket
  connected : Bool
  dialing : Bool
  closed : Bool
  nextRetry : Int
  -- the goroutines in `dial`, the sockets finished dials got, and those `Close` was called on
  dials : Nat
  obtained : List Socket
  shut : List Socket
deriving DecidableEq

/-- How a flush ends. -/
inductive FlushEnd where
  | sent
  | failed (err : String)
  | nilPointer
deriving DecidableEq

/-- What `DialContext` and, on its socket, `WrapWriter` come back with. -/
inductive DialEnd where
  | failed
  | obtained (conn : Socket) (wraps : Bool)

namespace TcpConnectOut

/-- A fresh one: dials lazily on the first flush. -/
def new : TcpConnectOut := ⟨none, none, none, false, false, false, 0, 0, [], []⟩

variable (c : TcpConnectOut)

/-- `kickDialLocked`. -/
def kickDialLocked (now : Int) : TcpConnectOut :=
  if c.dialing || c.closed || now < c.nextRetry then c
  else { c with dialing := true, dials := c.dials + 1 }

/-- `resetLocked`. -/
def resetLocked : TcpConnectOut :=
  { c with
    shut := c.shut ++ c.conn.toList
    conn := none
    bw := none
    obf := none
    connected := false }

/-- After a failed write: reset, and back off. -/
def giveUp (now : Int) : TcpConnectOut :=
  { c.resetLocked with nextRetry := now + reconnectBackoff }

/-- `flush`, with the errors of the frame writes, one a view, and of the final `bw.Flush`. -/
def flush (now : Int) (wrote : List (Option String)) (flushed : Option String) :
    TcpConnectOut × FlushEnd :=
  if !c.connected then (c.kickDialLocked now, .failed errBackoff)
  else if c.obf.isNone && !wrote.isEmpty then (c, .nilPointer)
  else
    match wrote.findSome? id with
    | some err => (c.giveUp now, .failed err)
    | none =>
      if c.bw.isNone then (c, .nilPointer)
      else
        match flushed with
        | some err => (c.giveUp now, .failed err)
        | none => (c, .sent)

/-- The end of `dial`, from where it takes the lock. -/
def dial (now : Int) (result : DialEnd) : TcpConnectOut :=
  let c : TcpConnectOut := { c with dialing := false, dials := c.dials - 1 }
  match result with
  | .failed => { c with nextRetry := now + reconnectBackoff }
  | .obtained conn wraps =>
    let c : TcpConnectOut := { c with obtained := conn :: c.obtained }
    if c.closed then { c with shut := conn :: c.shut }
    else if !wraps then
      { c with shut := conn :: c.shut, nextRetry := now + reconnectBackoff }
    else { c with conn := some conn, bw := some conn, obf := some conn, connected := true }

/-- `Reconnect`. -/
def reconnect : TcpConnectOut := { c.resetLocked with nextRetry := 0 }

/-- `Close`. -/
def close : TcpConnectOut := { c with closed := true }.resetLocked

end TcpConnectOut

/-- A section under the lock. -/
inductive SocketEvent where
  | flush (now : Int) (wrote : List (Option String)) (flushed : Option String)
  | dialed (now : Int) (result : DialEnd)
  | reconnect
  | close

namespace TcpConnectOut

/-- One section, with the end of a flush. Only a dial that was started can end. -/
def step (c : TcpConnectOut) : SocketEvent → Option (TcpConnectOut × Option FlushEnd)
  | .flush now wrote flushed =>
    let (c, out) := c.flush now wrote flushed
    some (c, some out)
  | .dialed now result => if c.dials = 0 then none else some (c.dial now result, none)
  | .reconnect => some (c.reconnect, none)
  | .close => some (c.close, none)

/-- The runs, whatever happens in between. -/
abbrev Run : TcpConnectOut → List (SocketEvent × Option FlushEnd) → Prop :=
  Reached step (fun _ _ _ => True) new

/-! ## What every section keeps -/

/-- The invariant of the fields: `dialing` counts the dials, and while it is set there is no
socket; the three pointers are set together and `connected` says so; every socket that was obtained
is the current one or was closed, once; a closed uplink has none. -/
structure Sound (c : TcpConnectOut) : Prop where
  dials : c.dials = c.dialing.toNat
  idle : c.dialing = true → c.conn = none
  bw : c.bw = c.conn
  obf : c.obf = c.conn
  connected : c.connected = c.conn.isSome
  sockets : c.obtained.Perm (c.shut ++ c.conn.toList)
  closed : c.closed = true → c.conn = none

variable {c c' : TcpConnectOut}

/-- A fresh connection is sound. -/
theorem Sound.new : new.Sound :=
  ⟨rfl, nofun, rfl, rfl, rfl, .refl _, nofun⟩

/-- The flag is set while a dial runs. -/
theorem Sound.dialing_of_dials (h : c.Sound) (hdials : c.dials ≠ 0) : c.dialing = true := by
  cases hd : c.dialing with
  | true => rfl
  | false => exact absurd (by rw [h.dials, hd]; rfl) hdials

/-- A dial is kicked only where none runs. -/
theorem Sound.kickDialLocked (h : c.Sound) (hconn : c.conn = none) (now : Int) :
    (c.kickDialLocked now).Sound := by
  unfold TcpConnectOut.kickDialLocked
  split
  · exact h
  · rename_i hkick
    simp only [Bool.or_eq_true, not_or, Bool.not_eq_true] at hkick
    have hdials : c.dials = 0 := by rw [h.dials, hkick.1.1]; rfl
    exact ⟨by simp [hdials], fun _ => hconn, h.bw, h.obf, h.connected, h.sockets, h.closed⟩

/-- `resetLocked` closes the socket before it forgets it, and does not touch the dials. -/
theorem Sound.resetLocked (h : c.Sound) : c.resetLocked.Sound where
  dials := h.dials
  idle _ := rfl
  bw := rfl
  obf := rfl
  connected := rfl
  sockets := by simpa [TcpConnectOut.resetLocked] using h.sockets
  closed _ := rfl

/-- The time of the next try is free. -/
theorem Sound.nextRetry (h : c.Sound) (t : Int) : { c with nextRetry := t }.Sound :=
  ⟨h.dials, h.idle, h.bw, h.obf, h.connected, h.sockets, h.closed⟩

/-- Giving up keeps it. -/
theorem Sound.giveUp (h : c.Sound) (now : Int) : (c.giveUp now).Sound := h.resetLocked.nextRetry _

/-- A flush never finds a nil writer. -/
theorem Sound.flush (h : c.Sound) (now : Int) (wrote : List (Option String))
    (flushed : Option String) :
    (c.flush now wrote flushed).1.Sound ∧ (c.flush now wrote flushed).2 ≠ .nilPointer := by
  unfold TcpConnectOut.flush
  rw [h.connected, h.obf, h.bw]
  cases hconn : c.conn with
  | none => exact ⟨h.kickDialLocked hconn now, by simp⟩
  | some conn =>
    simp only [Option.isSome_some, Option.isNone_some, Bool.not_true, Bool.false_and,
      Bool.false_eq_true, if_false]
    split
    · exact ⟨h.giveUp now, by simp⟩
    split
    · exact ⟨h.giveUp now, by simp⟩
    · exact ⟨h, by simp⟩

/-- A dial that ends was the only one, and finds no socket to overwrite. -/
theorem Sound.dial (h : c.Sound) (hdials : c.dials ≠ 0) (now : Int) (result : DialEnd) :
    (c.dial now result).Sound := by
  have hdialing := h.dialing_of_dials hdials
  have hconn : c.conn = none := h.idle hdialing
  have hlast : c.dials - 1 = 0 := by rw [h.dials, hdialing]; rfl
  have hsockets : c.obtained.Perm c.shut := by simpa [hconn] using h.sockets
  cases result with
  | failed => exact ⟨hlast, nofun, h.bw, h.obf, h.connected, h.sockets, h.closed⟩
  | obtained conn wraps =>
    unfold TcpConnectOut.dial
    dsimp only
    -- both ways to discard the socket close it
    have hdiscarded : (conn :: c.obtained).Perm ((conn :: c.shut) ++ c.conn.toList) := by
      simpa [hconn] using hsockets
    split
    · exact ⟨hlast, nofun, h.bw, h.obf, h.connected, hdiscarded, h.closed⟩
    rename_i hopen
    split
    · exact ⟨hlast, nofun, h.bw, h.obf, h.connected, hdiscarded, h.closed⟩
    · refine ⟨hlast, nofun, rfl, rfl, rfl, ?_, fun hclosed => absurd hclosed hopen⟩
      exact (hsockets.cons conn).trans (List.perm_append_singleton conn c.shut).symm

/-- Every step keeps it and uses no nil pointer. -/
theorem Sound.step {event : SocketEvent} {out : Option FlushEnd} (h : c.Sound)
    (htaken : c.step event = some (c', out)) : c'.Sound ∧ out ≠ some .nilPointer := by
  cases event with
  | flush now wrote flushed =>
    obtain ⟨rfl, rfl⟩ := pair_inj htaken
    obtain ⟨hsound, hend⟩ := h.flush now wrote flushed
    exact ⟨hsound, fun heq => hend (Option.some.inj heq)⟩
  | dialed now result =>
    obtain ⟨hdials, hs'⟩ := Option.ite_none_left_eq_some.mp htaken
    obtain ⟨rfl, rfl⟩ := pair_inj hs'
    exact ⟨h.dial hdials now result, nofun⟩
  | reconnect =>
    obtain ⟨rfl, rfl⟩ := pair_inj htaken
    exact ⟨h.resetLocked.nextRetry 0, nofun⟩
  | close =>
    obtain ⟨rfl, rfl⟩ := pair_inj htaken
    have hreset := h.resetLocked
    exact ⟨⟨hreset.dials, hreset.idle, rfl, rfl, rfl, hreset.sockets, fun _ => rfl⟩, nofun⟩

/-- A flush does not close. -/
@[simp] theorem flush_closed (now : Int) (wrote : List (Option String)) (flushed : Option String) :
    (c.flush now wrote flushed).1.closed = c.closed := by
  unfold TcpConnectOut.flush TcpConnectOut.kickDialLocked
  repeat' split
  all_goals rfl

/-- Nor does a dial. -/
@[simp] theorem dial_closed (now : Int) (result : DialEnd) :
    (c.dial now result).closed = c.closed := by
  unfold TcpConnectOut.dial
  dsimp only
  repeat' split
  all_goals rfl

/-- Nothing reopens a closed uplink. -/
theorem step_closed {event : SocketEvent} {out : Option FlushEnd}
    (htaken : c.step event = some (c', out)) (hclosed : c.closed = true ∨ event = .close) :
    c'.closed = true := by
  cases event with
  | flush now wrote flushed =>
    obtain ⟨rfl, rfl⟩ := pair_inj htaken
    exact (flush_closed now wrote flushed).trans (hclosed.resolve_right nofun)
  | dialed now result =>
    obtain ⟨-, hs'⟩ := Option.ite_none_left_eq_some.mp htaken
    obtain ⟨rfl, rfl⟩ := pair_inj hs'
    exact (dial_closed now result).trans (hclosed.resolve_right nofun)
  | reconnect =>
    obtain ⟨rfl, rfl⟩ := pair_inj htaken
    exact hclosed.resolve_right nofun
  | close =>
    obtain ⟨rfl, rfl⟩ := pair_inj htaken
    rfl

/-- Every state of a run is sound, no flush of it met a nil writer, and a `Close` in it is
remembered. -/
theorem Run.sound {history : List (SocketEvent × Option FlushEnd)} (h : Run c history) :
    c.Sound ∧ (∀ taken ∈ history, taken.2 ≠ some .nilPointer) ∧
      ((∃ out, (.close, out) ∈ history) → c.closed = true) := by
  refine h.invariant (fun c history => c.Sound ∧ (∀ taken ∈ history, taken.2 ≠ some .nilPointer) ∧
    ((∃ out, (.close, out) ∈ history) → c.closed = true)) ⟨Sound.new, nofun, nofun⟩ ?_
  rintro c history event c' out ⟨hsound, hends, hclosed⟩ - htaken
  obtain ⟨hsound', hend⟩ := hsound.step htaken
  refine ⟨hsound', List.forall_mem_cons.mpr ⟨hend, hends⟩, ?_⟩
  rintro ⟨out', hmem⟩
  rcases List.mem_cons.mp hmem with heq | hearlier
  · exact step_closed htaken (.inr (Prod.mk.inj heq).1.symm)
  · exact step_closed htaken (.inl (hclosed ⟨out', hearlier⟩))

/-- The life of the connection, over every interleaving of flushes, ends of dials, `Reconnect` and
`Close`. At most one dial runs, and only while there is no socket to overwrite; `connected` holds
exactly if `conn`, `bw` and `obf` are all set, and otherwise none of them is; the sockets that
finished dials obtained are those closed and the installed one, each once; after a `Close` no
socket is installed; and no flush met a nil writer. -/
theorem connection_lifecycle {history : List (SocketEvent × Option FlushEnd)} (h : Run c history) :
    c.dials ≤ 1 ∧
    (c.dials ≠ 0 → c.connected = false ∧ c.conn = none) ∧
    (c.connected = true ↔ c.conn.isSome ∧ c.bw.isSome ∧ c.obf.isSome) ∧
    (c.connected = false → c.conn = none ∧ c.bw = none ∧ c.obf = none) ∧
    c.obtained.Perm (c.shut ++ c.conn.toList) ∧
    ((∃ out, (.close, out) ∈ history) → c.conn = none) ∧
    ∀ taken ∈ history, taken.2 ≠ some .nilPointer := by
  obtain ⟨hsound, hends, hclosed⟩ := h.sound
  refine ⟨?_, fun hdials => ?_, ?_, fun hoff => ?_, hsound.sockets,
    fun hclose => hsound.closed (hclosed hclose), hends⟩
  · rw [hsound.dials]
    exact Bool.toNat_le c.dialing
  · have hconn := hsound.idle (hsound.dialing_of_dials hdials)
    exact ⟨by rw [hsound.connected, hconn]; rfl, hconn⟩
  · rw [hsound.connected, hsound.bw, hsound.obf]
    exact ⟨fun hc => ⟨hc, hc, hc⟩, fun hall => hall.1⟩
  · have hconn : c.conn = none := by
      rw [hsound.connected] at hoff
      exact Option.isNone_iff_eq_none.mp (Option.isSome_eq_false_iff.mp hoff)
    exact ⟨hconn, hsound.bw.trans hconn, hsound.obf.trans hconn⟩

/-- A connection that a failed write ends, and a `Close` while the next dial is running: the socket
that dial comes back with is closed. -/
theorem connection_lifecycle_close_while_dialing : ∃ c history, Run c history ∧
    c.obtained = [8, 7] ∧ c.shut = [8, 7] ∧ c.conn = none ∧ c.dials ≤ 1 := by
  have hplay : play step new []
      [.flush 5 [none] none, .dialed 6 (.obtained 7 true), .flush 7 [none] (some "broken pipe"),
        .flush 2000000000 [none] none, .close, .dialed 2000000001 (.obtained 8 true)] =
      some (⟨none, none, none, false, false, true, 1000000007, 0, [8, 7], [8, 7]⟩, _) := rfl
  have hrun : Run _ _ := Reached.init.play _ hplay
  exact ⟨_, _, hrun, rfl, rfl, (connection_lifecycle hrun).2.2.2.2.2.1 ⟨none, by simp⟩,
    (connection_lifecycle hrun).1⟩

/-! ## The runs of the packet model -/

/-- What `TcpUplink` shows of the connection: its flags, and whether there is one. -/
structure Shows (c : TcpConnectOut) (u : Uplink) : Prop where
  dialing : u.dialing = c.dialing
  closed : u.closed = c.closed
  cur : u.cur.isSome = c.connected

variable {u : Uplink}

/-- Starting a dial. -/
theorem Shows.kickDialLocked (h : c.Shows u) (now : Int) :
    (c.kickDialLocked now).Shows (u.kickDialLocked (now < c.nextRetry)) := by
  unfold TcpConnectOut.kickDialLocked Uplink.kickDialLocked
  rw [h.dialing, h.closed]
  split
  · exact h
  · exact ⟨rfl, rfl, h.cur⟩

/-- Dropping the connection. -/
theorem Shows.resetLocked (h : c.Shows u) : c.resetLocked.Shows u.resetLocked :=
  ⟨h.dialing, h.closed, rfl⟩

/-- A flush of the packet model is one here that meets the same error at its end. -/
theorem Shows.flush (h : c.Shows u) (hc : c.Sound) (fate : Fate) (backingOff : Bool)
    (views : List Packet) : ∃ now flushed,
      (c.flush now [] flushed).1.Shows (u.flush fate backingOff views).1 := by
  have hcur := h.cur
  cases hu : u.cur with
  | none =>
    -- a time before or at the next try, as the packet model backs off or not
    obtain ⟨now, hnow⟩ : ∃ now : Int, decide (now < c.nextRetry) = backingOff := by
      cases backingOff
      · exact ⟨c.nextRetry, by simp⟩
      · exact ⟨c.nextRetry - 1, by simp⟩
    refine ⟨now, none, ?_⟩
    have hoff : c.connected = false := by rw [← hcur, hu]; rfl
    simp only [TcpConnectOut.flush, hoff, Uplink.flush, hu, Bool.not_false, if_true]
    exact hnow ▸ h.kickDialLocked now
  | some link =>
    have hon : c.connected = true := by rw [← hcur, hu]; rfl
    have hbw : c.bw.isNone = false := by
      rw [hc.bw, ← Option.not_isSome, ← hc.connected, hon]
      rfl
    obtain ⟨⟨stream, err⟩, hwrite⟩ :
      ∃ r, link.stream.write fate (views.map Packet.blob) = r := ⟨_, rfl⟩
    refine ⟨0, err, ?_⟩
    cases err with
    | none =>
      simp [TcpConnectOut.flush, hon, hbw, Uplink.flush, hu, hwrite]
      exact ⟨h.dialing, h.closed, hon.symm⟩
    | some err =>
      simp [TcpConnectOut.flush, hon, hbw, Uplink.flush, hu, hwrite]
      exact ⟨h.dialing, h.closed, rfl⟩

/-- A dial that succeeds. -/
theorem Shows.dialed (h : c.Shows u) (sc : StreamCipher) (nonce : Vector UInt8 12) :
    (c.dial 0 (.obtained 0 true)).Shows (u.dialed sc nonce) := by
  have hcur := h.cur
  unfold TcpConnectOut.dial Uplink.dialed
  dsimp only
  rw [h.closed]
  split
  · exact ⟨rfl, rfl, hcur⟩
  · exact ⟨rfl, rfl, rfl⟩

/-- Some run here ends in a state that the packet model shows as `u`. -/
def Shown (u : Uplink) : Prop := ∃ c history, Run c history ∧ c.Shows u

/-- A flush. -/
theorem Shown.flush (h : Shown u) (fate : Fate) (backingOff : Bool) (views : List Packet) :
    Shown (u.flush fate backingOff views).1 := by
  obtain ⟨c, history, hrun, hshows⟩ := h
  obtain ⟨now, flushed, hnext⟩ := hshows.flush hrun.sound.1 fate backingOff views
  exact ⟨_, _, .step hrun trivial (show step c (.flush now [] flushed) = _ from rfl), hnext⟩

/-- A dial that is running can end either way. -/
theorem Shown.dial (h : Shown u) (hdialing : u.dialing = true) :
    ∃ (c : TcpConnectOut) (history : _), c.Shows u ∧ ∀ now result, Run (c.dial now result)
      ((.dialed now result, none) :: history) := by
  obtain ⟨c, history, hrun, hshows⟩ := h
  have hdials : c.dials ≠ 0 := by
    rw [hrun.sound.1.dials, ← hshows.dialing, hdialing]
    exact Nat.one_ne_zero
  exact ⟨c, history, hshows, fun now result => .step hrun trivial (if_neg hdials)⟩

/-- A dial that succeeds. -/
theorem Shown.dialed (h : Shown u) (hdialing : u.dialing = true) (sc : StreamCipher)
    (nonce : Vector UInt8 12) : Shown (u.dialed sc nonce) := by
  obtain ⟨c, history, hshows, hrun⟩ := h.dial hdialing
  exact ⟨_, _, hrun 0 (.obtained 0 true), hshows.dialed sc nonce⟩

/-- A dial that fails. -/
theorem Shown.dialFailed (h : Shown u) (hdialing : u.dialing = true) : Shown u.dialFailed := by
  obtain ⟨c, history, hshows, hrun⟩ := h.dial hdialing
  exact ⟨_, _, hrun 0 .failed, rfl, hshows.closed, hshows.cur⟩

/-- A reconnect. -/
theorem Shown.reconnect (h : Shown u) : Shown u.resetLocked := by
  obtain ⟨c, history, hrun, hshows⟩ := h
  exact ⟨_, _, .step hrun trivial (show step c .reconnect = _ from rfl), hshows.dialing,
    hshows.closed, rfl⟩

/-- A close. -/
theorem Shown.close (h : Shown u) : Shown { u with closed := true }.resetLocked := by
  obtain ⟨c, history, hrun, hshows⟩ := h
  exact ⟨_, _, .step hrun trivial (show step c .close = _ from rfl), hshows.dialing, rfl, rfl⟩

end TcpConnectOut

open TcpConnectOut (Shown)

/-- The packet model is an abstraction of this one: each of its runs is a run here, so what
`connection_lifecycle` says holds for the connection its packets travel on. -/
theorem Sender.Run.shown {sc : StreamCipher} {s : Sender}
    {history : List (UplinkEvent × Option Packet)} (h : Sender.Run sc s history) :
    Shown s.sink := by
  suffices hholds : s.Holds (fun u _ _ => Shown u) (Pktbuf.committed history) by
    obtain ⟨_, hshown, _⟩ := hholds
    exact hshown
  refine h.invariant (fun s history => s.Holds (fun u _ _ => Shown u) (Pktbuf.committed history))
    ⟨[], ⟨_, _, .init, rfl, rfl, rfl⟩, rfl⟩ ?_
  intro s history event s' out hs _ htaken
  rw [Pktbuf.committed_cons]
  -- only an operation on the batch can commit a packet
  have hsame : ∀ sink, Shown sink → { s with sink := sink }.Holds (fun u _ _ => Shown u)
      (Pktbuf.committed history ++ (none : Option Packet).toList) := by
    intro sink hsink
    rw [Option.toList_none, List.append_nil]
    exact Pktbuf.Writer.Holds.sink hs fun _ _ => hsink
  have hshown : Shown s.sink := by
    obtain ⟨_, hshown, _⟩ := hs
    exact hshown
  cases event with
  | batch op fate backingOff =>
    refine Pktbuf.Writer.Holds.perform ?_ hs htaken
    intro u _ _ views u' _ hu hcall
    obtain rfl : (u.flush fate backingOff views).1 = u' := by rw [Option.some.inj hcall]
    exact hu.flush fate backingOff views
  | dialed nonce =>
    obtain ⟨hdialing, hs'⟩ := Option.ite_none_right_eq_some.mp htaken
    obtain ⟨rfl, rfl⟩ := pair_inj hs'
    exact hsame _ (hshown.dialed hdialing sc nonce)
  | dialFailed =>
    obtain ⟨hdialing, hs'⟩ := Option.ite_none_right_eq_some.mp htaken
    obtain ⟨rfl, rfl⟩ := pair_inj hs'
    exact hsame _ (hshown.dialFailed hdialing)
  | reconnect =>
    obtain ⟨rfl, rfl⟩ := pair_inj htaken
    exact hsame _ hshown.reconnect
  | close =>
    obtain ⟨rfl, rfl⟩ := pair_inj htaken
    exact hsame _ hshown.close

end Dualnet.Conn
