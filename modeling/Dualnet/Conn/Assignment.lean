import Dualnet.Conn.Control

/-!
# Adopting an assigned id

The three dialing receivers adopt the id their peer assigns them. The stream carriers remember
the stamp of the last assignment they adopted and want a newer one; the datagram carrier reads
no stamp. `assignments_adopted_in_order` compares them: the adoptions of the TCP and HTTP
carriers are always in order, those of the UDP carrier only if the assignments arrived so.
-/

namespace Dualnet.Conn

open Wire

/-! ## The carriers -/

/-- What handling a datagram does besides updating the carrier. -/
inductive Effect where
  | nothing
  | drop
  | ingress (e : Envelope) (payload : Bytes)
  | setID (id : Owner)
  deriving DecidableEq

/-- The id a `udpConnectIn` registers under. -/
structure UdpConnectIn where
  curID : Owner

/-- `udpConnectIn.handleDatagram`; `openBlob` is the cipher's `Open`. -/
def UdpConnectIn.handleDatagram (tag : Mac) (openBlob : Bytes → Option Bytes) (c : UdpConnectIn)
    (dg : Bytes) : UdpConnectIn × Effect :=
  match dg with
  | [] => (c, .nothing)
  | typ :: rest =>
    if typ = msgData then
      match openBlob rest with
      | none => (c, .drop)
      | some blob =>
        match parseEnvelope blob with
        | none => (c, .drop)
        | some (e, payload) =>
          if plausibleIP payload then (c, .ingress e payload) else (c, .drop)
    else if typ = msgAssignID then
      match decodeControl tag dg with
      | .error _ => (c, .nothing)
      | .ok control =>
        if control.typ ≠ msgAssignID then (c, .nothing)
        else ({ c with curID := control.id }, .setID control.id)
    else (c, .nothing)

/-- The id a stream carrier registers under, and the stamp of the assignment it has it from. -/
structure StreamConnectIn where
  curID : Owner
  lastAssign : UInt64

/-- Adopt an authenticated assignment that is newer than the last one, and call the id setter. -/
def StreamConnectIn.adopt (c : StreamConnectIn) (id : Owner) (ts : UInt64) :
    StreamConnectIn × Option Owner :=
  if c.lastAssign < ts then (⟨id, ts⟩, some id) else (c, none)

/-- The handshake of `tcpConnectIn.stream`, from the first frame of the peer on. -/
def StreamConnectIn.tcpHandshake (tag : Mac) (c : StreamConnectIn) (frame : Bytes) :
    StreamConnectIn × Option Owner :=
  match decodeControl tag frame with
  | .error _ => (c, none)
  | .ok control =>
    if control.typ = msgAssignID ∧ !control.id.isZero then c.adopt control.id control.ts
    else (c, none)

/-- The two headers of a response: the id and its token. -/
structure AssignHeaders where
  id : String
  sig : String

/-- The assignment of `httpConnectIn.stream`, from the headers of the response. -/
def StreamConnectIn.httpResponse (tag : Mac) (c : StreamConnectIn) (h : AssignHeaders) :
    StreamConnectIn × Option Owner :=
  if h.id = "" then (c, none)
  else
    let assigned := parseOwnerHex h.id
    if assigned.isZero then (c, none)
    else match verifyAuthToken tag authDomainAssign assigned h.sig with
      | none => (c, none)
      | some ts => c.adopt assigned ts

/-! ## The messages -/

/-- The assignment an authenticated control datagram carries. -/
def assignment (tag : Mac) (data : Bytes) : Option (Owner × UInt64) :=
  match decodeControl tag data with
  | .ok control => if control.typ = msgAssignID then some (control.id, control.ts) else none
  | .error _ => none

/-- The assignment an authenticated pair of headers carries. -/
def headerAssignment (tag : Mac) (h : AssignHeaders) : Option (Owner × UInt64) :=
  (verifyAuthToken tag authDomainAssign (parseOwnerHex h.id) h.sig).map fun ts =>
    (parseOwnerHex h.id, ts)

/-! ## Runs -/

section Runs

variable {σ μ : Type} (receive : σ → μ → σ × Option Owner) (carried : μ → Option (Owner × UInt64))

/-- The adoptions along a sequence of messages: the id the setter was called with, and the stamp
of the message. -/
def adoptions : σ → List μ → List (Owner × UInt64)
  | _, [] => []
  | s, m :: ms =>
    ((receive s m).2.map fun id => (id, ((carried m).map Prod.snd).getD 0)).toList ++
      adoptions (receive s m).1 ms

/-- No adopted id is zero, and each stamp is greater than all before it. -/
structure InOrder (adopted : List (Owner × UInt64)) : Prop where
  nonzero : ∀ a ∈ adopted, a.1 ≠ Owner.zero
  increasing : adopted.Pairwise fun earlier later => earlier.2 < later.2

/-- The id in use changes by an adoption only. -/
def FollowsAdoptions (cur : σ → Owner) : Prop :=
  ∀ s m, cur (receive s m).1 = (receive s m).2.getD (cur s)

/-- A message changes nothing, or it carries a newer assignment of a non-zero id, which is
adopted. -/
def Guarded (cur : σ → Owner) (last : σ → UInt64) : Prop :=
  ∀ s m, receive s m = (s, none) ∨ ∃ id ts, id ≠ Owner.zero ∧ carried m = some (id, ts) ∧
    last s < ts ∧ (receive s m).2 = some id ∧ cur (receive s m).1 = id ∧
    last (receive s m).1 = ts

variable {receive carried}

/-- The id such a carrier uses changes by an adoption only. -/
theorem Guarded.follows {cur : σ → Owner} {last : σ → UInt64}
    (h : Guarded receive carried cur last) : FollowsAdoptions receive cur := by
  intro s m
  rcases h s m with heq | ⟨id, ts, -, -, -, hset, hcur, -⟩
  · rw [heq]
    rfl
  · rw [hset, hcur]
    rfl

/-- Such a carrier adopts in order, and newer than it started with. -/
theorem Guarded.inOrder {cur : σ → Owner} {last : σ → UInt64}
    (h : Guarded receive carried cur last) (s : σ) (ms : List μ) :
    InOrder (adoptions receive carried s ms) ∧
      ∀ a ∈ adoptions receive carried s ms, last s < a.2 := by
  induction ms generalizing s with
  | nil => exact ⟨⟨by simp [adoptions], by simp [adoptions]⟩, by simp [adoptions]⟩
  | cons m ms ih =>
    rcases h s m with heq | ⟨id, ts, hid, hcarried, hnewer, hset, -, hlast⟩
    · rw [adoptions, heq]
      exact ih s
    · obtain ⟨⟨hnonzero, hincreasing⟩, hlater⟩ := ih (receive s m).1
      rw [hlast] at hlater
      rw [adoptions, hset, hcarried]
      simp only [Option.map_some, Option.getD_some, Option.toList_some, List.singleton_append]
      refine ⟨⟨?_, ?_⟩, ?_⟩
      · exact List.forall_mem_cons.mpr ⟨hid, hnonzero⟩
      · exact List.pairwise_cons.mpr ⟨hlater, hincreasing⟩
      · refine List.forall_mem_cons.mpr ⟨hnewer, fun a ha => ?_⟩
        exact UInt64.lt_trans hnewer (hlater a ha)

/-- A carrier that adopts whatever a message carries adopts all of it. -/
theorem adoptions_unguarded
    (h : ∀ s m, (receive s m).2 = (carried m).map Prod.fst) (s : σ) (ms : List μ) :
    adoptions receive carried s ms = ms.filterMap carried := by
  induction ms generalizing s with
  | nil => rfl
  | cons m ms ih =>
    rw [adoptions, ih, h, List.filterMap_cons]
    cases carried m <;> rfl

end Runs

/-! ## What the carriers adopt -/

/-- A guarded carrier may hand a non-zero id that its message carries to `adopt`. -/
theorem StreamConnectIn.adopt_guarded (c : StreamConnectIn) {id : Owner} (hid : id ≠ Owner.zero)
    (ts : UInt64) : c.adopt id ts = (c, none) ∨ ∃ id' ts', id' ≠ Owner.zero ∧
      some (id, ts) = some (id', ts') ∧ c.lastAssign < ts' ∧ (c.adopt id ts).2 = some id' ∧
      (c.adopt id ts).1.curID = id' ∧ (c.adopt id ts).1.lastAssign = ts' := by
  unfold adopt
  split
  · rename_i hnewer
    exact .inr ⟨id, ts, hid, rfl, hnewer, rfl, rfl, rfl⟩
  · exact .inl rfl

/-- The TCP carrier adopts newer, authenticated, non-zero ids. -/
theorem tcpHandshake_guarded (tag : Mac) : Guarded (StreamConnectIn.tcpHandshake tag)
    (assignment tag) StreamConnectIn.curID StreamConnectIn.lastAssign := by
  intro c frame
  unfold StreamConnectIn.tcpHandshake assignment
  cases decodeControl tag frame with
  | error _ => exact .inl rfl
  | ok control =>
    simp only
    split
    · rename_i hassign
      rw [if_pos hassign.1]
      exact c.adopt_guarded (by simpa using hassign.2) control.ts
    · exact .inl rfl

/-- So does the HTTP carrier. -/
theorem httpResponse_guarded (tag : Mac) : Guarded (StreamConnectIn.httpResponse tag)
    (headerAssignment tag) StreamConnectIn.curID StreamConnectIn.lastAssign := by
  intro c h
  unfold StreamConnectIn.httpResponse headerAssignment
  split
  · exact .inl rfl
  simp only
  split
  · exact .inl rfl
  rename_i hzero
  cases verifyAuthToken tag authDomainAssign (parseOwnerHex h.id) h.sig with
  | none => exact .inl rfl
  | some ts => exact c.adopt_guarded (by simpa using hzero) ts

/-- The UDP carrier, as a receiver of assignments. -/
def UdpConnectIn.receive (tag : Mac) (openBlob : Bytes → Option Bytes) (c : UdpConnectIn)
    (dg : Bytes) : UdpConnectIn × Option Owner :=
  match c.handleDatagram tag openBlob dg with
  | (c', .setID id) => (c', some id)
  | (c', _) => (c', none)

/-- The UDP carrier adopts what an authenticated datagram carries, and nothing else changes its
id. -/
theorem UdpConnectIn.receive_eq (tag : Mac) (openBlob : Bytes → Option Bytes) (c : UdpConnectIn)
    (dg : Bytes) : c.receive tag openBlob dg =
      (⟨((assignment tag dg).map Prod.fst).getD c.curID⟩, (assignment tag dg).map Prod.fst) := by
  cases dg with
  | nil => simp [receive, handleDatagram, assignment, decodeControl, controlLen]
  | cons typ rest =>
    -- The type byte that selects the branch is the one the decoder returns.
    have htyp : ∀ control, decodeControl tag (typ :: rest) = .ok control →
        control.typ = typ := by
      intro control hok
      unfold decodeControl at hok
      split at hok
      · cases hok
      · rename_i hlength
        simp only at hok
        split at hok
        · cases hok
        · obtain rfl := Except.ok.inj hok
          simp only [not_not] at hlength
          simp [hlength, controlLen]
    by_cases hassign : typ = msgAssignID
    · have hdata : typ ≠ msgData := by
        rw [hassign]
        decide
      rw [receive, handleDatagram, if_neg hdata, if_pos hassign, assignment]
      cases hdecode : decodeControl tag (typ :: rest) with
      | error _ => rfl
      | ok control => simp [htyp control hdecode, hassign]
    · have hnone : assignment tag (typ :: rest) = none := by
        rw [assignment]
        cases hdecode : decodeControl tag (typ :: rest) with
        | error _ => rfl
        | ok control => simp [htyp control hdecode, hassign]
      rw [hnone, receive, handleDatagram, if_neg hassign]
      split_ifs
      · cases openBlob rest with
        | none => rfl
        | some blob =>
          cases hparse : parseEnvelope blob with
          | none => simp [hparse]
          | some parsed =>
            cases hplausible : plausibleIP parsed.2 <;> simp [hparse, hplausible]
      · rfl

/-- The adoptions of the TCP and of the HTTP carrier are in order for all messages they can
receive; those of the UDP carrier are exactly if the authenticated assignments arrive so. -/
theorem assignments_adopted_in_order (tag : Mac) (openBlob : Bytes → Option Bytes) :
    (FollowsAdoptions (StreamConnectIn.tcpHandshake tag) StreamConnectIn.curID ∧
      FollowsAdoptions (StreamConnectIn.httpResponse tag) StreamConnectIn.curID ∧
      FollowsAdoptions (UdpConnectIn.receive tag openBlob) UdpConnectIn.curID) ∧
    (∀ c frames, InOrder (adoptions (StreamConnectIn.tcpHandshake tag) (assignment tag) c frames)) ∧
    (∀ c responses,
      InOrder (adoptions (StreamConnectIn.httpResponse tag) (headerAssignment tag) c responses)) ∧
    ∀ c datagrams,
      InOrder (adoptions (UdpConnectIn.receive tag openBlob) (assignment tag) c datagrams) ↔
        InOrder (datagrams.filterMap (assignment tag)) := by
  have htcp := tcpHandshake_guarded tag
  have hhttp := httpResponse_guarded tag
  refine ⟨⟨htcp.follows, hhttp.follows, fun c dg => ?_⟩, fun c frames => (htcp.inOrder c frames).1,
    fun c responses => (hhttp.inOrder c responses).1, fun c datagrams => ?_⟩
  · rw [UdpConnectIn.receive_eq]
  · rw [adoptions_unguarded fun c dg => by rw [UdpConnectIn.receive_eq]]

/-- Under every key, an assignment replayed to the UDP carrier is adopted again, under the stamp of
the old one. -/
theorem replayed_assignment_adopted :
    ∃ first second : Mac → Bytes, ∀ (tag : Mac) (openBlob : Bytes → Option Bytes),
      assignment tag (first tag) = some (⟨1, 1, 1, 1⟩, 10) ∧
      assignment tag (second tag) = some (⟨2, 2, 2, 2⟩, 20) ∧
      adoptions (UdpConnectIn.receive tag openBlob) (assignment tag) ⟨Owner.zero⟩
          [first tag, second tag, first tag] =
        [(⟨1, 1, 1, 1⟩, 10), (⟨2, 2, 2, 2⟩, 20), (⟨1, 1, 1, 1⟩, 10)] := by
  refine ⟨fun tag => encodeControl tag ⟨msgAssignID, ⟨1, 1, 1, 1⟩, 0, 10⟩,
    fun tag => encodeControl tag ⟨msgAssignID, ⟨2, 2, 2, 2⟩, 0, 20⟩, fun tag openBlob => ?_⟩
  have hfirst := decodeControl_encodeControl tag ⟨msgAssignID, ⟨1, 1, 1, 1⟩, 0, 10⟩
  have hsecond := decodeControl_encodeControl tag ⟨msgAssignID, ⟨2, 2, 2, 2⟩, 0, 20⟩
  refine ⟨?_, ?_, ?_⟩
  · simp [assignment, hfirst]
  · simp [assignment, hsecond]
  · rw [adoptions_unguarded fun c dg => by rw [UdpConnectIn.receive_eq]]
    simp [assignment, hfirst, hsecond]

end Dualnet.Conn
