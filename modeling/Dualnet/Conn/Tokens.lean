import Dualnet.Conn.Control
import Mathlib.Data.List.GetD

/-!
# What a control message can be taken for

`conn/control.go` and `conn/auth.go` once more: a control datagram or a header token is accepted
exactly if it is the one its fields encode to, under whatever function the tag is. Three uses share
the tag: control datagrams, registrations and assignments of the HTTP carrier. The tagged bytes
determine the use with all its fields, so a tag that is good for two of them is a collision of the
tag function.
-/

namespace Dualnet.Conn

open Wire

/-! ## Control datagrams -/

/-- Four bytes are an owner. -/
theorem Owner.bytes_ofBytes {bs : Bytes} (h : bs.length = 4) : (Owner.ofBytes bs).bytes = bs := by
  obtain _ | ⟨a, _ | ⟨b, _ | ⟨c, _ | ⟨d, _ | _⟩⟩⟩⟩ := bs <;> simp at h
  rfl

/-- A body has 14 bytes. -/
theorem Control.length_body (c : Control) : c.body.length = 14 := by
  simp [Control.body, Owner.bytes, putUint64]

/-- The fields of a body of the right length encode to it. -/
theorem Control.body_of_fields {body : Bytes} (h : body.length = 14) :
    Control.body ⟨body.getD 0 0, Owner.ofBytes ((body.drop 1).take 4), body.getD 5 0,
      uint64 (body.drop 6)⟩ = body := by
  obtain _ | ⟨typ, rest⟩ := body
  · cases h
  have hrest : rest.length = 13 := by simpa using h
  have hid : (rest.take 4).length = 4 := by simp [hrest]
  have hflags : rest.drop 4 = rest.getD 4 0 :: rest.drop 5 := by
    rw [List.drop_eq_getElem_cons (by omega), List.getD_eq_getElem _ _ (by omega)]
  have hts : (rest.drop 5).length = 8 := by simp [hrest]
  simp only [Control.body, List.drop_succ_cons, List.drop_zero, List.getD_cons_zero,
    List.getD_cons_succ, Owner.bytes_ofBytes hid, putUint64_uint64 hts]
  rw [List.cons_append, ← hflags, List.take_append_drop]

/-- A datagram is accepted with these fields exactly if they encode to it. -/
theorem decodeControl_eq_ok {tag : Mac} {data : Bytes} {c : Control} :
    decodeControl tag data = .ok c ↔ data = encodeControl tag c := by
  constructor
  · intro h
    unfold decodeControl at h
    split at h
    · cases h
    rename_i hlength
    rw [not_not] at hlength
    have hbody : (data.take (data.length - 8)).length = 14 := by
      simp [hlength, controlLen]
    dsimp only at h
    split at h
    · cases h
    rename_i htag
    rw [not_not] at htag
    obtain rfl := Except.ok.inj h
    rw [encodeControl, Control.body_of_fields hbody, htag, List.take_append_drop]
  · rintro rfl
    exact decodeControl_encodeControl tag c

/-! ## Header tokens -/

/-- `authDomainReg`. -/
def authDomainReg : String := "dn-http-reg"

/-- `hex.EncodeToString`. -/
def hexEncode (bs : Bytes) : List Char :=
  bs.flatMap fun b => [Nat.digitChar (b.toNat / 16), Nat.digitChar (b.toNat % 16)]

/-- `authToken`. -/
def authToken (tag : Mac) (domain : String) (id : Owner) (ts : UInt64) : String :=
  String.ofList (hexEncode (putUint64 ts ++ (tag (authMsg domain id ts)).toList))

/-- Lower case, by code point. -/
theorem toNat_toLower (c : Char) :
    c.toLower.toNat = if 65 ≤ c.toNat ∧ c.toNat ≤ 90 then c.toNat + 32 else c.toNat := by
  have hupper : (c.val ≥ 'A'.val ∧ c.val ≤ 'Z'.val) ↔ 65 ≤ c.toNat ∧ c.toNat ≤ 90 :=
    and_congr UInt32.le_iff_toNat_le UInt32.le_iff_toNat_le
  unfold Char.toLower
  split
  · rename_i h
    rw [if_pos (hupper.mp h)]
    have hle := (hupper.mp h).2
    change (c.val + 32).toNat = _
    rw [UInt32.toNat_add]
    exact Nat.mod_eq_of_lt (show c.toNat + 32 < 2 ^ 32 by omega)
  · rename_i h
    rw [if_neg fun h' => h (hupper.mpr h')]

/-- A digit, by code point. -/
theorem toNat_digitChar : ∀ n < 16,
    (Nat.digitChar n).toNat = if n < 10 then 48 + n else 87 + n := by
  decide

/-- A character is a hexadecimal digit exactly if its lower-case form is the one that is written. -/
theorem fromHexChar_eq_some {c : Char} {n : Nat} :
    fromHexChar c = some n ↔ n < 16 ∧ c.toLower = Nat.digitChar n := by
  have hle : ∀ a b : Char, a ≤ b ↔ a.toNat ≤ b.toNat :=
    fun _ _ => Char.le_def.trans UInt32.le_iff_toNat_le
  have hread : fromHexChar c = some n ↔
      (48 ≤ c.toNat ∧ c.toNat ≤ 57 ∧ c.toNat = 48 + n) ∨
      (97 ≤ c.toNat ∧ c.toNat ≤ 102 ∧ c.toNat = 87 + n) ∨
      (65 ≤ c.toNat ∧ c.toNat ≤ 70 ∧ c.toNat = 55 + n) := by
    unfold fromHexChar
    simp only [hle, show '0'.toNat = 48 from rfl, show '9'.toNat = 57 from rfl,
      show 'a'.toNat = 97 from rfl, show 'f'.toNat = 102 from rfl, show 'A'.toNat = 65 from rfl,
      show 'F'.toNat = 70 from rfl]
    split
    · rw [Option.some.injEq]
      omega
    · split
      · rw [Option.some.injEq]
        omega
      · split
        · rw [Option.some.injEq]
          omega
        · simp only [reduceCtorEq, false_iff]
          omega
  rw [hread]
  constructor
  · intro h
    have hn : n < 16 := by omega
    refine ⟨hn, Char.toNat_inj.mp ?_⟩
    rw [toNat_toLower, toNat_digitChar n hn]
    split <;> split <;> omega
  · rintro ⟨hn, h⟩
    have hnat := congrArg Char.toNat h
    rw [toNat_toLower, toNat_digitChar n hn] at hnat
    split at hnat <;> split at hnat <;> omega

/-- A string is read as these bytes exactly if its lower-case form is the one that is written. -/
theorem hexDecode_eq_some {cs : List Char} {bs : Bytes} :
    hexDecode cs = some bs ↔ cs.map Char.toLower = hexEncode bs := by
  induction bs generalizing cs with
  | nil =>
    obtain _ | ⟨hi, _ | ⟨lo, rest⟩⟩ := cs
    · simp [hexDecode, hexEncode]
    · simp [hexDecode, hexEncode]
    · simp [hexDecode, hexEncode, Option.bind_eq_some_iff]
  | cons b bs ih =>
    obtain _ | ⟨hi, _ | ⟨lo, rest⟩⟩ := cs
    · simp [hexDecode, hexEncode]
    · simp [hexDecode, hexEncode]
    · have hb := b.toNat_lt
      have hcons : hexEncode (b :: bs) =
          Nat.digitChar (b.toNat / 16) :: Nat.digitChar (b.toNat % 16) :: hexEncode bs := rfl
      rw [hexDecode, hcons]
      simp only [bind, Option.bind_eq_some_iff, fromHexChar_eq_some, Option.some.injEq,
        List.cons.injEq, List.map_cons]
      constructor
      · rintro ⟨x, ⟨hx, hhi⟩, y, ⟨hy, hlo⟩, bs', hbs', rfl, rfl⟩
        have hval : (UInt8.ofNat (x * 16 + y)).toNat = x * 16 + y := by
          rw [UInt8.toNat_ofNat']
          omega
        refine ⟨?_, ?_, ih.mp hbs'⟩
        · rw [hhi, hval]
          congr 1
          omega
        · rw [hlo, hval]
          congr 1
          omega
      · rintro ⟨hhi, hlo, hrest⟩
        refine ⟨b.toNat / 16, ⟨by omega, hhi⟩, b.toNat % 16, ⟨by omega, hlo⟩, bs,
          ih.mpr hrest, ?_, rfl⟩
        rw [Nat.div_add_mod']
        exact UInt8.ofNat_toNat

/-- A token is accepted with this stamp exactly if, in lower case, it is the token of the stamp. -/
theorem verifyAuthToken_eq_some {tag : Mac} {domain : String} {id : Owner} {tok : String}
    {ts : UInt64} :
    verifyAuthToken tag domain id tok = some ts ↔ tok.toLower = authToken tag domain id ts := by
  have hlower : tok.toLower = authToken tag domain id ts ↔
      hexDecode tok.toList = some (putUint64 ts ++ (tag (authMsg domain id ts)).toList) := by
    have hmap : tok.toLower = tok.map Char.toLower := rfl
    rw [hexDecode_eq_some, ← String.toList_inj, authToken, hmap, String.toList_map,
      String.toList_ofList]
  have hstamp : (putUint64 ts).length = 8 := by simp [putUint64]
  rw [hlower, verifyAuthToken]
  simp only [bind, Option.bind_eq_some_iff]
  constructor
  · rintro ⟨raw, hraw, h⟩
    obtain ⟨hlength, h⟩ := Option.ite_none_left_eq_some.mp h
    obtain ⟨htag, hts⟩ := Option.ite_none_left_eq_some.mp h
    rw [not_not] at hlength htag
    obtain rfl := Option.some.inj hts
    have hraw8 : (raw.take 8).length = 8 := by simp [hlength, authTokenLen]
    rw [hraw, putUint64_uint64 hraw8, htag, List.take_append_drop]
  · intro h
    refine ⟨_, h, ?_⟩
    rw [List.take_left' hstamp, List.drop_left' hstamp, uint64_putUint64]
    simp [hstamp, authTokenLen]

/-! ## Separation -/

/-- What a tag is issued for. -/
inductive Use where
  | control (c : Control)
  | registration (id : Owner) (ts : UInt64)
  | assignment (id : Owner) (ts : UInt64)

/-- The bytes that are tagged. -/
def Use.message : Use → Bytes
  | .control c => c.body
  | .registration id ts => authMsg authDomainReg id ts
  | .assignment id ts => authMsg authDomainAssign id ts

/-- `wire.VerifyTag`. -/
def verifyTag (tag : Mac) (msg : Bytes) (t : Vector UInt8 8) : Bool := tag msg == t

/-- Bytes tell owners apart. -/
theorem Owner.bytes_inj {o o' : Owner} (h : o.bytes = o'.bytes) : o = o' := by
  rw [← Owner.ofBytes_bytes o, h, Owner.ofBytes_bytes]

/-- Bytes tell numbers apart. -/
theorem putUint64_inj {n n' : UInt64} (h : putUint64 n = putUint64 n') : n = n' := by
  rw [← uint64_putUint64 n, h, uint64_putUint64]

/-- Within a domain the message determines the id and the stamp. -/
theorem authMsg_inj {domain : String} {id id' : Owner} {ts ts' : UInt64}
    (h : authMsg domain id ts = authMsg domain id' ts') : id = id' ∧ ts = ts' := by
  unfold authMsg at h
  rw [List.append_assoc, List.append_assoc, List.append_cancel_left_eq] at h
  obtain ⟨hid, hts⟩ := List.append_inj h rfl
  exact ⟨Owner.bytes_inj hid, putUint64_inj hts⟩

/-- Bodies tell messages apart. -/
theorem Control.body_inj {c c' : Control} (h : c.body = c'.body) : c = c' := by
  obtain ⟨typ, id, flags, ts⟩ := c
  obtain ⟨typ', id', flags', ts'⟩ := c'
  obtain ⟨hhead, hrest⟩ := List.append_inj (show (typ :: id.bytes) ++ (flags :: putUint64 ts) =
    (typ' :: id'.bytes) ++ (flags' :: putUint64 ts') from h) rfl
  obtain ⟨rfl, hid⟩ := List.cons.inj hhead
  obtain ⟨rfl, hts⟩ := List.cons.inj hrest
  obtain rfl := Owner.bytes_inj hid
  obtain rfl := putUint64_inj hts
  rfl

/-- The tagged bytes determine the use and its fields. -/
theorem Use.message_inj {u u' : Use} (h : u.message = u'.message) : u = u' := by
  -- the three kinds of messages have different lengths
  have hreg : ∀ id ts, (authMsg authDomainReg id ts).length = 23 := fun _ _ => rfl
  have hassign : ∀ id ts, (authMsg authDomainAssign id ts).length = 22 := fun _ _ => rfl
  have hlength := congrArg List.length h
  cases u <;> cases u' <;>
    simp only [Use.message, Control.length_body, hreg, hassign, Nat.reduceEqDiff] at hlength
  · rw [Control.body_inj h]
  · obtain ⟨rfl, rfl⟩ := authMsg_inj h
    rfl
  · obtain ⟨rfl, rfl⟩ := authMsg_inj h
    rfl

/-- Control messages are exact and never interchangeable, whatever the tag function. A datagram is
accepted with given fields exactly if they encode to it; a token is accepted with a given stamp
exactly if, in lower case, it is the token of that stamp; and if the tag of one use verifies for
another use or other fields, the tag function takes two different byte strings to one tag. -/
theorem control_messages_exact (tag : Mac) :
    (∀ data c, decodeControl tag data = .ok c ↔ data = encodeControl tag c) ∧
    (∀ domain id tok ts, verifyAuthToken tag domain id tok = some ts ↔
      tok.toLower = authToken tag domain id ts) ∧
    (∀ u u' : Use, u ≠ u' → verifyTag tag u'.message (tag u.message) = true →
      u.message ≠ u'.message ∧ tag u.message = tag u'.message) := by
  refine ⟨fun _ _ => decodeControl_eq_ok, fun _ _ _ _ => verifyAuthToken_eq_some, ?_⟩
  intro u u' hne hverified
  refine ⟨fun hmessage => hne (Use.message_inj hmessage), ?_⟩
  exact (eq_of_beq hverified).symm

/-- Under a tag function that is constant the tag of a registration verifies for an assignment, and
the two messages are the collision. -/
theorem control_messages_exact_constant_tag :
    verifyTag (fun _ => Vector.replicate 8 0) (Use.assignment .zero 5).message
      (Vector.replicate 8 0) = true ∧
    (Use.registration .zero 5).message ≠ (Use.assignment .zero 5).message :=
  ⟨by decide, ((control_messages_exact fun _ => Vector.replicate 8 0).2.2 (.registration .zero 5)
    (.assignment .zero 5) (by simp) (by decide)).1⟩

end Dualnet.Conn
