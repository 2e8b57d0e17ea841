import Dualnet.Ipmatch.Cache
import Dualnet.Ipmatch.PrefixFile
import Dualnet.Library.Bits

/-!
# What a prefix file says and what its set answers

`LoadReader` and the `Contains` of the set it builds. The parsers of `net/netip` are parameters. Of
the prefix table `bart.Lite` it is assumed that an address is in it exactly if an inserted prefix of
the address's own family covers it; whether a zone keeps an IPv6 address out of a prefix is a
parameter, too.

An IPv4-mapped prefix, such as `::ffff:1.2.3.0/120`, is inserted as an IPv6 prefix, while every
address is unmapped before it is looked up. `set_answers_iff` says which answers are right.
-/

namespace Dualnet.Ipmatch

open Library Netip

/-! ## What a file says -/

/-- The entry of a line: a prefix or a bare address. -/
inductive Entry where
  | pfx (p : Netip.Prefix)
  | bare (a : Addr)

/-- The IPv4 prefix an IPv4-mapped prefix maps, if it is one. -/
def mappedPrefix (p : Netip.Prefix) : Option Netip.Prefix :=
  match p with
  | ⟨.v6 a _, n, h⟩ =>
    if 96 ≤ n then
      if a.toNat / 2 ^ 32 = 0xffff then
        some ⟨.v4 (BitVec.ofNat 32 a.toNat), n - 96, by simp only [Addr.bitLen] at h ⊢; omega⟩
      else none
    else none
  | ⟨.v4 _, _, _⟩ => none

/-- The prefix covers the address, which is of its family. `zoneIn` says which zones an IPv6 address
may have. -/
def covers (zoneIn : String → Bool) (p : Netip.Prefix) : AnyAddr → Bool
  | none => false
  | some (.v4 b) => p.contains (.v4 b)
  | some (.v6 b zone) => zoneIn zone && p.contains (.v6 b "")

/-- Two addresses are the same up to the zone of the second. -/
def same (zoneIn : String → Bool) : Addr → AnyAddr → Bool
  | .v4 a, some (.v4 b) => a == b
  | .v6 a _, some (.v6 b zone) => zoneIn zone && a == b
  | _, _ => false

/-- The entry covers the address, where what is IPv4-mapped is identified with what it maps. -/
def Entry.covers (zoneIn : String → Bool) (ip : AnyAddr) : Entry → Bool
  | .pfx p => Ipmatch.covers zoneIn ((mappedPrefix p).getD p) ip.unmap
  | .bare a => same zoneIn a.unmap ip.unmap

/-- The entry is an IPv4-mapped prefix. -/
def Entry.mapped : Entry → Bool
  | .pfx p => (mappedPrefix p).isSome
  | .bare _ => false

/-- `net/netip` with these parsers. -/
def netipOf (parsePrefix : Bytes → Except String Netip.Prefix)
    (parseAddr : Bytes → Except String Addr) : NetipFuncs Addr Netip.Prefix :=
  ⟨parsePrefix, Netip.Prefix.masked, parseAddr, Addr.unmap, Netip.Prefix.host,
    Netip.Prefix.toString⟩

variable (parsePrefix : Bytes → Except String Netip.Prefix)
  (parseAddr : Bytes → Except String Addr)

/-- The entry a token stands for. -/
def readEntry (tok : Bytes) : Except String Entry :=
  if slash ∈ tok then (parsePrefix tok).map .pfx else (parseAddr tok).map .bare

/-- The entries of a file, line by line. -/
def entries (content : Bytes) : List Entry :=
  ((scanLines content).filterMap lineToken).filterMap fun tok =>
    (readEntry parsePrefix parseAddr tok).toOption

/-! ## What is inserted -/

/-- The prefix `parsePrefix` returns for an entry. -/
def Entry.inserted : Entry → Netip.Prefix
  | .pfx p => p.masked
  | .bare a => .host a.unmap

/-- `parsePrefix` reads the entry. -/
theorem parsePrefix_eq_readEntry (tok : Bytes) :
    Ipmatch.parsePrefix (netipOf parsePrefix parseAddr) tok =
      (readEntry parsePrefix parseAddr tok).map Entry.inserted := by
  unfold Ipmatch.parsePrefix readEntry
  split
  · simp only [netipOf]
    cases parsePrefix tok <;> rfl
  · simp only [netipOf]
    cases parseAddr tok <;> rfl

/-- A line of an accepted file fits the scanner. -/
theorem short_of_foldlM {netip : NetipFuncs Addr Netip.Prefix} {lines : List Bytes} {i : Nat}
    {table table' : List Netip.Prefix}
    (h : (lines.zipIdx i).foldlM (loadLine netip) table = .ok table') :
    ∀ line ∈ lines, line.length < maxScanTokenSize := by
  induction lines generalizing table i with
  | nil => simp
  | cons line lines ih =>
    rw [List.zipIdx_cons, List.foldlM_cons, bind_eq_ok] at h
    obtain ⟨table₁, hline, hrest⟩ := h
    intro l hl
    rcases List.mem_cons.mp hl with rfl | hl
    · by_contra hlong
      simp [loadLine, Nat.not_lt.mp hlong] at hline
    · exact ih hrest l hl

/-- The table of an accepted file has the prefixes of its entries. -/
theorem table_eq_inserted {content : Bytes} {table : List Netip.Prefix}
    (h : loadReader (netipOf parsePrefix parseAddr) content = .ok table) :
    table = (entries parsePrefix parseAddr content).map Entry.inserted := by
  have hread := (foldlM_loadLine _ (short_of_foldlM h)).mp h
  obtain ⟨ps, hps, htable⟩ := hread
  rw [List.nil_append] at htable
  rw [htable, entries]
  clear htable h
  generalize (scanLines content).filterMap lineToken = toks at hps
  induction toks generalizing ps with
  | nil =>
    obtain rfl := pure_eq_ok.mp hps
    rfl
  | cons tok toks ih =>
    rw [List.mapM_cons, bind_eq_ok] at hps
    obtain ⟨p, hp, hps⟩ := hps
    rw [bind_eq_ok] at hps
    obtain ⟨qs, hqs, hps⟩ := hps
    obtain rfl := pure_eq_ok.mp hps
    rw [parsePrefix_eq_readEntry] at hp
    cases htok : readEntry parsePrefix parseAddr tok with
    | error e =>
      rw [htok] at hp
      cases hp
    | ok entry =>
      rw [htok] at hp
      obtain rfl := Except.ok.inj hp
      rw [List.filterMap_cons_some (by rw [htok]; rfl), List.map_cons, ← ih qs hqs]

/-! ## What is found -/

variable {zoneIn : String → Bool}

/-- Masking changes no member. -/
theorem covers_masked (p : Netip.Prefix) (ip : AnyAddr) :
    covers zoneIn p.masked ip = covers zoneIn p ip := by
  obtain _ | _ | _ := ip <;> simp [covers, contains_masked]

/-- A host covers itself. -/
theorem covers_host (a : Addr) (ip : AnyAddr) :
    covers zoneIn (.host a) ip = same zoneIn a ip := by
  obtain _ | _ | _ := ip <;> cases a <;>
    simp [covers, same, Netip.Prefix.host, Netip.Prefix.contains]

/-- An IPv4-mapped prefix covers nothing that has been unmapped. -/
theorem covers_mapped {p : Netip.Prefix} (hp : (mappedPrefix p).isSome) (ip : AnyAddr) :
    covers zoneIn p ip.unmap = false := by
  obtain ⟨a | ⟨a, zone⟩, n, hn⟩ := p
  · cases hp
  obtain ⟨hbits, hmapped⟩ : 96 ≤ n ∧ a.toNat / 2 ^ 32 = 0xffff := by
    unfold mappedPrefix at hp
    dsimp only at hp
    split at hp
    · rename_i hbits
      split at hp
      · rename_i hmapped
        exact ⟨hbits, hmapped⟩
      · cases hp
    · cases hp
  obtain _ | ⟨b | ⟨b, zone'⟩⟩ := ip
  · rfl
  · rfl
  · simp only [AnyAddr.unmap, Option.map_some, Addr.unmap]
    split
    · rfl
    · rename_i hother
      -- the first 96 bits of the prefix are those of a mapped address
      have hne : a >>> (128 - n) ≠ b >>> (128 - n) := by
        intro heq
        have hnat := congrArg BitVec.toNat heq
        simp only [BitVec.toNat_ushiftRight, Nat.shiftRight_eq_div_pow] at hnat
        exact hother ((div_two_pow_eq (by omega) hnat).symm.trans hmapped)
      simp [covers, Netip.Prefix.contains, hne]

/-- The prefix inserted for an entry finds the addresses the entry covers, unless it is an
IPv4-mapped prefix: that one finds none. -/
theorem covers_inserted (e : Entry) (ip : AnyAddr) :
    covers zoneIn e.inserted ip.unmap = (!e.mapped && e.covers zoneIn ip) := by
  cases e with
  | bare a => simp [Entry.inserted, Entry.mapped, Entry.covers, covers_host]
  | pfx p =>
    rw [Entry.inserted, covers_masked]
    cases hp : mappedPrefix p with
    | none => simp [Entry.mapped, Entry.covers, hp]
    | some q => simp [Entry.mapped, hp, covers_mapped (p := p) (by simp [hp])]

/-! ## The answers of the set -/

/-- `bart.Lite.Contains` for a table of prefixes. -/
abbrev Lite := List Netip.Prefix → AnyAddr → Bool

/-- What is assumed of it. -/
def Lite.Exact (zoneIn : String → Bool) (contains : Lite) : Prop :=
  ∀ table ip, contains table ip = true ↔ ∃ p ∈ table, covers zoneIn p ip = true

/-- The table of an accepted file finds an address if an entry that is no IPv4-mapped prefix covers
it. -/
theorem contains_table {contains : Lite} (hexact : contains.Exact zoneIn) {content : Bytes}
    {table : List Netip.Prefix}
    (h : loadReader (netipOf parsePrefix parseAddr) content = .ok table) (ip : AnyAddr) :
    contains table ip.unmap = true ↔ ∃ e ∈ entries parsePrefix parseAddr content,
      e.mapped = false ∧ e.covers zoneIn ip = true := by
  rw [hexact, table_eq_inserted parsePrefix parseAddr h]
  simp only [List.mem_map, exists_exists_and_eq_and, covers_inserted, Bool.and_eq_true,
    Bool.not_eq_true']

/-- What a set answers, whoever asks it and in whatever order: for every file `LoadReader` accepts,
the answer for an address says whether an entry of the file covers it exactly if an IPv4-mapped
prefix that covers it is not the only entry that does. -/
theorem set_answers_iff {contains : Lite} (hexact : contains.Exact zoneIn) {content : Bytes}
    {table : List Netip.Prefix}
    (hload : loadReader (netipOf parsePrefix parseAddr) content = .ok table) {c : Cache}
    {history : List (CacheEvent × Option (AnyAddr × Bool))}
    (hrun : Cache.Run (contains table) c history) {event : CacheEvent} {ip : AnyAddr} {res : Bool}
    (hanswer : (event, some (ip, res)) ∈ history) :
    (res = true ↔ ∃ e ∈ entries parsePrefix parseAddr content, e.covers zoneIn ip = true) ↔
      ((∃ e ∈ entries parsePrefix parseAddr content, e.mapped = true ∧ e.covers zoneIn ip = true) →
        ∃ e ∈ entries parsePrefix parseAddr content,
          e.mapped = false ∧ e.covers zoneIn ip = true) := by
  have hres : res = contains table ip.unmap := hrun.sound.2 _ hanswer (ip, res) rfl
  rw [hres, contains_table parsePrefix parseAddr hexact hload ip]
  constructor
  · rintro hright ⟨e, he, -, hcovers⟩
    exact hright.mpr ⟨e, he, hcovers⟩
  · intro hother
    constructor
    · rintro ⟨e, he, -, hcovers⟩
      exact ⟨e, he, hcovers⟩
    · rintro ⟨e, he, hcovers⟩
      cases hmapped : e.mapped with
      | false => exact ⟨e, he, hmapped, hcovers⟩
      | true => exact hother ⟨e, he, hmapped, hcovers⟩

/-- A table as it is assumed to be. -/
def lite (zoneIn : String → Bool) : Lite := fun table ip => table.any (covers zoneIn · ip)

/-- The small matcher is exact. -/
theorem lite_exact (zoneIn : String → Bool) : (lite zoneIn).Exact zoneIn := by
  intro table ip
  simp [lite]

/-- The bytes of a file. -/
def fileOf (text : String) : Bytes := text.toList.map fun c => UInt8.ofNat c.toNat

/-- A file with a prefix that has host bits, a mapped bare address, and a mapped prefix. -/
def overlapFile : Bytes := fileOf "1.2.3.9/16\n::ffff:9.9.9.9\n::ffff:1.2.3.0/120\n"

/-- What is inserted for it. -/
def overlapTable : List Netip.Prefix :=
  [⟨.v4 0x01020000, 16, by decide⟩, ⟨.v4 0x09090909, 32, by decide⟩,
    ⟨.v6 0xffff01020300 "", 120, by decide⟩]

/-- An address in the mapped prefix that the IPv4 prefix covers as well: the answer is right. -/
theorem set_answers_iff_overlap : ∃ c history,
    loadReader bytewiseNetip overlapFile = .ok overlapTable ∧
      Cache.Run (lite (fun _ => true) overlapTable) c history ∧
      (CacheEvent.access 0, some (some (.v4 0x01020304), true)) ∈ history ∧
      (true = true ↔
        ∃ e ∈ entries bytewiseNetip.parsePrefix bytewiseNetip.parseAddr overlapFile,
          e.covers (fun _ => true) (some (.v4 0x01020304)) = true) := by
  have hload : loadReader bytewiseNetip overlapFile = .ok overlapTable := by decide +kernel
  have hrun : Cache.Run (lite (fun _ => true) overlapTable) _ _ := Reached.init.play
    [.query 0 (some (.v4 0x01020304)), .access 0, .access 0] rfl
  have hanswer := set_answers_iff bytewiseNetip.parsePrefix bytewiseNetip.parseAddr
    (lite_exact fun _ => true) hload hrun List.mem_cons_self
  exact ⟨_, _, hload, hrun, List.mem_cons_self, hanswer.mpr fun _ => by decide +kernel⟩

/-- A file whose only line is a mapped prefix. -/
def mappedFile : Bytes := fileOf "::ffff:1.2.3.0/120\n"

/-- What is inserted for it. -/
def mappedTable : List Netip.Prefix := [⟨.v6 0xffff01020300 "", 120, by decide⟩]

/-- Neither an address in the IPv4 prefix nor the mapped form of the address is found. -/
theorem mapped_prefix_not_found : ∃ c history,
    loadReader bytewiseNetip mappedFile = .ok mappedTable ∧
      Cache.Run (lite (fun _ => true) mappedTable) c history ∧
      history.filterMap Prod.snd =
        [(some (.v6 0xffff01020304 ""), false), (some (.v4 0x01020304), false)] ∧
      ∀ ip ∈ [some (Addr.v4 0x01020304), some (.v6 0xffff01020304 "")],
        ∃ e ∈ entries bytewiseNetip.parsePrefix bytewiseNetip.parseAddr mappedFile,
          e.covers (fun _ => true) ip = true := by
  have hload : loadReader bytewiseNetip mappedFile = .ok mappedTable := by decide +kernel
  have hrun : Cache.Run (lite (fun _ => true) mappedTable) _ _ := Reached.init.play
    [.query 0 (some (.v4 0x01020304)), .access 0, .access 0,
      .query 0 (some (.v6 0xffff01020304 "")), .access 0] rfl
  exact ⟨_, _, hload, hrun, by decide, by decide +kernel⟩

end Dualnet.Ipmatch
