import Dualnet.Library.Runs
import Dualnet.Netip
import Mathlib.Data.Nat.Bitwise

/-!
# The lookup cache

`cache.contains` of `ipmatch/ipmatch.go`: a direct-mapped cache in front of a table that does not
change. A slot is one word that holds an address, a valid bit and the answer for the address.
Readers share the slots; a load and a store of a slot are one step each, and the steps of all
readers interleave in any order.

`answers_are_misses` is the result: what a query returns is the answer of the table.
-/

namespace Dualnet.Ipmatch

open Library Netip

/-- A `netip.Addr`; `none` is the zero value, which is no address. -/
abbrev AnyAddr := Option Addr

/-- `Addr.Unmap`. -/
def AnyAddr.unmap (ip : AnyAddr) : AnyAddr := Option.map Addr.unmap ip

/-- The low half of the 128 bits of an address. An IPv4 address is kept as the IPv6 address that
maps it. -/
def lo : Addr → UInt64
  | .v4 a => UInt64.ofNat (0xffff * 2 ^ 32 + a.toNat)
  | .v6 a _ => UInt64.ofNat a.toNat

/-- `cacheSize`. -/
def cacheSize : Nat := 509

/-- The slots of a `cache`. -/
abbrev Slots := Fin cacheSize → UInt64

/-- The index of a key. -/
def slotOf (key : UInt32) : Fin cacheSize := ⟨key.toNat % cacheSize, Nat.mod_lt _ (by decide)⟩

/-- The word that is stored. -/
def pack (key : UInt32) (res : Bool) : UInt64 :=
  let w := key.toUInt64 <<< 32 ||| 2
  if res then w ||| 1 else w

/-- What a loaded word says about a key. -/
def hit (w : UInt64) (key : UInt32) : Option Bool :=
  if w &&& 2 != 0 && (w >>> 32).toUInt32 == key then some (w &&& 1 != 0) else none

/-- Where a reader is: outside `contains`; before its load; or before its store, with the answer of
the table. -/
inductive Reader where
  | idle
  | loading (ip : AnyAddr) (key : UInt32)
  | storing (ip : AnyAddr) (key : UInt32) (res : Bool)

/-- A cache with its readers. -/
structure Cache where
  slots : Slots
  readers : Nat → Reader

/-- `newCache`. -/
def newCache : Cache := ⟨fun _ => 0, fun _ => .idle⟩

/-- A call of `contains`, or the next load or store of a reader. -/
inductive CacheEvent where
  | query (reader : Nat) (ip : AnyAddr)
  | access (reader : Nat)

namespace Cache

variable (miss : AnyAddr → Bool) (c : Cache)

/-- Move a reader on. -/
def move (reader : Nat) (r : Reader) : Cache :=
  { c with readers := Function.update c.readers reader r }

/-- One step, with the address and the answer of a `contains` that returns. -/
def step : CacheEvent → Option (Cache × Option (AnyAddr × Bool))
  | .query reader ip =>
    match c.readers reader with
    | .idle =>
      match ip.unmap with
      | some (.v4 a) => some (c.move reader (.loading ip (lo (.v4 a)).toUInt32), none)
      -- not IPv4: the cache is not used
      | other => some (c, some (ip, miss other))
    | _ => none
  | .access reader =>
    match c.readers reader with
    | .idle => none
    | .loading ip key =>
      match hit (c.slots (slotOf key)) key with
      | some res => some (c.move reader .idle, some (ip, res))
      | none => some (c.move reader (.storing ip key (miss ip.unmap)), none)
    | .storing ip key res =>
      some ({ c with slots := Function.update c.slots (slotOf key) (pack key res) }.move
        reader .idle, some (ip, res))

/-- The runs of a cache. -/
abbrev Run : Cache → List (CacheEvent × Option (AnyAddr × Bool)) → Prop :=
  Reached (step miss) (fun _ _ _ => True) newCache

end Cache

/-! ## The packed word -/

/-- The halves of a word. -/
theorem toNat_shiftLeft_or (key : UInt32) {low : UInt64} (hlow : low.toNat < 2 ^ 32) :
    (key.toUInt64 <<< 32 ||| low).toNat = 2 ^ 32 * key.toNat + low.toNat := by
  have hkey : key.toNat < 2 ^ 32 := key.toNat_lt
  have hshift : (key.toUInt64 <<< 32).toNat = 2 ^ 32 * key.toNat := by
    simp [Nat.shiftLeft_eq]
    omega
  rw [UInt64.toNat_or, hshift, Nat.two_pow_add_eq_or_of_lt hlow]

/-- The word of an answer. -/
theorem toNat_pack (key : UInt32) (res : Bool) :
    (pack key res).toNat = 2 ^ 32 * key.toNat + (2 + res.toNat) := by
  cases res with
  | false => exact toNat_shiftLeft_or key (by decide)
  | true =>
    have hor : pack key true = key.toUInt64 <<< 32 ||| (2 ||| 1) := UInt64.or_assoc _ _ _
    rw [hor]
    exact toNat_shiftLeft_or key (by decide)

/-- A bit of a word. -/
theorem and_two_pow_ne_zero (w : UInt64) (i : Nat) (hi : i < 64) :
    (w &&& UInt64.ofNat (2 ^ i) != 0) = w.toNat.testBit i := by
  have hlt : 2 ^ i < 2 ^ 64 := Nat.pow_lt_pow_right (by decide) hi
  have hnat : (w &&& UInt64.ofNat (2 ^ i)).toNat = (w.toNat.testBit i).toNat * 2 ^ i := by
    rw [UInt64.toNat_and, UInt64.toNat_ofNat', Nat.mod_eq_of_lt hlt, Nat.and_two_pow]
  rw [bne, Bool.eq_iff_iff]
  simp [← UInt64.toNat_inj, hnat]

/-- A word that was stored answers for its key and for no other one. -/
theorem hit_pack (key key' : UInt32) (res : Bool) :
    hit (pack key res) key' = if key = key' then some res else none := by
  have hvalid : (pack key res &&& 2 != 0) = true := by
    rw [show (2 : UInt64) = UInt64.ofNat (2 ^ 1) from rfl, and_two_pow_ne_zero _ 1 (by decide),
      toNat_pack, Nat.testBit_eq_decide_div_mod_eq]
    cases res <;> simp <;> omega
  have hres : (pack key res &&& 1 != 0) = res := by
    rw [show (1 : UInt64) = UInt64.ofNat (2 ^ 0) from rfl, and_two_pow_ne_zero _ 0 (by decide),
      toNat_pack, Nat.testBit_eq_decide_div_mod_eq]
    cases res <;> simp <;> omega
  have hkey : (pack key res >>> 32).toUInt32 = key := by
    apply UInt32.toNat_inj.mp
    have hlt : key.toNat < 2 ^ 32 := key.toNat_lt
    simp [toNat_pack, Nat.shiftRight_eq_div_pow]
    cases res <;> simp <;> omega
  rw [hit, hvalid, hres, hkey, Bool.true_and]
  simp only [beq_iff_eq]

/-- A slot that was never stored answers for no key. -/
theorem hit_zero (key : UInt32) : hit 0 key = none := rfl

/-! ## Runs -/

/-- The address of a key. -/
def ofKey (key : UInt32) : AnyAddr := some (.v4 key.toBitVec)

/-- The key of an address determines it. -/
theorem ofKey_lo (a : BitVec 32) : ofKey (lo (.v4 a)).toUInt32 = some (.v4 a) := by
  have hbits : (lo (.v4 a)).toUInt32.toBitVec = a := by
    apply BitVec.eq_of_toNat_eq
    have hlt : a.toNat < 2 ^ 32 := a.isLt
    simp [lo]
  rw [ofKey, hbits]

namespace Cache

variable {miss : AnyAddr → Bool} {c c' : Cache}

/-- Every slot is empty or has the answer for a key, and readers have the key of their address and
the answer of the table. -/
structure Sound (miss : AnyAddr → Bool) (c : Cache) : Prop where
  slots : ∀ i, c.slots i = 0 ∨ ∃ key, c.slots i = pack key (miss (ofKey key))
  loading : ∀ reader ip key, c.readers reader = .loading ip key → ip.unmap = ofKey key
  storing : ∀ reader ip key res, c.readers reader = .storing ip key res →
    ip.unmap = ofKey key ∧ res = miss (ofKey key)

/-- Moving a reader. -/
theorem Sound.move (h : c.Sound miss) {reader : Nat} {r : Reader}
    (hloading : ∀ ip key, r = .loading ip key → ip.unmap = ofKey key)
    (hstoring : ∀ ip key res, r = .storing ip key res →
      ip.unmap = ofKey key ∧ res = miss (ofKey key)) : (c.move reader r).Sound miss := by
  refine ⟨h.slots, fun other ip key hother => ?_, fun other ip key res hother => ?_⟩
  · by_cases heq : other = reader
    · subst heq
      exact hloading ip key (by simpa [Cache.move] using hother)
    · exact h.loading other ip key (by simpa [Cache.move, heq] using hother)
  · by_cases heq : other = reader
    · subst heq
      exact hstoring ip key res (by simpa [Cache.move] using hother)
    · exact h.storing other ip key res (by simpa [Cache.move, heq] using hother)

/-- A reader that is done. -/
theorem Sound.move_idle (h : c.Sound miss) (reader : Nat) : (c.move reader .idle).Sound miss :=
  h.move (by simp) (by simp)

/-- What a slot says about a key, whoever stored it. -/
theorem Sound.hit (h : c.Sound miss) (i : Fin cacheSize) {key : UInt32} {res : Bool}
    (hhit : Ipmatch.hit (c.slots i) key = some res) : res = miss (ofKey key) := by
  rcases h.slots i with hempty | ⟨key', hstored⟩
  · rw [hempty, hit_zero] at hhit
    cases hhit
  · rw [hstored, hit_pack] at hhit
    obtain ⟨rfl, hres⟩ := Option.ite_none_right_eq_some.mp hhit
    exact (Option.some.inj hres).symm

/-- Storing the answer for a key. -/
theorem Sound.store (h : c.Sound miss) (i : Fin cacheSize) (key : UInt32) :
    { c with slots := Function.update c.slots i (pack key (miss (ofKey key))) }.Sound miss := by
  refine ⟨fun j => ?_, h.loading, h.storing⟩
  by_cases heq : j = i
  · subst heq
    exact .inr ⟨key, by simp⟩
  · simpa [heq] using h.slots j

/-- A query that does not return at once is about to load the slot of its address. -/
theorem Sound.query (h : c.Sound miss) {reader : Nat} {ip : AnyAddr}
    {out : Option (AnyAddr × Bool)} (htaken : c.step miss (.query reader ip) = some (c', out)) :
    c'.Sound miss ∧ ∀ answer ∈ out, answer.2 = miss answer.1.unmap := by
  cases hreader : c.readers reader with
  | idle =>
    simp only [step, hreader] at htaken
    split at htaken
    · rename_i a hunmap
      obtain ⟨rfl, rfl⟩ := pair_inj htaken
      refine ⟨h.move ?_ (by simp), by simp⟩
      rintro ip key ⟨⟩
      rw [hunmap, ofKey_lo]
    · obtain ⟨rfl, rfl⟩ := pair_inj htaken
      exact ⟨h, by simp⟩
  | loading ip key | storing ip key res => simp [step, hreader] at htaken

/-- The load of a reader. -/
theorem Sound.load (h : c.Sound miss) {reader : Nat} {ip : AnyAddr} {key : UInt32}
    (hreader : c.readers reader = .loading ip key) :
    ∃ c' out, c.step miss (.access reader) = some (c', out) ∧ c'.Sound miss ∧
      (out = some (ip, miss ip.unmap) ∨
        out = none ∧ c'.readers reader = .storing ip key (miss ip.unmap)) := by
  have hkey := h.loading reader ip key hreader
  cases hhit : Ipmatch.hit (c.slots (slotOf key)) key with
  | some res =>
    have hres : res = miss ip.unmap := by
      rw [hkey]
      exact h.hit _ hhit
    refine ⟨c.move reader .idle, some (ip, res), ?_, h.move_idle reader, .inl (by rw [hres])⟩
    simp only [step, hreader, hhit]
  | none =>
    refine ⟨c.move reader (.storing ip key (miss ip.unmap)), none, ?_, h.move (by simp) ?_,
      .inr ⟨rfl, ?_⟩⟩
    · simp only [step, hreader, hhit]
    · rintro ip key res ⟨⟩
      exact ⟨hkey, by rw [hkey]⟩
    · simp [Cache.move]

/-- The store of a reader ends its query. -/
theorem Sound.finish (h : c.Sound miss) {reader : Nat} {ip : AnyAddr} {key : UInt32} {res : Bool}
    (hreader : c.readers reader = .storing ip key res) :
    ∃ c', c.step miss (.access reader) = some (c', some (ip, miss ip.unmap)) ∧ c'.Sound miss := by
  obtain ⟨hkey, rfl⟩ := h.storing reader ip key res hreader
  refine ⟨_, ?_, (h.store (slotOf key) key).move_idle reader⟩
  simp only [step, hreader, hkey]

/-- Every step keeps the cache sound, and a query that returns has the answer of the table. -/
theorem Sound.step (h : c.Sound miss) {event : CacheEvent} {out : Option (AnyAddr × Bool)}
    (htaken : c.step miss event = some (c', out)) :
    c'.Sound miss ∧ ∀ answer ∈ out, answer.2 = miss answer.1.unmap := by
  cases event with
  | query reader ip => exact h.query htaken
  | access reader =>
    cases hreader : c.readers reader with
    | idle => simp [Cache.step, hreader] at htaken
    | loading ip key =>
      obtain ⟨c₁, out₁, hload, hsound, hout⟩ := h.load hreader
      obtain ⟨rfl, rfl⟩ := Prod.mk.inj (Option.some.inj (hload.symm.trans htaken))
      refine ⟨hsound, ?_⟩
      rcases hout with rfl | ⟨rfl, -⟩ <;> simp
    | storing ip key res =>
      obtain ⟨c₁, hstore, hsound⟩ := h.finish hreader
      obtain ⟨rfl, rfl⟩ := Prod.mk.inj (Option.some.inj (hstore.symm.trans htaken))
      exact ⟨hsound, by simp⟩

/-- A fresh cache is sound. -/
theorem sound_new : newCache.Sound miss :=
  ⟨fun _ => .inl rfl, by simp [newCache], by simp [newCache]⟩

/-- Along a run the cache is sound and every answer given is the table's. -/
theorem Run.sound {history : List (CacheEvent × Option (AnyAddr × Bool))}
    (h : Run miss c history) :
    c.Sound miss ∧ ∀ entry ∈ history, ∀ answer ∈ entry.2, answer.2 = miss answer.1.unmap := by
  refine h.invariant (fun c history => c.Sound miss ∧
    ∀ entry ∈ history, ∀ answer ∈ entry.2, answer.2 = miss answer.1.unmap) ⟨sound_new, by simp⟩ ?_
  rintro c history event c' out ⟨hsound, hanswers⟩ - htaken
  obtain ⟨hsound', hout⟩ := hsound.step htaken
  refine ⟨hsound', fun entry hentry => ?_⟩
  rcases List.mem_cons.mp hentry with rfl | hentry
  · exact hout
  · exact hanswers entry hentry

end Cache

/-- The cache is invisible. For every table and every interleaving of the loads and stores of any
number of readers, a query returns what the table says about the unmapped address; and no query
waits: its load answers or leaves the store, and its store answers. -/
theorem answers_are_misses (miss : AnyAddr → Bool) {c : Cache}
    {history : List (CacheEvent × Option (AnyAddr × Bool))} (h : Cache.Run miss c history) :
    (∀ event ip res, (event, some (ip, res)) ∈ history → res = miss ip.unmap) ∧
    (∀ reader ip key, c.readers reader = .loading ip key →
      ∃ c' out, c.step miss (.access reader) = some (c', out) ∧
        (out = some (ip, miss ip.unmap) ∨
          out = none ∧ c'.readers reader = .storing ip key (miss ip.unmap))) ∧
    (∀ reader ip key res, c.readers reader = .storing ip key res →
      ∃ c', c.step miss (.access reader) = some (c', some (ip, miss ip.unmap))) := by
  obtain ⟨hsound, hanswers⟩ := h.sound
  refine ⟨?_, ?_, ?_⟩
  · intro event ip res hentry
    exact hanswers _ hentry (ip, res) rfl
  · intro reader ip key hreader
    obtain ⟨c', out, hload, -, hout⟩ := hsound.load hreader
    exact ⟨c', out, hload, hout⟩
  · intro reader ip key res hreader
    obtain ⟨c', hstore, -⟩ := hsound.finish hreader
    exact ⟨c', hstore⟩

/-- Two readers in one slot: 0.0.0.0, which no table entry holds, and 0.0.1.253, whose key is 509.
Both miss before either stores, and 0.0.0.0 finds its own answer again after its slot was lost to
the other one. -/
theorem answers_are_misses_one_slot :
    ∃ c history, Cache.Run (fun ip => ip == some (.v4 509)) c history ∧
      history.filterMap Prod.snd =
        [(some (.v4 0), false), (some (.v4 509), true), (some (.v4 0), false)] ∧
      ∀ event ip res, (event, some (ip, res)) ∈ history →
        res = (ip.unmap == some (Addr.v4 509)) := by
  have hrun : Cache.Run (fun ip => ip == some (.v4 509)) _ _ := Reached.init.play
    [.query 0 (some (.v4 0)), .query 1 (some (.v4 509)), .access 0, .access 1, .access 0, .access 1,
      .query 0 (some (.v4 0)), .access 0, .access 0] rfl
  exact ⟨_, _, hrun, by decide, (answers_are_misses _ hrun).1⟩

end Dualnet.Ipmatch
