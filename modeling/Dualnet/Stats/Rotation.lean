import Dualnet.Wire.Envelope
import Mathlib.Tactic

/-!
# The statistics file

`rotatingWriter` under the JSON encoder that writes the snapshots. A write that would take the file
past the limit first moves it over the previous rotation; every system call on the way may fail. The
encoder keeps the first error of a write and writes nothing after it.

`log_bounded` bounds the two files whatever fails. `log_keeps_recent` says what they hold when
nothing fails: whole records, the latest ones, and all of them or more than the limit.
-/

namespace Dualnet.Stats

open Wire

/-! ## The writer -/

/-- `filepath.Ext`. -/
def ext (path : String) : String :=
  let base := path.toList.reverse.takeWhile fun c => c != '/' && c != '.'
  match path.toList.reverse.drop base.length with
  | '.' :: _ => String.ofList ('.' :: base.reverse)
  | _ => ""

/-- `strings.TrimSuffix`. -/
def trimSuffix (s suffix : String) : String :=
  if suffix.toList.isSuffixOf s.toList then
    String.ofList (s.toList.take (s.toList.length - suffix.toList.length))
  else s

/-- `rotatedName`. -/
def rotatedName (path : String) : String := trimSuffix path (ext path) ++ "-old" ++ ext path

/-- The files by name. -/
abbrev Disk := String → Option Bytes

/-- What is in a file; one that does not exist is empty. -/
def Disk.content (disk : Disk) (path : String) : Bytes := (disk path).getD []

structure RotatingWriter where
  path : String
  rotated : String
  max : Int
  /-- The handle `f` is open. -/
  isOpen : Bool
  size : Nat

/-- How the system calls of a write end. -/
structure Outcome where
  renamed : Bool
  reopened : Bool
  /-- The second attempt to open the file. -/
  retried : Bool
  /-- The bytes the file takes. -/
  written : Nat

/-- `os.Rename`. -/
def Disk.rename (disk : Disk) (src dst : String) (renamed : Bool) : Disk :=
  match renamed, disk src with
  | true, some content => Function.update (Function.update disk src none) dst (some content)
  | _, _ => disk

/-- `newRotatingWriter`; `statted` says whether `Stat` succeeds. -/
def newRotatingWriter (path : String) (max : Int) (disk : Disk) (opened statted : Bool) :
    Option (RotatingWriter × Disk) :=
  if !opened then none
  else
    let size := if statted then (disk.content path).length else 0
    some (⟨path, rotatedName path, max, true, size⟩,
      Function.update disk path (some (disk.content path)))

/-- `rotatingWriter.rotate`. -/
def RotatingWriter.rotate (w : RotatingWriter) (disk : Disk) (o : Outcome) :
    RotatingWriter × Disk :=
  let disk := disk.rename w.path w.rotated o.renamed
  if o.reopened || o.retried then
    ({ w with isOpen := true, size := 0 }, Function.update disk w.path (some []))
  else ({ w with isOpen := false }, disk)

/-- The write on the handle, and whether it took all of `p`; a closed one takes nothing. -/
def RotatingWriter.append (w : RotatingWriter) (disk : Disk) (o : Outcome) (p : Bytes) :
    RotatingWriter × Disk × Bool :=
  if !w.isOpen then (w, disk, false)
  else
    let n := min o.written p.length
    ({ w with size := w.size + n },
      Function.update disk w.path (some (disk.content w.path ++ p.take n)), n == p.length)

/-- `rotatingWriter.Write`. -/
def RotatingWriter.write (w : RotatingWriter) (disk : Disk) (o : Outcome) (p : Bytes) :
    RotatingWriter × Disk × Bool :=
  if decide (0 < w.max) && decide (w.max < w.size + p.length) then
    let (w, disk) := w.rotate disk o
    w.append disk o p
  else w.append disk o p

/-- The file under the encoder. -/
structure Log where
  w : RotatingWriter
  disk : Disk
  /-- The encoder has seen an error. -/
  failed : Bool

/-- `Encode` of a snapshot whose line is `p`. -/
def Log.encode (log : Log) (p : Bytes) (o : Outcome) : Log :=
  if log.failed then log
  else
    let (w, disk, ok) := log.w.write log.disk o p
    ⟨w, disk, !ok⟩

/-- The snapshots written one after the other. -/
def Log.encodeAll (log : Log) (lines : List (Bytes × Outcome)) : Log :=
  lines.foldl (fun log (p, o) => log.encode p o) log

/-- The log of a node that starts. -/
def startLog (path : String) (max : Int) (disk : Disk) (opened statted : Bool) : Option Log :=
  (newRotatingWriter path max disk opened statted).map fun (w, disk) => ⟨w, disk, false⟩

/-- No call of a write fails for good. -/
def Outcome.Fine (o : Outcome) (p : Bytes) : Prop :=
  o.renamed = true ∧ (o.reopened || o.retried) = true ∧ p.length ≤ o.written

/-! ## The two names -/

/-- No more than the suffix is cut off. -/
theorem length_trimSuffix (s suffix : String) :
    s.toList.length ≤ (trimSuffix s suffix).toList.length + suffix.toList.length := by
  unfold trimSuffix
  split
  · simp
    omega
  · omega

/-- The rotation is another file. -/
theorem rotatedName_ne (path : String) : rotatedName path ≠ path := by
  intro heq
  have hlength := congrArg (fun s => s.toList.length) heq
  simp only [rotatedName, String.toList_append, List.length_append] at hlength
  have := length_trimSuffix path (ext path)
  have hold : "-old".toList.length = 4 := rfl
  omega

/-! ## The contents -/

section Contents

variable {disk : Disk} {path src dst : String}

/-- What was written. -/
@[simp] theorem content_update_self (content : Bytes) :
    Disk.content (Function.update disk path (some content)) path = content := by
  simp [Disk.content]

/-- Other files stay as they are. -/
@[simp] theorem content_update_of_ne (h : src ≠ path) (file : Option Bytes) :
    Disk.content (Function.update disk path file) src = disk.content src := by
  simp [Disk.content, h]

/-- What a rename leaves at the old name. -/
theorem content_rename_src (disk : Disk) (h : dst ≠ src) (renamed : Bool) :
    (disk.rename src dst renamed).content src = [] ∨
      (disk.rename src dst renamed).content src = disk.content src := by
  unfold Disk.rename
  split
  · simp [Disk.content, Ne.symm h]
  · exact .inr rfl

/-- What it leaves at the new name. -/
theorem content_rename_dst (disk : Disk) (src dst : String) (renamed : Bool) :
    (disk.rename src dst renamed).content dst = disk.content src ∨
      (disk.rename src dst renamed).content dst = disk.content dst := by
  unfold Disk.rename
  split
  · next content hsrc => simp [Disk.content, hsrc]
  · exact .inr rfl

/-- A rename that succeeds moves the content. -/
theorem content_rename_true (hsrc : disk src ≠ none) :
    (disk.rename src dst true).content dst = disk.content src := by
  obtain ⟨content, hcontent⟩ := Option.ne_none_iff_exists'.mp hsrc
  simp [Disk.rename, Disk.content, hcontent]

end Contents

/-! ## Whatever fails -/

section Bounded

variable {path : String} {B slack : Nat} {w : RotatingWriter} {disk : Disk} {o : Outcome} {p : Bytes}

/-- Neither file is longer than `B`, and what is in an open one counts up to `slack` bytes. -/
structure Bounded (path : String) (B slack : Nat) (w : RotatingWriter) (disk : Disk) : Prop where
  hpath : w.path = path
  hrotated : w.rotated = rotatedName path
  limit : 0 < w.max ∧ w.max + slack ≤ B
  current : (disk.content w.path).length ≤ B
  old : (disk.content w.rotated).length ≤ B
  size : w.isOpen = true → (disk.content w.path).length ≤ w.size + slack

/-- The two files have different names. -/
theorem Bounded.names (h : Bounded path B slack w disk) : w.rotated ≠ w.path := by
  rw [h.hpath, h.hrotated]
  exact rotatedName_ne path

/-- A rotation keeps the bound and begins an empty file. -/
theorem Bounded.rotate (h : Bounded path B slack w disk) (o : Outcome) :
    Bounded path B slack (w.rotate disk o).1 (w.rotate disk o).2 ∧
      ((w.rotate disk o).1.isOpen = true →
        (w.rotate disk o).2.content (w.rotate disk o).1.path = []) := by
  have hdst := content_rename_dst disk w.path w.rotated o.renamed
  have hsrc := content_rename_src disk h.names o.renamed
  have hold : ((disk.rename w.path w.rotated o.renamed).content w.rotated).length ≤ B := by
    rcases hdst with hdst | hdst
    · exact hdst ▸ h.current
    · exact hdst ▸ h.old
  unfold RotatingWriter.rotate
  dsimp only
  split
  · refine ⟨⟨h.hpath, h.hrotated, h.limit, by simp, ?_, by simp⟩, by simp⟩
    simpa [h.names] using hold
  · refine ⟨⟨h.hpath, h.hrotated, h.limit, ?_, hold, by simp⟩, by simp⟩
    rcases hsrc with hsrc | hsrc
    · simp [hsrc]
    · exact hsrc ▸ h.current

/-- So does a line that fits. -/
theorem Bounded.append (h : Bounded path B slack w disk)
    (hfits : w.isOpen = true → (disk.content w.path).length + p.length ≤ B) :
    Bounded path B slack (w.append disk o p).1 (w.append disk o p).2.1 := by
  unfold RotatingWriter.append
  split
  · exact h
  · next hopen =>
      have hopen : w.isOpen = true := by simpa using hopen
      have hfits := hfits hopen
      have hsize := h.size hopen
      refine ⟨h.hpath, h.hrotated, h.limit, ?_, ?_, fun _ => ?_⟩
      · simp only [content_update_self, List.length_append, List.length_take]
        omega
      · simpa [h.names] using h.old
      · simp only [content_update_self, List.length_append, List.length_take]
        omega

/-- A write keeps the bound: a line that does not fit starts a new file. -/
theorem Bounded.write (h : Bounded path B slack w disk) (hp : p.length ≤ B) :
    Bounded path B slack (w.write disk o p).1 (w.write disk o p).2.1 := by
  unfold RotatingWriter.write
  split
  · obtain ⟨hrotated, hempty⟩ := h.rotate o
    refine hrotated.append fun hopen => ?_
    rw [hempty hopen]
    simpa using hp
  · next hfull =>
      refine h.append fun hopen => ?_
      have hsize := h.size hopen
      have hlimit := h.limit
      simp only [Bool.and_eq_true, decide_eq_true_eq, not_and, not_lt] at hfull
      have hfull := hfull hlimit.1
      omega

/-- So does every line. -/
theorem Bounded.encode {log : Log} (h : Bounded path B slack log.w log.disk)
    (hp : p.length ≤ B) (o : Outcome) :
    Bounded path B slack (log.encode p o).w (log.encode p o).disk := by
  unfold Log.encode
  split
  · exact h
  · exact h.write hp

/-- So do all lines. -/
theorem Bounded.encodeAll {log : Log} (h : Bounded path B slack log.w log.disk)
    {lines : List (Bytes × Outcome)} (hlines : ∀ line ∈ lines, line.1.length ≤ B) :
    Bounded path B slack (log.encodeAll lines).w (log.encodeAll lines).disk := by
  induction lines generalizing log with
  | nil => exact h
  | cons line lines ih =>
    obtain ⟨hline, hlines⟩ := List.forall_mem_cons.mp hlines
    exact ih (h.encode hline line.2) hlines

/-- With rotation on, neither file grows past `B`, whatever system calls fail: `B` covers what was
there, every line, and the limit. If the size of an existing file could not be read, it does not
count towards the limit. -/
theorem log_bounded {max : Int} {statted : Bool} {log : Log} {lines : List (Bytes × Outcome)}
    (hstart : startLog path max disk true statted = some log) (hmax : 0 < max)
    (hlimit : max + (if statted then 0 else (disk.content path).length : Nat) ≤ B)
    (hcurrent : (disk.content path).length ≤ B)
    (hold : (disk.content (rotatedName path)).length ≤ B)
    (hlines : ∀ line ∈ lines, line.1.length ≤ B) :
    ((log.encodeAll lines).disk.content path).length ≤ B ∧
      ((log.encodeAll lines).disk.content (rotatedName path)).length ≤ B := by
  have h : Bounded path B (if statted then 0 else (disk.content path).length) log.w log.disk := by
    obtain rfl := Option.some.inj hstart
    refine ⟨rfl, rfl, ⟨hmax, hlimit⟩, by simpa using hcurrent, ?_, fun _ => ?_⟩
    · simpa [rotatedName_ne] using hold
    · cases statted <;> simp
  have h := h.encodeAll hlines
  exact ⟨h.hpath ▸ h.current, h.hrotated ▸ h.old⟩

/-- A file of six bytes whose size could not be read, and a second line whose rotation fails at
every call: the file stays, and the encoder writes no third line. -/
theorem log_bounded_failing : ∃ log,
    startLog "/x" 5 (Function.update (fun _ => none) "/x" (some [0, 0, 0, 0, 0, 0])) true false =
      some log ∧
    (log.encodeAll [([1, 1, 1], ⟨true, true, true, 3⟩), ([2, 2, 2], ⟨false, false, false, 3⟩),
      ([3], ⟨true, true, true, 1⟩)]).disk.content "/x" = [0, 0, 0, 0, 0, 0, 1, 1, 1] ∧
    ((log.encodeAll [([1, 1, 1], ⟨true, true, true, 3⟩), ([2, 2, 2], ⟨false, false, false, 3⟩),
      ([3], ⟨true, true, true, 1⟩)]).disk.content "/x").length ≤ 11 := by
  obtain ⟨log, hlog⟩ : ∃ log, startLog "/x" 5
    (Function.update (fun _ => none) "/x" (some [0, 0, 0, 0, 0, 0])) true false = some log :=
    ⟨_, rfl⟩
  refine ⟨log, hlog, ?_, (log_bounded hlog (by decide) (by decide) (by decide) (by decide)
    (by simp)).1⟩
  cases hlog
  rfl

end Bounded

/-! ## When nothing fails -/

section Kept

variable {path : String} {max : Int} {disk : Disk} {blocks : List Bytes} {log : Log} {o : Outcome}
  {p : Bytes}

/-- The blocks from the `j`th on are there, those from the `i`th on in the current file. -/
structure Holds (blocks : List Bytes) (max : Int) (old current : Bytes) (j i : Nat) : Prop where
  ordered : j ≤ i ∧ i ≤ blocks.length
  hold : old = ((blocks.take i).drop j).flatten
  hcurrent : current = (blocks.drop i).flatten
  recent : j = 0 ∨ max < old.length + current.length

/-- A block is added to the current file. -/
theorem Holds.append {old current : Bytes} {j i : Nat} (h : Holds blocks max old current j i)
    (p : Bytes) : Holds (blocks ++ [p]) max old (current ++ p) j i := by
  have hi := h.ordered.2
  refine ⟨⟨h.ordered.1, by simp; omega⟩, ?_, ?_, ?_⟩
  · rw [List.take_append_of_le_length hi]
    exact h.hold
  · rw [List.drop_append_of_le_length hi, List.flatten_append, ← h.hcurrent]
    simp
  · refine h.recent.imp_right fun hrecent => ?_
    rw [List.length_append]
    omega

/-- The current file becomes the old one, and the block that did not fit starts the next. -/
theorem Holds.rotate {old current : Bytes} {j i : Nat} (h : Holds blocks max old current j i)
    (hfull : max < current.length + p.length) :
    Holds (blocks ++ [p]) max current p i blocks.length := by
  refine ⟨⟨h.ordered.2, by simp⟩, ?_, by simp, .inr hfull⟩
  rw [List.take_left', ← h.hcurrent]
  rfl

/-- A write that fits is appended. -/
theorem write_of_fits {w : RotatingWriter} (hopen : w.isOpen = true)
    (hfits : ¬ (0 < w.max ∧ w.max < w.size + p.length)) (hwritten : p.length ≤ o.written) :
    w.write disk o p = ({ w with size := w.size + p.length },
      Function.update disk w.path (some (disk.content w.path ++ p)), true) := by
  rw [RotatingWriter.write, if_neg (by simpa using hfits), RotatingWriter.append]
  simp [hopen, hwritten]

/-- Another one rotates first. -/
theorem write_of_full {w : RotatingWriter} (hfull : 0 < w.max ∧ w.max < w.size + p.length)
    (ho : o.Fine p) :
    w.write disk o p = ({ w with isOpen := true, size := p.length },
      Function.update (disk.rename w.path w.rotated true) w.path (some p), true) := by
  obtain ⟨hrenamed, hreopened, hwritten⟩ := ho
  rw [RotatingWriter.write, if_pos (by simpa using hfull), RotatingWriter.rotate]
  simp [RotatingWriter.append, hrenamed, hreopened, hwritten]

/-- The log without failures. -/
def openLog (path : String) (max : Int) (disk : Disk) : Log :=
  ⟨⟨path, rotatedName path, max, true, (disk.content path).length⟩, disk, false⟩

/-- A line that fits is appended. -/
theorem encode_of_fits (hfits : ¬ (0 < max ∧ max < (disk.content path).length + p.length))
    (hwritten : p.length ≤ o.written) :
    (openLog path max disk).encode p o =
      openLog path max (Function.update disk path (some (disk.content path ++ p))) := by
  rw [Log.encode, if_neg (by simp [openLog]), write_of_fits rfl hfits hwritten]
  simp [openLog]

/-- Another one rotates first. -/
theorem encode_of_full (hfull : 0 < max ∧ max < (disk.content path).length + p.length)
    (ho : o.Fine p) :
    (openLog path max disk).encode p o = openLog path max
      (Function.update (disk.rename path (rotatedName path) true) path (some p)) := by
  rw [Log.encode, if_neg (by simp [openLog]), write_of_full hfull ho]
  simp [openLog]

/-- What a log without failures holds of the blocks written so far. -/
def Kept (path : String) (max : Int) (blocks : List Bytes) (log : Log) : Prop :=
  ∃ disk, log = openLog path max disk ∧ disk path ≠ none ∧
    ∃ j i, Holds blocks max (disk.content (rotatedName path)) (disk.content path) j i

/-- Each line is kept with those before it. -/
theorem Kept.encode (h : Kept path max blocks log) (ho : o.Fine p) :
    Kept path max (blocks ++ [p]) (log.encode p o) := by
  obtain ⟨disk, rfl, hpresent, j, i, hholds⟩ := h
  have hne := rotatedName_ne path
  by_cases hfull : 0 < max ∧ max < (disk.content path).length + p.length
  · refine ⟨_, encode_of_full hfull ho, by simp, i, blocks.length, ?_⟩
    simpa [hne, content_rename_true hpresent] using hholds.rotate hfull.2
  · refine ⟨_, encode_of_fits hfull ho.2.2, by simp, j, i, ?_⟩
    simpa [hne] using hholds.append p

/-- So are all lines. -/
theorem Kept.encodeAll {lines : List (Bytes × Outcome)} (h : Kept path max blocks log)
    (hlines : ∀ line ∈ lines, line.2.Fine line.1) :
    Kept path max (blocks ++ lines.map Prod.fst) (log.encodeAll lines) := by
  induction lines generalizing blocks log with
  | nil =>
    rw [List.map_nil, List.append_nil]
    exact h
  | cons line lines ih =>
    obtain ⟨hline, hlines⟩ := List.forall_mem_cons.mp hlines
    rw [List.map_cons, List.append_cons]
    exact ih (h.encode hline) hlines

/-- If no call fails, the old and the current file hold whole blocks, one after the other up to the
last, of what was there at the start and the lines written since: all of it, or more than the
limit. -/
theorem log_keeps_recent {disk : Disk} {lines : List (Bytes × Outcome)}
    (hstart : startLog path max disk true true = some log)
    (hlines : ∀ line ∈ lines, line.2.Fine line.1) :
    ∃ j i, Holds (disk.content (rotatedName path) :: disk.content path :: lines.map Prod.fst) max
      ((log.encodeAll lines).disk.content (rotatedName path))
      ((log.encodeAll lines).disk.content path) j i := by
  have hkept : Kept path max [disk.content (rotatedName path), disk.content path] log := by
    obtain rfl := Option.some.inj hstart
    refine ⟨Function.update disk path (some (disk.content path)), by simp [openLog], by simp, 0, 1,
      ⟨by simp, ?_, by simp, .inl rfl⟩⟩
    simp [rotatedName_ne]
  obtain ⟨after, hlog, -, hholds⟩ := hkept.encodeAll hlines
  rw [hlog]
  exact hholds

/-- Three lines; before the third is written, the first attempt to open the new file fails. -/
def threeLines : List (Bytes × Outcome) :=
  [([1, 1, 1, 1], ⟨true, true, true, 4⟩), ([2, 2, 2, 2], ⟨true, true, true, 4⟩),
    ([3, 3, 3, 3], ⟨true, false, true, 4⟩)]

/-- With a limit of ten bytes the third line finds the first two moved away. -/
theorem log_keeps_recent_rotated : ∃ log,
    startLog "/var/log/x.jsonl" 10 (fun _ => none) true true = some log ∧
    (log.encodeAll threeLines).disk "/var/log/x-old.jsonl" = some [1, 1, 1, 1, 2, 2, 2, 2] ∧
    ∃ j i, Holds [[], [], [1, 1, 1, 1], [2, 2, 2, 2], [3, 3, 3, 3]] 10
      [1, 1, 1, 1, 2, 2, 2, 2] [3, 3, 3, 3] j i := by
  have hfine : ∀ line ∈ threeLines, line.2.Fine line.1 := by simp [threeLines, Outcome.Fine]
  obtain ⟨log, hlog⟩ : ∃ log,
    startLog "/var/log/x.jsonl" 10 (fun _ => none) true true = some log := ⟨_, rfl⟩
  have hholds := log_keeps_recent hlog hfine
  cases hlog
  exact ⟨_, rfl, rfl, hholds⟩

end Kept

end Dualnet.Stats
