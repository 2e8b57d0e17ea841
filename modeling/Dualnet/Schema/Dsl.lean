import Dualnet.Library.Tokens
import Dualnet.Schema.Network

/-!
# The one-line notations of links and routes

`netschema/dsl.go`: a link is written `dialer[.conn] arrow acceptor[.conn] (protocol, port)` and a
route `up > … > (egress) > down > …`. The parsers search for first and last delimiters and drop
empty pieces, so what they accept is wider than that; here they are as the source has them, with
one lemma for each reader that says what it reads. Indexes are counted in characters instead of
bytes: the slices taken at them are the same.
-/

namespace Dualnet.Schema.Dsl

open Library Text

/-! ## The notations -/

/-- `strings.Fields`. -/
def fields (s : List Char) : List (List Char) := Tokens.words isSpace s

/-- `splitTrim`. -/
def splitTrim (s : List Char) (sep : Char) : List (List Char) := Tokens.pieces isSpace sep s

/-- `strings.HasPrefix`. -/
def hasPrefix (s p : List Char) : Bool := p.isPrefixOf s

/-- `strings.HasSuffix`. -/
def hasSuffix (s p : List Char) : Bool := p.isSuffixOf s

/-- What `parseArrow` returns: the dataflow, `multiple`, and the id-setter. -/
structure Arrow where
  dataflow : String
  multiple : Bool
  idSetter : List Char

/-- The case of `parseArrow` for an arrow that points at the acceptor. -/
def arrowToAcceptor (tok : List Char) : Option Arrow :=
  if !hasPrefix tok ['-'] then none
  else
    let body := tok.drop 1
    if hasSuffix body ['>', '>'] then some ⟨toAcceptor, true, body.take (body.length - 2)⟩
    else if hasSuffix body ['>'] then some ⟨toAcceptor, false, body.take (body.length - 1)⟩
    else none

/-- The case of `parseArrow` for an arrow that points at the dialer. -/
def arrowToDialer (tok : List Char) : Option Arrow :=
  if !hasSuffix tok ['-'] then none
  else
    let body := tok.take (tok.length - 1)
    if hasPrefix body ['<', '<'] then some ⟨toDialer, true, body.drop 2⟩
    else if hasPrefix body ['<'] then some ⟨toDialer, false, body.drop 1⟩
    else none

/-- The characters an id-setter may not have. -/
def arrowChars : List Char := ['<', '>', '-', '.']

/-- `parseArrow`. -/
def parseArrow (tok : List Char) : Option Arrow :=
  let arrow? :=
    if tok.contains '>' then arrowToAcceptor tok
    else if tok.contains '<' then arrowToDialer tok
    else none
  arrow?.filter fun a => !a.idSetter.any arrowChars.contains

/-- `splitNodeSource`. -/
def splitNodeSource (s : List Char) : List Char × List Char :=
  let s := trimSpace s
  match Tokens.index '.' s with
  | some i => (trimSpace (s.take i), trimSpace (s.drop (i + 1)))
  | none => (s, [])

/-- The fields `parseLink` fills in. -/
def linkOf (name : String) (a : Arrow) (dialer acceptor : List Char × List Char)
    (protocol : List Char) (port : Int) : Link :=
  { name, dataflow := a.dataflow, multiple := a.multiple, idSetter := String.ofList a.idSetter,
    dialer := String.ofList dialer.1, dialerSource := String.ofList dialer.2,
    acceptor := String.ofList acceptor.1, acceptorSource := String.ofList acceptor.2,
    protocol := String.ofList protocol, port }

/-- `parseLink`, on the text in front of the parenthesis and the text between the two. -/
def parseLinkParts (name : String) (head group : List Char) : Except String Link :=
  match fields head with
  | [dialer, arrow, acceptor] =>
    match parseArrow arrow with
    | some a => do
      let dialer := splitNodeSource dialer
      let acceptor := splitNodeSource acceptor
      reject (dialer.1.isEmpty || acceptor.1.isEmpty)
        ("netschema: link " ++ quote name ++ ": needs a dialer and an acceptor")
      match splitTrim group ',' with
      | [protocol, port] =>
        match atoi (String.ofList port) with
        | some n => pure (linkOf name a dialer acceptor protocol n)
        | none => .error ("netschema: link " ++ quote name ++ ": bad port " ++
            quote (String.ofList port))
      | _ => .error ("netschema: link " ++ quote name ++ ": want exactly (protocol, port)")
    | none => .error ("netschema: link " ++ quote name ++ ": bad arrow " ++
        quote (String.ofList arrow) ++ " (-> <- ->> <<- -tun> <tun- …)")
  | _ => .error ("netschema: link " ++ quote name ++
      ": want `dialer <arrow> acceptor` (spaces around the arrow)")

/-- `parseLink`. -/
def parseLink (name line : String) : Except String Link :=
  let s := line.toList
  let missing : Except String Link := .error ("netschema: link " ++ quote name ++
    ": want `dialer[.conn] <arrow> acceptor[.conn] (protocol, port)`")
  match Tokens.index '(' s, Tokens.lastIndex ')' s with
  | some openParen, some closeParen =>
    if closeParen < openParen then missing
    else parseLinkParts name (s.take openParen) ((s.take closeParen).drop (openParen + 1))
  | _, _ => missing

/-- `yaml.Kind`. -/
inductive YamlKind where
  | document | sequence | mapping | scalar | alias
  deriving DecidableEq

/-- `yaml.Node`, as far as the decoders look at it. -/
structure YamlNode where
  kind : YamlKind
  value : String := ""
  content : List YamlNode := []

/-- A route token that is parenthesised. -/
def isEgress (t : List Char) : Bool := hasPrefix t ['('] && hasSuffix t [')']

/-- One round of `parseBranch`'s search for the egress. -/
def findEgress (cond : String) (egressIdx : Option Nat) (entry : List Char × Nat) :
    Except String (Option Nat) :=
  let (t, i) := entry
  if isEgress t then
    if egressIdx.isSome then
      .error ("netschema: route " ++ quote cond ++ " has more than one (egress)")
    else .ok (some i)
  else .ok egressIdx

/-- The condition of a route's key. -/
def keyWhen (cond : String) : List String := if cond ≠ "default" then [cond] else []

/-- The name between the parentheses of a route's egress. -/
def unwrap (t : List Char) : List Char := trimSpace ((t.take (t.length - 1)).drop 1)

/-- `parseBranch` on the tokens of the route. -/
def parseRoute (cond : String) (tokens : List (List Char)) : Except String Branch := do
  let br : Branch := { when := keyWhen cond, egress := "" }
  reject tokens.isEmpty ("netschema: route " ++ quote cond ++ " is empty")
  let egressIdx ← tokens.zipIdx.foldlM (findEgress cond) none
  match egressIdx with
  | none =>
    match tokens with
    | [t] => pure { br with egress := String.ofList t }
    | _ => .error ("netschema: route " ++ quote cond ++
        " must wrap its (egress) in parentheses")
  | some i =>
    pure
      { br with
        egress := String.ofList (unwrap (tokens.getD i [])),
        up := (tokens.take i).map String.ofList,
        down := (tokens.drop (i + 1)).map String.ofList }

/-- `parseBranch`. -/
def parseBranch (cond : String) (val : YamlNode) : Except String Branch := do
  reject (val.kind ≠ .scalar) ("netschema: route " ++ quote cond ++
    " must be a string (wrap the egress in parentheses, e.g. (ftth))")
  parseRoute cond (splitTrim val.value.toList '>')

/-- The keys and values of a mapping node; an odd last entry is left out. -/
def YamlNode.entries : List YamlNode → List (YamlNode × YamlNode)
  | key :: value :: rest => (key, value) :: YamlNode.entries rest
  | _ => []

/-- `Links.UnmarshalYAML`. -/
def unmarshalLinks (node : YamlNode) : Except String (List Link) := do
  reject (node.kind ≠ .mapping) "netschema: links must be a mapping of name -> definition"
  (YamlNode.entries node.content).mapM fun e => parseLink e.1.value e.2.value

/-- `Branches.UnmarshalYAML`. -/
def unmarshalBranches (node : YamlNode) : Except String (List Branch) := do
  reject (node.kind ≠ .mapping) "netschema: routes must be a mapping of condition -> route"
  (YamlNode.entries node.content).mapM fun e => parseBranch e.1.value e.2

/-! ## Arrows -/

/-- The spelling of an arrow. -/
def Arrow.text (a : Arrow) : List Char :=
  if a.dataflow = toAcceptor then
    '-' :: (a.idSetter ++ if a.multiple then ['>', '>'] else ['>'])
  else (if a.multiple then ['<', '<'] else ['<']) ++ a.idSetter ++ ['-']

/-- One of the two dataflows, and an id-setter without the characters of arrows. -/
structure Arrow.Valid (a : Arrow) : Prop where
  dataflow : a.dataflow = toAcceptor ∨ a.dataflow = toDialer
  idSetter : ∀ c ∈ a.idSetter, c ∉ arrowChars

/-- What a suffix is. -/
theorem hasSuffix_iff {s p : List Char} : hasSuffix s p = true ↔ ∃ t, s = t ++ p := by
  rw [hasSuffix, List.isSuffixOf_iff_suffix]
  exact exists_congr fun t => eq_comm

/-- What comes first. -/
theorem hasPrefix_iff {s p : List Char} : hasPrefix s p = true ↔ ∃ t, s = p ++ t := by
  rw [hasPrefix, List.isPrefixOf_iff_prefix]
  exact exists_congr fun t => eq_comm

/-- A text that does not end with the last character of a suffix. -/
theorem hasSuffix_append_pair {n : List Char} {c : Char} (h : c ∉ n) :
    hasSuffix (n ++ [c]) [c, c] = false := by
  rw [Bool.eq_false_iff]
  intro hsuffix
  obtain ⟨t, ht⟩ := hasSuffix_iff.mp hsuffix
  have hn : n = t ++ [c] := List.append_cancel_right (by simpa using ht)
  exact h (by simp [hn])

/-- One arrow head is not two. -/
theorem hasPrefix_cons_pair {n : List Char} {c : Char} (h : c ∉ n) :
    hasPrefix (c :: n) [c, c] = false := by
  rw [Bool.eq_false_iff]
  intro hprefix
  obtain ⟨t, ht⟩ := hasPrefix_iff.mp hprefix
  have hn : n = c :: t := by simpa using ht
  exact h (by simp [hn])

/-- Every arrow to the acceptor is read. -/
theorem arrowToAcceptor_complete {m : Bool} {n : List Char} (h : '>' ∉ n) :
    arrowToAcceptor ('-' :: (n ++ if m then ['>', '>'] else ['>'])) = some ⟨toAcceptor, m, n⟩ := by
  have hdash : hasPrefix ('-' :: (n ++ if m then ['>', '>'] else ['>'])) ['-'] = true :=
    hasPrefix_iff.mpr ⟨_, rfl⟩
  cases m with
  | true =>
    have hpoint : hasSuffix (n ++ ['>', '>']) ['>', '>'] = true := hasSuffix_iff.mpr ⟨n, rfl⟩
    simp_all [arrowToAcceptor]
  | false =>
    have hpoint : hasSuffix (n ++ ['>']) ['>'] = true := hasSuffix_iff.mpr ⟨n, rfl⟩
    have hsingle := hasSuffix_append_pair h
    simp_all [arrowToAcceptor]

/-- So is every arrow to the dialer. -/
theorem arrowToDialer_complete {m : Bool} {n : List Char} (h : '<' ∉ n) :
    arrowToDialer ((if m then ['<', '<'] else ['<']) ++ n ++ ['-']) = some ⟨toDialer, m, n⟩ := by
  have hdash : hasSuffix ((if m then ['<', '<'] else ['<']) ++ n ++ ['-']) ['-'] = true :=
    hasSuffix_iff.mpr ⟨_, rfl⟩
  cases m with
  | true =>
    have hpoint : hasPrefix ('<' :: '<' :: n) ['<', '<'] = true := hasPrefix_iff.mpr ⟨n, rfl⟩
    simp_all [arrowToDialer]
  | false =>
    have hpoint : hasPrefix ('<' :: n) ['<'] = true := hasPrefix_iff.mpr ⟨n, rfl⟩
    have hsingle := hasPrefix_cons_pair h
    simp_all [arrowToDialer]

/-- What is read was an arrow to the acceptor. -/
theorem arrowToAcceptor_sound {tok : List Char} {a : Arrow} (h : arrowToAcceptor tok = some a) :
    a.dataflow = toAcceptor ∧ tok = a.text := by
  unfold arrowToAcceptor at h
  split at h
  · cases h
  rename_i hdash
  obtain ⟨body, rfl⟩ := hasPrefix_iff.mp (by simpa using hdash)
  dsimp only [List.cons_append, List.nil_append, List.drop_succ_cons, List.drop_zero] at h
  split at h
  · rename_i hpoint
    obtain ⟨n, rfl⟩ := hasSuffix_iff.mp hpoint
    obtain rfl := Option.some.inj h
    exact ⟨rfl, by simp [Arrow.text]⟩
  split at h
  · rename_i hpoint
    obtain ⟨n, rfl⟩ := hasSuffix_iff.mp hpoint
    obtain rfl := Option.some.inj h
    exact ⟨rfl, by simp [Arrow.text]⟩
  · cases h

/-- What is read was an arrow to the dialer. -/
theorem arrowToDialer_sound {tok : List Char} {a : Arrow} (h : arrowToDialer tok = some a) :
    a.dataflow = toDialer ∧ tok = a.text := by
  have hne : toDialer ≠ toAcceptor := by decide
  unfold arrowToDialer at h
  split at h
  · cases h
  rename_i hdash
  obtain ⟨body, rfl⟩ := hasSuffix_iff.mp (by simpa using hdash)
  dsimp only at h
  rw [show (body ++ ['-']).take ((body ++ ['-']).length - 1) = body from by simp] at h
  split at h
  · rename_i hpoint
    obtain ⟨n, rfl⟩ := hasPrefix_iff.mp hpoint
    obtain rfl := Option.some.inj h
    exact ⟨rfl, by simp [Arrow.text, hne]⟩
  split at h
  · rename_i hpoint
    obtain ⟨n, rfl⟩ := hasPrefix_iff.mp hpoint
    obtain rfl := Option.some.inj h
    exact ⟨rfl, by simp [Arrow.text, hne]⟩
  · cases h

/-- An arrow is accepted exactly if it is the spelling of what is read from it. -/
theorem parseArrow_iff {tok : List Char} {a : Arrow} :
    parseArrow tok = some a ↔ a.Valid ∧ tok = a.text := by
  unfold parseArrow
  rw [Option.filter_eq_some_iff]
  have hbare : (!a.idSetter.any arrowChars.contains) = true ↔
      ∀ c ∈ a.idSetter, c ∉ arrowChars := by simp
  rw [hbare]
  constructor
  · rintro ⟨h, hid⟩
    split at h
    · obtain ⟨hflow, htok⟩ := arrowToAcceptor_sound h
      exact ⟨⟨.inl hflow, hid⟩, htok⟩
    split at h
    · obtain ⟨hflow, htok⟩ := arrowToDialer_sound h
      exact ⟨⟨.inr hflow, hid⟩, htok⟩
    · cases h
  · rintro ⟨⟨hflow, hid⟩, rfl⟩
    refine ⟨?_, hid⟩
    have hright : '>' ∉ a.idSetter := fun hc => hid _ hc (by decide)
    have hleft : '<' ∉ a.idSetter := fun hc => hid _ hc (by decide)
    obtain ⟨flow, m, n⟩ := a
    obtain rfl | rfl := hflow
    · have hmem : '>' ∈ Arrow.text ⟨toAcceptor, m, n⟩ := by cases m <;> simp [Arrow.text]
      rw [if_pos (by simpa using hmem)]
      exact arrowToAcceptor_complete hright
    · have hne : toDialer ≠ toAcceptor := by decide
      have hnot : '>' ∉ Arrow.text ⟨toDialer, m, n⟩ := by
        cases m <;> simpa [Arrow.text, hne] using hright
      have hmem : '<' ∈ Arrow.text ⟨toDialer, m, n⟩ := by cases m <;> simp [Arrow.text, hne]
      rw [if_neg (by simpa using hnot), if_pos (by simpa using hmem), Arrow.text, if_neg hne]
      exact arrowToDialer_complete hleft

/-! ## Nodes with their connections -/

/-- The spelling of a node with an optional connection. -/
def nodeText (node source : List Char) : List Char :=
  if source = [] then node else node ++ '.' :: source

/-- Without blanks nothing is trimmed. -/
theorem trimSpace_of_forall {t : List Char} (h : ∀ c ∈ t, isSpace c = false) : trimSpace t = t :=
  Tokens.trim_eq_self (Tokens.trimmed_of_forall h)

/-- A node is read up to the first dot. -/
theorem splitNodeSource_dot {node source : List Char} (hdot : '.' ∉ node)
    (hblank : ∀ c ∈ node ++ '.' :: source, isSpace c = false) :
    splitNodeSource (node ++ '.' :: source) = (node, source) := by
  have hnode : trimSpace node = node :=
    trimSpace_of_forall fun c hc => hblank c (by simp [hc])
  have hsource : trimSpace source = source :=
    trimSpace_of_forall fun c hc => hblank c (by simp [hc])
  simp [splitNodeSource, trimSpace_of_forall hblank, Tokens.index_complete hdot, hnode, hsource]

/-- A node without a connection. -/
theorem splitNodeSource_bare {node : List Char} (hdot : '.' ∉ node)
    (hblank : ∀ c ∈ node, isSpace c = false) : splitNodeSource node = (node, []) := by
  have hnone : Tokens.index '.' node = none := by
    rw [Option.eq_none_iff_forall_ne_some]
    intro i hi
    obtain ⟨a, b, rfl, -, -⟩ := Tokens.index_sound hi
    simp at hdot
  simp [splitNodeSource, trimSpace_of_forall hblank, hnone]

/-- A node with its connection is read back. -/
theorem splitNodeSource_complete {node source : List Char} (hdot : '.' ∉ node)
    (hblank : ∀ c ∈ nodeText node source, isSpace c = false) :
    splitNodeSource (nodeText node source) = (node, source) := by
  unfold nodeText at hblank ⊢
  split at hblank
  · rename_i hsource
    rw [if_pos hsource, hsource, splitNodeSource_bare hdot hblank]
  · rename_i hsource
    rw [if_neg hsource, splitNodeSource_dot hdot hblank]

/-- A token is the spelling of what is read from it, unless it ends with its only dot. -/
theorem splitNodeSource_sound {tok : List Char} (hblank : ∀ c ∈ tok, isSpace c = false) :
    '.' ∉ (splitNodeSource tok).1 ∧
      (('.' ∈ tok → (splitNodeSource tok).2 ≠ []) →
        tok = nodeText (splitNodeSource tok).1 (splitNodeSource tok).2) := by
  by_cases hmem : '.' ∈ tok
  · obtain ⟨node, source, rfl, hdot⟩ := List.eq_append_cons_of_mem hmem
    rw [splitNodeSource_dot hdot hblank]
    exact ⟨hdot, fun hsource => by simp [nodeText, hsource hmem]⟩
  · rw [splitNodeSource_bare hmem hblank]
    exact ⟨hmem, fun _ => by simp [nodeText]⟩

/-! ## Links -/

/-- A line is cut at its first opening and its last closing parenthesis. -/
theorem parseLink_cut {name line : String} {head group tail : List Char} (hopen : '(' ∉ head)
    (hclose : ')' ∉ tail) (hline : line.toList = head ++ '(' :: (group ++ ')' :: tail)) :
    parseLink name line = parseLinkParts name head group := by
  have hlast : line.toList = (head ++ '(' :: group) ++ ')' :: tail := by rw [hline]; simp
  have hindex : Tokens.index '(' line.toList = some head.length := by
    rw [hline, Tokens.index_complete hopen]
  have hlastIndex : Tokens.lastIndex ')' line.toList = some (head ++ '(' :: group).length := by
    rw [hlast, Tokens.lastIndex_complete hclose]
  have htake : line.toList.take (head ++ '(' :: group).length = head ++ '(' :: group := by
    rw [hlast, List.take_left]
  have hlt : ¬ (head ++ '(' :: group).length < head.length := by simp
  simp only [parseLink, hindex, hlastIndex, if_neg hlt, htake]
  rw [hline, List.take_left, List.drop_append, List.drop_of_length_le (by omega)]
  simp

/-- Two occurrences in the same text, the first no later than the second. -/
theorem between_of_append_eq {head b a tail : List Char}
    (h : head ++ '(' :: b = a ++ ')' :: tail) (hle : head.length ≤ a.length) :
    ∃ group, b = group ++ ')' :: tail := by
  obtain ⟨mid, rfl, hmid⟩ | ⟨mid, rfl, hmid⟩ := List.append_eq_append_iff.mp h
  · cases mid with
    | nil => simp at hmid
    | cons c group => exact ⟨group, (List.cons.inj hmid).2⟩
  · have hnil : mid = [] := List.eq_nil_of_length_eq_zero (by simpa using hle)
    simp [hnil] at hmid

/-- An accepted line has a parenthesised group. -/
theorem parseLink_sound {name line : String} {l : Link} (h : parseLink name line = .ok l) :
    ∃ head group tail, line.toList = head ++ '(' :: (group ++ ')' :: tail) ∧ '(' ∉ head ∧
      ')' ∉ tail ∧ parseLinkParts name head group = .ok l := by
  have haccepted := h
  unfold parseLink at h
  dsimp only at h
  split at h
  · rename_i openParen closeParen hindex hlastIndex
    split at h
    · cases h
    rename_i hle
    obtain ⟨head, b, hb, hopen, rfl⟩ := Tokens.index_sound hindex
    obtain ⟨a, tail, ha, hclose, rfl⟩ := Tokens.lastIndex_sound hlastIndex
    obtain ⟨group, rfl⟩ := between_of_append_eq (hb.symm.trans ha) (by omega)
    rw [parseLink_cut hopen hclose hb] at haccepted
    exact ⟨head, group, tail, hb, hopen, hclose, haccepted⟩
  · cases h

/-- What `parseLink` reads from the two parts of a line. -/
theorem parseLinkParts_iff {name : String} {head group : List Char} {l : Link} :
    parseLinkParts name head group = .ok l ↔
      ∃ dialer acceptor a protocol port n, fields head = [dialer, Arrow.text a, acceptor] ∧
        a.Valid ∧ (splitNodeSource dialer).1 ≠ [] ∧ (splitNodeSource acceptor).1 ≠ [] ∧
        splitTrim group ',' = [protocol, port] ∧ atoi (String.ofList port) = some n ∧
        l = linkOf name a (splitNodeSource dialer) (splitNodeSource acceptor) protocol n := by
  constructor
  · intro h
    unfold parseLinkParts at h
    split at h
    · rename_i dialer arrow acceptor hfields
      split at h
      · rename_i a harrow
        obtain ⟨hvalid, rfl⟩ := parseArrow_iff.mp harrow
        obtain ⟨_, hnodes, h⟩ := bind_eq_ok.mp h
        rw [reject_eq_ok, Bool.or_eq_false_iff] at hnodes
        split at h
        · rename_i protocol port hgroup
          split at h
          · rename_i n hport
            refine ⟨dialer, acceptor, a, protocol, port, n, hfields, hvalid, ?_, ?_, hgroup,
              hport, (pure_eq_ok.mp h).symm⟩
            · simpa using hnodes.1
            · simpa using hnodes.2
          · cases h
        · cases h
      · cases h
    · cases h
  · rintro ⟨dialer, acceptor, a, protocol, port, n, hfields, hvalid, hdialer, hacceptor, hgroup,
      hport, rfl⟩
    have harrow : parseArrow a.text = some a := parseArrow_iff.mpr ⟨hvalid, rfl⟩
    simp [parseLinkParts, hfields, harrow, hdialer, hacceptor, hgroup, hport, reject, bind,
      Except.bind, pure, Except.pure]

/-! ## Routes -/

variable {cond : String} {ts : List (List Char)}

/-- Tokens that are not parenthesised leave the search as it is. -/
theorem foldlM_findEgress_links {egressIdx : Option Nat} {k : Nat}
    (h : ∀ t ∈ ts, isEgress t = false) :
    (ts.zipIdx k).foldlM (findEgress cond) egressIdx = .ok egressIdx := by
  induction ts generalizing k with
  | nil => rfl
  | cons t ts ih =>
    obtain ⟨ht, hts⟩ := List.forall_mem_cons.mp h
    simp [findEgress, ht, bind, Except.bind, ih hts]

/-- After one egress there is no second. -/
theorem foldlM_findEgress_some {i : Nat} {r : Option Nat} {k : Nat}
    (h : (ts.zipIdx k).foldlM (findEgress cond) (some i) = .ok r) :
    r = some i ∧ ∀ t ∈ ts, isEgress t = false := by
  induction ts generalizing k with
  | nil => exact ⟨(pure_eq_ok.mp h).symm, by simp⟩
  | cons t ts ih =>
    rw [List.zipIdx_cons, List.foldlM_cons] at h
    obtain ⟨found, hround, h⟩ := bind_eq_ok.mp h
    cases ht : isEgress t with
    | true => simp [findEgress, ht] at hround
    | false =>
      obtain rfl : some i = found := by simpa [findEgress, ht] using hround
      obtain ⟨hr, hts⟩ := ih h
      exact ⟨hr, List.forall_mem_cons.mpr ⟨ht, hts⟩⟩

/-- The search returns the index of the one token that is parenthesised. -/
theorem foldlM_findEgress_none {r : Option Nat} {k : Nat}
    (h : (ts.zipIdx k).foldlM (findEgress cond) none = .ok r) :
    (r = none ∧ ∀ t ∈ ts, isEgress t = false) ∨
      ∃ up t down, ts = up ++ t :: down ∧ r = some (k + up.length) ∧ isEgress t = true ∧
        (∀ u ∈ up, isEgress u = false) ∧ ∀ d ∈ down, isEgress d = false := by
  induction ts generalizing k with
  | nil => exact .inl ⟨(pure_eq_ok.mp h).symm, by simp⟩
  | cons t ts ih =>
    rw [List.zipIdx_cons, List.foldlM_cons] at h
    obtain ⟨found, hround, h⟩ := bind_eq_ok.mp h
    cases ht : isEgress t with
    | true =>
      obtain rfl : some k = found := by simpa [findEgress, ht] using hround
      obtain ⟨rfl, hts⟩ := foldlM_findEgress_some h
      exact .inr ⟨[], t, ts, rfl, rfl, ht, by simp, hts⟩
    | false =>
      obtain rfl : none = found := by simpa [findEgress, ht] using hround
      obtain ⟨rfl, hts⟩ | ⟨up, e, down, rfl, rfl, he, hup, hdown⟩ := ih h
      · exact .inl ⟨rfl, List.forall_mem_cons.mpr ⟨ht, hts⟩⟩
      · refine .inr ⟨t :: up, e, down, rfl, ?_, he, List.forall_mem_cons.mpr ⟨ht, hup⟩, hdown⟩
        simp [Nat.add_comm, Nat.add_left_comm]

/-- A route may be its egress alone. -/
theorem parseRoute_bare {t : List Char} (h : isEgress t = false) :
    parseRoute cond [t] = .ok { when := keyWhen cond, egress := String.ofList t } := by
  simp [parseRoute, findEgress, h, reject, bind, Except.bind, pure, Except.pure]

/-- A route with links and one egress. -/
theorem parseRoute_egress {up down : List (List Char)} {t : List Char} (ht : isEgress t = true)
    (hup : ∀ u ∈ up, isEgress u = false) (hdown : ∀ d ∈ down, isEgress d = false) :
    parseRoute cond (up ++ t :: down) = .ok
      { when := keyWhen cond, egress := String.ofList (unwrap t), up := up.map String.ofList,
        down := down.map String.ofList } := by
  have hsearch : (up ++ t :: down).zipIdx.foldlM (findEgress cond) none =
      .ok (some up.length) := by
    rw [List.zipIdx_append, List.foldlM_append, foldlM_findEgress_links hup, List.zipIdx_cons]
    simp only [bind, Except.bind, List.foldlM_cons, findEgress, ht, if_true, Option.isSome_none,
      Bool.false_eq_true, if_false]
    rw [foldlM_findEgress_links hdown]
    simp
  have hne : (up ++ t :: down).isEmpty = false := by simp
  simp [parseRoute, hsearch, hne, reject, bind, Except.bind, pure, Except.pure]

/-- An accepted route is one bare token, or has exactly one token that is parenthesised. -/
theorem parseRoute_sound {br : Branch} (h : parseRoute cond ts = .ok br) :
    (∃ t, ts = [t] ∧ isEgress t = false) ∨
      ∃ up t down, ts = up ++ t :: down ∧ isEgress t = true ∧
        (∀ u ∈ up, isEgress u = false) ∧ ∀ d ∈ down, isEgress d = false := by
  unfold parseRoute at h
  dsimp only at h
  obtain ⟨_, -, h⟩ := bind_eq_ok.mp h
  obtain ⟨egressIdx, hsearch, h⟩ := bind_eq_ok.mp h
  obtain ⟨rfl, hlinks⟩ | ⟨up, t, down, hts, -, ht, hup, hdown⟩ := foldlM_findEgress_none hsearch
  · dsimp only at h
    split at h
    · exact .inl ⟨_, rfl, hlinks _ (by simp)⟩
    · cases h
  · exact .inr ⟨up, t, down, hts, ht, hup, hdown⟩

/-- A route that is a text. -/
theorem parseBranch_scalar {val : YamlNode} (h : val.kind = .scalar) :
    parseBranch cond val = parseRoute cond (splitTrim val.value.toList '>') := by
  simp [parseBranch, h, reject, bind, Except.bind]

/-- Only a scalar is accepted. -/
theorem parseBranch_sound {val : YamlNode} {br : Branch} (h : parseBranch cond val = .ok br) :
    val.kind = .scalar ∧ parseRoute cond (splitTrim val.value.toList '>') = .ok br := by
  obtain ⟨_, hkind, h⟩ := bind_eq_ok.mp h
  exact ⟨by simpa using hkind, h⟩

end Dualnet.Schema.Dsl
