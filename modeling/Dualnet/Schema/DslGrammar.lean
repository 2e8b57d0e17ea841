import Dualnet.Schema.Dsl

/-!
# The grammar of links and routes

What the two notations of `netschema/dsl.go` are meant to be, as relations between a text and
what it stands for, and how the parsers relate to them. Every text of the grammar is read as what
it stands for, so printing and parsing are inverse (`dsl_round_trip`). The converse fails: the
parsers also accept text after the closing parenthesis, repeated separators, parentheses inside
the group and a dot without a connection. `dsl_accepts_iff` says that nothing else is lost.
-/

namespace Dualnet.Schema.Dsl

open Library Text

/-! ## Links -/

/-- The name of a node: no blank, dot or opening parenthesis in it. -/
def NodeName (s : String) : Prop :=
  s ≠ "" ∧ ∀ c ∈ s.toList, isSpace c = false ∧ c ≠ '.' ∧ c ≠ '('

/-- The name of a connection, or none. -/
def ConnName (s : String) : Prop := ∀ c ∈ s.toList, isSpace c = false ∧ c ≠ '('

/-- The name of an id-setter, or none. -/
def SetterName (s : String) : Prop :=
  ∀ c ∈ s.toList, isSpace c = false ∧ c ∉ arrowChars ∧ c ≠ '('

/-- The name of a protocol. -/
def ProtocolName (s : String) : Prop :=
  Tokens.Token isSpace ',' s.toList ∧ '(' ∉ s.toList ∧ ')' ∉ s.toList

/-- The names a link can be written with. -/
structure LinkNames (l : Link) : Prop where
  dialer : NodeName l.dialer
  dialerSource : ConnName l.dialerSource
  acceptor : NodeName l.acceptor
  acceptorSource : ConnName l.acceptorSource
  dataflow : l.dataflow = toAcceptor ∨ l.dataflow = toDialer
  idSetter : SetterName l.idSetter
  protocol : ProtocolName l.protocol

/-- The arrow of a link. -/
def linkArrow (l : Link) : Arrow := ⟨l.dataflow, l.multiple, l.idSetter.toList⟩

/-- The three tokens in front of the parenthesis. -/
def headTokens (l : Link) : List (List Char) :=
  [nodeText l.dialer.toList l.dialerSource.toList, (linkArrow l).text,
    nodeText l.acceptor.toList l.acceptorSource.toList]

/-- `dialer[.conn] arrow acceptor[.conn] (protocol, port)`, up to blanks between tokens. -/
def LinkForm (l : Link) (line : List Char) : Prop :=
  LinkNames l ∧ ∃ head group tail port, line = head ++ '(' :: (group ++ ')' :: tail) ∧
    Tokens.Spaced isSpace head (headTokens l) ∧
    Tokens.Separated isSpace ',' group [l.protocol.toList, port] ∧
    atoi (String.ofList port) = some l.port ∧ Tokens.Blank isSpace tail

/-- The arrow of a link is one of the grammar's. -/
theorem arrow_valid {l : Link} (h : LinkNames l) : (linkArrow l).Valid :=
  ⟨h.dataflow, fun c hc => (h.idSetter c hc).2.1⟩

/-- Which characters a node is spelled without. -/
theorem not_mem_nodeText {c : Char} {node source : List Char} (hnode : c ∉ node)
    (hdot : c ≠ '.') (hsource : c ∉ source) : c ∉ nodeText node source := by
  unfold nodeText
  split
  · exact hnode
  · simp [hnode, hdot, hsource]

/-- There is no parenthesis in the three tokens. -/
theorem not_mem_headTokens {l : Link} (h : LinkNames l) : ∀ t ∈ headTokens l, '(' ∉ t := by
  have hsource : ∀ {s : String}, ConnName s → '(' ∉ s.toList := fun hs hc => (hs _ hc).2 rfl
  have hnode : ∀ {s : String}, NodeName s → '(' ∉ s.toList := fun hs hc => (hs.2 _ hc).2.2 rfl
  have hid : '(' ∉ l.idSetter.toList := fun hc => (h.idSetter _ hc).2.2 rfl
  intro t ht
  simp only [headTokens, List.mem_cons, List.not_mem_nil, or_false] at ht
  obtain rfl | rfl | rfl := ht
  · exact not_mem_nodeText (hnode h.dialer) (by decide) (hsource h.dialerSource)
  · unfold Arrow.text linkArrow
    split <;> cases l.multiple <;> simp [hid]
  · exact not_mem_nodeText (hnode h.acceptor) (by decide) (hsource h.acceptorSource)

/-- The head has no opening parenthesis. -/
theorem head_no_open {l : Link} {head : List Char} (h : LinkNames l)
    (hhead : Tokens.Spaced isSpace head (headTokens l)) : '(' ∉ head := by
  rw [hhead.mem_iff (by decide)]
  rintro ⟨t, ht, hc⟩
  exact not_mem_headTokens h t ht hc

/-- What follows has no closing parenthesis. -/
theorem tail_no_close {tail : List Char} (h : Tokens.Blank isSpace tail) : ')' ∉ tail :=
  fun hc => absurd (h _ hc) (by decide)

/-- A node of the grammar is read back from its token. -/
theorem splitNodeSource_nodeText {node : String} (hnode : NodeName node) (source : String)
    (hword : Tokens.Word isSpace (nodeText node.toList source.toList)) :
    splitNodeSource (nodeText node.toList source.toList) = (node.toList, source.toList) :=
  splitNodeSource_complete (fun hc => (hnode.2 _ hc).2.1 rfl) hword.2

/-- A line of the grammar is read as the link it stands for. -/
theorem parseLink_complete {l : Link} {line : String} (h : LinkForm l line.toList) :
    parseLink l.name line = .ok { l with psk := "" } := by
  obtain ⟨hnames, head, group, tail, port, hline, hhead, hgroup, hport, htail⟩ := h
  have hopen := head_no_open hnames hhead
  have hclose := tail_no_close htail
  have hdialer := splitNodeSource_nodeText hnames.dialer l.dialerSource
    (hhead.word (by simp [headTokens]))
  have hacceptor := splitNodeSource_nodeText hnames.acceptor l.acceptorSource
    (hhead.word (by simp [headTokens]))
  have hpieces := ((Tokens.separated_iff (by decide)).mp hgroup).1
  rw [parseLink_cut hopen hclose hline, parseLinkParts_iff]
  refine ⟨_, _, linkArrow l, l.protocol.toList, port, l.port, Tokens.spaced_iff.mp hhead,
    arrow_valid hnames, ?_, ?_, hpieces, hport, ?_⟩
  · simpa [hdialer] using hnames.dialer.1
  · simpa [hacceptor] using hnames.acceptor.1
  · rw [hdialer, hacceptor]
    simp [linkOf, linkArrow]

/-- What a line must be for the parser to have read all of it: nothing after the closing
parenthesis, no parenthesis inside the group, one comma in it, and a connection after each dot. -/
structure TidyParts (head group tail : List Char) : Prop where
  tail : Tokens.Blank isSpace tail
  group_open : '(' ∉ group
  group_close : ')' ∉ group
  group : Tokens.NoGap isSpace ',' group
  head : ∀ tok ∈ fields head, '.' ∈ tok → (splitNodeSource tok).2 ≠ []

/-- The parts between the first opening and the last closing parenthesis are tidy. -/
def TidyLink (line : List Char) : Prop :=
  ∀ head group tail, line = head ++ '(' :: (group ++ ')' :: tail) → '(' ∉ head → ')' ∉ tail →
    TidyParts head group tail

/-- The first opening and the last closing parenthesis cut a line in one way. -/
theorem cut_unique {head group tail head' group' tail' : List Char} (hopen : '(' ∉ head)
    (hclose : ')' ∉ tail) (hopen' : '(' ∉ head') (hclose' : ')' ∉ tail')
    (h : head ++ '(' :: (group ++ ')' :: tail) = head' ++ '(' :: (group' ++ ')' :: tail')) :
    head = head' ∧ group = group' ∧ tail = tail' := by
  have hlen : head.length = head'.length := by
    have hindex := Tokens.index_complete (b := group ++ ')' :: tail) hopen
    rw [h, Tokens.index_complete hopen'] at hindex
    exact (Option.some.inj hindex).symm
  obtain ⟨rfl, hrest⟩ := List.append_inj h hlen
  have hrest' : group ++ ')' :: tail = group' ++ ')' :: tail' := (List.cons.inj hrest).2
  have hlen' : group.length = group'.length := by
    have hindex := Tokens.lastIndex_complete (a := group) hclose
    rw [hrest', Tokens.lastIndex_complete hclose'] at hindex
    exact (Option.some.inj hindex).symm
  obtain ⟨rfl, htail⟩ := List.append_inj hrest' hlen'
  exact ⟨rfl, rfl, (List.cons.inj htail).2⟩

/-- A port is written with digits and a sign. -/
theorem atoi_chars {s : List Char} {n : Int} (h : atoi (String.ofList s) = some n) :
    ∀ c ∈ s, c.isDigit = true ∨ c = '-' ∨ c = '+' := by
  have hdecimal : ∀ {cs : List Char} {m : Nat}, decimal? cs = some m →
      ∀ c ∈ cs, c.isDigit = true := by
    intro cs m hm c hc
    unfold decimal? at hm
    split at hm
    · rename_i hdigits
      rw [Bool.and_eq_true, List.all_eq_true] at hdigits
      exact hdigits.2 c hc
    · cases hm
  have hsigned : signed? s = some n := by
    rw [atoi, String.toList_ofList, Option.filter_eq_some_iff] at h
    exact h.1
  unfold signed? at hsigned
  split at hsigned
  · obtain ⟨m, hm, -⟩ := Option.map_eq_some_iff.mp hsigned
    exact List.forall_mem_cons.mpr ⟨by simp, fun c hc => .inl (hdecimal hm c hc)⟩
  · obtain ⟨m, hm, -⟩ := Option.map_eq_some_iff.mp hsigned
    exact List.forall_mem_cons.mpr ⟨by simp, fun c hc => .inl (hdecimal hm c hc)⟩
  · obtain ⟨m, hm, -⟩ := Option.map_eq_some_iff.mp hsigned
    exact fun c hc => .inl (hdecimal hm c hc)

/-- A token of the grammar with a dot has a connection. -/
theorem source_of_dot {node : String} (hnode : NodeName node) (source : String)
    (hword : Tokens.Word isSpace (nodeText node.toList source.toList))
    (hdot : '.' ∈ nodeText node.toList source.toList) :
    (splitNodeSource (nodeText node.toList source.toList)).2 ≠ [] := by
  rw [splitNodeSource_nodeText hnode source hword]
  intro hsource
  rw [nodeText, if_pos hsource] at hdot
  exact (hnode.2 _ hdot).2.1 rfl

/-- An arrow has no dot. -/
theorem arrow_no_dot {a : Arrow} (h : a.Valid) : '.' ∉ a.text := by
  have hid : '.' ∉ a.idSetter := fun hc => h.idSetter _ hc (by decide)
  unfold Arrow.text
  split <;> cases a.multiple <;> simp [hid]

/-- There is no parenthesis in the group. -/
theorem group_no_paren {l : Link} {group port : List Char} {c : Char} (h : LinkNames l)
    (hgroup : Tokens.Separated isSpace ',' group [l.protocol.toList, port])
    (hport : atoi (String.ofList port) = some l.port) (hc : c = '(' ∨ c = ')') : c ∉ group := by
  have hsolid : isSpace c = false := by obtain rfl | rfl := hc <;> decide
  intro hmem
  obtain rfl | ⟨t, ht, hct⟩ := hgroup.mem hsolid hmem
  · simp at hc
  simp only [List.mem_cons, List.not_mem_nil, or_false] at ht
  obtain rfl | rfl := ht
  · obtain rfl | rfl := hc
    · exact h.protocol.2.1 hct
    · exact h.protocol.2.2 hct
  · have hdigit := atoi_chars hport c hct
    obtain rfl | rfl := hc <;> revert hdigit <;> decide

/-- Lines of the grammar are tidy. -/
theorem LinkForm.tidy {l : Link} {line : List Char} (h : LinkForm l line) : TidyLink line := by
  obtain ⟨hnames, head, group, tail, port, rfl, hhead, hgroup, hport, htail⟩ := h
  intro head' group' tail' heq hopen' hclose'
  obtain ⟨rfl, rfl, rfl⟩ :=
    cut_unique (head_no_open hnames hhead) (tail_no_close htail) hopen' hclose' heq
  refine ⟨htail, group_no_paren hnames hgroup hport (.inl rfl),
    group_no_paren hnames hgroup hport (.inr rfl),
    ((Tokens.separated_iff (by decide)).mp hgroup).2, fun tok htok hdot => ?_⟩
  rw [fields, Tokens.spaced_iff.mp hhead] at htok
  have hword := hhead.word htok
  simp only [headTokens, List.mem_cons, List.not_mem_nil, or_false] at htok
  obtain rfl | rfl | rfl := htok
  · exact source_of_dot hnames.dialer _ hword hdot
  · exact absurd hdot (arrow_no_dot (arrow_valid hnames))
  · exact source_of_dot hnames.acceptor _ hword hdot

/-- A node token without a blank or an opening parenthesis has the names of the grammar. -/
theorem nodeNames_of_token {tok : List Char} (hword : Tokens.Word isSpace tok)
    (hopen : '(' ∉ tok) (hne : (splitNodeSource tok).1 ≠ [])
    (hdot : '.' ∈ tok → (splitNodeSource tok).2 ≠ []) :
    NodeName (String.ofList (splitNodeSource tok).1) ∧
      ConnName (String.ofList (splitNodeSource tok).2) ∧
      nodeText (splitNodeSource tok).1 (splitNodeSource tok).2 = tok := by
  obtain ⟨hnodot, hspell⟩ := splitNodeSource_sound hword.2
  have htok := hspell hdot
  generalize (splitNodeSource tok).1 = node at *
  generalize (splitNodeSource tok).2 = source at *
  have hnode : ∀ c ∈ node, c ∈ tok := fun c hc => by
    rw [htok, nodeText]
    split <;> simp [hc]
  have hsource : ∀ c ∈ source, c ∈ tok := fun c hc => by
    rw [htok, nodeText, if_neg (List.ne_nil_of_mem hc)]
    simp [hc]
  have hsolid : ∀ c ∈ tok, isSpace c = false ∧ c ≠ '(' := fun c hc =>
    ⟨hword.2 c hc, fun h => hopen (h ▸ hc)⟩
  refine ⟨⟨by simpa using hne, fun c hc => ?_⟩, fun c hc => ?_, htok.symm⟩
  · rw [String.toList_ofList] at hc
    obtain ⟨hblank, hparen⟩ := hsolid c (hnode c hc)
    exact ⟨hblank, fun h => hnodot (h ▸ hc), hparen⟩
  · rw [String.toList_ofList] at hc
    exact hsolid c (hsource c hc)

/-- A tidy line that is accepted is one of the grammar. -/
theorem parseLink_tidy {name line : String} {l : Link} (h : parseLink name line = .ok l)
    (htidy : TidyLink line.toList) : LinkForm l line.toList := by
  obtain ⟨head, group, tail, hline, hopen, hclose, h⟩ := parseLink_sound h
  obtain ⟨htail, hgopen, hgclose, hgap, hdots⟩ := htidy head group tail hline hopen hclose
  obtain ⟨dialer, acceptor, a, protocol, port, n, hfields, hvalid, hdialer, hacceptor, hpieces,
    hport, rfl⟩ := parseLinkParts_iff.mp h
  have hhead : Tokens.Spaced isSpace head [dialer, a.text, acceptor] :=
    Tokens.spaced_iff.mpr hfields
  have hgroup : Tokens.Separated isSpace ',' group [protocol, port] :=
    (Tokens.separated_iff (by decide)).mpr ⟨hpieces, hgap⟩
  have hparen : ∀ t ∈ [dialer, a.text, acceptor], '(' ∉ t := fun t ht hc =>
    hopen ((hhead.mem_iff (by decide)).mpr ⟨t, ht, hc⟩)
  obtain ⟨hdialerName, hdialerConn, hdialerText⟩ := nodeNames_of_token
    (hhead.word (by simp)) (hparen dialer (by simp)) hdialer (hdots dialer (by simp [hfields]))
  obtain ⟨hacceptorName, hacceptorConn, hacceptorText⟩ := nodeNames_of_token
    (hhead.word (by simp)) (hparen acceptor (by simp)) hacceptor
    (hdots acceptor (by simp [hfields]))
  have hsetter : SetterName (String.ofList a.idSetter) := fun c hc => by
    rw [String.toList_ofList] at hc
    have hmem : c ∈ a.text := by
      unfold Arrow.text
      split <;> simp [hc]
    exact ⟨(hhead.word (t := a.text) (by simp)).2 c hmem, hvalid.idSetter c hc,
      fun hp => hparen a.text (by simp) (hp ▸ hmem)⟩
  have hprotocol : ProtocolName (String.ofList protocol) := by
    have hsub : ∀ c ∈ protocol, c ∈ group := hgroup.mem_of_token (by simp)
    rw [ProtocolName, String.toList_ofList]
    exact ⟨hgroup.token (by simp), fun hc => hgopen (hsub _ hc), fun hc => hgclose (hsub _ hc)⟩
  refine ⟨⟨hdialerName, hdialerConn, hacceptorName, hacceptorConn, hvalid.dataflow, hsetter,
    hprotocol⟩, head, group, tail, port, hline, ?_, ?_, hport, htail⟩
  · simpa [headTokens, linkOf, linkArrow, hdialerText, hacceptorText] using hhead
  · simpa [linkOf] using hgroup

/-- The form of a line does not depend on the link's name. -/
theorem LinkForm.rename {l : Link} {line : List Char} (h : LinkForm l line) (name : String) :
    LinkForm { l with name } line := by
  obtain ⟨⟨hd, hds, ha, has, hflow, hid, hp⟩, hline⟩ := h
  exact ⟨⟨hd, hds, ha, has, hflow, hid, hp⟩, hline⟩

/-- The lines of the grammar are the accepted lines that are tidy. -/
theorem exists_linkForm_iff (name line : String) :
    (∃ l, LinkForm l line.toList) ↔
      (∃ l, parseLink name line = .ok l) ∧ TidyLink line.toList := by
  constructor
  · rintro ⟨l, h⟩
    have hread := parseLink_complete (h.rename name)
    exact ⟨⟨_, hread⟩, h.tidy⟩
  · rintro ⟨⟨l, h⟩, htidy⟩
    exact ⟨l, parseLink_tidy h htidy⟩

/-! ## Routes -/

/-- `up > … > (egress) > down > …`, up to blanks around the tokens, or a single bare token. -/
def RouteForm (value : List Char) : Prop :=
  ∃ ts, Tokens.Separated isSpace '>' value ts ∧ (ts.countP isEgress = 1 ∨ ts.length = 1)

/-- One egress splits the tokens of a route. -/
theorem exists_split_of_countP {ts : List (List Char)} (h : ts.countP isEgress = 1) :
    ∃ up t down, ts = up ++ t :: down ∧ isEgress t = true ∧
      (∀ u ∈ up, isEgress u = false) ∧ ∀ d ∈ down, isEgress d = false := by
  induction ts with
  | nil => simp at h
  | cons t ts ih =>
    cases ht : isEgress t with
    | true =>
      have hzero : ts.countP isEgress = 0 := by
        rw [List.countP_cons_of_pos ht] at h
        omega
      refine ⟨[], t, ts, rfl, ht, by simp, fun d hd => ?_⟩
      simpa using List.countP_eq_zero.mp hzero d hd
    | false =>
      rw [List.countP_cons_of_neg (by simp [ht])] at h
      obtain ⟨up, e, down, rfl, he, hup, hdown⟩ := ih h
      exact ⟨t :: up, e, down, rfl, he, List.forall_mem_cons.mpr ⟨ht, hup⟩, hdown⟩

/-- The tokens of a route are accepted exactly if one of them is parenthesised or there is only
one. -/
theorem exists_parseRoute_iff {cond : String} {ts : List (List Char)} :
    (∃ br, parseRoute cond ts = .ok br) ↔ ts.countP isEgress = 1 ∨ ts.length = 1 := by
  constructor
  · rintro ⟨br, h⟩
    obtain ⟨t, rfl, -⟩ | ⟨up, t, down, rfl, ht, hup, hdown⟩ := parseRoute_sound h
    · exact .inr rfl
    · have hnone : ∀ l : List (List Char), (∀ u ∈ l, isEgress u = false) →
          l.countP isEgress = 0 := fun l hl =>
        List.countP_eq_zero.mpr fun u hu => by simp [hl u hu]
      left
      rw [List.countP_append, List.countP_cons_of_pos ht, hnone up hup, hnone down hdown]
  · rintro (h | h)
    · obtain ⟨up, t, down, rfl, ht, hup, hdown⟩ := exists_split_of_countP h
      exact ⟨_, parseRoute_egress ht hup hdown⟩
    · obtain ⟨t, rfl⟩ := List.length_eq_one_iff.mp h
      cases ht : isEgress t with
      | true =>
        have hnone : ∀ l ∈ ([] : List (List Char)), isEgress l = false := by simp
        exact ⟨_, parseRoute_egress ht hnone hnone⟩
      | false => exact ⟨_, parseRoute_bare ht⟩

/-- The routes of the grammar are the accepted routes without an empty token. -/
theorem routeForm_iff (cond : String) (val : YamlNode) :
    (val.kind = .scalar ∧ RouteForm val.value.toList) ↔
      (∃ br, parseBranch cond val = .ok br) ∧ Tokens.NoGap isSpace '>' val.value.toList := by
  constructor
  · rintro ⟨hkind, ts, hts, hone⟩
    obtain ⟨rfl, hgap⟩ := (Tokens.separated_iff (by decide)).mp hts
    rw [parseBranch_scalar hkind]
    exact ⟨exists_parseRoute_iff.mpr hone, hgap⟩
  · rintro ⟨⟨br, h⟩, hgap⟩
    obtain ⟨hkind, h⟩ := parseBranch_sound h
    exact ⟨hkind, _, (Tokens.separated_iff (by decide)).mpr ⟨rfl, hgap⟩,
      exists_parseRoute_iff.mp ⟨br, h⟩⟩

/-! ## What is accepted -/

/-- A link or a route is one of the grammar exactly if it is accepted and the parser had nothing
to drop: no text after the closing parenthesis, no parenthesis inside the group, no empty piece
between commas or between arrows, and no dot without a connection. -/
theorem dsl_accepts_iff (name cond line : String) (val : YamlNode) :
    ((∃ l, LinkForm l line.toList) ↔
      (∃ l, parseLink name line = .ok l) ∧ TidyLink line.toList) ∧
    ((val.kind = .scalar ∧ RouteForm val.value.toList) ↔
      (∃ br, parseBranch cond val = .ok br) ∧ Tokens.NoGap isSpace '>' val.value.toList) :=
  ⟨exists_linkForm_iff name line, routeForm_iff cond val⟩

/-- The link of the lines below. -/
def linkAB : Link :=
  { name := "L", dialer := "a", acceptor := "b", dataflow := toAcceptor, protocol := "udp",
    port := 443 }

/-- Text after the parenthesis, a second comma and a second separator of a route are swallowed. -/
theorem dsl_accepts_more :
    parseLink "L" "a -> b (udp, 443) junk" = .ok linkAB ∧
      (¬ ∃ l, LinkForm l "a -> b (udp, 443) junk".toList) ∧
      parseLink "L" "a -> b (udp,, 443)" = .ok linkAB ∧
      (¬ ∃ l, LinkForm l "a -> b (udp,, 443)".toList) ∧
      parseBranch "default" { kind := .scalar, value := "up > > (wan)" } =
        .ok { egress := "wan", up := ["up"] } ∧
      ¬ RouteForm "up > > (wan)".toList := by
  refine ⟨by rfl, ?_, by rfl, ?_, by rfl, ?_⟩
  · rintro ⟨l, h⟩
    have htail := (h.tidy "a -> b ".toList "udp, 443".toList " junk".toList (by rfl)
      (by decide) (by decide)).tail
    exact absurd (htail 'j' (by decide)) (by decide)
  · rintro ⟨l, h⟩
    have hgroup := (h.tidy "a -> b ".toList "udp,, 443".toList "".toList (by rfl)
      (by decide) (by decide)).group
    exact hgroup [] (by decide) (by decide)
  · rintro ⟨ts, hts, -⟩
    exact ((Tokens.separated_iff (by decide)).mp hts).2 [' '] (by decide) (by decide)

/-! ## Printing -/

/-- `strconv.Itoa`. -/
def itoaInt : Int → List Char
  | .ofNat n => (itoa n).toList
  | .negSucc n => '-' :: (itoa (n + 1)).toList

/-- The line of a link. -/
def linkText (l : Link) : String :=
  String.ofList (" ".toList.intercalate (headTokens l) ++
    ' ' :: '(' :: (l.protocol.toList ++ ',' :: ' ' :: itoaInt l.port ++ [')']))

/-- The key of a route. -/
def branchKey (br : Branch) : String := br.when.headD "default"

/-- The tokens of a route. -/
def routeTokens (br : Branch) : List (List Char) :=
  br.up.map String.toList ++ ('(' :: (br.egress.toList ++ [')'])) :: br.down.map String.toList

/-- The route of a branch. -/
def branchText (br : Branch) : String :=
  String.ofList (" > ".toList.intercalate (routeTokens br))

/-- A number is read back from its digits. -/
theorem atoi_itoaInt {n : Int} (hlow : -(2 ^ 63) ≤ n) (hhigh : n < 2 ^ 63) :
    atoi (String.ofList (itoaInt n)) = some n := by
  have hsigned : signed? (itoaInt n) = some n := by
    cases n with
    | ofNat n =>
      rw [itoaInt, show (itoa n).toList = Nat.toDigits 10 n from Nat.toList_repr,
        signed_toDigits]
      rfl
    | negSucc n =>
      rw [itoaInt, signed?, decimal_itoa]
      rfl
  rw [atoi, String.toList_ofList, hsigned, Option.filter_some,
    if_pos (decide_eq_true ⟨hlow, hhigh⟩)]

/-- A number is a token. -/
theorem token_of_atoi {s : List Char} {n : Int} (h : atoi (String.ofList s) = some n) :
    Tokens.Token isSpace ',' s := by
  have hsolid : ∀ c ∈ s, isSpace c = false ∧ c ≠ ',' := by
    intro c hc
    obtain hdigit | rfl | rfl := atoi_chars h c hc
    · have hrange : 48 ≤ c.toNat ∧ c.toNat ≤ 57 := by
        simpa [Char.isDigit, UInt32.le_iff_toNat_le] using hdigit
      refine ⟨?_, by rintro rfl; exact absurd hdigit (by decide)⟩
      simp only [isSpace, Bool.or_eq_false_iff, Bool.and_eq_false_iff, decide_eq_false_iff_not,
        beq_eq_false_iff_ne]
      omega
    · decide
    · decide
  refine ⟨?_, Tokens.trimmed_of_forall fun c hc => (hsolid c hc).1, fun hc => (hsolid _ hc).2 rfl⟩
  rintro rfl
  simp [atoi, signed?, decimal?] at h

/-- A node with its connection is one word. -/
theorem word_nodeText {node source : String} (hnode : NodeName node) (hsource : ConnName source) :
    Tokens.Word isSpace (nodeText node.toList source.toList) := by
  have hne : node.toList ≠ [] := by simpa using hnode.1
  unfold nodeText
  split
  · exact ⟨hne, fun c hc => (hnode.2 c hc).1⟩
  · refine ⟨by simp, fun c hc => ?_⟩
    simp only [List.mem_append, List.mem_cons] at hc
    obtain hc | rfl | hc := hc
    · exact (hnode.2 c hc).1
    · decide
    · exact (hsource c hc).1

/-- So is an arrow. -/
theorem word_arrow {l : Link} (h : LinkNames l) : Tokens.Word isSpace (linkArrow l).text := by
  have hid : ∀ c ∈ l.idSetter.toList, isSpace c = false := fun c hc => (h.idSetter c hc).1
  have hmarks : ∀ c ∈ ['-', '>', '<'], isSpace c = false := by simp [isSpace]
  have hchars : ∀ c ∈ (linkArrow l).text, c ∈ l.idSetter.toList ∨ c ∈ ['-', '>', '<'] := by
    intro c hc
    unfold Arrow.text linkArrow at hc
    split at hc <;> cases l.multiple <;> grind
  have hne : (linkArrow l).text ≠ [] := by
    unfold Arrow.text
    split <;> simp
  exact ⟨hne, fun c hc => (hchars c hc).elim (hid c) (hmarks c)⟩

/-- So is each token of the head. -/
theorem word_headTokens {l : Link} (h : LinkNames l) :
    ∀ t ∈ headTokens l, Tokens.Word isSpace t := by
  intro t ht
  simp only [headTokens, List.mem_cons, List.not_mem_nil, or_false] at ht
  obtain rfl | rfl | rfl := ht
  · exact word_nodeText h.dialer h.dialerSource
  · exact word_arrow h
  · exact word_nodeText h.acceptor h.acceptorSource

/-- The line of a link is one of the grammar. -/
theorem linkForm_linkText {l : Link} (h : LinkNames l) (hlow : -(2 ^ 63) ≤ l.port)
    (hhigh : l.port < 2 ^ 63) : LinkForm l (linkText l).toList := by
  have hport := atoi_itoaInt hlow hhigh
  refine ⟨h, " ".toList.intercalate (headTokens l) ++ [' '],
    l.protocol.toList ++ ',' :: ' ' :: itoaInt l.port, [], itoaInt l.port, ?_,
    Tokens.spaced_join (by decide) (word_headTokens h), ?_, hport, Tokens.blank_nil⟩
  · simp [linkText]
  · have hlast := (Tokens.Separated.last Tokens.blank_nil (token_of_atoi hport)
      Tokens.blank_nil).pad (w := [' ']) (by simp [isSpace])
    simpa using Tokens.Separated.more Tokens.blank_nil h.protocol.1 Tokens.blank_nil hlast

/-- The names a branch can be written with: links that are not parenthesised, and at most one
condition. -/
structure RouteNames (br : Branch) : Prop where
  when : br.when = [] ∨ ∃ cond, br.when = [cond] ∧ cond ≠ "default"
  egress : Tokens.Token isSpace '>' br.egress.toList
  up : ∀ u ∈ br.up, Tokens.Token isSpace '>' u.toList ∧ isEgress u.toList = false
  down : ∀ d ∈ br.down, Tokens.Token isSpace '>' d.toList ∧ isEgress d.toList = false

/-- A route's condition is read back from its key. -/
theorem keyWhen_branchKey {br : Branch} (h : RouteNames br) : keyWhen (branchKey br) = br.when := by
  obtain hwhen | ⟨cond, hwhen, hcond⟩ := h.when
  · simp [keyWhen, branchKey, hwhen]
  · simp [keyWhen, branchKey, hwhen, hcond]

/-- What is in parentheses is an egress. -/
theorem isEgress_paren (e : List Char) : isEgress ('(' :: (e ++ [')'])) = true := by
  have hopen : hasPrefix ('(' :: (e ++ [')'])) ['('] = true := hasPrefix_iff.mpr ⟨_, rfl⟩
  have hclose : hasSuffix ('(' :: (e ++ [')'])) [')'] = true :=
    hasSuffix_iff.mpr ⟨'(' :: e, rfl⟩
  rw [isEgress, hopen, hclose]
  rfl

/-- Its name is read back. -/
theorem unwrap_paren {e : List Char} (h : Tokens.Trimmed isSpace e) :
    unwrap ('(' :: (e ++ [')'])) = e := by
  have hbody : (('(' :: (e ++ [')'])).take (('(' :: (e ++ [')'])).length - 1)).drop 1 = e := by
    simp
  rw [unwrap, hbody]
  exact Tokens.trim_eq_self h

/-- Every token of a printed route can stand between separators. -/
theorem token_routeTokens {br : Branch} (h : RouteNames br) :
    ∀ t ∈ routeTokens br, Tokens.Token isSpace '>' t := by
  intro t ht
  simp only [routeTokens, List.mem_append, List.mem_map, List.mem_cons] at ht
  obtain ⟨u, hu, rfl⟩ | rfl | ⟨d, hd, rfl⟩ := ht
  · exact (h.up u hu).1
  · refine ⟨by simp, ⟨by simp [isSpace], ?_⟩, by simp [h.egress.no_sep]⟩
    rw [← List.cons_append, List.getLast?_concat]
    simp [isSpace]
  · exact (h.down d hd).1

/-- The route of a branch is read as the branch. -/
theorem parseBranch_branchText {br : Branch} (h : RouteNames br) :
    parseBranch (branchKey br) { kind := .scalar, value := branchText br } =
      .ok { br with gateway := "" } := by
  have hsep : Tokens.Separated isSpace '>' (branchText br).toList (routeTokens br) := by
    rw [branchText, String.toList_ofList]
    have hblank : Tokens.Blank isSpace [' '] := by simp [isSpace]
    exact Tokens.separated_join hblank hblank (by simp [routeTokens]) (token_routeTokens h)
  have htokens : splitTrim (branchText br).toList '>' = routeTokens br :=
    ((Tokens.separated_iff (by decide)).mp hsep).1
  have hup : ∀ u ∈ br.up.map String.toList, isEgress u = false := by
    simpa using fun u hu => (h.up u hu).2
  have hdown : ∀ d ∈ br.down.map String.toList, isEgress d = false := by
    simpa using fun d hd => (h.down d hd).2
  rw [parseBranch_scalar rfl, htokens, routeTokens,
    parseRoute_egress (isEgress_paren _) hup hdown, keyWhen_branchKey h,
    unwrap_paren h.egress.trimmed]
  simp

/-! ## The round trip -/

/-- Printing and parsing are inverse, for links and for routes; the pre-shared key of a link and
the gateway of a branch are not written in the notations. -/
theorem dsl_round_trip :
    (∀ l : Link, LinkNames l → -(2 ^ 63) ≤ l.port → l.port < 2 ^ 63 →
      parseLink l.name (linkText l) = .ok { l with psk := "" }) ∧
    ∀ br : Branch, RouteNames br →
      parseBranch (branchKey br) { kind := .scalar, value := branchText br } =
        .ok { br with gateway := "" } :=
  ⟨fun _ h hlow hhigh => parseLink_complete (linkForm_linkText h hlow hhigh),
    fun _ h => parseBranch_branchText h⟩

/-- A link to the dialer with every option. -/
def optionsLink : Link :=
  { name := "L", dialer := "home-pi", dialerSource := "wan.0", acceptor := "gw",
    dataflow := toDialer, multiple := true, idSetter := "utun9", protocol := "udp", port := -4 }

/-- A route with a link on each side. -/
def bothWays : Branch :=
  { when := ["turkey"], egress := "(wan)", up := ["vps up"], down := ["b"] }

/-- Its names can be spelled. -/
theorem linkNames_optionsLink : LinkNames optionsLink where
  dialer := by simp [NodeName, optionsLink, isSpace]
  dialerSource := by simp [ConnName, optionsLink, isSpace]
  acceptor := by simp [NodeName, optionsLink, isSpace]
  acceptorSource := by simp [ConnName, optionsLink]
  dataflow := .inr rfl
  idSetter := by simp [SetterName, optionsLink, isSpace, arrowChars]
  protocol := ⟨⟨by simp [optionsLink], by simp [Tokens.Trimmed, optionsLink, isSpace],
    by simp [optionsLink]⟩, by simp [optionsLink], by simp [optionsLink]⟩

/-- Its names can be spelled. -/
theorem routeNames_bothWays : RouteNames bothWays where
  when := .inr ⟨_, rfl, by decide⟩
  egress := ⟨by simp [bothWays], by simp [Tokens.Trimmed, bothWays, isSpace], by simp [bothWays]⟩
  up := by
    simp only [bothWays, List.mem_singleton, forall_eq]
    exact ⟨⟨by simp, by simp [Tokens.Trimmed, isSpace], by simp⟩, by decide⟩
  down := by
    simp only [bothWays, List.mem_singleton, forall_eq]
    exact ⟨⟨by simp, by simp [Tokens.Trimmed, isSpace], by simp⟩, by decide⟩

/-- It is read back with all its options. -/
theorem dsl_round_trip_options :
    parseLink optionsLink.name (linkText optionsLink) = .ok { optionsLink with psk := "" } ∧
      parseBranch (branchKey bothWays) { kind := .scalar, value := branchText bothWays } =
        .ok { bothWays with gateway := "" } :=
  ⟨dsl_round_trip.1 optionsLink linkNames_optionsLink (by decide) (by decide),
    dsl_round_trip.2 bothWays routeNames_bothWays⟩

/-! ## Whole mappings -/

/-- A mapping of texts to texts. -/
def mappingNode (es : List (String × String)) : YamlNode :=
  { kind := .mapping,
    content := es.flatMap fun e => [{ kind := .scalar, value := e.1 },
      { kind := .scalar, value := e.2 }] }

/-- It is a mapping. -/
@[simp] theorem kind_mappingNode (es : List (String × String)) :
    (mappingNode es).kind = .mapping := rfl

/-- Its entries are read back. -/
theorem entries_mappingNode (es : List (String × String)) :
    YamlNode.entries (mappingNode es).content =
      es.map fun e => ({ kind := .scalar, value := e.1 }, { kind := .scalar, value := e.2 }) := by
  induction es with
  | nil => rfl
  | cons e es ih =>
    simp only [mappingNode] at ih
    simp [mappingNode, YamlNode.entries, ih]

/-- A mapping of printed links is decoded to the links, in the order of the mapping. -/
theorem unmarshalLinks_linkText {ls : List Link}
    (h : ∀ l ∈ ls, LinkNames l ∧ -(2 ^ 63) ≤ l.port ∧ l.port < 2 ^ 63) :
    unmarshalLinks (mappingNode (ls.map fun l => (l.name, linkText l))) =
      .ok (ls.map fun l => { l with psk := "" }) := by
  have hread : (YamlNode.entries (mappingNode (ls.map fun l => (l.name, linkText l))).content).mapM
      (fun e => parseLink e.1.value e.2.value) = .ok (ls.map fun l => { l with psk := "" }) := by
    rw [mapM_eq_ok, entries_mappingNode, List.map_map, List.forall₂_map_left_iff,
      List.forall₂_map_right_iff, List.forall₂_same]
    intro l hl
    obtain ⟨hnames, hlow, hhigh⟩ := h l hl
    exact parseLink_complete (linkForm_linkText hnames hlow hhigh)
  simp [unmarshalLinks, hread, reject, bind, Except.bind]

/-- A mapping of printed routes is decoded to the branches, in the order of the mapping. -/
theorem unmarshalBranches_branchText {brs : List Branch} (h : ∀ br ∈ brs, RouteNames br) :
    unmarshalBranches (mappingNode (brs.map fun br => (branchKey br, branchText br))) =
      .ok (brs.map fun br => { br with gateway := "" }) := by
  have hread : (YamlNode.entries
      (mappingNode (brs.map fun br => (branchKey br, branchText br))).content).mapM
      (fun e => parseBranch e.1.value e.2) =
        .ok (brs.map fun br => { br with gateway := "" }) := by
    rw [mapM_eq_ok, entries_mappingNode, List.map_map, List.forall₂_map_left_iff,
      List.forall₂_map_right_iff, List.forall₂_same]
    intro br hbr
    exact parseBranch_branchText (h br hbr)
  simp [unmarshalBranches, hread, reject, bind, Except.bind]

end Dualnet.Schema.Dsl
