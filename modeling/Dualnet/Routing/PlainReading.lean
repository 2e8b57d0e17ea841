import Dualnet.Routing.Table

/-!
# The compiled router against the plain reading of its table

`plainRead` is what the table says: go down the rows in order, skip those that do not match,
whose target cannot send, rejects the owner or fails a guard, and stop at the first row that
finalizes or delivers. `route_faithful_iff` says exactly when the compiled router, through
`Route` and through `SourceRouter`, does that for every packet and every behaviour of its
surroundings: the finalizer map must not hold an entry under the empty name that some live
forwarding row would pick up.
-/

namespace Dualnet.Routing

open Library Wire

variable {C G F : Type} (isSender : C → Bool) (conns : String → Option C)
  (conditions : String → Option G) (finalizers : String → Option F)

/-- The calls the table prescribes for one packet, after the calls in `log`. -/
def plainRead (ans : Answers C G F) (src : String) (e : Envelope) (payload : Bytes) :
    List Rule → List (Event C G F) → List (Event C G F)
  | [], log => log
  | ru :: rest, log =>
    if !ru.matches e.processed src then plainRead ans src e payload rest log
    else match (conns ru.target).filter isSender with
      | none => plainRead ans src e payload rest log
      | some c =>
        if !ans.accepts log c e.owner then
          plainRead ans src e payload rest (log ++ [.accepts c e.owner false])
        else
          let (ok, log) := allPass ans e.owner (dstIP payload)
            (ru.conditions.filterMap conditions) (log ++ [.accepts c e.owner true])
          if !ok then plainRead ans src e payload rest log
          else match if ru.egress = "" then none else finalizers ru.egress with
            | some f => log ++ [.finalize f e.owner c payload]
            | none =>
              if ans.send log c e payload then log ++ [.send c e payload true]
              else plainRead ans src e payload rest (log ++ [.send c e payload false])

/-- The call disposes of the packet: a finalize, or a delivered send. -/
def Event.delivers : Event C G F → Bool
  | .finalize .. => true
  | .send _ _ _ delivered => delivered
  | _ => false

/-- The call finalizes. -/
def Event.finalizes : Event C G F → Bool
  | .finalize .. => true
  | _ => false

/-- The call passes on the packet's own envelope and payload. -/
def Event.carries (e : Envelope) (payload : Bytes) : Event C G F → Prop
  | .accepts _ owner _ => owner = e.owner
  | .pass _ owner dst _ => owner = e.owner ∧ dst = dstIP payload
  | .send _ e' payload' _ => e' = e ∧ payload' = payload
  | .finalize _ owner _ payload' => owner = e.owner ∧ payload' = payload

/-- What one packet must see: both entry points make the calls the table prescribes, at most
one of them disposes of the packet, all of them carry its envelope and payload unchanged, and
an already processed packet is never finalized. -/
structure Faithful (r : Router C G F) (connName : C → String) (rules : List Rule)
    (ans : Answers C G F) (src : String) (e : Envelope) (payload : Bytes) : Prop where
  route_eq : (r.route ans connName src e payload).1 =
    plainRead isSender conns conditions finalizers ans src e payload rules []
  bound_eq : ((r.sourceRouter ans connName src).elim [] fun intake => (intake e payload).1) =
    plainRead isSender conns conditions finalizers ans src e payload rules []
  once : (r.route ans connName src e payload).1.countP Event.delivers ≤ 1
  carried : ∀ ev ∈ (r.route ans connName src e payload).1, ev.carries e payload
  unprocessed : e.processed = true →
    ∀ ev ∈ (r.route ans connName src e payload).1, ev.finalizes = false

/-- No row that forwards out of a sending connection for one of the sources would find a
finalizer under the empty egress name. -/
def ForwardsForward (rules : List Rule) (sources : List String) : Prop :=
  finalizers "" = none ∨
    ∀ ru ∈ rules, ru.egress = "" → ∀ src ∈ sources, (ru.source = "" ∨ ru.source = src) →
      ∀ c, conns ru.target = some c → isSender c = false

/-! ## What `Compile` resolves -/

/-- The target a row resolves to. -/
structure Resolves (ru : Rule) (t : Target C G F) : Prop where
  finalize : t.finalize = finalizers ru.egress
  conn : conns ru.target = some t.conn
  sender : t.sender = isSender t.conn
  guards : ru.conditions.filterMap conditions = t.guards
  egress : ru.egress ≠ "" → ru.matchProcessed = some false ∧ (finalizers ru.egress).isSome

variable {isSender conns conditions finalizers}

/-- Resolved guards are the guards of the condition names, none missing. -/
theorem resolveGuards_ok {names : List String} {i : Nat} {gs : List G}
    (h : names.mapM (resolveGuard conditions i) = .ok gs) :
    names.filterMap conditions = gs := by
  rw [mapM_eq_ok] at h
  induction h with
  | nil => rfl
  | cons hname _ ih =>
    unfold resolveGuard at hname
    split at hname
    · exact absurd hname (by simp)
    · rename_i g hg
      obtain rfl := Except.ok.inj hname
      rw [List.filterMap_cons, hg, ih]

/-- Inversion of `resolve`. -/
theorem resolve_ok {ru : Rule} {i : Nat} {t : Target C G F} {w : List String}
    (h : resolve isSender conns conditions finalizers ru i = .ok (t, w)) :
    Resolves isSender conns conditions finalizers ru t := by
  simp only [resolve, bind_eq_ok, reject_eq_ok, exists_const] at h
  obtain ⟨hprocessed, hegress, h⟩ := h
  cases hc : conns ru.target with
  | none => simp [hc] at h
  | some c =>
    simp only [hc, bind_eq_ok, reject_eq_ok, exists_const, pure_eq_ok, Prod.mk.injEq] at h
    obtain ⟨-, gs, hgs, rfl, -⟩ := h
    refine ⟨rfl, hc, rfl, resolveGuards_ok hgs, fun hne => ?_⟩
    simp only [Bool.and_eq_false_iff, bne_eq_false_iff_eq] at hprocessed hegress
    exact ⟨hprocessed.resolve_left hne, by simpa using hegress.resolve_left hne⟩

/-- Inversion of `Compile`: the rows resolve one by one, and the list for a known source is
the matching ones in table order. -/
theorem compile_ok {rules : List Rule} {sources : List String} {r : Router C G F}
    (h : compile isSender rules conns sources conditions finalizers = .ok r) :
    ∃ ts, List.Forall₂ (Resolves isSender conns conditions finalizers) rules ts ∧
      ∀ src ∈ sources, ∀ processed, r.compiled processed src =
        ((rules.zip ts).filter fun p => p.1.matches processed src).map Prod.snd := by
  simp only [compile, bind_eq_ok, pure_eq_ok] at h
  obtain ⟨resolved, hresolved, rfl⟩ := h
  rw [mapM_eq_ok] at hresolved
  refine ⟨resolved.map Prod.fst, ?_, fun src hsrc processed => by simp [hsrc]⟩
  have hrows : List.Forall₂ (fun (p : Rule × Nat) (t : Target C G F) =>
      Resolves isSender conns conditions finalizers p.1 t) rules.zipIdx
      (resolved.map Prod.fst) := by
    rw [List.forall₂_map_right_iff]
    exact hresolved.imp fun p q hq => resolve_ok (w := q.2) hq
  have hfst : rules = rules.zipIdx.map Prod.fst := by simp
  rw [hfst, List.forall₂_map_left_iff]
  exact hrows

/-! ## The walk follows the table -/

variable {ans : Answers C G F} {src : String} {e : Envelope} {payload : Bytes}

/-- With no guards to ask, `allPass` passes without a call. -/
@[simp] theorem allPass_nil {owner : Owner} {dst : Option Netip.Addr} {log : List (Event C G F)} :
    allPass ans owner dst [] log = (true, log) := rfl

/-- Walking the matching targets of a table is reading the table, as long as its live
forwarding rows carry no finalizer. The destination is parsed once and reused, so `parsed` is
either empty or the packet's destination. -/
theorem dispatch_eq_plainRead {recorder : Bool} {connName : C → String} {rules : List Rule}
    {ts : List (Target C G F)}
    (hts : List.Forall₂ (Resolves isSender conns conditions finalizers) rules ts)
    (hforward : ∀ ru ∈ rules, ru.matches e.processed src = true → ru.egress = "" →
      ∀ c, conns ru.target = some c → isSender c = true → finalizers "" = none)
    {parsed : Option (Option Netip.Addr)} (hparsed : ∀ dst, parsed = some dst → dst = dstIP payload)
    {log : List (Event C G F)} :
    (dispatch ans recorder connName src e payload parsed
      (((rules.zip ts).filter fun p => p.1.matches e.processed src).map Prod.snd) log).1 =
      plainRead isSender conns conditions finalizers ans src e payload rules log := by
  induction hts generalizing parsed log with
  | nil => rfl
  | @cons ru t rules ts hru _ ih =>
    have ih := @ih fun ru' hru' => hforward ru' (List.mem_cons_of_mem ru hru')
    rw [List.zip_cons_cons, List.filter_cons, plainRead]
    cases hm : ru.matches e.processed src with
    | false => simpa using ih hparsed
    | true =>
      simp only [if_true, List.map_cons, dispatch, hru.sender, hru.conn, Option.filter_some,
        Bool.not_true, Bool.false_eq_true, if_false]
      cases hs : isSender t.conn with
      | false => simpa using ih hparsed
      | true =>
        cases ha : ans.accepts log t.conn e.owner with
        | false => simpa [ha] using ih hparsed
        | true =>
          have hdst : parsed.getD (dstIP payload) = dstIP payload := by
            cases parsed with
            | none => rfl
            | some dst => exact hparsed dst rfl
          have hparsed' : ∀ dst, (if t.guards.isEmpty then parsed
              else some (parsed.getD (dstIP payload))) = some dst → dst = dstIP payload := by
            intro dst h
            split at h
            · exact hparsed dst h
            · rw [← Option.some.inj h, hdst]
          have hpass : ∀ log', (if t.guards.isEmpty then (true, log') else
              allPass ans e.owner ((if t.guards.isEmpty then parsed
                else some (parsed.getD (dstIP payload))).getD none) t.guards log') =
              allPass ans e.owner (dstIP payload) t.guards log' := by
            intro log'
            cases hg : t.guards <;> simp [hdst]
          have hfin : (if ru.egress = "" then none else finalizers ru.egress) =
              t.finalize := by
            rw [hru.finalize]
            split
            · rename_i he
              rw [he, hforward ru List.mem_cons_self hm he t.conn hru.conn hs]
            · rfl
          simp only [Bool.not_true, Bool.false_eq_true, if_false, if_true, ha, hpass,
            hru.guards, hfin]
          cases hp : allPass ans e.owner (dstIP payload) t.guards
              (log ++ [.accepts t.conn e.owner true]) with
          | mk ok log' =>
            cases ok with
            | false => simpa using ih hparsed'
            | true =>
              cases t.finalize with
              | some f => rfl
              | none =>
                cases hd : ans.send log' t.conn e payload with
                | true => simp
                | false => simpa [hd] using ih hparsed'

/-! ## What a reading can do -/

/-- The guards only ask about the packet at hand. -/
theorem allPass_log (gs : List G) (log : List (Event C G F)) :
    ∃ quiet, (allPass ans e.owner (dstIP payload) gs log).2 = log ++ quiet ∧
      ∀ ev ∈ quiet, ev.carries e payload ∧ ev.delivers = false := by
  induction gs generalizing log with
  | nil => exact ⟨[], by simp, by simp⟩
  | cons g gs ih =>
    rw [allPass]
    split
    · obtain ⟨quiet, hlog, hquiet⟩ := ih (log ++ [.pass g e.owner (dstIP payload) true])
      refine ⟨.pass g e.owner (dstIP payload) true :: quiet, by simp [hlog], ?_⟩
      simpa [Event.carries, Event.delivers] using hquiet
    · exact ⟨[.pass g e.owner (dstIP payload) false], rfl, by simp [Event.carries, Event.delivers]⟩

/-- One row either moves on, having only asked and failed to send, or disposes of the packet
with one last call, which finalizes only if the row matches and names an egress. -/
theorem plainRead_cons (ru : Rule) (rest : List Rule) (log : List (Event C G F)) :
    ∃ quiet, (∀ ev ∈ quiet, ev.carries e payload ∧ ev.delivers = false) ∧
      (plainRead isSender conns conditions finalizers ans src e payload (ru :: rest) log =
          plainRead isSender conns conditions finalizers ans src e payload rest (log ++ quiet) ∨
        ∃ last, plainRead isSender conns conditions finalizers ans src e payload (ru :: rest) log =
            log ++ quiet ++ [last] ∧ last.carries e payload ∧
          (last.finalizes = true → ru.matches e.processed src = true ∧ ru.egress ≠ "")) := by
  rw [plainRead]
  split
  · exact ⟨[], by simp, .inl (by simp)⟩
  rename_i hm
  split
  · exact ⟨[], by simp, .inl (by simp)⟩
  rename_i c hc
  split
  · exact ⟨[.accepts c e.owner false], by simp [Event.carries, Event.delivers], .inl rfl⟩
  obtain ⟨asked, hlog, hasked⟩ := @allPass_log _ _ _ ans e payload
    (ru.conditions.filterMap conditions) (log ++ [.accepts c e.owner true])
  have hquiet : ∀ ev ∈ Event.accepts c e.owner true :: asked,
      ev.carries e payload ∧ ev.delivers = false := by
    simpa [Event.carries, Event.delivers] using hasked
  split
  rename_i ok log' hpass
  obtain rfl : log' = log ++ .accepts c e.owner true :: asked := by
    rw [hpass] at hlog
    simpa using hlog
  split
  · exact ⟨_, hquiet, .inl rfl⟩
  split
  · rename_i f hf
    refine ⟨_, hquiet, .inr ⟨.finalize f e.owner c payload, rfl, ⟨rfl, rfl⟩, fun _ => ?_⟩⟩
    refine ⟨by simpa using hm, fun he => ?_⟩
    simp [he] at hf
  split
  · exact ⟨_, hquiet, .inr ⟨.send c e payload true, rfl, ⟨rfl, rfl⟩, by simp [Event.finalizes]⟩⟩
  · refine ⟨.accepts c e.owner true :: asked ++ [.send c e payload false], ?_, .inl (by simp)⟩
    intro ev hev
    rcases List.mem_append.mp hev with hev | hev
    · exact hquiet ev hev
    · obtain rfl := List.mem_singleton.mp hev
      exact ⟨⟨rfl, rfl⟩, rfl⟩

/-- A whole reading asks, then makes at most one last call that can dispose of the packet. -/
theorem plainRead_log (rules : List Rule) (log : List (Event C G F)) :
    ∃ quiet last, plainRead isSender conns conditions finalizers ans src e payload rules log =
        log ++ quiet ++ Option.toList last ∧
      (∀ ev ∈ quiet, ev.carries e payload ∧ ev.delivers = false) ∧
      ∀ ev ∈ last, ev.carries e payload ∧ (ev.finalizes = true →
        ∃ ru ∈ rules, ru.matches e.processed src = true ∧ ru.egress ≠ "") := by
  induction rules generalizing log with
  | nil => exact ⟨[], none, by simp [plainRead], by simp, by simp⟩
  | cons ru rest ih =>
    obtain ⟨quiet, hquiet, hnext | ⟨last, hlast, hcarries, hfin⟩⟩ :=
      @plainRead_cons _ _ _ isSender conns conditions finalizers ans src e payload ru rest log
    · obtain ⟨quiet', last, hrest, hquiet', hlast⟩ := ih (log ++ quiet)
      refine ⟨quiet ++ quiet', last, by rw [hnext, hrest]; simp, ?_, fun ev hev => ?_⟩
      · intro ev hev
        exact (List.mem_append.mp hev).elim (hquiet ev) (hquiet' ev)
      · obtain ⟨hcarries, hfin⟩ := hlast ev hev
        refine ⟨hcarries, fun h => ?_⟩
        obtain ⟨ru', hru', hrule⟩ := hfin h
        exact ⟨ru', List.mem_cons_of_mem ru hru', hrule⟩
    · refine ⟨quiet, some last, by simpa using hlast, hquiet, ?_⟩
      rintro ev ⟨⟩
      exact ⟨hcarries, fun h => ⟨ru, List.mem_cons_self, hfin h⟩⟩

/-! ## When the router is faithful -/

/-- The intake `SourceRouter` binds makes the calls `Route` makes; where there is no intake,
`Route` makes none. -/
theorem sourceRouter_eq_route (r : Router C G F) (connName : C → String) :
    ((r.sourceRouter ans connName src).elim [] fun intake => (intake e payload).1) =
      (r.route ans connName src e payload).1 := by
  have hlist : (if e.processed = true then r.compiled true src else r.compiled false src) =
      r.compiled e.processed src := by
    cases e.processed <;> rfl
  simp only [Router.sourceRouter, Router.route]
  split
  · rename_i hempty
    rw [Bool.and_eq_true, List.isEmpty_iff, List.isEmpty_iff] at hempty
    have hnil : r.compiled e.processed src = [] := by
      rw [← hlist, hempty.1, hempty.2, ite_self]
    simp [hnil, dispatch]
  · simp [hlist]

/-- A reading disposes of the packet at most once. -/
theorem plainRead_once (rules : List Rule) :
    (plainRead isSender conns conditions finalizers ans src e payload rules []).countP
      Event.delivers ≤ 1 := by
  obtain ⟨quiet, last, hlog, hquiet, -⟩ := @plainRead_log _ _ _ isSender conns
    conditions finalizers ans src e payload rules []
  have hzero : quiet.countP Event.delivers = 0 :=
    List.countP_eq_zero.mpr fun ev hev => by simp [(hquiet ev hev).2]
  have hone : (Option.toList last).countP Event.delivers ≤ 1 :=
    le_trans List.countP_le_length (by cases last <;> simp)
  rw [hlog, List.nil_append, List.countP_append]
  omega

/-- Every call of a reading carries the packet, and one that finalizes comes from a matching
row with an egress. -/
theorem plainRead_mem {rules : List Rule} {ev : Event C G F}
    (hev : ev ∈ plainRead isSender conns conditions finalizers ans src e payload rules []) :
    ev.carries e payload ∧ (ev.finalizes = true →
      ∃ ru ∈ rules, ru.matches e.processed src = true ∧ ru.egress ≠ "") := by
  obtain ⟨quiet, last, hlog, hquiet, hlast⟩ := @plainRead_log _ _ _ isSender conns
    conditions finalizers ans src e payload rules []
  rw [hlog, List.nil_append] at hev
  rcases List.mem_append.mp hev with hev | hev
  · obtain ⟨hcarries, hdelivers⟩ := hquiet ev hev
    refine ⟨hcarries, fun hfin => ?_⟩
    cases ev <;> simp_all [Event.delivers, Event.finalizes]
  · exact hlast ev (Option.mem_toList.mp hev)

/-- When no live forwarding row finds a finalizer, every packet from a known source is routed
as the table says. -/
theorem faithful_of_forwardsForward {rules : List Rule} {sources : List String} {r : Router C G F}
    (h : compile isSender rules conns sources conditions finalizers = .ok r)
    (hforward : ForwardsForward isSender conns finalizers rules sources)
    {connName : C → String} {recorder : Bool} (hsrc : src ∈ sources) :
    Faithful isSender conns conditions finalizers { r with recorder := recorder } connName rules
      ans src e payload := by
  obtain ⟨ts, hts, hcompiled⟩ := compile_ok h
  have hlive : ∀ ru ∈ rules, ru.matches e.processed src = true → ru.egress = "" →
      ∀ c, conns ru.target = some c → isSender c = true → finalizers "" = none := by
    intro ru hru hm he c hc hs
    refine hforward.resolve_right fun hdead => ?_
    have hsource : ru.source = "" ∨ ru.source = src := by
      simpa [Rule.matches] using (Bool.and_eq_true_iff.mp hm).2
    simp [hdead ru hru he src hsrc hsource c hc] at hs
  have hroute : (({ r with recorder := recorder } : Router C G F).route ans connName src e
      payload).1 = plainRead isSender conns conditions finalizers ans src e payload rules [] := by
    rw [Router.route, hcompiled src hsrc]
    exact dispatch_eq_plainRead hts hlive (by simp)
  refine ⟨hroute, (sourceRouter_eq_route _ connName).trans hroute, ?_, ?_, ?_⟩
  · rw [hroute]
    exact plainRead_once rules
  · rw [hroute]
    exact fun ev hev => (plainRead_mem hev).1
  · rw [hroute]
    intro hprocessed ev hev
    by_contra hfin
    obtain ⟨ru, hru, hm, he⟩ := (plainRead_mem hev).2 (by simpa using hfin)
    -- `Compile` refuses an egress row that can match a processed packet.
    obtain ⟨t, -, ht⟩ := exists_of_forall₂_mem hts hru
    simp [Rule.matches, (ht.egress he).1, hprocessed] at hm

/-! ## A forwarding row with a finalizer is not faithful -/

variable (isSender conns) in
/-- The refusals a packet collects from the rows when every target rejects its owner. -/
def refusals (src : String) (e : Envelope) (rules : List Rule) : List (Event C G F) :=
  rules.filterMap fun ru =>
    if ru.matches e.processed src then
      ((conns ru.target).filter isSender).map fun c => .accepts c e.owner false
    else none

/-- Answers that reject the owner until `n` calls were made, then agree to everything. -/
def acceptAfter (n : Nat) : Answers C G F :=
  ⟨fun log _ _ => n ≤ log.length, fun _ _ _ _ => true, fun _ _ _ _ => true⟩

/-- Until the answers turn, nobody accepts. -/
theorem acceptAfter_refuses {n : Nat} {log : List (Event C G F)} (hn : log.length < n) (c : C)
    (owner : Owner) : (acceptAfter n : Answers C G F).accepts log c owner = false := by
  simp only [acceptAfter, decide_eq_false_iff_not]
  omega

/-- Until the answers turn, the compiled walk collects the rows' refusals. -/
theorem dispatch_refusals {recorder : Bool} {connName : C → String} {rules : List Rule}
    {ts rest : List (Target C G F)} {parsed : Option (Option Netip.Addr)} {n : Nat}
    (hts : List.Forall₂ (Resolves isSender conns conditions finalizers) rules ts)
    {log : List (Event C G F)}
    (hn : log.length + (refusals (G := G) (F := F) isSender conns src e rules).length ≤ n) :
    dispatch (acceptAfter n) recorder connName src e payload parsed
      (((rules.zip ts).filter fun p => p.1.matches e.processed src).map Prod.snd ++ rest) log =
      dispatch (acceptAfter n) recorder connName src e payload parsed rest
        (log ++ refusals isSender conns src e rules) := by
  induction hts generalizing log with
  | nil => simp [refusals]
  | @cons ru t rules ts hru _ ih =>
    rw [List.zip_cons_cons, List.filter_cons]
    rw [refusals, List.filterMap_cons] at hn ⊢
    cases hm : ru.matches e.processed src with
    | false =>
      simp only [hm, Bool.false_eq_true, if_false] at hn ⊢
      exact ih hn
    | true =>
      simp only [hm, if_true, hru.conn, Option.filter_some] at hn ⊢
      rw [List.map_cons, List.cons_append, dispatch, hru.sender]
      cases hs : isSender t.conn with
      | false =>
        simp only [hs, Bool.false_eq_true, if_false, Option.map_none, Bool.not_false,
          if_true] at hn ⊢
        exact ih hn
      | true =>
        simp only [hs, if_true, Option.map_some, List.length_cons] at hn ⊢
        have hrefuse := acceptAfter_refuses (G := G) (F := F)
          (show log.length < n by omega) t.conn e.owner
        simp only [hrefuse, Bool.not_true, Bool.not_false, Bool.false_eq_true, if_false,
          if_true]
        rw [ih (by rw [List.length_append, List.length_singleton, refusals]; omega)]
        simp [refusals]

/-- Until the answers turn, the plain reading collects the same refusals. -/
theorem plainRead_refusals {rules rest : List Rule} {n : Nat} {log : List (Event C G F)}
    (hn : log.length + (refusals (G := G) (F := F) isSender conns src e rules).length ≤ n) :
    plainRead isSender conns conditions finalizers (acceptAfter n) src e payload
      (rules ++ rest) log =
      plainRead isSender conns conditions finalizers (acceptAfter n) src e payload rest
        (log ++ refusals isSender conns src e rules) := by
  induction rules generalizing log with
  | nil => simp [refusals]
  | cons ru rules ih =>
    rw [List.cons_append, plainRead]
    rw [refusals, List.filterMap_cons] at hn ⊢
    cases hm : ru.matches e.processed src with
    | false =>
      simp only [hm, Bool.false_eq_true, if_false, Bool.not_false, if_true] at hn ⊢
      exact ih hn
    | true =>
      simp only [hm, if_true, Bool.not_true, Bool.false_eq_true, if_false] at hn ⊢
      cases hc : (conns ru.target).filter isSender with
      | none =>
        simp only [hc, Option.map_none] at hn ⊢
        exact ih hn
      | some c =>
        simp only [hc, Option.map_some, List.length_cons] at hn ⊢
        have hrefuse := acceptAfter_refuses (G := G) (F := F)
          (show log.length < n by omega) c e.owner
        simp only [hrefuse, Bool.not_false, if_true]
        rw [ih (by rw [List.length_append, List.length_singleton, refusals]; omega)]
        simp [refusals]

/-- Once the answers turned, every guard passes. -/
theorem allPass_acceptAfter (n : Nat) (owner : Owner) (dst : Option Netip.Addr) (gs : List G)
    (log : List (Event C G F)) :
    allPass (acceptAfter n) owner dst gs log =
      (true, log ++ gs.map fun g => .pass g owner dst true) := by
  induction gs generalizing log with
  | nil => simp
  | cons g gs ih =>
    have hpass : (acceptAfter n : Answers C G F).pass log g owner dst = true := rfl
    rw [allPass, hpass, if_pos rfl, ih]
    simp

/-- A live forwarding row that finds a finalizer hands some packet to it instead of sending. -/
theorem not_faithful_of_finalizer {rules : List Rule} {sources : List String} {r : Router C G F}
    (h : compile isSender rules conns sources conditions finalizers = .ok r)
    {f : F} (hf : finalizers "" = some f) {ru : Rule} (hru : ru ∈ rules) (he : ru.egress = "")
    (hsrc : src ∈ sources) (hsource : ru.source = "" ∨ ru.source = src)
    {c : C} (hc : conns ru.target = some c) (hs : isSender c = true)
    (connName : C → String) :
    ∃ ans e, ¬ Faithful isSender conns conditions finalizers r connName rules ans src e [] := by
  obtain ⟨ts, hts, hcompiled⟩ := compile_ok h
  obtain ⟨pre, post, rfl⟩ := List.append_of_mem hru
  obtain ⟨tpre, trest, rfl, hpre, hrest⟩ := forall₂_append_left hts
  obtain ⟨t, tpost, ht, -, rfl⟩ := List.forall₂_cons_left_iff.mp hrest
  -- A packet the row matches, offered to it only after every earlier row refused it.
  let e : Envelope := ⟨Owner.zero, ru.matchProcessed.getD false⟩
  have hm : ru.matches e.processed src = true := by
    rcases hsource with hsource | hsource <;>
      cases hp : ru.matchProcessed <;> simp [Rule.matches, hsource, hp, e]
  let n := (refusals (G := G) (F := F) isSender conns src e pre).length
  refine ⟨acceptAfter n, e, fun hfaithful => ?_⟩
  have haccept : ∀ c', (acceptAfter n : Answers C G F).accepts
      ([] ++ refusals isSender conns src e pre) c' e.owner = true := by
    simp [acceptAfter, n]
  obtain rfl : t.conn = c := Option.some.inj (ht.conn.symm.trans hc)
  have hfin : t.finalize = some f := by rw [ht.finalize, he, hf]
  have hroute : ∃ log, (r.route (acceptAfter n) connName src e []).1 =
      log ++ [.finalize f e.owner t.conn []] := by
    rw [Router.route, hcompiled src hsrc, List.zip_append hpre.length_eq, List.filter_append,
      List.map_append, dispatch_refusals hpre (by simp [n])]
    simp only [List.zip_cons_cons, List.filter_cons, hm, if_true, List.map_cons, dispatch,
      ht.sender, hs, haccept, Bool.not_true, Bool.false_eq_true, if_false, hfin,
      allPass_acceptAfter]
    split <;> exact ⟨_, rfl⟩
  have hplain : ∃ log, plainRead isSender conns conditions finalizers (acceptAfter n) src e []
      (pre ++ ru :: post) [] = log ++ [.send t.conn e [] true] := by
    rw [plainRead_refusals (by simp [n]), plainRead]
    simp only [hm, hc, hs, Option.filter_some, if_true, haccept, Bool.not_true,
      Bool.false_eq_true, if_false, he, allPass_acceptAfter]
    exact ⟨_, rfl⟩
  obtain ⟨log, hroute⟩ := hroute
  obtain ⟨log', hplain⟩ := hplain
  have hlast := congrArg List.getLast? (hroute.symm.trans (hfaithful.route_eq.trans hplain))
  simp at hlast

/-- The compiled router is the plain reading of its table, for every packet of every known
source and whatever the surroundings answer, exactly when no live forwarding row finds a
finalizer under the empty egress name. -/
theorem route_faithful_iff {rules : List Rule} {sources : List String} {r : Router C G F}
    (h : compile isSender rules conns sources conditions finalizers = .ok r)
    (connName : C → String) :
    (∀ recorder, ∀ src ∈ sources, ∀ ans e payload, Faithful isSender conns conditions finalizers
        { r with recorder := recorder } connName rules ans src e payload) ↔
      ForwardsForward isSender conns finalizers rules sources := by
  constructor
  · intro hfaithful
    cases hf : finalizers "" with
    | none => exact .inl hf
    | some f =>
      refine .inr fun ru hru he src hsrc hsource c hc => ?_
      by_contra hs
      obtain ⟨ans, e, hnot⟩ := not_faithful_of_finalizer h hf hru he hsrc hsource hc
        (Bool.not_eq_false _ ▸ hs) connName
      exact hnot (hfaithful r.recorder src hsrc ans e [])
  · intro hforward recorder src hsrc ans e payload
    exact faithful_of_forwardsForward h hforward hsrc

/-- A two-row table: what arrives on `tun` goes out through `wan`, replies return to `tun`. -/
def edgeTable : List Rule :=
  [⟨some false, "tun", ["up"], "wan", "tun"⟩, ⟨some true, "link", [], "", "tun"⟩]

/-- The edge table's router is its plain reading. -/
theorem edgeTable_faithful : ∃ r, compile (fun _ => true) edgeTable some ["tun", "link"] some
      (fun name => if name = "wan" then some name else none) = .ok r ∧
    ∀ recorder, ∀ src ∈ ["tun", "link"], ∀ ans e payload, Faithful (fun _ => true) some some
      (fun name => if name = "wan" then some name else none) { r with recorder := recorder } id
      edgeTable ans src e payload :=
  ⟨_, rfl, (route_faithful_iff rfl id).mpr (.inl (by decide))⟩

/-- With a finalizer registered under the empty name, the forwarding row of a processed packet
hands it to that finalizer. -/
theorem processed_finalized : ∃ r, compile (fun _ => true) [⟨some true, "link", [], "", "tun"⟩]
      some ["link"] some (fun name => if name = "" then some "nat" else none) = .ok r ∧
    ¬ Faithful (fun _ => true) some some (fun name => if name = "" then some "nat" else none) r id
      [⟨some true, "link", [], "", "tun"⟩] (acceptAfter 0) "link" ⟨Owner.zero, true⟩ [] := by
  refine ⟨_, rfl, fun h => ?_⟩
  have hfin := h.unprocessed rfl (.finalize "nat" Owner.zero "tun" []) (by
    simp [Router.route, Rule.matches, dispatch, acceptAfter])
  exact absurd hfin (by decide)

end Dualnet.Routing
