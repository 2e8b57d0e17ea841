import Dualnet.Config.Validate

/-!
# What an accepted userspace configuration guarantees

`validateUserspace` collects the connections by name and the conditions by kind while it checks.
`Resolved` says what those checks leave behind without the maps of the loops: connections
indexed by name, every healthcheck with an outgoing first up-link and a tun of its own, every
route with a known target, source, egress and conditions.
-/

namespace Dualnet.Config

open Library Text

/-- The connections by name. -/
def Node.byName (n : Node) : FMap String Connection := FMap.index Connection.name n.connections

/-- A healthcheck that can be run: its first up-link sends and its tun exists. -/
structure Probeable (n : Node) (hc : HealthcheckSpec) : Prop where
  via : ∃ up rest c, hc.up = up :: rest ∧ n.byName.lookup up = some c ∧ c.type ≠ "tun" ∧
    c.direction = "outgoing"
  named : hc.tun ≠ "" → ∃ t, n.byName.lookup hc.tun = some t ∧ t.type = "tun"
  only : hc.tun = "" → ∃ t, n.connections.filter (·.type == "tun") = [t]

/-- A route whose names all resolve. -/
structure RouteResolved (n : Node) (r : Route) : Prop where
  target : (n.byName.lookup r.action.target).isSome
  source : r.on.source ≠ "" → (n.byName.lookup r.on.source).isSome
  egress : r.action.egress ≠ "" →
    (n.egresses.lookup r.action.egress).isSome ∧ r.on.processed = some false
  conditions : ∀ cn ∈ r.on.conditions, ∃ c ∈ n.conditions, c.name = cn

/-- What `validateUserspace` established. -/
structure Resolved (n : Node) : Prop where
  names : (n.connections.map Connection.name).Nodup
  conditions : ∀ c ∈ n.conditions, (∃ set, c.dstIn = some set ∧ c.healthcheck = none) ∨
    ∃ hc, c.dstIn = none ∧ c.healthcheck = some hc ∧ Probeable n hc
  routes : ∀ r ∈ n.routes, RouteResolved n r

/-- The connection loop collects exactly an index by name. -/
theorem validateConnections_index {psk : String} {l : List Connection} {st st' : ConnState}
    (h : l.foldlM (validateConnection psk) st = .ok st') :
    st'.names = l.foldl (fun m c => m.insert c.name c) st.names := by
  induction l generalizing st with
  | nil =>
    rw [List.foldlM_nil, pure_eq_ok] at h
    rw [h, List.foldl_nil]
  | cons c l ih =>
    rw [List.foldlM_cons, bind_eq_ok] at h
    obtain ⟨next, hstep, hrest⟩ := h
    simp only [validateConnection, bind_eq_ok, reject_eq_ok, exists_const] at hstep
    obtain ⟨-, -, -, _, -, hconn⟩ := hstep
    rw [ih hrest, List.foldl_cons, validateConn_names hconn]

/-- The up-link and the tun of a healthcheck that passed its two checks. -/
theorem probeable_of_checks {n : Node} {cond tun : String} {hc : HealthcheckSpec}
    (hprobe : validateProbe n.byName cond hc = .ok ())
    (htun : healthTun n.connections n.byName cond hc = .ok tun) : Probeable n hc where
  via := by
    unfold validateProbe at hprobe
    split at hprobe
    · cases hprobe
    · rename_i up rest hup
      split at hprobe
      · cases hprobe
      · rename_i c hc
        simp only [bind_eq_ok, reject_eq_ok, exists_const, beq_eq_false_iff_ne, ne_eq,
          bne_eq_false_iff_eq] at hprobe
        exact ⟨up, rest, c, hup, hc, hprobe.1, hprobe.2⟩
  named hne := by
    rw [healthTun, if_neg hne] at htun
    split at htun
    · rename_i t ht
      split at htun
      · exact ⟨t, ht, ‹_›⟩
      · cases htun
    · cases htun
  only he := by
    rw [healthTun, if_pos he] at htun
    split at htun
    · cases htun
    · exact ⟨_, ‹_›⟩
    · cases htun

/-- The condition loop accepts a condition as one of the two kinds. -/
theorem validateCondition_kind {n : Node} {st st' : FMap String CondKind × List String}
    {c : Condition} (h : validateCondition n.connections n.byName st c = .ok st') :
    (∃ set, c.dstIn = some set ∧ c.healthcheck = none) ∨
      ∃ hc, c.dstIn = none ∧ c.healthcheck = some hc ∧ Probeable n hc := by
  simp only [validateCondition, bind_eq_ok, reject_eq_ok, exists_const] at h
  obtain ⟨_, -, -, h⟩ := h
  split at h
  · exact .inl ⟨_, ‹_›, ‹_›⟩
  · simp only [bind_eq_ok] at h
    obtain ⟨_, hprobe, tun, htun, -⟩ := h
    exact .inr ⟨_, ‹_›, ‹_›, probeable_of_checks hprobe htun⟩
  · cases h

/-- A round of the condition loop records the name of its condition only. -/
theorem validateCondition_lookup {connections : List Connection} {names : FMap String Connection}
    {st st' : FMap String CondKind × List String} {c : Condition}
    (h : validateCondition connections names st c = .ok st') (cn : String)
    (hcn : cn ≠ c.name) : st'.1.lookup cn = st.1.lookup cn := by
  simp only [validateCondition, bind_eq_ok, reject_eq_ok, exists_const] at h
  obtain ⟨_, -, -, h⟩ := h
  split at h
  · simp only [bind_eq_ok, pure_eq_ok] at h
    obtain ⟨_, -, rfl⟩ := h
    rw [FMap.lookup_insert_ite, if_neg hcn]
  · simp only [bind_eq_ok, reject_eq_ok, exists_const, pure_eq_ok] at h
    obtain ⟨_, -, _, -, -, rfl⟩ := h
    rw [FMap.lookup_insert_ite, if_neg hcn]
  · cases h

/-- Every name the condition loop recorded is a condition's. -/
theorem validateConditions_known {connections : List Connection} {names : FMap String Connection}
    {l : List Condition} {st : FMap String CondKind × List String}
    (h : l.foldlM (validateCondition connections names) (∅, []) = .ok st) (cn : String)
    (hcn : (st.1.lookup cn).isSome) : ∃ c ∈ l, c.name = cn := by
  refine foldlM_invariant (fun st => (st.1.lookup cn).isSome → ∃ c ∈ l, c.name = cn) ?_ h
    (by simp) hcn
  intro c hc st st' hstep hst hsome
  by_cases hname : cn = c.name
  · exact ⟨c, hc, hname.symm⟩
  · exact hst (validateCondition_lookup hstep cn hname ▸ hsome)

/-- What a round of the route loop checked. -/
theorem validateRoute_eq_ok {names : FMap String Connection} {egresses : FMap String Egress}
    {conds : FMap String CondKind} {i : Nat} {r : Route}
    (h : validateRoute names egresses conds i r = .ok ()) :
    (names.lookup r.action.target).isSome ∧
      (r.on.source ≠ "" → (names.lookup r.on.source).isSome) ∧
      (r.action.egress ≠ "" →
        (egresses.lookup r.action.egress).isSome ∧ r.on.processed = some false) ∧
      ∀ cn ∈ r.on.conditions, (conds.lookup cn).isSome := by
  simp only [validateRoute, bind_eq_ok, reject_eq_ok, exists_const] at h
  obtain ⟨htarget, hsource, h⟩ := h
  have htarget : (names.lookup r.action.target).isSome := by
    cases hfound : names.lookup r.action.target with
    | none => simp [hfound] at htarget
    | some c => rfl
  have hsource : r.on.source ≠ "" → (names.lookup r.on.source).isSome := by
    intro hne
    cases hfound : names.lookup r.on.source with
    | none => simp [hfound, hne] at hsource
    | some c => rfl
  -- Both branches of the egress check end in the loop over the conditions.
  have hconds : ∀ cn ∈ r.on.conditions, (conds.lookup cn).isSome := by
    intro cn hcn
    cases hfound : conds.lookup cn with
    | some kind => rfl
    | none =>
      split at h
      · simp only [bind_eq_ok, forM_eq_ok] at h
        obtain ⟨_, -, _, -, h⟩ := h
        simpa [hfound] using h cn hcn
      · simpa [hfound] using forM_eq_ok.mp h cn hcn
  refine ⟨htarget, hsource, fun hne => ?_, hconds⟩
  rw [if_pos hne] at h
  simp only [bind_eq_ok, reject_eq_ok, exists_const, bne_eq_false_iff_eq] at h
  obtain ⟨hegress, hprocessed, -⟩ := h
  exact ⟨by simpa [Option.isSome_iff_ne_none] using hegress, hprocessed⟩

/-- The subnet of an accepted configuration parses. -/
theorem Node.subnet_of_validate {n : Node} (h : n.validate = .ok ()) :
    ∃ p, Netip.parsePrefix n.subnet = .ok p := by
  simp only [Node.validate, bind_eq_ok, wrap_eq_ok] at h
  obtain ⟨_, -, _, hsubnet, -⟩ := h
  cases hp : Netip.parsePrefix n.subnet with
  | error e => simp [hp, Except.map] at hsubnet
  | ok p => exact ⟨p, rfl⟩

/-- An accepted userspace configuration is resolved. -/
theorem Node.resolved {n : Node} (h : n.validate = .ok ())
    (hdatapath : n.datapath = "" ∨ n.datapath = "userspace") : Resolved n := by
  simp only [Node.validate, bind_eq_ok, reject_eq_ok, exists_const, if_pos hdatapath,
    Node.validateUserspace, forM_eq_ok] at h
  obtain ⟨-, _, -, -, -, st, hconns, -, -, -, conds, hconds, hroutes⟩ := h
  have hindex : st.names = n.byName := validateConnections_index hconns
  rw [hindex] at hconds hroutes
  refine ⟨(validateConnections_names hconns).1, fun c hc => ?_, fun r hr => ?_⟩
  · obtain ⟨_, _, hstep⟩ := foldlM_steps hconds hc
    exact validateCondition_kind hstep
  · obtain ⟨i, hi, rfl⟩ := List.getElem_of_mem hr
    obtain ⟨htarget, hsource, hegress, hknown⟩ := validateRoute_eq_ok
      (hroutes (n.routes[i], i) (List.mk_mem_zipIdx_iff_getElem?.mpr (by simp [hi])))
    exact ⟨htarget, hsource, hegress,
      fun cn hcn => validateConditions_known hconds cn (hknown cn hcn)⟩

end Dualnet.Config
