import Dualnet.Config.Validate
import Dualnet.Library.Reorder

/-!
# Validation in any order

The loops of `Validate` over conditions and over the egresses of a kernel node each claim names and
devices, so they accept in any order what they accept in one. `Permuted.validate`: validation does
not depend on the order of a configuration's conditions and egresses.
-/

namespace Dualnet.Config

open Library Text

/-- The same configuration with its conditions and egresses in another order. -/
structure Node.Permuted (n n' : Node) : Prop where
  fields : n' = { n with conditions := n'.conditions, egresses := n'.egresses }
  conditions : n.conditions.Perm n'.conditions
  egresses : n.egresses.Same n'.egresses

/-! ## What a round claims -/

/-- The WireGuard device an egress of a kernel node claims. -/
inductive EgressClaim (e : Σ _ : String, Egress) : Option (String × String) → Prop where
  | kernel (hmode : e.2.mode = "kernel") (hexit : e.2.extIface ≠ "")
      (hwarp : (e.2.tunName != "" || e.2.warpConfig != "" || e.2.warpCache != "" ||
        e.2.warpInsecure) = false) : EgressClaim e none
  | warp (hmode : e.2.mode = "warp") (hexit : e.2.extIface ≠ "")
      (hname : validateIfaceName e.2.tunName = .ok ()) : EgressClaim e (some (e.2.tunName, e.1))

/-- What an egress claims. -/
theorem validateKernelMode_claims {devs devs' : FMap String String} {e : Σ _ : String, Egress} :
    validateKernelMode devs e.1 e.2 = .ok devs' ↔
      ∃ d, EgressClaim e d ∧ Claiming.map.free d devs ∧ devs' = Claiming.map.take d devs := by
  constructor
  · intro h
    unfold validateKernelMode at h
    split at h
    · rename_i hmode
      simp only [bind_eq_ok, reject_eq_ok, exists_const, pure_eq_ok] at h
      exact ⟨none, .kernel hmode (by simpa using h.1) h.2.1, by simp [Claiming.map], h.2.2.symm⟩
    · split at h
      · rename_i hmode
        simp only [bind_eq_ok, reject_eq_ok, exists_const] at h
        obtain ⟨hexit, h⟩ := h
        split at h
        · cases h
        · rename_i hname
          split at h
          · cases h
          · rename_i hfree
            rw [pure_eq_ok] at h
            exact ⟨_, .warp hmode (by simpa using hexit) hname, by simpa [Claiming.map] using hfree,
              h.symm⟩
      · cases h
  · rintro ⟨d, hclaim, hfree, rfl⟩
    cases hclaim with
    | kernel hmode hexit hwarp =>
      rw [validateKernelMode, if_pos hmode]
      simp only [bind_eq_ok, reject_eq_ok, exists_const, pure_eq_ok]
      exact ⟨by simpa using hexit, hwarp, rfl⟩
    | warp hmode hexit hname =>
      have hfree : devs.lookup e.2.tunName = none := by simpa [Claiming.map] using hfree
      rw [validateKernelMode, if_neg (by simp [hmode]), if_pos hmode, hname]
      dsimp only
      rw [hfree]
      simp only [bind_eq_ok, reject_eq_ok, exists_const, pure_eq_ok]
      exact ⟨by simpa using hexit, rfl⟩

/-- What it claims besides its checks. -/
theorem validateKernelEgress_claims (devs : FMap String String) (e : Σ _ : String, Egress)
    (devs' : FMap String String) :
    validateKernelEgress devs e = .ok devs' ↔
      ∃ d, (EgressClaim e d ∧
        validateGateway s!"config: kernel node egress {quote e.1}" e.2 = .ok ()) ∧
        Claiming.map.free d devs ∧ devs' = Claiming.map.take d devs := by
  simp only [validateKernelEgress, bind_eq_ok, pure_eq_ok, validateKernelMode_claims]
  constructor
  · rintro ⟨mid, ⟨d, hclaim, hfree, rfl⟩, _, hgateway, rfl⟩
    exact ⟨d, ⟨hclaim, hgateway⟩, hfree, rfl⟩
  · rintro ⟨d, ⟨hclaim, hgateway⟩, hfree, rfl⟩
    exact ⟨_, ⟨d, hclaim, hfree, rfl⟩, _, hgateway, rfl⟩

/-- The egress loop of a kernel node may run in any order. -/
theorem validateKernelEgresses_perm {eg eg' : FMap String Egress} (h : eg.Same eg') :
    Agree (fun _ _ => True) (eg.entries.foldlM validateKernelEgress ∅)
      (eg'.entries.foldlM validateKernelEgress ∅) :=
  (Claiming.map.foldlM_perm validateKernelEgress_claims h ∅).mono
    fun _ _ _ => trivial

/-- What a condition of a userspace node claims: its name, and for a healthcheck the tun. -/
inductive ConditionClaim (connections : List Connection) (names : FMap String Connection)
    (c : Condition) : Option (String × CondKind) × Option String → Prop where
  | dst {set : IPSet} (hdst : c.dstIn = some set) (hhealth : c.healthcheck = none)
      (hset : set.validate c.name = .ok ()) :
      ConditionClaim connections names c (some (c.name, .dst), none)
  | health {hc : HealthcheckSpec} {tun : String} (hdst : c.dstIn = none)
      (hhealth : c.healthcheck = some hc) (hprobe : validateProbe names c.name hc = .ok ())
      (htun : healthTun connections names c.name hc = .ok tun) :
      ConditionClaim connections names c (some (c.name, .health), some tun)

/-- A name that is new. -/
theorem validateCondName_eq_ok {conds : FMap String CondKind} {name : String} :
    validateCondName conds name = .ok () ↔ name ≠ "" ∧ conds.lookup name = none := by
  simp only [validateCondName, bind_eq_ok, reject_eq_ok, exists_const]
  simp

/-- What a condition claims. -/
theorem validateCondition_claims {connections : List Connection} {names : FMap String Connection}
    (st : FMap String CondKind × List String) (c : Condition)
    (st' : FMap String CondKind × List String) :
    validateCondition connections names st c = .ok st' ↔
      ∃ d, (c.name ≠ "" ∧ c.srcIn = none ∧ ConditionClaim connections names c d) ∧
        (Claiming.map.prod Claiming.list).free d st ∧
        st' = (Claiming.map.prod Claiming.list).take d st := by
  obtain ⟨conds, tuns⟩ := st
  constructor
  · intro hok
    simp only [validateCondition, bind_eq_ok, reject_eq_ok, exists_const] at hok
    obtain ⟨_, hname, hsrc, hok⟩ := hok
    rw [validateCondName_eq_ok] at hname
    have hsrc : c.srcIn = none := by simpa using hsrc
    split at hok
    · rename_i set hdst hhealth
      simp only [bind_eq_ok, pure_eq_ok] at hok
      obtain ⟨_, hset, rfl⟩ := hok
      exact ⟨_, ⟨hname.1, hsrc, .dst hdst hhealth hset⟩,
        by simpa [Claiming.prod, Claiming.map, Claiming.list] using hname.2, rfl⟩
    · rename_i hc hdst hhealth
      simp only [bind_eq_ok, reject_eq_ok, exists_const, pure_eq_ok] at hok
      obtain ⟨_, hprobe, tun, htun, hfree, rfl⟩ := hok
      refine ⟨_, ⟨hname.1, hsrc, .health hdst hhealth hprobe htun⟩, ?_, rfl⟩
      simpa [Claiming.prod, Claiming.map, Claiming.list, hname.2] using hfree
    · cases hok
  · rintro ⟨d, ⟨hname, hsrc, hclaim⟩, ⟨hfree, hfreeTun⟩, rfl⟩
    have hfree : conds.lookup c.name = none := by
      cases hclaim <;> simpa [Claiming.map] using hfree
    simp only [validateCondition, bind_eq_ok, reject_eq_ok, exists_const]
    refine ⟨(), validateCondName_eq_ok.mpr ⟨hname, hfree⟩, by simp [hsrc], ?_⟩
    cases hclaim with
    | dst hdst hhealth hset =>
      rw [hdst, hhealth]
      simp only [bind_eq_ok, pure_eq_ok]
      exact ⟨_, hset, rfl⟩
    | health hdst hhealth hprobe htun =>
      rw [hdst, hhealth]
      simp only [bind_eq_ok, reject_eq_ok, exists_const, pure_eq_ok]
      exact ⟨_, hprobe, _, htun, by simpa [Claiming.list] using hfreeTun, rfl⟩

/-- The condition loop of a userspace node may run in any order. -/
theorem validateConditions_perm {connections : List Connection} {names : FMap String Connection}
    {l l' : List Condition} (h : l.Perm l') :
    Agree (fun st st' => ∀ k, st.1.lookup k = st'.1.lookup k)
      (l.foldlM (validateCondition connections names) (∅, []))
      (l'.foldlM (validateCondition connections names) (∅, [])) :=
  ((Claiming.map.prod Claiming.list).foldlM_perm validateCondition_claims h
    (∅, [])).mono fun _ _ h => h.1

/-- What a condition of a kernel node claims: its name. -/
inductive KernelClaim (c : Condition) : Option (String × CondKind) → Prop where
  | dst {set : IPSet} (hdst : c.dstIn = some set) (hsrc : c.srcIn = none)
      (hset : set.validate c.name = .ok ()) : KernelClaim c (some (c.name, .dst))
  | src {set : IPSet} (hdst : c.dstIn = none) (hsrc : c.srcIn = some set)
      (hset : set.validate c.name = .ok ()) : KernelClaim c (some (c.name, .src))

/-- What it claims on the kernel datapath. -/
theorem validateKernelCondition_claims (conds : FMap String CondKind) (c : Condition)
    (conds' : FMap String CondKind) :
    validateKernelCondition conds c = .ok conds' ↔
      ∃ d, (c.name ≠ "" ∧ c.healthcheck = none ∧ KernelClaim c d) ∧ Claiming.map.free d conds ∧
        conds' = Claiming.map.take d conds := by
  constructor
  · intro hok
    simp only [validateKernelCondition, bind_eq_ok, reject_eq_ok, exists_const] at hok
    obtain ⟨_, hname, hhealth, hok⟩ := hok
    rw [validateCondName_eq_ok] at hname
    have hhealth : c.healthcheck = none := by simpa using hhealth
    have hfree : ∀ kind : CondKind, Claiming.map.free (some (c.name, kind)) conds := by
      intro kind
      simpa [Claiming.map] using hname.2
    split at hok
    · rename_i set hdst hsrc
      simp only [bind_eq_ok, pure_eq_ok] at hok
      obtain ⟨_, hset, rfl⟩ := hok
      exact ⟨_, ⟨hname.1, hhealth, .dst hdst hsrc hset⟩, hfree _, rfl⟩
    · rename_i set hdst hsrc
      simp only [bind_eq_ok, pure_eq_ok] at hok
      obtain ⟨_, hset, rfl⟩ := hok
      exact ⟨_, ⟨hname.1, hhealth, .src hdst hsrc hset⟩, hfree _, rfl⟩
    · cases hok
  · rintro ⟨d, ⟨hname, hhealth, hclaim⟩, hfree, rfl⟩
    have hfree : conds.lookup c.name = none := by
      cases hclaim <;> simpa [Claiming.map] using hfree
    simp only [validateKernelCondition, bind_eq_ok, reject_eq_ok, exists_const]
    refine ⟨(), validateCondName_eq_ok.mpr ⟨hname, hfree⟩, by simp [hhealth], ?_⟩
    cases hclaim with
    | dst hdst hsrc hset =>
      rw [hdst, hsrc]
      simp only [bind_eq_ok, pure_eq_ok]
      exact ⟨_, hset, rfl⟩
    | src hdst hsrc hset =>
      rw [hdst, hsrc]
      simp only [bind_eq_ok, pure_eq_ok]
      exact ⟨_, hset, rfl⟩

/-- The condition loop of a kernel node may run in any order. -/
theorem validateKernelConditions_perm {l l' : List Condition} (h : l.Perm l') :
    Agree (fun conds conds' => ∀ k, conds.lookup k = conds'.lookup k)
      (l.foldlM validateKernelCondition ∅) (l'.foldlM validateKernelCondition ∅) :=
  Claiming.map.foldlM_perm validateKernelCondition_claims h ∅

/-! ## Validation -/

/-- Validation does not depend on the order of the conditions and the egresses. -/
theorem Node.Permuted.validate {n n' : Node} (h : n.Permuted n') :
    Agree (fun _ _ => True) n.validate n'.validate := by
  obtain ⟨hfields, hconditions, hegresses⟩ := h
  rw [hfields]
  generalize n'.conditions = conditions at hconditions
  generalize n'.egresses = eg at hegresses
  unfold Node.validate
  refine (Agree.reject rfl _ _).bind fun _ _ _ => (Agree.of_eq rfl).bind fun _ _ _ => ?_
  dsimp only
  split
  · unfold Node.validateUserspace
    refine (Agree.reject rfl _ _).bind fun _ _ _ => (Agree.reject rfl _ _).bind fun _ _ _ =>
      (Agree.of_eq rfl).bind ?_
    rintro st _ rfl
    refine (Agree.reject rfl _ _).bind fun _ _ _ => (Agree.of_eq rfl).bind fun _ _ _ =>
      (Agree.of_ok_iff ?_).bind fun _ _ _ => (validateConditions_perm hconditions).bind ?_
    · simp only [forM_eq_ok, hegresses.mem_iff]
    · intro conds conds' hconds
      dsimp only
      simp only [validateRoute, hegresses.lookup, hconds]
      exact .refl (fun _ => trivial) _
  · split
    · unfold Node.validateKernel
      refine (Agree.reject rfl _ _).bind fun _ _ _ => (Agree.reject rfl _ _).bind fun _ _ _ =>
        (Agree.reject ?_ _ _).bind fun _ _ _ => (validateKernelEgresses_perm hegresses).bind
          fun _ _ _ => (validateKernelConditions_perm hconditions).bind ?_
      · exact List.Perm.isEmpty_eq hegresses
      · intro conds conds' hconds
        have hbranch : validateForwardBranch n.egresses conds =
            validateForwardBranch eg conds' := by
          funext st branch
          simp only [validateForwardBranch, hegresses.lookup, hconds]
        unfold Node.validateForward
        dsimp only
        rw [hbranch]
        exact .refl (fun _ => trivial) _
    · exact .error _ _

end Dualnet.Config
