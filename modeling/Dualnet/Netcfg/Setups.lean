import Dualnet.Kernel.Install

/-!
# What a userspace node changes on its machine

Package `netcfg` on Linux, over the machine of `Kernel.Host`: NAT for a finalizer, forwarding
from a LAN into a capture tun, and a policy-routing table for an interface. Each is a script with a
teardown of its own; `RunWith` runs them one after the other and collects the teardowns, and runs
those from the last to the first when it ends, be it with an error. `ip route replace` into a table
that was just flushed leaves the route it names alone in it.

`setups_undone` is the result for whole sequences.
-/

namespace Dualnet.Netcfg

open Library Text Kernel

/-! ## The setups -/

structure NATSetup where
  tunName : String
  subnet : String
  extIface : String

structure LANForward where
  lanIface : String
  tunName : String

structure IfaceRoute where
  iface : String
  gateway : String
  table : Nat
  prio : Nat

/-- The rules of `ConfigureNAT`. -/
def natRules (n : NATSetup) : List Argv :=
  [["-t", "nat", "-A", "POSTROUTING", "-s", n.subnet, "-o", n.extIface, "-j", "MASQUERADE"],
    ["-A", "FORWARD", "-i", n.tunName, "-o", n.extIface, "-j", "ACCEPT"],
    ["-A", "FORWARD", "-i", n.extIface, "-o", n.tunName, "-m", "conntrack", "--ctstate",
      "RELATED,ESTABLISHED", "-j", "ACCEPT"],
    ["-t", "mangle", "-A", "FORWARD", "-o", n.tunName, "-p", "tcp", "--tcp-flags", "SYN,RST", "SYN",
      "-j", "TCPMSS", "--clamp-mss-to-pmtu"],
    ["-t", "mangle", "-A", "FORWARD", "-i", n.tunName, "-p", "tcp", "--tcp-flags", "SYN,RST", "SYN",
      "-j", "TCPMSS", "--clamp-mss-to-pmtu"]]

/-- `lanForwardRules`. -/
def lanForwardRules (l : LANForward) : List Argv :=
  [["-A", "FORWARD", "-i", l.lanIface, "-o", l.tunName, "-j", "ACCEPT"],
    ["-A", "FORWARD", "-i", l.tunName, "-o", l.lanIface, "-j", "ACCEPT"],
    ["-t", "nat", "-A", "POSTROUTING", "-o", l.tunName, "-j", "MASQUERADE"],
    ["-t", "mangle", "-A", "FORWARD", "-o", l.tunName, "-p", "tcp", "--tcp-flags", "SYN,RST", "SYN",
      "-j", "TCPMSS", "--clamp-mss-to-pmtu"],
    ["-t", "mangle", "-A", "FORWARD", "-i", l.tunName, "-p", "tcp", "--tcp-flags", "SYN,RST", "SYN",
      "-j", "TCPMSS", "--clamp-mss-to-pmtu"]]

/-- The deletion of a rule: every `-A` of the command becomes `-D`. -/
def deletion (argv : Argv) : Argv := argv.map fun a => if a = "-A" then "-D" else a

/-- The loop of `ConfigureNAT` and of `ConfigureLANForward` over their rules. -/
def rulesScript (wait : Bool) (rules : List Argv) : List (Instr Place Argv) :=
  rules.map fun r =>
    .install (command (iptablesCmd wait r)) (some (command (deletion (iptablesCmd wait r))))

/-- `strings.Fields`. -/
def fields (s : String) : List String :=
  ((s.toList.splitOnP isSpace).filter fun f => !f.isEmpty).map String.ofList

/-- The field after the first `via` that has one. -/
def afterVia : List String → String
  | "via" :: gw :: _ => gw
  | _ :: rest => afterVia rest
  | [] => ""

/-- `DefaultGatewayVia`, from what `ip route show` printed. -/
def defaultGatewayVia (iface : String) (shown : Except String String) : Except String String := do
  let out ← shown
  if trimSpace out.toList = [] then .error s!"netcfg: no default route via {iface}"
  else .ok (afterVia (fields out))

/-- The next hop of a pin: the one given, or the one the main table has for the interface. -/
def IfaceRoute.nextHop (r : IfaceRoute) (shown : Except String String) : String :=
  if r.gateway = "" then (defaultGatewayVia r.iface shown).toOption.getD "" else r.gateway

/-- The selectors of the policy rule of a pin. -/
def IfaceRoute.rule (r : IfaceRoute) : Argv :=
  ["priority", itoa r.prio, "oif", r.iface, "lookup", itoa r.table]

/-- `PinIfaceDefault`. -/
def pinScript (r : IfaceRoute) (shown : Except String String) : List (Instr Place Argv) :=
  [.attempt (command (flushTable r.table)),
    .install (.put (.table r.table) ["default" :: Kernel.nextHop (r.nextHop shown) r.iface])
      (some (command (flushTable r.table))),
    .attempt (command ["ip", "rule", "del", "priority", itoa r.prio]),
    .install (command (["ip", "rule", "add"] ++ r.rule))
      (some (command (["ip", "rule", "del"] ++ r.rule)))]

/-- One call of package `netcfg`. -/
inductive Setup where
  | nat (n : NATSetup)
  | lan (l : LANForward)
  | pin (r : IfaceRoute) (shown : Except String String)

/-- What a call runs on the machine it finds. -/
def Setup.script (wait : Bool) (h : Host) : Setup → List (Instr Place Argv)
  | nat n => forwardScript h ++ rulesScript wait (natRules n)
  | lan l => forwardScript h ++ rulesScript wait (lanForwardRules l)
  | pin r shown => pinScript r shown

/-- Run the setups in turn, each with the commands that fail, and collect the teardowns; the last
component says whether all succeeded. -/
def setupAll (wait : Bool) : List (Setup × (Nat → Bool)) → Host → List (List (Change Place Argv)) →
    Host × List (List (Change Place Argv)) × Bool
  | [], h, stack => (h, stack, true)
  | (s, refuses) :: rest, h, stack =>
    match runScript machine refuses (s.script wait h) h with
    | (h, none) => (h, stack, false)
    | (h, some chain) => setupAll wait rest h (chain :: stack)

/-! ## Undoing them -/

/-- The rules of iptables a setup adds. -/
def Setup.rules : Setup → List Argv
  | nat n => natRules n
  | lan l => lanForwardRules l
  | pin _ _ => []

/-- The policy rules a setup adds. -/
def Setup.pinRules : Setup → List Argv
  | nat _ | lan _ => []
  | pin r _ => [r.rule]

/-- No device of the setup is taken for the flag. -/
def Setup.FlagFree : Setup → Prop
  | nat n => n.tunName ≠ "-A" ∧ n.extIface ≠ "-A" ∧ n.subnet ≠ "-A"
  | lan l => l.tunName ≠ "-A" ∧ l.lanIface ≠ "-A"
  | pin _ _ => True

/-- A machine whose `ip_forward` can be read and that holds nothing of the setups, nor a rule at the
priority of a pin. -/
structure CleanFor (setups : List Setup) (h : Host) : Prop where
  forward : ∃ v, v ≠ "" ∧ h .forward = [[v]]
  flagFree : ∀ s ∈ setups, s.FlagFree
  iptables : ∀ s ∈ setups, ∀ r ∈ s.rules, iptablesRule r ∉ h .iptables
  tables : ∀ r shown, .pin r shown ∈ setups → h (.table r.table) = []
  rules : ∀ r shown, .pin r shown ∈ setups → ∀ rule ∈ h .rules,
    picks .rules ["priority", itoa r.prio] rule = false

/-- The places the setups overwrite as a whole. -/
def Puts (setups : List Setup) (place : Place) : Prop :=
  place = .forward ∨ ∃ r shown, .pin r shown ∈ setups ∧ place = .table r.table

/-- What the setups add to the other places. -/
def own (setups : List Setup) : Place → List Argv
  | .rules => setups.flatMap Setup.pinRules
  | .iptables => setups.flatMap fun s => s.rules.map iptablesRule
  | .forward | .table _ => []

/-- Without such a device, the commands add and delete one rule. -/
theorem command_rule (wait : Bool) {s : Setup} (hs : s.FlagFree) {r : Argv} (hr : r ∈ s.rules) :
    command (iptablesCmd wait r) = .add .iptables (iptablesRule r) ∧
      command (deletion (iptablesCmd wait r)) = .remove .iptables (iptablesRule r) := by
  cases s with
  | nat n =>
    obtain ⟨htun, hext, hsub⟩ := hs
    simp only [Setup.rules, natRules, List.mem_cons, List.not_mem_nil, or_false] at hr
    rcases hr with rfl | rfl | rfl | rfl | rfl <;> cases wait <;>
      simp [deletion, iptablesCmd, htun, hext, hsub, command, iptablesChange, byVerb,
        iptablesRule]
  | lan l =>
    obtain ⟨htun, hlan⟩ := hs
    simp only [Setup.rules, lanForwardRules, List.mem_cons, List.not_mem_nil, or_false] at hr
    rcases hr with rfl | rfl | rfl | rfl | rfl <;> cases wait <;>
      simp [deletion, iptablesCmd, htun, hlan, command, iptablesChange, byVerb, iptablesRule]
  | pin r shown => cases hr

section Undo

variable {wait : Bool} {setups : List Setup} {h₀ h : Host}

/-- The rules of the pins. -/
theorem mem_own_rules {rule : Argv} :
    rule ∈ own setups .rules ↔ ∃ r shown, .pin r shown ∈ setups ∧ rule = r.rule := by
  simp only [own, List.mem_flatMap]
  constructor
  · rintro ⟨s, hs, hrule⟩
    cases s with
    | nat | lan => cases hrule
    | pin r shown => exact ⟨r, shown, hs, List.mem_singleton.mp hrule⟩
  · rintro ⟨r, shown, hs, rfl⟩
    exact ⟨_, hs, List.mem_singleton.mpr rfl⟩

/-- The deletion of a pin's rule takes the rules of equal pins only, all at its priority. -/
theorem picks_pin {r : IfaceRoute} {rule : Argv} (h : picks .rules r.rule rule = true) :
    picks .rules ["priority", itoa r.prio] rule = true ∧
      ∀ r' : IfaceRoute, rule = r'.rule → rule = r.rule := by
  simp only [picks, IfaceRoute.rule, given, String.reduceEq, false_and, if_false, List.all_cons,
    List.all_nil, Bool.and_true, Bool.and_eq_true, List.contains_iff_mem] at h ⊢
  refine ⟨h.1, ?_⟩
  rintro r' rfl
  simpa [given, eq_comm] using h

/-- The entries of the setups can be told apart, and their deletions take nothing of a clean
machine. -/
theorem CleanFor.fits (hclean : CleanFor setups h₀) :
    Fits machine h₀ (Puts setups) (own setups) where
  apart place _ x hx l hl _ w hw y hy hyx hyw := by
    cases place with
    | forward | table => cases hx
    | rules =>
      obtain ⟨r, _, -, rfl⟩ := mem_own_rules.mp hy
      obtain ⟨rx, _, -, hrx⟩ := mem_own_rules.mp hx
      obtain ⟨rw, _, -, hrw⟩ := mem_own_rules.mp (hl hw)
      exact ((picks_pin hyw).2 rw hrw).trans ((picks_pin hyx).2 rx hrx).symm
    | iptables =>
      simp only [machine, picks, beq_iff_eq] at hyx hyw
      exact hyw.symm.trans hyx
  fresh place _ x hx y hy := by
    cases place with
    | forward | table => cases hx
    | rules =>
      obtain ⟨r, shown, hs, rfl⟩ := mem_own_rules.mp hx
      refine Bool.eq_false_iff.mpr fun hpicks => ?_
      have hnone := hclean.rules r shown hs y hy
      rw [(picks_pin hpicks).1] at hnone
      cases hnone
    | iptables =>
      simp only [own, List.mem_flatMap, List.mem_map] at hx
      obtain ⟨s, hs, r, hr, rfl⟩ := hx
      refine Bool.eq_false_iff.mpr fun hpicks => hclean.iptables s hs r hr ?_
      simp only [machine, picks, beq_iff_eq] at hpicks
      rwa [hpicks]

/-- The rules of a setup are tidy. -/
theorem tidy_rulesScript (hclean : CleanFor setups h₀) {s : Setup} (hs : s ∈ setups) :
    ∀ i ∈ rulesScript wait s.rules, Tidy machine h₀ (Puts setups) (own setups) [] i := by
  intro i hi
  obtain ⟨r, hr, rfl⟩ := List.mem_map.mp hi
  obtain ⟨hadd, hdel⟩ := command_rule wait (hclean.flagFree s hs) hr
  rw [hadd, hdel]
  refine .installAdd ?_ (List.mem_flatMap.mpr ⟨s, hs, List.mem_map_of_mem hr⟩)
  rintro (heq | ⟨_, _, -, heq⟩) <;> cases heq

/-- `ip_forward` is as it was or on. -/
def ForwardKept (h₀ h : Host) : Prop := h .forward = h₀ .forward ∨ h .forward = [["1"]]

/-- `ip_forward` is set tidily. -/
theorem tidy_forwardScript (hclean : CleanFor setups h₀) (hforward : ForwardKept h₀ h) :
    ∀ i ∈ forwardScript h, Tidy machine h₀ (Puts setups) (own setups) [] i := by
  intro i hi
  unfold forwardScript at hi
  dsimp only at hi
  split at hi
  · cases hi
  · next hoff =>
      have hprev : h .forward = h₀ .forward := by
        refine hforward.resolve_right fun hon => hoff ?_
        simp [Host.ipForward, hon]
      obtain ⟨v, hv, hh₀⟩ := hclean.forward
      have hval : h.ipForward = v := by simp [Host.ipForward, hprev, hh₀]
      rw [List.mem_singleton.mp hi, hval, if_neg hv]
      have hback : setIPForward v = .put .forward (h₀ .forward) := by rw [hh₀, setIPForward]
      rw [hback]
      exact .installPut (.inl rfl)

/-- So are pins. -/
theorem tidy_pinScript (hclean : CleanFor setups h₀) {r : IfaceRoute} {shown : Except String String}
    (hs : .pin r shown ∈ setups) :
    ∀ i ∈ pinScript r shown, Tidy machine h₀ (Puts setups) (own setups) [] i := by
  have htable : Puts setups (.table r.table) := .inr ⟨r, shown, hs, rfl⟩
  have hflush : command (flushTable r.table) = .put (.table r.table) (h₀ (.table r.table)) := by
    rw [command_flushTable, hclean.tables r shown hs]
  have hrules : ¬ Puts setups .rules := by
    rintro (heq | ⟨_, _, -, heq⟩) <;> cases heq
  intro i hi
  rw [pinScript, hflush] at hi
  simp only [List.mem_cons, List.not_mem_nil, or_false] at hi
  rcases hi with rfl | rfl | rfl | rfl
  · exact .attemptPut htable
  · exact .installPut htable
  · exact .attemptRemove hrules (hclean.rules r shown hs)
  · exact .installAdd hrules (mem_own_rules.mpr ⟨r, shown, hs, rfl⟩)

/-- So is every set-up. -/
theorem tidy_script (wait : Bool) (hclean : CleanFor setups h₀) {s : Setup} (hs : s ∈ setups)
    (hforward : ForwardKept h₀ h) :
    ∀ i ∈ s.script wait h, Tidy machine h₀ (Puts setups) (own setups) [] i := by
  cases s with
  | nat n | lan l =>
    exact List.forall_mem_append.mpr
      ⟨tidy_forwardScript hclean hforward, tidy_rulesScript hclean hs⟩
  | pin r shown => exact tidy_pinScript hclean hs

/-- The one command of a setup that changes `ip_forward` turns it on. -/
theorem forward_of_mem (hclean : CleanFor setups h₀) {s : Setup} (hs : s ∈ setups)
    {c : Change Place Argv}
    (hc : .attempt c ∈ s.script wait h ∨ ∃ undo, .install c undo ∈ s.script wait h)
    (hplace : c.place? = some .forward) : c = setIPForward "1" := by
  have hforwards : ∀ i ∈ forwardScript h, ∀ undo, i = .install c undo → c = setIPForward "1" := by
    intro i hi undo heq
    unfold forwardScript at hi
    dsimp only at hi
    split at hi
    · cases hi
    · rw [heq, List.mem_singleton] at hi
      exact (Instr.install.inj hi).1
  have hrule : ∀ i ∈ rulesScript wait s.rules, ∀ undo, i ≠ .install c undo := by
    rintro i hi undo rfl
    obtain ⟨r, hr, heq⟩ := List.mem_map.mp hi
    rw [(command_rule wait (hclean.flagFree s hs) hr).1] at heq
    cases heq
    cases hplace
  cases s with
  | nat n | lan l =>
    rcases hc with hc | ⟨undo, hc⟩
    all_goals rcases List.mem_append.mp hc with hc | hc
    · simp [forwardScript] at hc
    · simp [rulesScript] at hc
    · exact hforwards _ hc undo rfl
    · exact absurd rfl (hrule _ hc undo)
  | pin r shown =>
    simp only [Setup.script, pinScript, command_flushTable, List.mem_cons, List.not_mem_nil,
      or_false] at hc
    rcases hc with (heq | heq | heq | heq) | ⟨undo, heq | heq | heq | heq⟩
    all_goals
      cases heq
      try cases hplace

/-- A setup that succeeds leaves `ip_forward` as it was or on. -/
theorem forwardKept_script (hclean : CleanFor setups h₀) {s : Setup} (hs : s ∈ setups)
    (hforward : ForwardKept h₀ h) {refuses : Nat → Bool} {h' : Host}
    {chain : List (Change Place Argv)}
    (hrun : runScript machine refuses (s.script wait h) h = (h', some chain)) :
    ForwardKept h₀ h' := by
  obtain ⟨q, hexec, rfl, -⟩ := runScript_eq_some.mp hrun
  refine exec_keeps (P := fun l => l = h₀ .forward ∨ l = [["1"]]) ?_ hexec hforward
  intro c hc hplace l _
  rw [forward_of_mem hclean hs hc hplace]
  exact .inr rfl

/-- What every setup keeps: the teardowns so far give the machine back. -/
theorem setupAll_undone (hclean : CleanFor setups h₀) {todo : List (Setup × (Nat → Bool))}
    (htodo : ∀ s ∈ todo, s.1 ∈ setups) {stack : List (List (Change Place Argv))}
    (hundo : Undoable machine h₀ (Puts setups) (own setups) { store := h, chain := stack.flatten })
    (hforward : ForwardKept h₀ h) {h' : Host} {stack' : List (List (Change Place Argv))} {ok : Bool}
    (hrun : setupAll wait todo h stack = (h', stack', ok)) : unwind machine stack' h' = h₀ := by
  induction todo generalizing h stack with
  | nil =>
    cases hrun
    rw [unwind_eq]
    exact hundo.teardown_eq hclean.fits
  | cons next todo ih =>
    obtain ⟨s, refuses⟩ := next
    obtain ⟨hs, htodo⟩ := List.forall_mem_cons.mp htodo
    have htidy := tidy_script wait hclean hs hforward
    rw [setupAll] at hrun
    split at hrun
    · next h₁ hfailed =>
        cases hrun
        rw [unwind_eq]
        exact (hundo.runScript hclean.fits htidy hfailed).2 rfl
    · next h₁ chain hdone =>
        have hundo := (hundo.runScript hclean.fits htidy hdone).1 chain rfl
        exact ih htodo hundo (forwardKept_script hclean hs hforward hdone) hrun

/-- Whatever setups a node runs, in whatever order and whichever of their commands fails, the
teardowns it has collected give back a machine that held nothing of them: when all succeeded, and
when one failed half way. -/
theorem setups_undone (hclean : CleanFor setups h₀) (wait : Bool)
    (refuses : Nat → Nat → Bool) {h' : Host} {stack : List (List (Change Place Argv))} {ok : Bool}
    (hrun : setupAll wait (setups.zipIdx.map fun s => (s.1, refuses s.2)) h₀ [] = (h', stack, ok)) :
    unwind machine stack h' = h₀ := by
  refine setupAll_undone hclean (fun s hs => ?_) (undoable_start h₀ _ _) (.inl rfl) hrun
  obtain ⟨⟨s, i⟩, hmem, rfl⟩ := List.mem_map.mp hs
  exact List.fst_mem_of_mem_zipIdx hmem

end Undo

/-- A machine with a policy rule of its own and forwarding off. -/
def ownRule : Host
  | .forward => [["0"]]
  | .rules => [["from", "10.0.0.0/8", "lookup", "7"]]
  | _ => []

/-- A pin, and NAT for a finalizer. -/
def wanPin : IfaceRoute := ⟨"wan1", "", 220, 220⟩

def viaWan : Except String String := .ok "default via 10.1.0.1 dev wan1"

def tunNat : Setup := .nat ⟨"dualnet0", "10.9.0.0/24", "wan0"⟩

/-- The example is clean. -/
theorem cleanFor_ownRule : CleanFor [.pin wanPin viaWan, tunNat] ownRule := by
  refine ⟨⟨"0", by decide, rfl⟩, fun s hs => ?_, by simp [ownRule], fun _ _ _ => rfl, ?_⟩
  · simp only [List.mem_cons, List.not_mem_nil, or_false] at hs
    rcases hs with rfl | rfl
    · trivial
    · simp [tunNat, Setup.FlagFree]
  · simp [ownRule, picks, given]

/-- The sixth command of the second setup fails. -/
def lastRefused (i k : Nat) : Bool := i == 1 && k == 5

/-- The last command of the NAT fails, after the pin has been made. -/
theorem setups_undone_refused :
    ∃ h' stack, setupAll true ([.pin wanPin viaWan, tunNat].zipIdx.map
        fun s => (s.1, lastRefused s.2)) ownRule [] = (h', stack, false) ∧
      stack.length = 1 ∧ unwind machine stack h' = ownRule := by
  have hrun : ∃ h' stack, setupAll true ([.pin wanPin viaWan, tunNat].zipIdx.map
      fun s => (s.1, lastRefused s.2)) ownRule [] = (h', stack, false) ∧ stack.length = 1 :=
    ⟨_, _, rfl, rfl⟩
  obtain ⟨h', stack, hrun, hlength⟩ := hrun
  exact ⟨h', stack, hrun, hlength,
    setups_undone cleanFor_ownRule true lastRefused hrun⟩

end Dualnet.Netcfg
