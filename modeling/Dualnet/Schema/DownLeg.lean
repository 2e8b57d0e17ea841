import Dualnet.Schema.UpLeg

/-!
# The way down

`reply_comes_home`: in a compiled network with one path, a reply that a gateway sends on its
branch's first down-link reaches the origin's tun. The rules for replies have no conditions, so
where down-paths share a link a reply may leave its own branch's way for that of an earlier
branch. It never turns to a later one, and on one branch's way it only goes forward.
-/

namespace Dualnet.Schema

open Library Text
open Config (Route Action)

/-- The networks the way down is about: one path, from a userspace node, with no repeated
down-link in a branch. -/
structure OneReturn (m : Network) (p : Path) : Prop where
  single : m.paths = [p]
  userspace : m.Userspace p
  down_nodup : ∀ br ∈ p.routes, br.down.Nodup

section Places

variable {m : Network} {out : Configs} {p : Path} {br : Branch}

/-- The places of the way down: the end of each down-link. -/
theorem Accepted.down_places (h : Accepted m out) (hp : p ∈ m.paths) (huser : m.Userspace p)
    (hbr : br ∈ p.routes) (hgateway : br.gateway ≠ "") :
    (downSteps m.linkMap p (m.tunOf p) br).map PendingRule.place =
      (linksOf m.linkMap br.down).map fun l => (targetOf l, l.name) := by
  have hreturns := (h.trips p hp huser br hbr hgateway).returns
  rw [← map_hops]
  simp only [downSteps, hgateway, if_false, List.map_append, List.map_map]
  congr 1
  cases hlast : (linksOf m.linkMap br.down).getLast? with
  | none => rfl
  | some l => simp [PendingRule.place, homeStep, rule, hreturns l hlast]

/-- Within a branch, no other step is about the place of a step of the way down. -/
theorem Accepted.down_step_unique (h : Accepted m out) (hp : p ∈ m.paths)
    (huser : m.Userspace p) (hbr : br ∈ p.routes) (hnodup : br.down.Nodup) {s x : PendingRule}
    (hs : s ∈ downSteps m.linkMap p (m.tunOf p) br)
    (hx : x ∈ branchSteps m.linkMap p (m.tunOf p) br) (harrival : SameArrival x s) : x = s := by
  obtain ⟨hnode, hflag, hsource⟩ := harrival
  rcases List.mem_append.mp hx with hx | hx
  · rw [upSteps_processed hx, downSteps_processed hs] at hflag
    cases hflag
  · have hplaces : ((downSteps m.linkMap p (m.tunOf p) br).map PendingRule.place).Nodup := by
      rw [h.down_places hp huser hbr (mem_downSteps.mp hs).1]
      refine List.Nodup.of_map Prod.snd ?_
      rw [List.map_map, Function.comp_def,
        h.linksOf_names hp huser hbr (List.subset_append_right _ _)]
      exact hnodup
    exact List.inj_on_of_nodup_map hplaces hx hs (Prod.ext hnode hsource)

/-- A step for processed packets forwards, either from a down-link of its branch to the next or
from the last one to the origin's tun. -/
theorem processed_kinds {tun : String} {s : PendingRule} {links : FMap String Link}
    (hs : s ∈ branchSteps links p tun br) (hflag : s.route.on.processed = some true) :
    br.gateway ≠ "" ∧ ((∃ e ∈ hops (linksOf links br.down), s = replyStep e) ∨
      ∃ l, (linksOf links br.down).getLast? = some l ∧ s = homeStep p tun l) := by
  rcases List.mem_append.mp hs with hs | hs
  · rw [upSteps_processed hs] at hflag
    cases hflag
  · exact mem_downSteps.mp hs

end Places

section Return

variable {m : Network} {out : Configs} {p : Path} {holds : String → Bool}

variable (m p) in
/-- The link is the last down-link of some branch. -/
def LeadsHome (l : Link) : Prop :=
  ∃ br ∈ p.routes, br.gateway ≠ "" ∧ (linksOf m.linkMap br.down).getLast? = some l

/-- A reply on the last down-link of some branch is delivered. -/
theorem Accepted.hop_home (h : Accepted m out) (hreturn : OneReturn m p)
    (hapart : m.TextsApart true) {l : Link} (hl : LeadsHome m p l) :
    m.hop out p holds true (targetOf l, l.name) = .inl (.delivered p.node (m.tunOf p)) := by
  have hp : p ∈ m.paths := by simp [hreturn.single]
  have huser := hreturn.userspace
  obtain ⟨br, hbr, hgateway, hlast⟩ := hl
  have htarget := (h.trips p hp huser br hbr hgateway).returns l hlast
  obtain ⟨cn, hcn⟩ := h.origin_config hp
  have hstep : homeStep p (m.tunOf p) l ∈ m.steps := by
    rw [steps_of_single hreturn.single huser]
    exact List.mem_flatMap.mpr ⟨br, hbr, List.mem_append_right _
      (mem_downSteps.mpr ⟨hgateway, .inr ⟨l, hlast, rfl⟩⟩)⟩
  have hroute : m.stepRoute (homeStep p (m.tunOf p) l) ∈ m.stepRoutes p.node :=
    mem_stepRoutes.mpr ⟨_, hstep, rfl, rfl⟩
  have hfires : m.fires p holds true p.node l.name cn
      (m.stepRoute (homeStep p (m.tunOf p) l)) = true := by
    rw [h.step_fires hstep]
    exact ⟨rfl, rfl, h.taken_of_sends hp huser hcn (.inl ⟨h.originTun hp huser, rfl⟩), rfl⟩
  -- the rule is placed, since no other has its text, and the sort puts it to the front
  have hplaced : m.stepRoute (homeStep p (m.tunOf p) l) ∈
      keepFirst ruleKey [] (m.stepRoutes p.node) := by
    obtain ⟨r, hr, hkey⟩ := exists_mem_keepFirst hroute (List.not_mem_nil (a := ruleKey _))
    rwa [hapart p.node _ hroute rfl r ((keepFirst_sublist _ _).subset hr) hkey.symm]
  have htun : isProcessedTun (m.tunOf p) (m.stepRoute (homeStep p (m.tunOf p) l)) = true := by
    simp [isProcessedTun, homeStep, rule]
  obtain ⟨r, hr, hrtun, hrfires, hfound⟩ := exists_find_moved_first hplaced htun hfires
  have haction : r.action = { target := m.tunOf p } := by
    obtain ⟨s, hs, -, rfl⟩ := mem_stepRoutes.mp ((keepFirst_sublist _ _).subset hr)
    have hflag := ((h.step_fires hs).mp hrfires).1
    simp only [isProcessedTun, stepRoute_processed, stepRoute_action, hflag, Bool.and_eq_true,
      beq_iff_eq] at hrtun ⊢
    rw [← hrtun.2]
    rw [steps_of_single hreturn.single huser] at hs
    obtain ⟨b, -, hs⟩ := List.mem_flatMap.mp hs
    rcases (processed_kinds hs hflag).2 with ⟨e, -, rfl⟩ | ⟨l, -, rfl⟩ <;> rfl
  rw [htarget, hop_eq_follow hcn _, h.follow_tun hp huser hcn]
  rw [h.routes_eq hcn, Network.sorted, h.originTun hp huser]
  simp only [tunFirst, hfound, Option.map_some, haction]

/-- No rule that forwards replies on a link has the name of the node's tun for a target. -/
theorem Accepted.reply_not_tun (h : Accepted m out) (hreturn : OneReturn m p) {br : Branch}
    (hbr : br ∈ p.routes) (hgateway : br.gateway ≠ "") {e : Link × Link}
    (he : e ∈ hops (linksOf m.linkMap br.down)) {tun : String}
    (htun : (m.node (targetOf e.1)).originTun = some tun) : e.2.name ≠ tun := by
  have hp : p ∈ m.paths := by simp [hreturn.single]
  have huser := hreturn.userspace
  have hsender := (h.trips p hp huser br hbr hgateway).down e he
  have hends : targetOf e.1 = e.2.dialer ∨ targetOf e.1 = e.2.acceptor := by
    rw [← hsender]
    exact senderOf_eq_or e.2
  exact h.tun_ne_link (h.down_mem hp huser hbr (mem_of_hops he).2) hends htun

/-- The final sort does not change which rule acts on a reply from a link that leads home on no
branch. -/
theorem Accepted.find_sorted_reply (h : Accepted m out) (hreturn : OneReturn m p) {l : Link}
    (hl : l ∈ m.links) (hhome : ¬ LeadsHome m p l) {cn : Config.Node} {routes : List Route}
    (hsub : routes ⊆ m.stepRoutes (targetOf l)) :
    (m.sorted (targetOf l) routes).find? (m.fires p holds true (targetOf l) l.name cn) =
      routes.find? (m.fires p holds true (targetOf l) l.name cn) := by
  unfold Network.sorted
  split
  case h_1 => rfl
  case h_2 tun htun =>
    refine find_moved_first fun r hr hfires => ?_
    obtain ⟨s, hs, hnode, rfl⟩ := mem_stepRoutes.mp (hsub hr)
    obtain ⟨hflag, hsource, -⟩ := (h.step_fires hs).mp hfires
    rw [steps_of_single hreturn.single hreturn.userspace] at hs
    obtain ⟨b, hb, hs⟩ := List.mem_flatMap.mp hs
    obtain ⟨hgateway, ⟨e, he, rfl⟩ | ⟨l', hl', rfl⟩⟩ := processed_kinds hs hflag
    · have hnot := h.reply_not_tun hreturn hb hgateway he (hnode ▸ htun)
      simpa [isProcessedTun, replyStep, rule] using hnot
    · have hmem := h.down_mem (by simp [hreturn.single]) hreturn.userspace hb
        (List.mem_of_getLast? hl')
      obtain rfl := List.inj_on_of_nodup_map h.valid.link_names hmem hl hsource
      exact absurd ⟨b, hb, hgateway, hl'⟩ hhome

/-- Of the steps of `br` and the branches before it, only the branch's own is about a down-link
that no branch before it uses. -/
theorem Accepted.reply_step_unique (h : Accepted m out) (hreturn : OneReturn m p) {br : Branch}
    {pre post : List Branch} (hroutes : p.routes = pre ++ br :: post) (hgateway : br.gateway ≠ "")
    {l next : Link} (hnext : (l, next) ∈ hops (linksOf m.linkMap br.down))
    (hfirst : ∀ b ∈ pre, b.gateway ≠ "" → l ∉ linksOf m.linkMap b.down) {x : PendingRule}
    (hx : x ∈ (pre ++ [br]).flatMap (branchSteps m.linkMap p (m.tunOf p)))
    (harrival : SameArrival x (replyStep (l, next))) : x = replyStep (l, next) := by
  have hp : p ∈ m.paths := by simp [hreturn.single]
  have huser := hreturn.userspace
  have hbr : br ∈ p.routes := by simp [hroutes]
  obtain ⟨b, hb, hx⟩ := List.mem_flatMap.mp hx
  rcases List.mem_append.mp hb with hpre | hlast
  · exfalso
    have hb' : b ∈ p.routes := by simp [hroutes, hpre]
    -- the step's link has the name of `l`, so it is `l`
    have hsame : ∀ l' ∈ linksOf m.linkMap b.down, l'.name ≠ l.name := by
      intro l' hl' hname
      have hlink := h.down_mem hp huser hbr (mem_of_hops hnext).1
      obtain rfl := List.inj_on_of_nodup_map h.valid.link_names
        (h.down_mem hp huser hb' hl') hlink hname
      exact hfirst b hpre (processed_kinds hx harrival.2.1).1 hl'
    obtain ⟨-, ⟨e, he, rfl⟩ | ⟨l', hl', rfl⟩⟩ := processed_kinds hx harrival.2.1
    · exact hsame e.1 (mem_of_hops he).1 harrival.2.2
    · exact hsame l' (List.mem_of_getLast? hl') harrival.2.2
  · rw [List.mem_singleton.mp hlast] at hx
    exact h.down_step_unique hp huser hbr (hreturn.down_nodup br hbr)
      (mem_downSteps.mpr ⟨hgateway, .inl ⟨_, hnext, rfl⟩⟩) hx harrival

/-- A reply that has arrived on a down-link which leads home on no branch, and which no branch
before `br` uses, goes on to the next down-link of `br`. -/
theorem Accepted.hop_reply (h : Accepted m out) (hreturn : OneReturn m p)
    (hapart : m.TextsApart true) {br : Branch} {pre post : List Branch}
    (hroutes : p.routes = pre ++ br :: post) (hgateway : br.gateway ≠ "") {l next : Link}
    (hnext : (l, next) ∈ hops (linksOf m.linkMap br.down)) (hhome : ¬ LeadsHome m p l)
    (hfirst : ∀ b ∈ pre, b.gateway ≠ "" → l ∉ linksOf m.linkMap b.down) :
    m.hop out p holds true (targetOf l, l.name) = .inr (next.name, targetOf next, next.name) := by
  have hp : p ∈ m.paths := by simp [hreturn.single]
  have huser := hreturn.userspace
  have hbr : br ∈ p.routes := by simp [hroutes]
  have hsteps : m.steps = (pre ++ [br]).flatMap (branchSteps m.linkMap p (m.tunOf p)) ++
      post.flatMap (branchSteps m.linkMap p (m.tunOf p)) := by
    rw [steps_of_single hreturn.single huser, hroutes, ← List.flatMap_append, List.append_assoc]
    rfl
  have hfront : replyStep (l, next) ∈
      (pre ++ [br]).flatMap (branchSteps m.linkMap p (m.tunOf p)) :=
    List.mem_flatMap.mpr ⟨br, by simp, List.mem_append_right _
      (mem_downSteps.mpr ⟨hgateway, .inl ⟨_, hnext, rfl⟩⟩)⟩
  obtain ⟨⟨cn, hcn⟩, -⟩ := h.step_on (hsteps ▸ List.mem_append_left _ hfront)
  have hsender := (h.trips p hp huser br hbr hgateway).down _ hnext
  have hlink := h.down_mem hp huser hbr (mem_of_hops hnext).2
  refine (hop_eq_follow hcn ?_).trans (h.follow_link hlink hsender hcn)
  rw [h.routes_eq hcn]
  refine (congrArg _ (h.find_sorted_reply hreturn (h.down_mem hp huser hbr (mem_of_hops hnext).1)
    hhome (keepFirst_sublist _ _).subset)).trans ?_
  exact h.find_step hapart hsteps hfront rfl
    (h.taken_of_sends hp huser hcn (.inr ⟨next, hlink, rfl, hsender⟩)) rfl fun x hx harrival _ => by
      rw [h.reply_step_unique hreturn hroutes hgateway hnext hfirst hx harrival]

variable (m out p holds) in
/-- A reply that has arrived on the link reaches the origin's tun. -/
def ComesHome (l : Link) : Prop :=
  ∃ labels, Travels (m.hop out p holds true) (targetOf l, l.name) labels
    (.delivered p.node (m.tunOf p))

/-- Replies come home from every down-link of a branch, provided they do from those of the
branches before it. The induction is on the links after `l`. -/
theorem Accepted.comesHome_branch (h : Accepted m out) (hreturn : OneReturn m p)
    (hapart : m.TextsApart true) {br : Branch} {pre post : List Branch}
    (hroutes : p.routes = pre ++ br :: post) (hgateway : br.gateway ≠ "")
    (hbefore : ∀ b ∈ pre, b.gateway ≠ "" → ∀ l ∈ linksOf m.linkMap b.down,
      ComesHome m out p holds l) {front rest : List Link} {l : Link}
    (hdown : linksOf m.linkMap br.down = front ++ l :: rest) : ComesHome m out p holds l := by
  have hbr : br ∈ p.routes := by simp [hroutes]
  induction rest generalizing front l with
  | nil =>
    refine ⟨[], .stop (h.hop_home hreturn hapart ⟨br, hbr, hgateway, ?_⟩)⟩
    simp [hdown]
  | cons next rest ih =>
    by_cases hhome : LeadsHome m p l
    · exact ⟨[], .stop (h.hop_home hreturn hapart hhome)⟩
    by_cases hshared : ∃ b ∈ pre, b.gateway ≠ "" ∧ l ∈ linksOf m.linkMap b.down
    · obtain ⟨b, hb, hbgateway, hl⟩ := hshared
      exact hbefore b hb hbgateway l hl
    · have hnext : (l, next) ∈ hops (linksOf m.linkMap br.down) :=
        hdown ▸ hop_mem front rest l next
      obtain ⟨labels, htravels⟩ := @ih (front ++ [l]) next (by simp [hdown])
      exact ⟨_, .pass (h.hop_reply hreturn hapart hroutes hgateway hnext hhome
        fun b hb hbgateway hl => hshared ⟨b, hb, hbgateway, hl⟩) htravels⟩

/-- Replies come home from every down-link. The induction is on the branches, from the first. -/
theorem Accepted.comesHome (h : Accepted m out) (hreturn : OneReturn m p)
    (hapart : m.TextsApart true) (pre post : List Branch) (hroutes : p.routes = pre ++ post) :
    ∀ b ∈ pre, b.gateway ≠ "" → ∀ l ∈ linksOf m.linkMap b.down, ComesHome m out p holds l := by
  induction pre using List.reverseRecOn generalizing post with
  | nil => simp
  | append_singleton pre br ih =>
    have hroutes' : p.routes = pre ++ br :: post := by simp [hroutes]
    have hbefore := ih (br :: post) hroutes'
    intro b hb hgateway l hl
    rcases List.mem_append.mp hb with hpre | hlast
    · exact hbefore b hpre hgateway l hl
    · rw [List.mem_singleton.mp hlast] at hgateway hl
      obtain ⟨front, rest, hdown⟩ := List.append_of_mem hl
      exact h.comesHome_branch hreturn hapart hroutes' hgateway hbefore hdown

end Return

/-- A reply sent on the first down-link of a gateway branch is delivered to the origin's tun after
finitely many hops. -/
theorem reply_comes_home {n m : Network} {out : Configs} (hvalid : n.validate = .ok m)
    (hcompile : m.compile = .ok out) {p : Path} (hreturn : OneReturn m p)
    (hapart : m.TextsApart true) (holds : String → Bool) {br : Branch} (hbr : br ∈ p.routes)
    (hgateway : br.gateway ≠ "") {first : String} (hfirst : br.down.head? = some first) :
    ∃ l, m.linkMap.lookup first = some l ∧ senderOf l = br.gateway ∧
      ∃ hopCount, ∀ fuel, hopCount < fuel →
        (walk (m.hop out p holds true) fuel (targetOf l, l.name)).2 =
          some (.delivered p.node (m.tunOf p)) := by
  have h := accepted_of_compile hvalid hcompile
  have hp : p ∈ m.paths := by simp [hreturn.single]
  have hmem : first ∈ br.up ++ br.down := List.mem_append_right _ (List.mem_of_head? hfirst)
  obtain ⟨l, hl⟩ := ((h.valid.paths p hp hreturn.userspace).branches br hbr).known first hmem
  have hhead : (linksOf m.linkMap br.down).head? = some l := by
    simp [linksOf, List.head?_map, hfirst, hl]
  obtain ⟨-, -, -, hsender⟩ := h.gateway_links hp hbr hgateway
  have hhome : ComesHome m out p holds l :=
    h.comesHome hreturn hapart p.routes [] (by simp) br hbr hgateway l (List.mem_of_head? hhead)
  obtain ⟨labels, htravels⟩ := hhome
  refine ⟨l, hl, hsender l hhead, labels.length, fun fuel hfuel => ?_⟩
  rw [htravels.walk_eq hfuel]

/-- The replies to both branches of a path that parts at a relay come home. -/
theorem reply_comes_home_forked : ∃ m out p, forkedNetwork.validate = .ok m ∧
    m.compile = .ok out ∧ p.routes.map Branch.down = [["gv", "vo"], ["hv", "vo"]] ∧
    ∀ br ∈ p.routes, ∃ l hopCount, m.linkMap.lookup (br.down.headD "") = some l ∧
      ∀ fuel, hopCount < fuel →
        (walk (m.hop out p (fun _ => true) true) fuel (targetOf l, l.name)).2 =
          some (.delivered p.node (m.tunOf p)) := by
  have hcheck : forkedNetwork.compilesTo (fun m _ =>
      m.paths.length == 1 && m.paths.all fun p =>
        decide (m.TextsApart true) && decide (m.Userspace p) &&
          decide (p.routes.map Branch.down = [["gv", "vo"], ["hv", "vo"]]) &&
          p.routes.all fun br => decide br.down.Nodup && decide (br.gateway ≠ "") &&
            decide (br.down.head? = some (br.down.headD ""))) = true := by
    decide +kernel
  obtain ⟨m, out, p, hvalid, hcompile, hsingle, hp⟩ := exists_of_compilesTo_single hcheck
  simp only [Bool.and_eq_true, decide_eq_true_eq, List.all_eq_true] at hp
  obtain ⟨⟨⟨hapart, huser⟩, hdowns⟩, hbranches⟩ := hp
  refine ⟨m, out, p, hvalid, hcompile, hdowns, fun br hbr => ?_⟩
  obtain ⟨⟨-, hgateway⟩, hfirst⟩ := hbranches br hbr
  obtain ⟨l, hl, -, hopCount, hwalk⟩ := reply_comes_home hvalid hcompile
    ⟨hsingle, huser, fun b hb => (hbranches b hb).1.1⟩ hapart (fun _ => true) hbr hgateway hfirst
  exact ⟨l, hopCount, hl, hwalk⟩

/-- A way back through one node twice, on links whose names run together when they are joined by
bars. -/
def barReturnNetwork : Network :=
  { barNetwork with
    links := [
      { name := "up", dialer := "o", acceptor := "g", dataflow := toAcceptor, protocol := "udp",
        port := 1 },
      { name := "x", dialer := "g", acceptor := "v", dataflow := toAcceptor, protocol := "udp",
        port := 2 },
      { name := "|y", dialer := "v", acceptor := "w", dataflow := toAcceptor, protocol := "udp",
        port := 3 },
      { name := "x|", dialer := "w", acceptor := "v", dataflow := toAcceptor, protocol := "udp",
        port := 4 },
      { name := "y", dialer := "o", acceptor := "v", dataflow := toDialer, protocol := "udp",
        port := 5, multiple := true, idSetter := "T" }]
    paths := [{ name := "o", node := "o",
                routes := [{ egress := "a", up := ["up"], down := ["x", "|y", "x|", "y"] }] }] }

/-- The replies of that path are dropped on their second visit. -/
theorem reply_dropped : ∃ m out p br, barReturnNetwork.validate = .ok m ∧ m.compile = .ok out ∧
    m.paths = [p] ∧ p.routes = [br] ∧ br.gateway = "g" ∧ br.down = ["x", "|y", "x|", "y"] ∧
    walk (m.hop out p (fun _ => true) true) 4 ("v", "x") = (["|y", "x|"], some .dropped) := by
  have hcheck : barReturnNetwork.compilesTo (fun m out =>
      m.paths.length == 1 && m.paths.all fun p => p.routes.length == 1 &&
        p.routes.all (fun br => br.gateway == "g" && br.down == ["x", "|y", "x|", "y"]) &&
        walk (m.hop out p (fun _ => true) true) 4 ("v", "x") == (["|y", "x|"], some .dropped)) =
      true := by
    decide +kernel
  obtain ⟨m, out, p, hvalid, hcompile, hsingle, hp⟩ := exists_of_compilesTo_single hcheck
  simp only [Bool.and_eq_true, beq_iff_eq, List.length_eq_one_iff] at hp
  obtain ⟨⟨⟨br, hbr⟩, hbranch⟩, hwalk⟩ := hp
  simp only [hbr, List.all_cons, List.all_nil, Bool.and_true, Bool.and_eq_true, beq_iff_eq]
    at hbranch
  exact ⟨m, out, p, br, hvalid, hcompile, hsingle, hbr, hbranch.1, hbranch.2, hwalk⟩

end Dualnet.Schema
