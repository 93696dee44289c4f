import MetalRaft.Campaign
import MetalRaft.TestClusterRuns

/-!
# Elections in a test cluster

What `deliver_messages` makes of one election timer that has fired.

* `one_timer_elects` — whoever nobody in its part of the network exceeds is elected there, if this
  part has a majority: one timer and one `deliver_messages` are enough, for any number of nodes.
-/

set_option autoImplicit false

namespace MetalRaft

open Transition

namespace TimelessTestCluster

variable {P SM : Type} [StateMachine SM P]

section

variable {d : Deployment SM} {t : TimelessTestCluster P SM} {c c' : Cluster P SM}
  {should : NodeId → NodeId → Bool} {g : List NodeId} {a : Action P}

omit [StateMachine SM P] in
/-- A network that keeps a group to itself leaves it undisturbed. -/
theorem Serves.undisturbed (hfixed : Fixed d c)
    (hgroup : ∀ u ∈ d.members, ∀ w ∈ g, should u w = decide (u ∈ g)) (h : Serves should c a) :
    Undisturbed g.toFinset c a := by
  have hsrc : ∀ {i : Nat} {p : Packet P}, c.network[i]? = some p → p.src ∈ d.members :=
    fun hi => (hfixed.sent _ (hfixed.inFlight _ (List.mem_of_getElem? hi))).src
  cases a with
  | deliver i =>
    obtain ⟨-, p, hi, hpass⟩ := h
    intro q hq hdst
    obtain rfl : p = q := Option.some.inj (hi.symm.trans hq)
    rw [hgroup _ (hsrc hi) _ (List.mem_toFinset.mp hdst)] at hpass
    exact List.mem_toFinset.mpr (of_decide_eq_true hpass)
  | lose i =>
    obtain ⟨p, hi, hcut⟩ := h
    intro q hq hin hdst
    obtain rfl : p = q := Option.some.inj (hi.symm.trans hq)
    rw [hgroup _ (hsrc hi) _ (List.mem_toFinset.mp hdst)] at hcut
    exact of_decide_eq_false hcut (List.mem_toFinset.mp hin)
  | duplicate | timer | client | configChange | restart | advance => cases h

theorem undisturbed_of_serves
    (hgroup : ∀ u ∈ d.members, ∀ w ∈ g, should u w = decide (u ∈ g))
    (hreach : Reachable d FixedMembership c) (hrun : Run (Cluster.step d) (Serves should) c c') :
    Run (Cluster.step d) (Undisturbed g.toFinset) c c' ∧ Reachable d FixedMembership c' := by
  induction hrun with
  | refl => exact ⟨.refl, hreach⟩
  | step _ hok ih =>
    obtain ⟨hrun, hreach'⟩ := ih
    have hquiet := hok.undisturbed (hreach'.fixed fun _ _ h => h) hgroup
    exact ⟨.step hrun hquiet, .step hreach' hquiet.fixedMembership⟩

omit [StateMachine SM P] in
/-- What waits for nobody of the group from within it is not on its way either. -/
theorem Mirrors.drained (h : Mirrors d t [] c)
    (hquiet : ∀ u ∈ g, ∀ m ∈ t.waiting u, m.1 ∉ g) : Drained g.toFinset c := by
  intro p hp hsrc hdst
  have hdst := List.mem_toFinset.mp hdst
  have hin : p ∈ c.network.filter (·.dst = p.dst) := by simpa using hp
  rw [h.network p.dst, List.filter_nil, List.nil_append] at hin
  obtain ⟨m, hm, heq⟩ := List.mem_map.mp hin
  refine hquiet _ hdst m hm ?_
  rw [← heq] at hsrc
  exact List.mem_toFinset.mp hsrc

/-- One timer and one `deliver_messages`, seen in the cluster. -/
theorem elects_of_mirrors {fresh : SM} {v : NodeId} {n : TestNode P SM}
    (hreach : Reachable d FixedMembership c) (h : Mirrors d t [] c) (hmany : 1 < d.members.length)
    (hmembers : ∀ u ∈ g, u ∈ d.members) (hmajority : d.members.length < 2 * g.toFinset.card)
    (hgroup : ∀ u ∈ d.members, ∀ w ∈ g, t.shouldDeliver u w = decide (u ∈ g))
    (hquiet : ∀ u ∈ g, ∀ m ∈ t.waiting u, m.1 ∉ g)
    (hv : v ∈ g) (hn : t.nodes.get v = some n) (hidle : n.role ≠ .leader)
    (hbest : ∀ u ∈ g, ∀ n', t.nodes.get u = some n' →
      n'.currentTerm ≤ n.currentTerm ∧ NoLater (lastEntry n'.storage) (lastEntry n.storage)) :
    ∀ u ∈ g, ∃ n', ([.timer v .election, .deliverMessages].foldl (step fresh) t).nodes.get u =
        some n' ∧ n'.role = (if u = v then .leader else .follower) ∧
      n'.currentTerm = n.currentTerm + 1 := by
  have hnode : c.nodes v = n := h.nodes v n hn
  have hbest' : ∀ u ∈ g.toFinset, (c.nodes u).currentTerm ≤ (c.nodes v).currentTerm ∧
      NoLater (lastEntry (c.nodes u).storage) (lastEntry (c.nodes v).storage) := by
    intro u hu
    have hu := List.mem_toFinset.mp hu
    obtain ⟨n', hn'⟩ := IndexMap.mem_keys.mp ((h.members u).mpr (hmembers u hu))
    rw [h.nodes u n' hn', hnode]
    exact hbest u hu n' hn'
  have hmembers' : ∀ u ∈ g.toFinset, u ∈ d.members :=
    fun u hu => hmembers u (List.mem_toFinset.mp hu)
  -- the timer
  have htimer : Mirrors d (t.handle v (.timerFired .election)) [] (c.step d (.timer v .election)) :=
    mirrors_event h rfl
  have hfired : Reachable d FixedMembership (c.step d (.timer v .election)) :=
    .step hreach trivial
  -- the messages
  obtain ⟨t', hloop, -, hempty⟩ := deliverLoop_ends
    (t.handle v (.timerFired .election)).shouldDeliver
    (t.handle v (.timerFired .election)).nodes.keys htimer.wired
  obtain ⟨c', hrun, h'⟩ := mirrors_loop _ _ deliveryFuel htimer (hloop deliveryFuel (Nat.le_refl _))
  have hsame : (t.handle v (.timerFired .election)).shouldDeliver = t.shouldDeliver := by
    funext x y
    unfold shouldDeliver
    rw [handle_partitionGroups]
  rw [hsame] at hrun
  obtain ⟨hrun, -⟩ := undisturbed_of_serves hgroup hfired hrun
  have hend : Drained g.toFinset c' := h'.drained fun u hu m hm => by
    rw [hempty u ((htimer.members u).mpr (hmembers u hu))] at hm
    cases hm
  obtain ⟨hrole, hterm, hothers⟩ := campaign_is_won hreach hmembers' hmany hmajority
    (List.mem_toFinset.mpr hv) (hnode ▸ hidle) (fun u hu => (hbest' u hu).1)
    (fun u hu => (hbest' u hu).2) (h.drained hquiet) hrun hend
  have hgot : ([.timer v .election, .deliverMessages].foldl (step fresh) t) = t' :=
    congrArg (fun o => Option.getD o (t.handle v (.timerFired .election)))
      (hloop deliveryFuel (Nat.le_refl _))
  intro u hu
  obtain ⟨n', hn'⟩ := IndexMap.mem_keys.mp ((h'.members u).mpr (hmembers u hu))
  have hnode' := h'.nodes u n' hn'
  refine ⟨n', hgot ▸ hn', ?_⟩
  rw [← hnode', ← hnode]
  by_cases huv : u = v
  · rw [if_pos huv, huv]
    exact ⟨hrole, hterm⟩
  · rw [if_neg huv]
    exact hothers u (List.mem_toFinset.mpr hu) huv

end

/-- **One timer elects**: in a test with fixed membership, let the election timer fire at a node
that nobody exceeds in its part of the network, in term or in log, while no message waits there.  If
this part has a majority, it has this node as its leader when `deliver_messages` returns. -/
theorem one_timer_elects (fresh : SM) (threshold : Nat) {ids g : List NodeId} (h : ids.Nodup)
    {actions : List (TestAction P)}
    (hkeeps : ∀ a ∈ actions, a.KeepsNodes ∧ a.KeepsMembership) (hmany : 1 < ids.length)
    (hmembers : ∀ u ∈ g, u ∈ ids) (hmajority : ids.length < 2 * g.toFinset.card) {v : NodeId}
    {t : TimelessTestCluster P SM} {n : TestNode P SM}
    (ht : actions.foldl (step fresh) (populated fresh threshold ids) = t)
    (hgroup : ∀ u ∈ ids, ∀ w ∈ g, t.shouldDeliver u w = decide (u ∈ g))
    (hquiet : ∀ u ∈ g, ∀ m ∈ t.waiting u, m.1 ∉ g)
    (hv : v ∈ g) (hn : t.nodes.get v = some n) (hidle : n.role ≠ .leader)
    (hbest : ∀ u ∈ g, ∀ n', t.nodes.get u = some n' →
      n'.currentTerm ≤ n.currentTerm ∧ NoLater (lastEntry n'.storage) (lastEntry n.storage)) :
    ∀ u ∈ g, ∃ n', ([.timer v .election, .deliverMessages].foldl (step fresh) t).nodes.get u =
        some n' ∧ n'.role = (if u = v then .leader else .follower) ∧
      n'.currentTerm = n.currentTerm + 1 := by
  subst ht
  obtain ⟨c, hrun, hmirrors⟩ : ∃ c, Run (Cluster.step (deployment fresh threshold ids h))
      (Tested True) (Cluster.init (deployment fresh threshold ids h)) c ∧
        Mirrors _ (actions.foldl (step fresh) (populated fresh threshold ids)) [] c :=
    mirrors_actions actions (mirrors_populated fresh threshold h) (fun a ha => (hkeeps a ha).1)
      fun _ a ha => (hkeeps a ha).2
  exact elects_of_mirrors (hrun.mono fun _ _ hok => hok.2.2 trivial) hmirrors hmany hmembers
    hmajority hgroup hquiet hv hn hidle hbest

/-- Node 1 of three has been elected, has taken a command and is cut off. -/
def cutOff : TimelessTestCluster UInt8 Adder :=
  (splitTest.take 4).foldl (step ⟨0⟩) (populated ⟨0⟩ 10 [1, 2, 3])

theorem cutOff_followers : ∀ u ∈ [2, 3], (cutOff.nodes.get u).map
    (fun n => (n.role, n.currentTerm, lastEntry n.storage)) = some (.follower, 1, 0, 0) := by
  decide +kernel

theorem one_timer_elects_cutOff :
    let t := [.timer 2 .election, .deliverMessages].foldl (step ⟨0⟩) cutOff
    (t.nodes.get 2).map (fun n => (n.role, n.currentTerm)) = some (.leader, 2) ∧
      (t.nodes.get 3).map (fun n => (n.role, n.currentTerm)) = some (.follower, 2) := by
  obtain ⟨n, hn, hview⟩ := Option.map_eq_some_iff.mp (cutOff_followers 2 (by decide))
  have hterm : n.currentTerm = 1 := congrArg (·.2.1) hview
  have hlast : lastEntry n.storage = (0, 0) := congrArg (·.2.2) hview
  have hidle : n.role ≠ .leader := by
    rw [show n.role = .follower from congrArg (·.1) hview]
    exact nofun
  have hbest : ∀ u ∈ [2, 3], ∀ n', cutOff.nodes.get u = some n' →
      n'.currentTerm ≤ n.currentTerm ∧ NoLater (lastEntry n'.storage) (lastEntry n.storage) := by
    intro u hu n' hn'
    have hview' := cutOff_followers u hu
    rw [hn', Option.map_some, Option.some.injEq] at hview'
    have hterm' : n'.currentTerm = 1 := congrArg (·.2.1) hview'
    have hlast' : lastEntry n'.storage = (0, 0) := congrArg (·.2.2) hview'
    rw [hterm, hterm', hlast, hlast']
    exact ⟨Nat.le_refl _, .refl _⟩
  have hcut : (splitTest.take 4).foldl (step (⟨0⟩ : Adder)) (populated ⟨0⟩ 10 [1, 2, 3]) =
      cutOff := by unfold cutOff; rfl
  have hgroup : ∀ u ∈ [1, 2, 3], ∀ w ∈ [2, 3], cutOff.shouldDeliver u w = decide (u ∈ [2, 3]) := by
    decide +kernel
  have hquiet : ∀ u ∈ [2, 3], ∀ m ∈ cutOff.waiting u, m.1 ∉ [2, 3] := by decide +kernel
  have helected := one_timer_elects (⟨0⟩ : Adder) 10 (by decide) (by decide) (by decide)
    (by decide) (by decide) hcut hgroup hquiet (by decide) hn hidle hbest
  obtain ⟨n₂, hn₂, hrole₂, hterm₂⟩ := helected 2 (by decide)
  obtain ⟨n₃, hn₃, hrole₃, hterm₃⟩ := helected 3 (by decide)
  dsimp only
  rw [hn₂, hn₃, Option.map_some, Option.map_some, hrole₂, hrole₃, hterm₂, hterm₃, hterm]
  exact ⟨rfl, rfl⟩

end TimelessTestCluster

end MetalRaft
