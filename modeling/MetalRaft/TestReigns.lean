import MetalRaft.TimefullTestCluster

/-!
# Leaders in a test in which time passes

A test that delivers all messages each time before it moves the clock, and moves it in steps that
leave room for a heartbeat, never sees another election.

* `Prompt` — such tests.
* `Held` — the test shows a cluster in which the leader reigns, and its heartbeat is not overdue.
* `leader_stays` — whatever commands are submitted in between, and however long the test runs.
-/

set_option autoImplicit false

namespace MetalRaft

open Transition TimelessTestCluster

namespace TimefullTestCluster

variable {P SM : Type} [StateMachine SM P]

section

variable {d : Deployment SM} {t t' : TimefullTestCluster P SM} {c c' : Cluster P SM}
  {l v : NodeId} {n : TestNode P SM} {T E beat : Nat} {a : TimedAction P} {fresh : SM}

/-- The clock moves when all messages have been delivered, and by no more than the least election
timeout exceeds the heartbeat interval. -/
def Prompt (E : Nat) (t : TimefullTestCluster P SM) : TimedAction P → Prop
  | .advanceTime millis => millis + 50 ≤ E ∧ ∀ v ∈ t.nodes.keys, t.network.waiting v = []
  | .addNode _ _ _ | .connectPeers | .configChange _ _ => False
  | .client _ _ | .deliverMessages | .processTimerEvents => True

instance : (a : TimedAction P) → Decidable (Prompt E t a)
  | .advanceTime millis => inferInstanceAs (Decidable
      (millis + 50 ≤ E ∧ ∀ v ∈ t.nodes.keys, t.network.waiting v = []))
  | .addNode _ _ _ | .connectPeers | .configChange _ _ => isFalse id
  | .client _ _ | .deliverMessages | .processTimerEvents => isTrue trivial

/-- The timers of the members: at least `E` before an election, and 50 ms between heartbeats. -/
def Paced (d : Deployment SM) (E : Nat) (t : TimefullTestCluster P SM) : Prop :=
  WaitsAtLeast d E t ∧ ∀ v ∈ d.members, (t.settings v).heartbeatInterval = 50

omit [StateMachine SM P] in
theorem Paced.of_settings (h : Paced d E t) (hset : t'.settings = t.settings) : Paced d E t' :=
  ⟨fun v hv => hset ▸ h.1 v hv, fun v hv => hset ▸ h.2 v hv⟩

/-- The delivery of messages does not end a reign. -/
theorem reign_serves {now : Nat} (hl : l ∈ d.members) (hmany : 1 < d.members.length) (hE : 0 < E)
    (hrun : Run (Cluster.step d) (Serves fun _ _ => true) c c') (h : Reign d l T E now beat c) :
    ∃ beat', beat ≤ beat' ∧ Reign d l T E now beat' c' := by
  induction hrun with
  | refl => exact ⟨beat, Nat.le_refl _, h⟩
  | @step c₁ a _ hok ih =>
    obtain ⟨beat₁, hle₁, h₁⟩ := ih
    have hpunctual : Punctual d E 50 c₁ a := by
      cases a with
      | deliver => trivial
      | lose =>
        obtain ⟨_, _, hcut⟩ := hok
        cases hcut
      | duplicate | timer | client | configChange | restart | advance => cases hok
    obtain ⟨beat₂, hle₂, h₂⟩ := h₁.act hl hmany hE hpunctual fun millis heq => by
      subst heq
      cases hok
    exact ⟨beat₂, hle₁.trans hle₂, h₂⟩

/-- The timers of one node: no election timer is due, and the leader sends a heartbeat if it has
to. -/
theorem reign_processTimer (hl : l ∈ d.members) (hmany : 1 < d.members.length) (hE : 0 < E)
    (hpaced : Paced d E t) (h : Clocked d t c) (hreign : Reign d l T E t.clock beat c) (v : NodeId) :
    ∃ c' beat', beat ≤ beat' ∧ Clocked d (t.processTimer v) c' ∧
      Reign d l T E t.clock beat' c' ∧ (v = l → t.clock < beat' + 50) := by
  unfold processTimer
  cases hn : t.nodes.get v with
  | none =>
    refine ⟨c, beat, Nat.le_refl _, h, hreign, fun hvl => ?_⟩
    exact absurd (h.member.mpr (hvl ▸ hl)) (IndexMap.get_eq_none.mp hn)
  | some n =>
    have hv : v ∈ d.members := h.member.mp (IndexMap.mem_keys.mpr ⟨n, hn⟩)
    have hnode := h.node hn
    have hnever : ¬ Due t.clock (t.timerService v n).electionDeadline := by
      intro hdue
      obtain ⟨reset, hreset, hle⟩ := timersWait_of_due h hpaced.1 hn hdue
      exact absurd hle (Nat.not_le.mpr (hreign.timers_wait hv hreset))
    have hown : v = l → (t.timerService v n).heartbeatDeadline = some (beat + 50) := by
      rintro rfl
      have htimers := hreign.timers
      rw [hnode] at htimers
      show n.election.timerService.heartbeat.map (· + (t.settings v).heartbeatInterval) = _
      rw [htimers, hpaced.2 v hv]
      rfl
    simp only [iter_checkExpired, if_neg hnever, List.nil_append]
    split
    · -- a heartbeat is sent, if there is anyone to send it
      have hok : Punctual d E 50 c (.timer v .heartbeat) := trivial
      obtain ⟨beat', hle, hreign'⟩ := hreign.act hl hmany hE hok nofun
      refine ⟨_, beat', hle, clocked_fire [.heartbeat] h, hreign', ?_⟩
      rintro rfl
      have hc := hreign.standing
      have hbeat := (RaftNode.commands_heartbeat (hc.settled v).2 (hreign.reach.termStored hv)
        hreign.leads.1).2
      have hself : ((c.step d (.timer v .heartbeat)).nodes v).election.timerService =
          (c.nodes v).election.timerService.resetHeartbeatTimer := by
        unfold Cluster.step
        dsimp only
        rw [if_pos hv]
        unfold Cluster.dispatch
        rw [Cluster.withNode_nodes_self]
        exact hbeat
      rw [hreign'.timers, hreign.timers] at hself
      have hnow : beat' = t.clock := Option.some.inj (congrArg TimerService.heartbeat hself)
      omega
    · rename_i hnotDue
      refine ⟨c, beat, Nat.le_refl _, h, hreign, fun hvl => ?_⟩
      rw [hown hvl] at hnotDue
      by_contra hge
      exact hnotDue ⟨_, rfl, Nat.not_lt.mp hge⟩

/-- The timers of all nodes. -/
theorem reign_processTimers (hl : l ∈ d.members) (hmany : 1 < d.members.length) (hE : 0 < E) :
    ∀ (ids : List NodeId) {t : TimefullTestCluster P SM} {c : Cluster P SM} {beat : Nat},
      Paced d E t → Clocked d t c → Reign d l T E t.clock beat c →
      ∃ c' beat', beat ≤ beat' ∧ Clocked d (ids.foldl processTimer t) c' ∧
        Reign d l T E t.clock beat' c' ∧ (l ∈ ids → t.clock < beat' + 50) ∧
        (ids.foldl processTimer t).settings = t.settings ∧
        (ids.foldl processTimer t).clock = t.clock
  | [], t, c, beat, _, h, hreign =>
    ⟨c, beat, Nat.le_refl _, h, hreign, fun hin => absurd hin List.not_mem_nil, rfl, rfl⟩
  | v :: ids, t, c, beat, hpaced, h, hreign => by
    obtain ⟨hset, hclock⟩ := processTimer_kept t v
    obtain ⟨c₁, beat₁, hle₁, h₁, hreign₁, hown₁⟩ := reign_processTimer hl hmany hE hpaced h hreign v
    obtain ⟨c₂, beat₂, hle₂, h₂, hreign₂, hown₂, hset₂, hclock₂⟩ := reign_processTimers hl hmany hE
      ids (hpaced.of_settings hset) h₁ (hclock.symm ▸ hreign₁)
    rw [hclock] at hreign₂ hown₂
    refine ⟨c₂, beat₂, hle₁.trans hle₂, h₂, hreign₂, fun hin => ?_, hset₂.trans hset,
      hclock₂.trans hclock⟩
    rcases List.mem_cons.mp hin with rfl | hin
    · have hlt := hown₁ rfl
      omega
    · exact hown₂ hin

/-- The test shows a cluster in which `l` reigns, and no heartbeat is overdue. -/
def Held (d : Deployment SM) (l : NodeId) (T E : Nat) (t : TimefullTestCluster P SM) : Prop :=
  ∃ c beat, Clocked d t c ∧ Reign d l T E t.clock beat c ∧ t.clock < beat + 50

omit [StateMachine SM P] in
/-- Where nobody has a message waiting, none is on its way. -/
theorem network_of_waiting (h : Clocked d t c) (hfixed : Fixed d c)
    (hquiet : ∀ v ∈ t.nodes.keys, t.network.waiting v = []) : c.network = [] := by
  refine List.eq_nil_iff_forall_not_mem.mpr fun p hp => ?_
  have hdst : p.dst ∈ d.members := (hfixed.sent _ (hfixed.inFlight _ hp)).dst
  have hmem : p ∈ c.network.filter (·.dst = p.dst) := by simpa using hp
  rw [h.mirrors.network p.dst, hquiet _ (h.member.mpr hdst)] at hmem
  exact absurd hmem (by simp)

/-- **One action of a prompt test.** -/
theorem held_step (hl : l ∈ d.members) (hmany : 1 < d.members.length) (hE : 0 < E)
    (hpaced : Paced d E t) (h : Held d l T E t) (hok : Prompt E t a) :
    Held d l T E (t.step fresh a) ∧ (t.step fresh a).settings = t.settings := by
  obtain ⟨c, beat, hclocked, hreign, hrecent⟩ := h
  cases a with
  | addNode | connectPeers | configChange => exact hok.elim
  | client v payload =>
    have hpunctual : Punctual d E 50 c (.client v payload) := trivial
    obtain ⟨beat', hle, hreign'⟩ := hreign.act hl hmany hE hpunctual nofun
    refine ⟨⟨c.step d (.client v payload), beat', clocked_handle hclocked rfl nofun, hreign', ?_⟩,
      rfl⟩
    exact hrecent.trans_le (Nat.add_le_add_right hle 50)
  | deliverMessages =>
    obtain ⟨t', c', hdone, hrun, h', hset, hclock, -⟩ := clocked_deliver hclocked
    obtain ⟨beat', hle, hreign'⟩ := reign_serves hl hmany hE hrun hreign
    have hstep : t.step fresh .deliverMessages = t' := by
      show (t.deliverMessages deliveryFuel).getD t = t'
      rw [hdone]
      rfl
    rw [hstep]
    refine ⟨⟨c', beat', h', hclock ▸ hreign', ?_⟩, hset⟩
    rw [hclock]
    exact hrecent.trans_le (Nat.add_le_add_right hle 50)
  | processTimerEvents =>
    obtain ⟨c', beat', -, h', hreign', hown, hset, hclock⟩ :=
      reign_processTimers hl hmany hE t.nodes.keys hpaced hclocked hreign
    refine ⟨⟨c', beat', h', ?_, ?_⟩, hset⟩
    · rw [show (t.step fresh .processTimerEvents).clock = t.clock from hclock]
      exact hreign'
    · rw [show (t.step fresh .processTimerEvents).clock = t.clock from hclock]
      exact hown (hclocked.member.mpr hl)
  | advanceTime millis =>
    obtain ⟨hmillis, hquiet⟩ := hok
    have hnone := network_of_waiting hclocked hreign.standing.fixed hquiet
    have hpunctual : Punctual d E 50 c (.advance millis) := by
      refine ⟨hmillis, by simp [hnone], fun v hv hrole => ?_⟩
      by_cases hvl : v = l
      · rw [hvl, hreign.timers]
        exact ⟨beat, rfl, hrecent⟩
      · rw [(hreign.follows v hv hvl).1] at hrole
        cases hrole
    have hreach : Reachable d FixedMembership (c.step d (.advance millis)) :=
      .step hreign.reach trivial
    have hmoved : Paced d E { t with
        nodes := t.nodes.mapValues (·.advanceClock millis), clock := t.clock + millis } :=
      hpaced.of_settings rfl
    obtain ⟨c', beat', -, h', hreign', hown, hset, hclock⟩ :=
      reign_processTimers hl hmany hE t.nodes.keys hmoved (clocked_advance hclocked millis)
        (hreign.advance hl hpunctual hreach)
    rw [step_advanceTime]
    refine ⟨⟨c', beat', h', ?_, ?_⟩, hset⟩
    · rw [hclock]
      exact hreign'
    · rw [hclock]
      exact hown (hclocked.member.mpr hl)

theorem held_run (hl : l ∈ d.members) (hmany : 1 < d.members.length) (hE : 0 < E)
    (hpaced : Paced d E t) (h : Held d l T E t) (hrun : Run (step fresh) (Prompt E) t t') :
    Held d l T E t' := by
  have hboth := Run.invariant (I := fun t => Held d l T E t ∧ Paced d E t)
    (fun _ _ ⟨hheld, hp⟩ hok => by
      obtain ⟨hheld', hset⟩ : Held d l T E (step fresh _ _) ∧ _ :=
        held_step hl hmany hE hp hheld hok
      exact ⟨hheld', hp.of_settings hset⟩) hrun ⟨h, hpaced⟩
  exact hboth.1

end

/-- **In a prompt test a leader stays.**  Once a node leads, everyone else follows in its term,
nothing waits, and the heartbeat is not overdue, it goes on leading: whatever commands are
submitted, and however often the clock is moved, if all messages are delivered before and the step
leaves 50 ms of the least election timeout. -/
theorem leader_stays (fresh : SM) (threshold : Nat) {specs : List (NodeId × Nat × Nat)}
    (h : (specs.map (·.1)).Nodup) {E beat : Nat} (hE : ∀ s ∈ specs, E ≤ s.2.1) (hbeats : 50 ≤ E)
    (hmany : 1 < specs.length) {before : List (TimedAction P)}
    (hkeeps : ∀ a ∈ before, a.KeepsNodes ∧ a.KeepsMembership) {l : NodeId}
    {t t' : TimefullTestCluster P SM} {n : TestNode P SM}
    (ht : before.foldl (step fresh) (populated fresh threshold specs) = t)
    (hn : t.nodes.get l = some n) (hlead : n.role = .leader)
    (hfollow : ∀ u n', t.nodes.get u = some n' → u ≠ l →
      n'.role = .follower ∧ n'.currentTerm = n.currentTerm ∧
        ∃ reset, n'.election.timerService.election = some reset ∧ beat ≤ reset)
    (hquiet : ∀ v ∈ t.nodes.keys, t.network.waiting v = [])
    (htimers : n.election.timerService = ⟨none, some beat, t.clock⟩) (hpast : beat ≤ t.clock)
    (hrecent : t.clock < beat + 50) (hrun : Run (step fresh) (Prompt E) t t') :
    ∀ u ∈ specs.map (·.1), ∃ n', t'.nodes.get u = some n' ∧
      n'.role = (if u = l then .leader else .follower) ∧ n'.currentTerm = n.currentTerm := by
  obtain ⟨c, hreach, hclocked, hset⟩ : ∃ c, Reachable _ (Timed True E) c ∧ Clocked _ _ c ∧ _ :=
    clocked_actions before (clocked_populated fresh threshold h)
      (waitsAtLeast_populated fresh threshold h hE) (fun a ha => (hkeeps a ha).1)
      fun _ a ha => (hkeeps a ha).2
  rw [ht] at hclocked hset
  have hfixed : Reachable (deployment fresh threshold (specs.map (·.1)) h) FixedMembership c :=
    hreach.mono fun _ _ hok => hok.1.2.2 trivial
  have hpaced : Paced (deployment fresh threshold (specs.map (·.1)) h) E t := by
    obtain ⟨-, -, -, hsettings, -⟩ := populated_spec (P := P) fresh threshold h
    refine Paced.of_settings ⟨waitsAtLeast_populated fresh threshold h hE, fun v hv => ?_⟩ hset
    obtain ⟨s, hs, rfl⟩ := List.mem_map.mp hv
    rw [hsettings s hs]
    rfl
  have hl : l ∈ specs.map (·.1) := hclocked.member.mp (IndexMap.mem_keys.mpr ⟨n, hn⟩)
  have hmany' : 1 < (specs.map (·.1)).length := by rwa [List.length_map]
  have hnode := hclocked.node hn
  have hget : ∀ u ∈ specs.map (·.1), ∃ n', t.nodes.get u = some n' ∧ c.nodes u = n' := by
    intro u hu
    obtain ⟨n', hn'⟩ := IndexMap.mem_keys.mp (hclocked.member.mpr hu)
    exact ⟨n', hn', hclocked.node hn'⟩
  have hreign : Reign (deployment fresh threshold (specs.map (·.1)) h) l n.currentTerm E t.clock
      beat c := by
    refine ⟨hfixed, hclocked.clock, ?_, hnode ▸ htimers, hpast, fun u hu hne => ?_, ?_,
      fun u hu hne => ?_⟩
    · rw [hnode]
      exact ⟨hlead, rfl⟩
    · obtain ⟨n', hn', heq⟩ := hget u hu
      obtain ⟨hrole, hterm, -⟩ := hfollow u n' hn' hne
      rw [heq]
      exact ⟨hrole, hterm⟩
    · rw [network_of_waiting hclocked (hfixed.fixed fun _ _ hok => hok) hquiet]
      exact fun p hp => absurd hp List.not_mem_nil
    · obtain ⟨n', hn', heq⟩ := hget u hu
      obtain ⟨-, -, reset, hreset, hle⟩ := hfollow u n' hn' hne
      rw [heq]
      exact ⟨reset, hreset, by omega, Or.inl hle⟩
  obtain ⟨c', beat', hclocked', hreign', -⟩ :=
    held_run hl hmany' (by omega) hpaced ⟨c, beat, hclocked, hreign, hrecent⟩ hrun
  intro u hu
  obtain ⟨n', hn'⟩ := IndexMap.mem_keys.mp (hclocked'.member.mpr hu)
  refine ⟨n', hn', ?_⟩
  rw [← hclocked'.node hn']
  by_cases hul : u = l
  · rw [if_pos hul, hul]
    exact hreign'.leads
  · rw [if_neg hul]
    exact hreign'.follows u hu hul

/-- Node 1 has been elected after 150 ms. -/
def hastyTest : TimefullTestCluster UInt8 Adder :=
  [.advanceTime 150, .deliverMessages].foldl (step ⟨0⟩) (populated ⟨0⟩ 10 hastyFirst)

/-- 180 ms more, and two commands. -/
def promptTest : List (TimedAction UInt8) :=
  [.advanceTime 50, .deliverMessages, .client 1 7, .client 2 8, .deliverMessages, .advanceTime 30,
    .advanceTime 50, .deliverMessages, .advanceTime 50, .client 1 9]

theorem hastyTest_leader : (hastyTest.nodes.get 1).map
    (fun n => (n.role, n.currentTerm, n.election.timerService)) =
      some (.leader, 1, ⟨none, some 150, 150⟩) := by decide +kernel

theorem hastyTest_followers : ∀ u ∈ hastyTest.nodes.keys, u ≠ 1 →
    (hastyTest.nodes.get u).map
      (fun n => (n.role, n.currentTerm, n.election.timerService.election)) =
        some (.follower, 1, some 150) := by decide +kernel

theorem leader_stays_hasty :
    let t := promptTest.foldl (step ⟨0⟩) hastyTest
    (t.nodes.get 1).map (fun n => (n.role, n.currentTerm)) = some (.leader, 1) ∧
      (t.nodes.get 2).map (fun n => (n.role, n.currentTerm)) = some (.follower, 1) ∧
      (t.nodes.get 3).map (fun n => (n.role, n.currentTerm)) = some (.follower, 1) := by
  intro t
  have htest : [.advanceTime 150, .deliverMessages].foldl (step (⟨0⟩ : Adder))
      (populated ⟨0⟩ 10 hastyFirst) = hastyTest := by
    unfold hastyTest
    rfl
  obtain ⟨n, hn, hfields⟩ := Option.map_eq_some_iff.mp hastyTest_leader
  have hlead : n.role = .leader := congrArg (·.1) hfields
  have hterm : n.currentTerm = 1 := congrArg (·.2.1) hfields
  have hclock : hastyTest.clock = 150 := by decide +kernel
  have htimers : n.election.timerService = ⟨none, some 150, hastyTest.clock⟩ := by
    rw [hclock]
    exact congrArg (·.2.2) hfields
  have hfollow : ∀ u n', hastyTest.nodes.get u = some n' → u ≠ 1 →
      n'.role = .follower ∧ n'.currentTerm = n.currentTerm ∧
        ∃ reset, n'.election.timerService.election = some reset ∧ 150 ≤ reset := by
    intro u n' hn' hne
    have hview := hastyTest_followers u (IndexMap.mem_keys.mpr ⟨n', hn'⟩) hne
    rw [hn', Option.map_some, Option.some.injEq] at hview
    refine ⟨congrArg (·.1) hview, ?_, 150, congrArg (·.2.2) hview, Nat.le_refl _⟩
    rw [hterm]
    exact congrArg (·.2.1) hview
  have hquiet : ∀ v ∈ hastyTest.nodes.keys, hastyTest.network.waiting v = [] := by decide +kernel
  have hrun : Run (step (⟨0⟩ : Adder)) (Prompt 100) hastyTest t :=
    Admitted.run promptTest (by decide +kernel)
  have hstays := leader_stays (⟨0⟩ : Adder) 10 hastyFirst_nodup (by decide) (by decide) (by decide)
    (by decide) htest hn hlead hfollow hquiet htimers (by rw [hclock]) (by rw [hclock]; decide) hrun
  rw [hterm] at hstays
  obtain ⟨n₁, hn₁, hrole₁, hterm₁⟩ := hstays 1 (by decide)
  obtain ⟨n₂, hn₂, hrole₂, hterm₂⟩ := hstays 2 (by decide)
  obtain ⟨n₃, hn₃, hrole₃, hterm₃⟩ := hstays 3 (by decide)
  rw [hn₁, hn₂, hn₃, Option.map_some, Option.map_some, Option.map_some, hrole₁, hrole₂, hrole₃,
    hterm₁, hterm₂, hterm₃]
  exact ⟨rfl, rfl, rfl⟩

end TimefullTestCluster

end MetalRaft
