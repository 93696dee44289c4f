import MetalRaft.Acknowledged
import MetalRaft.Decided
import MetalRaft.Replay

/-!
# How far the cluster has got

A read under a lease is up to date where no leader commits anything while another member holds a
lease.

* `Behind N` — a node has got no further than index `N`, and as far as that if it holds a lease.
* `Frontier` — the greatest index that has been committed, and the term whose leader did it.
* `LeasesApart` — what is needed of the steps in which a leader commits.
* `read_of_leasing` — what is read is the value after all that has been committed so far.
-/

set_option autoImplicit false

namespace MetalRaft

open Transition Voting LogReplicationManager

variable {P SM : Type} [StateMachine SM P]

/-! ## One event -/

namespace RaftNode

variable {ev : Event P} {n n' n₀ : TestNode P SM} {s : InMemoryStorage P} {k N : Nat} {v : NodeId}

omit [StateMachine SM P] in
/-- The commit point is what the leader of the node's term tells, or the node leads and has found an
entry of its term that a majority holds. -/
theorem commitPoint_cases (hpoint : n.commitPoint .testUtils ev = some (s, k)) :
    (∃ sender prev pt es lc, k ≤ lc ∧
        ev = .message sender (.appendEntries n.currentTerm prev pt es lc)) ∨
      n.role = .leader ∧ n.replication.commitIndex < k ∧
        (∃ es, s = n.storage.withLog (n.storage.log ++ es)) ∧
        ∃ entry, s.getEntry k = some entry ∧ entry.term = n.storage.currentTerm := by
  have hsubmit : ∀ entryType, n.submitPoint .testUtils entryType = some (s, k) →
      n.role = .leader ∧ n.replication.commitIndex < k ∧
        (∃ es, s = n.storage.withLog (n.storage.log ++ es)) ∧
        ∃ entry, s.getEntry k = some entry ∧ entry.term = n.storage.currentTerm := by
    intro entryType hsome
    unfold submitPoint at hsome
    dsimp only at hsome
    split at hsome
    · rename_i hleads
      obtain ⟨k', hquorum, heq⟩ := Option.map_eq_some_iff.mp hsome
      cases heq
      obtain ⟨higher, entry, found, term⟩ := quorumIndex_eq_some hquorum
      exact ⟨hleads.1, higher, ⟨_, rfl⟩, entry, found, term⟩
    · cases hsome
  unfold commitPoint at hpoint
  split at hpoint
  · dsimp only at hpoint
    split at hpoint
    · rename_i haccepts
      cases hpoint
      rw [haccepts.1]
      exact Or.inl ⟨_, _, _, _, _, Nat.min_le_left _ _, rfl⟩
    · cases hpoint
  · split at hpoint
    · rename_i hleads
      obtain ⟨k', hquorum, heq⟩ := Option.map_eq_some_iff.mp hpoint
      cases heq
      obtain ⟨higher, entry, found, term⟩ := quorumIndex_eq_some hquorum
      rw [(recorded_counters (R := .testUtils) n.replication _ _).1] at higher
      refine Or.inr ⟨hleads.1, higher, ⟨[], ?_⟩, entry, found, term⟩
      rw [List.append_nil]
      rfl
    · cases hpoint
  · exact Or.inr (hsubmit _ hpoint)
  · exact Or.inr (hsubmit _ hpoint)
  · cases hpoint

omit [StateMachine SM P] in
/-- A node that has applied no more than what it has committed or compacted takes its snapshots
ahead of that. -/
theorem compactsAhead (hs : LogStorage.Formed n.storage)
    (h : n.replication.lastApplied ≤ max n.replication.commitIndex n.storage.snapIndex) :
    CompactsAhead n ev := by
  rintro ⟨s, k⟩ hpoint htakes
  have hshaped : s.Shaped := (reaches_of_commitPoint hs hpoint).1
  have hsnap : s.snapIndex = n.storage.snapIndex := (reaches_of_commitPoint hs hpoint).2.1
  rcases commitPoint_cases hpoint with ⟨_, _, _, _, _, _, rfl⟩ | ⟨_, higher, _, entry, found, _⟩
  · cases htakes
  · have hbelow := (hshaped.getEntry_bounds found).1
    rw [hsnap] at hbelow
    exact h.trans (Nat.max_le.mpr ⟨Nat.le_of_lt higher, Nat.le_of_lt hbelow⟩)

/-- What an event with a commit point leaves of counters, term and record. -/
theorem onEvent_point (hpoint : n.commitPoint .testUtils ev = some (s, k)) :
    let n' := n.onEvent .testUtils ev
    n'.replication.commitIndex = k ∧ n'.replication.lastApplied = max n.replication.lastApplied k ∧
      n'.observer.applied = n.observer.applied ++ n.newlyCommitted .testUtils ev := by
  intro n'
  cases onEvent_commits .testUtils n ev with
  | nothing point =>
    rw [hpoint] at point
    cases point
  | installs asked =>
    rw [asked] at hpoint
    cases hpoint
  | @upTo _ _ f point _ _ observer _ lastApplied face =>
    obtain ⟨rfl, rfl⟩ := Prod.mk.inj (Option.some.inj (hpoint.symm.trans point))
    have happlied : n'.replication.lastApplied = max f.lastApplied k :=
      congrArg Face.lastApplied face
    have hobserver : n'.observer = ⟨f.observer.applied ++ n.newlyCommitted .testUtils ev⟩ :=
      congrArg Face.observer face
    rw [lastApplied] at happlied
    rw [observer] at hobserver
    exact ⟨congrArg Face.commitIndex face, happlied, congrArg Observer.applied hobserver⟩

/-- An event with a commit point does not change the term. -/
theorem currentTerm_of_point (hpoint : n.commitPoint .testUtils ev = some (s, k)) :
    (n.onEvent .testUtils ev).currentTerm = n.currentTerm := by
  have hout := onEvent_outcome .testUtils n ev
  suffices hface : ∀ f, Outcome .testUtils ev n f → f.currentTerm = n.currentTerm from hface _ hout
  intro f hf
  cases hf with
  | @stepsDown sender msg asked higher =>
    -- both kinds of messages with a commit point are of the node's own term
    subst asked
    cases msg with
    | appendEntries T prev pt es lc =>
      have hnone : n.commitPoint .testUtils (.message sender (.appendEntries T prev pt es lc)) =
        none := if_neg fun h => absurd h.1 (Nat.ne_of_gt higher)
      rw [hnone] at hpoint
      cases hpoint
    | appendEntriesResponse T success m =>
      have hne : ¬ (n.role = .leader ∧ T = n.currentTerm) :=
        fun h => absurd h.2 (Nat.ne_of_gt higher)
      rw [commitPoint_of_term hne] at hpoint
      cases hpoint
    | _ => cases hpoint
  | hearsSnapshot asked | installs asked =>
    subst asked
    cases hpoint
  | campaigns cause | leadsAlone cause =>
    unfold StartsElection at cause
    split at cause
    · cases hpoint
    · cases hpoint
    · exact cause.elim
  | _ => rfl

/-- What may become of a lease: it goes, or it stays with the term, or it stays although the node
stands for the next term or is told of a later one by a snapshot, or it is granted. -/
inductive LeaseStep (ev : Event P) (n n' : TestNode P SM) : Prop
  | gone (expiration : n'.leaderLease.expiration = none)
  | keeps (lease : n'.leaderLease = n.leaderLease) (term : n'.currentTerm = n.currentTerm)
  | stands (cause : n.StartsElection .testUtils ev) (lease : n'.leaderLease = n.leaderLease)
      (role : n'.role ≠ .follower)
  | hears {sender leaderId : NodeId} {T index term offset : Nat} {data : List UInt8} {done : Bool}
      (asked : ev = .message sender (.installSnapshot T leaderId index term offset data done))
      (later : n.currentTerm < T) (lease : n'.leaderLease = n.leaderLease)
  | granted (leader : n.role = .leader) (point : (n.commitPoint .testUtils ev).isSome = true)
      (lease : n'.leaderLease = n.leaderLease.grant)

theorem leaseStep_onEvent : LeaseStep ev n (n.onEvent .testUtils ev) := by
  have hout := onEvent_outcome .testUtils n ev
  suffices hface : ∀ f, (n.onEvent .testUtils ev).face = f → Outcome .testUtils ev n f →
      LeaseStep ev n (n.onEvent .testUtils ev) from hface _ rfl hout
  intro f hf hcases
  have hlease : (n.onEvent .testUtils ev).leaderLease = f.leaderLease := congrArg Face.leaderLease hf
  have hterm : (n.onEvent .testUtils ev).currentTerm = f.currentTerm := congrArg Face.currentTerm hf
  have hrole : (n.onEvent .testUtils ev).role = f.role := congrArg Face.role hf
  cases hcases with
  | keeps | yields | learns | commitsAlone => exact .keeps hlease hterm
  | stepsDown => exact .gone (by rw [hlease]; rfl)
  | commits leader asked higher =>
    refine .granted leader ?_ hlease
    have hcommit : n.replication.commitIndex < (n.onEvent .testUtils ev).replication.commitIndex :=
      Nat.lt_of_lt_of_eq higher (congrArg Face.commitIndex hf).symm
    cases onEvent_commits .testUtils n ev with
    | nothing _ _ _ _ commitIndex => omega
    | installs installed =>
      rw [asked] at installed
      cases installed
    | upTo point =>
      rw [point]
      rfl
  | hearsSnapshot asked reached | installs asked reached =>
    rcases Nat.lt_or_eq_of_le reached with hlt | rfl
    · exact .hears asked hlt hlease
    · exact .keeps hlease hterm
  | campaigns cause | leadsAlone cause =>
    exact .stands cause hlease (by rw [hrole]; exact fun h => (by cases h))
  | wins => exact .keeps hlease hterm

/-- A lease is granted when a leader commits, and never else. -/
theorem lease_onEvent (h : (n.onEvent .testUtils ev).leaderLease.isValid = true) :
    n.leaderLease.isValid = true ∨
      n.role = .leader ∧ (n.commitPoint .testUtils ev).isSome = true := by
  cases (leaseStep_onEvent : LeaseStep ev n (n.onEvent .testUtils ev)) with
  | gone expiration =>
    unfold LeaderLease.isValid at h
    rw [expiration] at h
    cases h
  | keeps lease | stands _ lease | hears _ _ lease =>
    rw [lease] at h
    exact Or.inl h
  | granted leader point => exact Or.inr ⟨leader, point⟩

/-- Who leads its term after an event led it before, unless it was a candidate. -/
theorem leader_of_outcome {f : Face P SM} (hout : Outcome .testUtils ev n f)
    (hrole : f.role = .leader) (hterm : f.currentTerm = n.currentTerm)
    (hcandidate : n.role ≠ .candidate) :
    n.role = .leader ∧ ((∃ sender prev pt es lc,
        ev = .message sender (.appendEntries n.currentTerm prev pt es lc)) ∨
      n.replication.commitIndex ≤ f.commitIndex) := by
  cases hout with
  | keeps => exact ⟨hrole, Or.inr (Nat.le_refl _)⟩
  | stepsDown | campaigns => cases hrole
  | yields asked => exact ⟨(Face.follow_leader.mp hrole).1, Or.inl ⟨_, _, _, _, _, asked⟩⟩
  | learns asked =>
    exact ⟨(Face.follow_leader.mp (Face.commit_leader.mp hrole).1).1,
      Or.inl ⟨_, _, _, _, _, asked⟩⟩
  | commits leader _ higher => exact ⟨leader, Or.inr (Nat.le_of_lt higher)⟩
  | commitsAlone leader _ _ _ higher => exact ⟨leader, Or.inr (Nat.le_of_lt higher)⟩
  | hearsSnapshot => exact ⟨(Face.follow_leader.mp hrole).1, Or.inr (Nat.le_refl _)⟩
  | installs => exact ⟨(Face.follow_leader.mp hrole).1, Or.inr (Nat.le_max_left _ _)⟩
  | leadsAlone =>
    simp only at hterm
    omega
  | wins candidate => exact absurd candidate hcandidate

/-! ## How far a node has got -/

/-- The node has got no further than index `N`, and as far as that if it holds a lease. -/
structure Behind (N : Nat) (n : TestNode P SM) : Prop where
  grounded : n.Grounded
  lastApplied : n.replication.lastApplied ≤ N
  lease : n.leaderLease.isValid = true → N ≤ n.replication.lastApplied
  applied : ∀ x ∈ n.observer.applied, x.1 ≤ N

/-- Neither does what it sends tell of more, until the end of the event. -/
theorem told_move (hmove : Move .testUtils ev n₀ n n') (hsilent : n₀.transport = [])
    (hs : n.storage.Shaped) (hcovered : n.storage.snapIndex ≤ n.replication.lastApplied)
    (h : ∀ p ∈ n.outbox,
      Tells (fun _ k => k ≤ max n.replication.commitIndex n.replication.lastApplied) p) :
    ∀ p ∈ n'.outbox,
      Tells (fun _ k => k ≤ max n'.replication.commitIndex n'.replication.lastApplied) p := by
  have hgrows : n.replication.commitIndex ≤ n'.replication.commitIndex →
      n.replication.lastApplied ≤ n'.replication.lastApplied → ∀ p ∈ n'.outbox,
      Tells (fun _ k => k ≤ max n'.replication.commitIndex n'.replication.lastApplied) p := by
    intro hcommit happlied p hp
    obtain ⟨outs, heq, houts⟩ := tells_move
      (A := fun _ k => k ≤ max n.replication.commitIndex n.replication.lastApplied) hmove
      fun _ => ⟨Nat.le_max_left _ _, hcovered.trans (Nat.le_max_right _ _)⟩
    rw [heq] at hp
    have hold := (List.mem_append.mp hp).elim (h p) (houts p)
    exact hold.imp fun _ k hk => hk.trans (max_le_max hcommit happlied)
  cases hmove.logCases hs with
  | quiet hq => exact hgrows hq.commitIndex.ge hq.lastApplied.ge
  | place | append | compact => exact hgrows (Nat.le_refl _) (Nat.le_refl _)
  | learnCommit _ _ placed =>
    -- nothing has been sent yet
    intro p hp
    have hnone : n.outbox = [] := by
      rw [placed]
      simp [outbox, withStorage, hsilent]
    have hp' : p ∈ n.outbox := hp
    rw [hnone] at hp'
    cases hp'
  | applyNone | applyEntry => exact hgrows (Nat.le_refl _) (Nat.le_succ _)
  | commit _ _ higher => exact hgrows (Nat.le_of_lt higher) (Nat.le_refl _)
  | install => exact hgrows (Nat.le_max_left _ _) (Nat.le_max_left _ _)

theorem told_onEvent (ev : Event P) (h : n.Grounded) (hsilent : n.transport = []) :
    ∀ p ∈ (n.onEvent .testUtils ev).outbox,
      Tells (fun _ k => k ≤ (n.onEvent .testUtils ev).replication.lastApplied) p := by
  have hgrounded : (n.onEvent .testUtils ev).Grounded := grounded_onEvent h
  suffices hall : ∀ p ∈ (n.onEvent .testUtils ev).outbox, Tells (fun _ k =>
      k ≤ max (n.onEvent .testUtils ev).replication.commitIndex
        (n.onEvent .testUtils ev).replication.lastApplied) p by
    rw [Nat.max_eq_right hgrounded.applied] at hall
    exact hall
  have hmoves := onEvent_moves .testUtils n ev
  suffices hinv : LogStorage.Formed (n.onEvent .testUtils ev).storage ∧
      LogStorage.snapIndex (n.onEvent .testUtils ev).storage ≤
        (n.onEvent .testUtils ev).replication.lastApplied ∧
      ∀ p ∈ (n.onEvent .testUtils ev).outbox, Tells (fun _ k =>
        k ≤ max (n.onEvent .testUtils ev).replication.commitIndex
          (n.onEvent .testUtils ev).replication.lastApplied) p from hinv.2.2
  clear hgrounded
  generalize n.onEvent .testUtils ev = n' at hmoves
  induction hmoves with
  | refl => exact ⟨h.formed, h.covered, by simp [outbox, hsilent]⟩
  | tail _ hlast ih =>
    obtain ⟨hformed, hcovered, htold⟩ := ih
    exact ⟨formed_move hlast hformed, covered_move hlast hformed hcovered,
      told_move hlast hsilent hformed hcovered htold⟩

/-- A node that does not commit on its own account gets no further than what it is told. -/
theorem behind_onEvent (hquiet : n.role = .leader → n.commitPoint .testUtils ev = none)
    (htold : ∀ sender msg, ev = .message sender msg →
      Tells (fun _ k => k ≤ N) ⟨sender, v, msg⟩) (h : Behind N n) :
    Behind N (n.onEvent .testUtils ev) := by
  have hgrounded : (n.onEvent .testUtils ev).Grounded := grounded_onEvent h.grounded
  have hlease : (n.onEvent .testUtils ev).leaderLease.isValid = true →
      N ≤ n.replication.lastApplied := by
    intro hvalid
    refine (lease_onEvent hvalid).elim h.lease ?_
    rintro ⟨leader, hsome⟩
    rw [hquiet leader] at hsome
    cases hsome
  have hlast := h.lastApplied
  cases hpoint : n.commitPoint .testUtils ev with
  | some x =>
    obtain ⟨s, k⟩ := x
    have hk : k ≤ N := by
      rcases commitPoint_cases hpoint with ⟨sender, prev, pt, es, lc, hle, asked⟩ | ⟨leader, _⟩
      · exact hle.trans (htold _ _ asked)
      · rw [hquiet leader] at hpoint
        cases hpoint
    obtain ⟨_, happlied, hobserver⟩ := onEvent_point hpoint
    refine ⟨hgrounded, by omega, fun hvalid => ?_, fun x hx => ?_⟩
    · have := hlease hvalid
      omega
    · rw [hobserver] at hx
      exact (List.mem_append.mp hx).elim (h.applied x) fun hnew =>
        (bounds_of_newlyCommitted hpoint hnew).2.1.trans hk
  | none =>
    cases onEvent_commits .testUtils n ev with
    | nothing _ _ observer _ _ lastApplied =>
      rw [← lastApplied] at hlease hlast
      exact ⟨hgrounded, hlast, hlease, by rw [observer]; exact h.applied⟩
    | installs asked _ _ _ _ _ _ observer _ lastApplied =>
      have hindex := htold _ _ asked
      refine ⟨hgrounded, ?_, fun hvalid => ?_, by rw [observer]; exact h.applied⟩
      · rw [lastApplied]
        exact Nat.max_le.mpr ⟨hlast, hindex⟩
      · have := hlease hvalid
        omega
    | upTo point =>
      rw [hpoint] at point
      cases point

/-- A node that commits up to an index beyond `N` is as far as that. -/
theorem behind_commit (hpoint : n.commitPoint .testUtils ev = some (s, k)) (hN : N ≤ k)
    (h : Behind N n) : Behind k (n.onEvent .testUtils ev) := by
  obtain ⟨_, happlied, hobserver⟩ := onEvent_point hpoint
  have hlast := h.lastApplied
  refine ⟨grounded_onEvent h.grounded, by omega, fun _ => by omega, fun x hx => ?_⟩
  rw [hobserver] at hx
  exact (List.mem_append.mp hx).elim (fun hold => (h.applied x hold).trans hN) fun hnew =>
    (bounds_of_newlyCommitted hpoint hnew).2.1

omit [StateMachine SM P] in
/-- Without a lease there is nothing to be late for. -/
theorem Behind.raise (hfree : n.leaderLease.isValid = false) (hN : N ≤ k) (h : Behind N n) :
    Behind k n :=
  ⟨h.grounded, h.lastApplied.trans hN, fun hvalid => absurd (hfree.symm.trans hvalid) (by decide),
    fun x hx => (h.applied x hx).trans hN⟩

/-- A restart takes the node back to its snapshot, and its lease away. -/
theorem Behind.restart (d : Deployment SM) (h : Behind N n) : Behind N (n.restart d) := by
  have hboot : (n.restart d).replication.lastApplied = n.storage.snapIndex :=
    lastApplied_boot d _ _ _ _
  refine ⟨⟨h.grounded.formed, hboot.ge, Nat.zero_le _⟩, ?_, fun hvalid => (by cases hvalid),
    h.applied⟩
  rw [hboot]
  exact h.grounded.covered.trans h.lastApplied

omit [StateMachine SM P] in
theorem Behind.advanceClock (millis : Nat) (h : Behind N n) : Behind N (n.advanceClock millis) := by
  refine ⟨⟨h.grounded.formed, h.grounded.covered, h.grounded.applied⟩, h.lastApplied,
    fun hvalid => h.lease ?_, h.applied⟩
  unfold RaftNode.advanceClock LeaderLease.isValid at *
  dsimp only at hvalid
  cases hx : n.leaderLease.expiration with
  | none =>
    rw [hx] at hvalid
    cases hvalid
  | some x =>
    rw [hx] at hvalid
    have := of_decide_eq_true hvalid
    exact decide_eq_true (by omega)

omit [StateMachine SM P] in
theorem Behind.settle (h : Behind N n) : Behind N { n with transport := [] } :=
  ⟨⟨h.grounded.formed, h.grounded.covered, h.grounded.applied⟩, h.lastApplied, h.lease, h.applied⟩

end RaftNode

/-! ## The cluster -/

open RaftNode

/-- `N` is the greatest index that has been committed, and the leader of term `S` was the first to
commit it. -/
structure Frontier (d : Deployment SM) (c : Cluster P SM) (g : Replicated NodeId (LogEntry P))
    (S N : Nat) : Prop where
  chosen : 0 < N → g.Chosen d.members.toFinset S N ∧
    ∃ v ∈ d.members, ∃ e, (N, e) ∈ (c.nodes v).observer.applied ∧ e.term = S
  leader : ∀ v ∈ d.members, (c.nodes v).role = .leader → (c.nodes v).currentTerm = S →
    N ≤ (c.nodes v).replication.commitIndex
  node : ∀ v ∈ d.members, (c.nodes v).Behind N
  told : ∀ p ∈ c.messageLog, Tells (fun _ k => k ≤ N) p
  applied : ∀ i, 0 < i → i ≤ N → ∃ v ∈ d.members, ∃ e, (i, e) ∈ (c.nodes v).observer.applied

/-- If the event makes a leader commit on its own account, then nobody else holds a lease that has
not run out, and nobody has applied an entry of a later term. -/
def LeasesApart (d : Deployment SM) (c : Cluster P SM) (v : NodeId) (ev : Event P) : Prop :=
  (c.nodes v).role = .leader → ((c.nodes v).commitPoint .testUtils ev).isSome = true →
    ∀ u ∈ d.members, (u = v ∨ (c.nodes u).leaderLease.isValid = false) ∧
      ∀ x ∈ (c.nodes u).observer.applied, x.2.term ≤ (c.nodes v).currentTerm

instance (d : Deployment SM) (c : Cluster P SM) (v : NodeId) (ev : Event P) :
    Decidable (LeasesApart d c v ev) :=
  inferInstanceAs (Decidable ((c.nodes v).role = .leader →
    ((c.nodes v).commitPoint .testUtils ev).isSome = true → ∀ u ∈ d.members,
      (u = v ∨ (c.nodes u).leaderLease.isValid = false) ∧
        ∀ x ∈ (c.nodes u).observer.applied, x.2.term ≤ (c.nodes v).currentTerm))

section

variable {d : Deployment SM} {c c' : Cluster P SM} {g g' : Replicated NodeId (LogEntry P)}
  {a : Action P} {v u : NodeId} {ev : Event P} {s : InMemoryStorage P} {S N M k : Nat}

/-! ### What is known of a step -/

/-- What has been applied stays on record. -/
theorem applied_step (d : Deployment SM) (c : Cluster P SM) (a : Action P) (v : NodeId) :
    (c.nodes v).observer.applied ⊆ ((c.step d a).nodes v).observer.applied := by
  have hcases := Cluster.node_cases d c a v
  generalize (c.step d a).nodes v = n at hcases
  cases hcases with
  | handles => exact applied_subset_onEvent
  | stays | restarts | ages => exact List.Subset.refl _

theorem nodes_step_ne (hhandled : c.handled d a = some (v, ev)) (hne : u ≠ v) :
    (c.step d a).nodes u = c.nodes u := by
  obtain ⟨c₀, hh, hstep⟩ := Cluster.handles_of_handled hhandled
  rw [hstep]
  unfold Cluster.dispatch
  rw [Cluster.withNode_nodes_ne hne, hh.nodes]

theorem told_step (hhandled : c.handled d a = some (v, ev)) (hs : Settled c)
    (hgrounded : (c.nodes v).Grounded) (h : ∀ p ∈ c.messageLog, Tells (fun _ k => k ≤ N) p)
    (hN : N ≤ M) (hM : ((c.nodes v).onEvent .testUtils ev).replication.lastApplied ≤ M) :
    ∀ p ∈ (c.step d a).messageLog, Tells (fun _ k => k ≤ M) p := by
  intro p hp
  rcases Cluster.sent_cases hp with hp | ⟨u, ev', hu, hp⟩
  · exact (h p hp).imp fun _ k hk => hk.trans hN
  · cases hhandled.symm.trans hu
    exact (told_onEvent ev hgrounded (hs v).2 p hp).imp fun _ k hk => hk.trans hM

/-- What is delivered has been sent, by somebody else. -/
theorem Decided.delivered (h : Decided d c g) (hhandled : c.handled d a = some (v, ev)) :
    v ∈ d.members ∧ ∀ sender msg, ev = .message sender msg →
      ⟨sender, v, msg⟩ ∈ c.messageLog ∧ sender ≠ v := by
  obtain ⟨c₀, hh, _⟩ := Cluster.handles_of_handled hhandled
  refine ⟨hh.member, ?_⟩
  rintro sender msg rfl
  have hlog := h.following.fixed.inFlight _ hh.delivered
  exact ⟨hlog, (h.following.fixed.sent _ hlog).ne.symm⟩

/-- The leader of a term is sent no entries of the term. -/
theorem Decided.not_asked (h : Decided d c g) (hhandled : c.handled d a = some (v, ev))
    (hlead : g.ballot.leader (c.nodes v).currentTerm = some v) :
    ∀ sender prev pt es lc,
      ev ≠ .message sender (.appendEntries (c.nodes v).currentTerm prev pt es lc) := by
  intro sender prev pt es lc asked
  obtain ⟨hlog, hne⟩ := (h.delivered hhandled).2 _ _ asked
  have hvalid : ValidEntries g sender (c.nodes v).currentTerm prev pt es :=
    h.following.logs.sent _ hlog
  exact hne (Option.some.inj (hvalid.leader.symm.trans hlead))

/-- Who leads a term in which something has been chosen led it before the event. -/
theorem Decided.leads_before (h : Decided d c g) (h' : Decided d (c.step d a) g')
    (hle : Replicated.Le g g') (hhandled : c.handled d a = some (v, ev))
    (hchosen : g.Chosen d.members.toFinset S N)
    (hrole : ((c.step d a).nodes v).role = .leader)
    (hterm : ((c.step d a).nodes v).currentTerm = S) :
    (c.nodes v).role = .leader ∧ (c.nodes v).currentTerm = S ∧
      (c.nodes v).replication.commitIndex ≤ ((c.step d a).nodes v).replication.commitIndex := by
  have hv := (h.delivered hhandled).1
  have hi := h.following.logs.inv
  have hb := h.following.logs.elections.node v hv
  have hb' := h'.following.logs.elections.node v hv
  -- the leader of the term is `v`, which has been in it
  obtain ⟨w, hw⟩ := hchosen.exists_leader hi
  have hlead := (h'.following.logs.leads hv hrole).1
  rw [hterm] at hlead
  obtain rfl : w = v := Option.some.inj ((hle.ballot.leader S w hw).symm.trans hlead)
  have hbelow := hi.ballot.leader_le S w hw
  have habove := hle.ballot.term w
  rw [hb'.currentTerm] at hterm
  have hsame : g.ballot.term w = S := by omega
  have hcandidate : (c.nodes w).role ≠ .candidate := by
    intro hstands
    refine hi.ballot.leader_not_standing S w hw hsame ?_
    rw [← hb.role, hstands]
    rfl
  rw [← hb'.currentTerm] at hterm
  rw [← hb.currentTerm] at hsame
  rw [Cluster.step_of_handled hhandled] at hrole hterm ⊢
  obtain ⟨hled, hasked | hcommit⟩ := leader_of_outcome (onEvent_outcome .testUtils (c.nodes w) ev)
    hrole (hterm.trans hsame.symm) hcandidate
  · obtain ⟨sender, prev, pt, es, lc, asked⟩ := hasked
    rw [← hsame] at hw
    exact absurd asked (h.not_asked hhandled hw _ _ _ _ _)
  · exact ⟨hled, hsame, hcommit⟩

/-! ### The frontier along a run -/

omit [StateMachine SM P] in
/-- A step in which nobody commits on its own account leaves the frontier where it is. -/
theorem Frontier.keep (h : Frontier d c g S N) (hi : g.Inv d.members.toFinset)
    (hle : Replicated.Le g g') (happlied : ∀ v ∈ d.members,
      (c.nodes v).observer.applied ⊆ (c'.nodes v).observer.applied)
    (hnode : ∀ v ∈ d.members, (c'.nodes v).Behind N)
    (hleader : 0 < N → ∀ v ∈ d.members, (c'.nodes v).role = .leader →
      (c'.nodes v).currentTerm = S → N ≤ (c'.nodes v).replication.commitIndex)
    (htold : ∀ p ∈ c'.messageLog, Tells (fun _ k => k ≤ N) p) : Frontier d c' g' S N := by
  refine ⟨fun hpos => ?_, fun v hv hrole hterm => ?_, hnode, htold, fun i hpos hiN => ?_⟩
  · obtain ⟨hchosen, v, hv, e, he, hterm⟩ := h.chosen hpos
    exact ⟨hchosen.mono hle hi, v, hv, e, happlied v hv he, hterm⟩
  · rcases Nat.eq_zero_or_pos N with rfl | hpos
    · exact Nat.zero_le _
    · exact hleader hpos v hv hrole hterm
  · obtain ⟨v, hv, e, he⟩ := h.applied i hpos hiN
    exact ⟨v, hv, e, happlied v hv he⟩

theorem Frontier.quiet (h : Frontier d c g S N) (hdec : Decided d c g)
    (hdec' : Decided d (c.step d a) g') (hle : Replicated.Le g g')
    (hhandled : c.handled d a = some (v, ev))
    (hquiet : (c.nodes v).role = .leader → (c.nodes v).commitPoint .testUtils ev = none) :
    Frontier d (c.step d a) g' S N := by
  obtain ⟨hv, hdelivered⟩ := hdec.delivered hhandled
  have hself : ((c.nodes v).onEvent .testUtils ev).Behind N :=
    behind_onEvent (v := v) hquiet (fun sender msg he => h.told _ (hdelivered sender msg he).1)
      (h.node v hv)
  refine h.keep hdec.following.logs.inv hle (fun u _ => applied_step d c a u) (fun u hu => ?_)
    (fun hpos u hu hrole hterm => ?_) (told_step hhandled hdec.following.settled
      (h.node v hv).grounded h.told (Nat.le_refl N) hself.lastApplied)
  · by_cases huv : u = v
    · rw [huv, Cluster.step_of_handled hhandled]
      exact hself.settle
    · rw [nodes_step_ne hhandled huv]
      exact h.node u hu
  · by_cases huv : u = v
    · subst huv
      obtain ⟨hled, hsame, hcommit⟩ :=
        hdec.leads_before hdec' hle hhandled (h.chosen hpos).1 hrole hterm
      exact (h.leader u hu hled hsame).trans hcommit
    · rw [nodes_step_ne hhandled huv] at hrole hterm ⊢
      exact h.leader u hu hrole hterm

omit [StateMachine SM P] in
/-- An entry that a leader commits on its own account is none of those it was elected with. -/
theorem start_lt_of_point (hdec : Decided d c g) (hv : v ∈ d.members)
    (hrole : (c.nodes v).role = .leader) {es : List (LogEntry P)} {entry : LogEntry P}
    (hs : s = (c.nodes v).storage.withLog ((c.nodes v).storage.log ++ es))
    (found : s.getEntry k = some entry) (term : entry.term = (c.nodes v).storage.currentTerm) :
    g.start (c.nodes v).currentTerm < k := by
  have hi := hdec.following.logs.inv
  have hb := hdec.following.logs.elections.node v hv
  obtain ⟨_, hledger⟩ := hdec.following.logs.leads hv hrole
  have hfull : FullLog s (g.log v ++ es) := hs ▸ (hdec.following.logs.node v hv).append es
  obtain ⟨hpos, _, hget⟩ := hfull.of_getEntry found
  rcases Nat.lt_or_ge (k - 1) (g.log v).length with hin | hout
  · rw [List.getElem?_append_left hin, ← hledger] at hget
    have hstart := hdec.following.streamed.sound.stamp_start _ _ entry hget
    rw [stamp_eq, term, hb.stored, ← hb.currentTerm] at hstart
    omega
  · have hstart := hi.start_le (c.nodes v).currentTerm
    rw [hledger] at hstart
    omega

omit [StateMachine SM P] in
/-- What has been committed so far ends below an entry that a leader commits on its own account. -/
theorem Frontier.lt_point (h : Frontier d c g S N) (hdec : Decided d c g) (hv : v ∈ d.members)
    (hrole : (c.nodes v).role = .leader)
    (hlow : ∀ u ∈ d.members, ∀ x ∈ (c.nodes u).observer.applied,
      x.2.term ≤ (c.nodes v).currentTerm)
    (hstart : g.start (c.nodes v).currentTerm < k)
    (higher : (c.nodes v).replication.commitIndex < k) : N < k := by
  rcases Nat.eq_zero_or_pos N with rfl | hpos
  · omega
  obtain ⟨hchosen, u, hu, e, he, rfl⟩ := h.chosen hpos
  rcases Nat.lt_or_eq_of_le (hlow u hu _ he) with hlt | heq
  · -- a leader of a later term has been elected with all of it
    have hi := hdec.following.logs.inv
    have hlater := (hchosen.later hdec.following.streamed.sound hlt (hchosen.le_length hi)
      (hdec.following.logs.leads hv hrole).1).1
    omega
  · have := h.leader v hv hrole heq.symm
    omega

/-- A leader that commits on its own account moves the frontier. -/
theorem Frontier.commit (h : Frontier d c g S N) (hdec : Decided d c g)
    (hdec' : Decided d (c.step d a) g') (hle : Replicated.Le g g')
    (hhandled : c.handled d a = some (v, ev)) (hrole : (c.nodes v).role = .leader)
    (hpoint : (c.nodes v).commitPoint .testUtils ev = some (s, k))
    (hapart : ∀ u ∈ d.members, (u = v ∨ (c.nodes u).leaderLease.isValid = false) ∧
      ∀ x ∈ (c.nodes u).observer.applied, x.2.term ≤ (c.nodes v).currentTerm) :
    Frontier d (c.step d a) g' (c.nodes v).currentTerm k := by
  obtain ⟨hv, _⟩ := hdec.delivered hhandled
  have hi' := hdec'.following.logs.inv
  obtain ⟨hlead, _⟩ := hdec.following.logs.leads hv hrole
  obtain ⟨_, ⟨es, hs⟩, entry, found, term⟩ : (c.nodes v).replication.commitIndex < k ∧
      (∃ es, s = (c.nodes v).storage.withLog ((c.nodes v).storage.log ++ es)) ∧
      ∃ entry, s.getEntry k = some entry ∧ entry.term = (c.nodes v).storage.currentTerm := by
    rcases commitPoint_cases hpoint with ⟨_, _, _, _, _, _, asked⟩ | ⟨_, hown⟩
    · exact absurd asked (hdec.not_asked hhandled hlead _ _ _ _ _)
    · exact hown
  have hN : N < k := h.lt_point hdec hv hrole (fun u hu => (hapart u hu).2)
    (start_lt_of_point hdec hv hrole hs found term) (by assumption)
  have hbehind := h.node v hv
  -- everything up to the new index has been applied
  have hstep := Cluster.step_of_handled hhandled
  obtain ⟨hcommit, _, hobserver⟩ := onEvent_point hpoint
  have hnew : ∀ i, (c.nodes v).replication.lastApplied < i → i ≤ k →
      ∃ e, s.getEntry i = some e ∧ (i, e) ∈ ((c.step d a).nodes v).observer.applied := by
    intro i hlt hik
    obtain ⟨e, he⟩ := exists_newlyCommitted hbehind.grounded hpoint hlt hik
    refine ⟨e, (bounds_of_newlyCommitted hpoint he).2.2, ?_⟩
    rw [hstep]
    exact hobserver ▸ List.mem_append_right _ he
  obtain ⟨e, he, happlied⟩ := hnew k (Nat.lt_of_le_of_lt hbehind.lastApplied hN) (Nat.le_refl k)
  obtain rfl : entry = e := Option.some.inj (found.symm.trans he)
  have hterm : entry.term = (c.nodes v).currentTerm := by
    have hb := hdec.following.logs.elections.node v hv
    rw [term, hb.stored, hb.currentTerm]
  have hself : ((c.nodes v).onEvent .testUtils ev).Behind k :=
    behind_commit hpoint (Nat.le_of_lt hN) hbehind
  refine ⟨fun hpos => ⟨?_, v, hv, entry, happlied, hterm⟩, fun u hu hurole huterm => ?_,
    fun u hu => ?_, told_step hhandled hdec.following.settled hbehind.grounded h.told
      (Nat.le_of_lt hN) hself.lastApplied, fun i hpos hik => ?_⟩
  · -- what the leader has committed and applied is chosen in its term
    have hnode := hdec'.decided.node v hv
    have hknown := hnode.committed
    obtain ⟨_, l, hl, _, hget⟩ := hnode.applied _ happlied
    have hnow : ((c.step d a).nodes v).currentTerm = (c.nodes v).currentTerm := by
      rw [hstep]
      exact currentTerm_of_point hpoint
    have hindex : ((c.step d a).nodes v).replication.commitIndex = k := by
      rw [hstep]
      exact hcommit
    rw [← (hdec'.following.logs.elections.node v hv).currentTerm, hnow, hindex] at hknown
    have hsound := hdec'.following.streamed.sound
    have hagree := hknown.agree hl hi' hsound
    rw [Nat.min_self] at hagree
    rw [← hagree.getElem? (Nat.sub_lt hpos Nat.one_pos)] at hget
    exact hknown.chosen hi' hsound hpos hget hterm
  · have hulead := (hdec'.following.logs.leads hu hurole).1
    rw [huterm] at hulead
    obtain rfl : u = v :=
      Option.some.inj (hulead.symm.trans (hle.ballot.leader _ _ hlead))
    rw [hstep]
    exact hcommit.ge
  · by_cases huv : u = v
    · rw [huv, hstep]
      exact hself.settle
    · rw [nodes_step_ne hhandled huv]
      exact (h.node u hu).raise ((hapart u hu).1.resolve_left huv) (Nat.le_of_lt hN)
  · rcases Nat.lt_or_ge N i with hlt | hiN
    · obtain ⟨e, _, he⟩ := hnew i (Nat.lt_of_le_of_lt hbehind.lastApplied hlt) hik
      exact ⟨v, hv, e, he⟩
    · obtain ⟨u, hu, e, he⟩ := h.applied i hpos hiN
      exact ⟨u, hu, e, applied_step d c a u he⟩

/-- Acknowledgements are true, no snapshot is installed behind what has been applied, and leaders do
not commit in each other's way. -/
def Leasing (d : Deployment SM) (c : Cluster P SM) (a : Action P) : Prop :=
  Delaying d c a ∧ OnEvents d (fun c v => InstallsAhead (c.nodes v)) c a ∧
    OnEvents d (LeasesApart d) c a

instance (d : Deployment SM) (c : Cluster P SM) (a : Action P) : Decidable (Leasing d c a) :=
  inferInstanceAs (Decidable (_ ∧ _ ∧ _))

theorem frontier_init (d : Deployment SM) :
    Frontier d (Cluster.init d : Cluster P SM) Replicated.init 0 0 := by
  refine ⟨fun hpos => absurd hpos (Nat.lt_irrefl 0), fun _ _ _ _ => Nat.zero_le _, fun v _ =>
    ⟨⟨rfl, Nat.zero_le _, Nat.le_refl _⟩, Nat.le_refl _, fun _ => Nat.zero_le _,
      fun x hx => absurd hx List.not_mem_nil⟩, fun p hp => absurd hp List.not_mem_nil,
    fun i hpos hi => absurd hpos (by omega)⟩

theorem Frontier.step (h : Frontier d c g S N) (hdec : Decided d c g)
    (hdec' : Decided d (c.step d a) g') (hle : Replicated.Le g g') (hok : Leasing d c a) :
    ∃ S' N', Frontier d (c.step d a) g' S' N' := by
  obtain ⟨⟨hsingle, _⟩, _, hapart⟩ := hok
  have hi := hdec.following.logs.inv
  rcases Cluster.step_cases d c a with ⟨v, ev, c₀, hh, _⟩ | ⟨net, _, hstep⟩ |
    ⟨k, p, rfl, _, _⟩ | ⟨v, _, hstep⟩ | ⟨ms, _, hstep⟩
  · by_cases hown : (c.nodes v).role = .leader ∧
        ((c.nodes v).commitPoint .testUtils ev).isSome = true
    · obtain ⟨hrole, hsome⟩ := hown
      obtain ⟨⟨s, k⟩, hpoint⟩ := Option.isSome_iff_exists.mp hsome
      exact ⟨_, _, h.commit hdec hdec' hle hh.handled hrole hpoint
        (hapart v ev hh.handled hrole hsome)⟩
    · exact ⟨S, N, h.quiet hdec hdec' hle hh.handled fun hrole =>
        Option.not_isSome_iff_eq_none.mp fun hsome => hown ⟨hrole, hsome⟩⟩
  · rw [hstep]
    exact ⟨S, N, h.keep hi hle (fun _ _ => List.Subset.refl _) h.node (fun _ => h.leader) h.told⟩
  · exact absurd hsingle.2 id
  · refine ⟨S, N, h.keep hi hle (fun u _ => applied_step d c a u) (fun u hu => ?_)
      (fun _ u hu hrole hterm => ?_) (by rw [hstep]; exact h.told)⟩
    · rw [hstep]
      by_cases huv : u = v
      · simp only [huv, Function.update_self]
        exact (h.node v (huv ▸ hu)).restart d
      · simp only [Function.update_of_ne huv]
        exact h.node u hu
    · rw [hstep] at hrole hterm ⊢
      by_cases huv : u = v
      · simp only [huv, Function.update_self] at hrole
        cases hrole
      · simp only [Function.update_of_ne huv] at hrole hterm ⊢
        exact h.leader u hu hrole hterm
  · rw [hstep]
    exact ⟨S, N, h.keep hi hle (fun _ _ => List.Subset.refl _)
      (fun u hu => (h.node u hu).advanceClock ms) (fun _ => h.leader) h.told⟩

/-- What a run of the condition leaves. -/
theorem Frontier.run (h : Run (Cluster.step d) (Leasing d) (Cluster.init d) c) :
    ∃ g S N, Decided d c g ∧ Frontier d c g S N :=
  Run.invariant (I := fun c => ∃ g S N, Decided d c g ∧ Frontier d c g S N)
    (fun c a hc ha => by
      obtain ⟨g, S, N, hdec, hfront⟩ := hc
      obtain ⟨g', hadv, hdec'⟩ := hdec.step ha.1
      obtain ⟨S', N', hfront'⟩ := hfront.step hdec hdec' hadv.le ha
      exact ⟨g', S', N', hdec', hfront'⟩)
    h ⟨_, _, _, decided_init d, frontier_init d⟩

/-! ### What is read -/

/-- All that any member has applied are entries of the sequence. -/
def AppliedFrom (d : Deployment SM) (e : Nat → LogEntry P) (c : Cluster P SM) : Prop :=
  ∀ v ∈ d.members, ∀ x ∈ (c.nodes v).observer.applied, x.2 = e x.1

/-- The first `N` entries of the sequence are all that any member has committed during the run. -/
structure CommittedSoFar (d : Deployment SM) (actions : List (Action P)) (e : Nat → LogEntry P)
    (N : Nat) : Prop where
  reached : ∀ now, now <+: actions → ∀ v ∈ d.members,
    ((Cluster.play d now).nodes v).replication.commitIndex ≤ N
  entries : ∀ now, now <+: actions → ∀ v ∈ d.members,
    ∀ i ≤ ((Cluster.play d now).nodes v).replication.commitIndex,
      ∀ entry ∈ ((Cluster.play d now).nodes v).storage.getEntry i, entry = e i
  applied : AppliedFrom d e (Cluster.play d actions)
  covered : ∀ i, 0 < i → i ≤ N →
    ∃ v ∈ d.members, (i, e i) ∈ ((Cluster.play d actions).nodes v).observer.applied

/-- Where every member applies the entries of one sequence, every member replays it. -/
theorem replaying_of_applied {e : Nat → LogEntry P}
    (law : ∀ s s' : SM, StateMachine.restoreFromSnapshot s (StateMachine.createSnapshot s') =
      (s', .ok ()))
    (h : Run (Cluster.step d) (Leasing d) (Cluster.init d) c) (happlied : AppliedFrom d e c) :
    Settled c ∧ Replaying d e c := by
  induction h with
  | refl => exact ⟨fun _ => ⟨rfl, rfl⟩, replaying_init law⟩
  | @step c a hbefore hok ih =>
    obtain ⟨hs, hreplays⟩ := ih fun v hv x hx => happlied v hv x (applied_step d c a v hx)
    obtain ⟨g, _, hdec⟩ := (decided_init d).run (hbefore.mono fun _ _ hok => hok.1)
    refine ⟨settled_step hs a, replaying_step law (fun v ev hhandled x hx => ?_) hok.2.1
      (fun v ev hhandled => ?_) hs hreplays⟩
    · -- what the event makes the node apply is on record afterwards
      refine happlied v (hdec.delivered hhandled).1 x ?_
      rw [Cluster.step_of_handled hhandled]
      rw [← applied_since .testUtils (c.nodes v) ev] at hx
      exact List.mem_of_mem_drop hx
    · have hv := (hdec.delivered hhandled).1
      exact compactsAhead (hreplays.node v hv).grounded.formed (hdec.decided.node v hv).reached

omit [StateMachine SM P] in
/-- The applied entries form one sequence. -/
theorem Decided.exists_sequence (h : Decided d c g) : ∃ e, AppliedFrom d e c := by
  have hone : ∀ i, ∃ entry, ∀ v ∈ d.members, ∀ x,
      (i, x) ∈ (c.nodes v).observer.applied → x = entry := by
    intro i
    by_cases hi : ∃ entry, ∃ u ∈ d.members, (i, entry) ∈ (c.nodes u).observer.applied
    · obtain ⟨entry, u, hu, hentry⟩ := hi
      exact ⟨entry, fun v hv x hx => ((h.decided.node v hv).applied _ hx).eq
        ((h.decided.node u hu).applied _ hentry) h.following.logs.inv h.following.streamed.sound⟩
    · exact ⟨⟨0, .configChange (.addServer 0)⟩, fun v hv x hx => absurd ⟨x, v, hv, hx⟩ hi⟩
  choose e he using hone
  exact ⟨e, fun v hv x hx => he x.1 v hv x.2 hx⟩

omit [StateMachine SM P] in
/-- An entry below the commit index is chosen. -/
theorem Decided.chosen_of_getEntry (h : Decided d c g) (hv : v ∈ d.members) {i : Nat}
    {entry : LogEntry P} (hi : i ≤ (c.nodes v).replication.commitIndex)
    (hget : (c.nodes v).storage.getEntry i = some entry) : AppliedChosen d g (i, entry) :=
  appliedChosen_of_getEntry (h.following.logs.node v hv) (h.decided.node v hv).committed hi hget

theorem applied_run {ok : Cluster P SM → Action P → Prop} (h : Run (Cluster.step d) ok c c')
    (v : NodeId) : (c.nodes v).observer.applied ⊆ (c'.nodes v).observer.applied :=
  Run.invariant (I := fun c' => (c.nodes v).observer.applied ⊆ (c'.nodes v).observer.applied)
    (fun c' a hc' _ => List.Subset.trans hc' (applied_step d c' a v)) h (List.Subset.refl _)

/-- The frontier does not move back. -/
theorem Frontier.le_run {ok : Cluster P SM → Action P → Prop} {S' : Nat} (h : Frontier d c g S N)
    (h' : Frontier d c' g' S' M) (hrun : Run (Cluster.step d) ok c c') : N ≤ M := by
  rcases Nat.eq_zero_or_pos N with rfl | hpos
  · exact Nat.zero_le _
  · obtain ⟨_, v, hv, entry, happlied, _⟩ := h.chosen hpos
    exact (h'.node v hv).applied _ (applied_run hrun v happlied)

/-- Where leaders do not commit in each other's way, what is read is the value after all that any
member has committed so far. -/
theorem read_of_leasing
    (law : ∀ s s' : SM, StateMachine.restoreFromSnapshot s (StateMachine.createSnapshot s') =
      (s', .ok ()))
    {actions : List (Action P)} (h : Admitted (Cluster.step d) (Leasing d) (Cluster.init d) actions)
    (hv : v ∈ d.members) {key : String} {value : Option String}
    (hread : ((Cluster.play d actions).nodes v).readLinearizable key = .ok value) :
    ∃ e N, CommittedSoFar d actions e N ∧
      value = StateMachine.get (prefixMachine d.freshMachine e N) key := by
  have hrun : Run (Cluster.step d) (Leasing d) (Cluster.init d) (Cluster.play d actions) :=
    h.run actions
  obtain ⟨g, S, N, hdec, hfront⟩ := Frontier.run hrun
  obtain ⟨e, happlied⟩ := hdec.exists_sequence
  have hcovered : ∀ i, 0 < i → i ≤ N →
      ∃ v ∈ d.members, (i, e i) ∈ ((Cluster.play d actions).nodes v).observer.applied := by
    intro i hpos hiN
    obtain ⟨u, hu, entry, hmem⟩ := hfront.applied i hpos hiN
    have heq : entry = e i := happlied u hu _ hmem
    exact ⟨u, hu, heq ▸ hmem⟩
  -- what had been committed earlier in the run is still chosen
  have hsofar : ∀ now, now <+: actions → ∀ u ∈ d.members,
      ((Cluster.play d now).nodes u).replication.commitIndex ≤ N ∧
        ∀ i ≤ ((Cluster.play d now).nodes u).replication.commitIndex,
          ∀ entry ∈ ((Cluster.play d now).nodes u).storage.getEntry i, entry = e i := by
    rintro now ⟨later, rfl⟩ u hu
    rw [Admitted.append] at h
    have hlater : Run (Cluster.step d) (Leasing d) (Cluster.play d now)
        (Cluster.play d (now ++ later)) := by
      unfold Cluster.play
      rw [List.foldl_append]
      exact h.2.run later
    obtain ⟨g₁, S₁, N₁, hdec₁, hfront₁⟩ := Frontier.run (h.1.run now)
    obtain ⟨g₂, hadv, hdec₂⟩ := hdec₁.run (hlater.mono fun _ _ hok => hok.1)
    have hreached : ((Cluster.play d now).nodes u).replication.commitIndex ≤ N :=
      calc ((Cluster.play d now).nodes u).replication.commitIndex
          ≤ ((Cluster.play d now).nodes u).replication.lastApplied :=
            (hfront₁.node u hu).grounded.applied
        _ ≤ N₁ := (hfront₁.node u hu).lastApplied
        _ ≤ N := hfront₁.le_run hfront hlater
    refine ⟨hreached, fun i hi entry hget => ?_⟩
    have hchosen := hdec₁.chosen_of_getEntry hu hi hget
    have hpos : 0 < i := hchosen.choose_spec.choose_spec.2.1
    obtain ⟨w, hw, hmem⟩ := hcovered i hpos (hi.trans hreached)
    exact (hchosen.mono hadv.le hdec₁.following.logs.inv).eq ((hdec₂.decided.node w hw).applied _ hmem)
      hdec₂.following.logs.inv hdec₂.following.streamed.sound
  refine ⟨e, N, ⟨fun now hnow u hu => (hsofar now hnow u hu).1,
    fun now hnow u hu => (hsofar now hnow u hu).2, happlied, hcovered⟩, ?_⟩
  · -- whoever holds a lease has applied everything
    unfold RaftNode.readLinearizable at hread
    split at hread
    · cases hread
    · rename_i hleads
      obtain ⟨_, hvalid⟩ := not_or.mp hleads
      have hbehind := hfront.node v hv
      have hlast : ((Cluster.play d actions).nodes v).replication.lastApplied = N :=
        Nat.le_antisymm hbehind.lastApplied (hbehind.lease (Bool.not_eq_false _ ▸ hvalid))
      have hmachine := ((replaying_of_applied law hrun happlied).2.node v hv).machine
      rw [hlast] at hmachine
      rw [← hmachine]
      exact (Except.ok.inj hread).symm

end

end MetalRaft
