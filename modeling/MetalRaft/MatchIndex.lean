import MetalRaft.LogMatching
import MetalRaft.Streams

/-!
# What a leader has recorded of its peers

`match_index` is a beginning of the leader's log which the peer has acknowledged, and which it
holds as long as it stays in the leader's term.

* `MatchMove` — what a move can do to the map.
* `Matched` — the invariant; `matched_self` follows a move, given that whoever answers a snapshot
  holds what is recorded of it.
-/

set_option autoImplicit false

namespace MetalRaft

open Transition Voting

variable {P SM : Type} [StateMachine SM P]

/-! ## Moves, as far as the map goes -/

omit [StateMachine SM P] in
/-- A new leader has recorded nothing. -/
theorem LogReplicationManager.matchIndex_initialize (s : InMemoryStorage P) {x : NodeId} :
    ∀ (peers : List NodeId) (r : LogReplicationManager),
      x ∈ peers ∨ r.matchIndex.get x = some 0 →
      (r.initializeLeaderState .testUtils peers s).matchIndex.get x = some 0
  | [], r, h => h.resolve_left List.not_mem_nil
  | peer :: peers, r, h => by
    unfold initializeLeaderState
    rw [List.foldl_cons]
    refine matchIndex_initialize s peers _ ?_
    by_cases hx : x = peer
    · right
      simp only [hx]
      exact MapCollection.get_insert_self rfl _ _ _
    · refine h.imp (fun hmem => (List.mem_cons.mp hmem).resolve_left hx) fun hget => ?_
      simp only
      rw [MapCollection.get_insert_ne rfl _ hx]
      exact hget

theorem LogReplicationManager.matchIndex_recorded {R : Realization} (r : LogReplicationManager)
    (sender : NodeId) (m : Nat) :
    (r.recorded R sender m).matchIndex = r.matchIndex.insert R sender m := by
  unfold recorded
  rcases RaftNode.checkAndPromote_eq _ sender with h | h <;> rw [h]

/-- What holds of everything recorded so far, and of one more answer, holds afterwards. -/
theorem LogReplicationManager.get_recorded {Q : NodeId → Nat → Prop} {members : List NodeId}
    {r : LogReplicationManager} {u : NodeId} {m : Nat}
    (h : ∀ x ∈ members, ∀ k, r.matchIndex.get x = some k → Q x k) (hm : Q u m) :
    ∀ x ∈ members, ∀ k, (r.recorded .testUtils u m).matchIndex.get x = some k → Q x k := by
  intro x hx k hk
  rw [matchIndex_recorded, MapCollection.get_insert rfl] at hk
  by_cases hxu : x = u
  · rw [if_pos hxu] at hk
    obtain rfl := Option.some.inj hk
    rw [hxu]
    exact hm
  · rw [if_neg hxu] at hk
    exact h x hx k hk

namespace RaftNode

inductive MatchMove (ev : Event P) (n₀ : TestNode P SM) : TestNode P SM → TestNode P SM → Prop where
  | same {n n'} (matchIndex : n'.replication.matchIndex = n.replication.matchIndex)
      (leader : n'.role = .leader → n.role = .leader ∧ n'.currentTerm = n.currentTerm) :
      MatchMove ev n₀ n n'
  | lead {n} : MatchMove ev n₀ n (n.leading .testUtils)
  | record {sender m}
      (answer : ev = .message sender (.appendEntriesResponse n₀.currentTerm true m)) :
      MatchMove ev n₀ n₀ (n₀.withReplication (n₀.replication.recorded .testUtils sender m))
  | recordSnapshot {sender} {m : SnapshotMetadata}
      (answer : ev = .message sender (.installSnapshotResponse n₀.currentTerm true))
      (leader : n₀.role = .leader) (stored : n₀.storage.snapshotMetadata = some m) :
      MatchMove ev n₀ n₀
        (n₀.withReplication (n₀.replication.recorded .testUtils sender m.lastIncludedIndex))

variable {d : Deployment SM} {ev : Event P} {n₀ n n' : TestNode P SM}

theorem Move.matchCases (h : Move .testUtils ev n₀ n n') (hf : FixedNode d n) :
    MatchMove ev n₀ n n' := by
  cases h with
  | inert h =>
    exact .same (by rw [h.replication]) fun hr => ⟨by rw [← h.role]; exact hr, h.currentTerm⟩
  | adoptTerm | rest => exact .same rfl fun hr => (by cases hr)
  | campaign =>
    rw [broadcast_eq]
    exact .same rfl fun hr => (by cases hr)
  | lead => exact .lead
  | applyChanges changes found => exact absurd found hf.no_applyChanges
  | learnCommit _ _ placed =>
    exact .same (by show n₀.replication.matchIndex = _; rw [placed]; rfl) fun hr => ⟨hr, rfl⟩
  | record answer => exact .record answer
  | @recordSnapshot sender success m answer leader stored =>
    cases success with
    | false => exact .same rfl fun hr => ⟨hr, rfl⟩
    | true => exact .recordSnapshot answer leader stored
  | _ => exact .same rfl fun hr => ⟨hr, rfl⟩

end RaftNode

/-! ## The invariant -/

/-- What a leader has recorded of a member is in the ledger, and the member has acknowledged it
or, where answers to snapshots are taken up, has left the leader's term. -/
def Matched (d : Deployment SM) (snapshots : Prop) (g : Replicated NodeId (LogEntry P))
    (n : TestNode P SM) : Prop :=
  n.role = .leader → ∀ u ∈ d.members, ∀ m, n.replication.matchIndex.get u = some m →
    m ≤ (g.ledger n.currentTerm).length ∧
      (m ≤ g.acked u n.currentTerm ∨ (snapshots ∧ n.currentTerm < g.ballot.term u))

section

variable {d : Deployment SM} {c c₀ : Cluster P SM} {g g' : Replicated NodeId (LogEntry P)}
  {v : NodeId} {ev : Event P} {n n' : TestNode P SM} {front : List (Packet P)} {a : Action P}
  {snapshots : Prop}

open RaftNode

omit [StateMachine SM P] in
theorem Matched.mono (hle : Replicated.Le g g') (h : Matched d snapshots g n) :
    Matched d snapshots g' n := by
  intro hr u hu m hm
  obtain ⟨hlen, hacked⟩ := h hr u hu m hm
  exact ⟨hlen.trans (hle.ledger _).length_le, hacked.imp (fun ha => ha.trans (hle.acked _ _))
    fun hpast => ⟨hpast.1, Nat.lt_of_lt_of_le hpast.2 (hle.ballot.term _)⟩⟩

omit [StateMachine SM P] in
/-- One more answer, which has been shown to hold. -/
theorem Matched.record {u : NodeId} {m : Nat} (h : Matched d snapshots g n)
    (hm : m ≤ (g.ledger n.currentTerm).length ∧
      (m ≤ g.acked u n.currentTerm ∨ (snapshots ∧ n.currentTerm < g.ballot.term u))) :
    Matched d snapshots g (n.withReplication (n.replication.recorded .testUtils u m)) :=
  fun hr => LogReplicationManager.get_recorded (h hr) hm

omit [StateMachine SM P] in
theorem matched_others (hle : Replicated.Le g g')
    (h : ∀ u ∈ d.members, Matched d snapshots g ((c.withNode v n).nodes u))
    (hv : Matched d snapshots g' n') :
    ∀ u ∈ d.members, Matched d snapshots g' ((c.withNode v n').nodes u) := by
  intro u hu
  by_cases huv : u = v
  · subst huv
    rw [Cluster.withNode_nodes_self]
    exact hv
  · have hold := (h u hu).mono hle
    rw [Cluster.withNode_nodes_ne huv] at hold ⊢
    exact hold

/-- What `v` has recorded after its move; a member of its term that answers a snapshot has to hold
what is recorded of it. -/
theorem matched_self
    (hheld : ∀ sender m, ev = .message sender (.installSnapshotResponse n.currentTerm true) →
      n = c.nodes v → n.role = .leader → (c.nodes sender).currentTerm = n.currentTerm →
      n.storage.snapshotMetadata = some m → FullLog n.storage (g'.log v) →
      Agree m.lastIncludedIndex (g'.log sender) (g'.log v))
    (hsnapshots : (c.nodes v).storage.snapshot ≠ none → snapshots)
    (hh : Cluster.Handles d c a v ev c₀) (hn : Handling d c g v ev n)
    (hmove : Move .testUtils ev (c.nodes v) n n') (h : Matched d snapshots g n)
    (hadv : Replicated.Advances d.members.toFinset g g')
    (hstr : Streamed d front (c₀.withNode v n') g') :
    ∃ g'', Replicated.Advances d.members.toFinset g' g'' ∧
      Streamed d front (c₀.withNode v n') g'' ∧ Matched d snapshots g'' n' := by
  have hacks : ∀ sender msg, ev = .message sender msg → AckPacket g' ⟨sender, v, msg⟩ := by
    intro sender msg he
    refine hstr.acks _ (List.mem_append_left _ ?_)
    rw [hh.messageLog]
    exact (hn.sent sender msg he).2
  cases hmove.matchCases hn.fixed with
  | same hmap hleader =>
    refine ⟨g', .refl g', hstr, fun hr u hu m hm => ?_⟩
    obtain ⟨hrole, hterm⟩ := hleader hr
    rw [hmap] at hm
    obtain ⟨hlen, hacked⟩ := h.mono hadv.le hrole u hu m hm
    rw [hterm]
    exact ⟨hlen, hacked⟩
  | lead =>
    refine ⟨g', .refl g', hstr, fun _ u hu m hm => ?_⟩
    have hzero := LogReplicationManager.matchIndex_initialize n.storage n.config.members
      n.replication (Or.inl (hn.fixed.config.mem_iff.mpr hu))
    obtain rfl : 0 = m := Option.some.inj (hzero.symm.trans hm)
    exact ⟨Nat.zero_le _, Or.inl (Nat.zero_le _)⟩
  | @record sender m answer =>
    refine ⟨g', .refl g', hstr, (h.mono hadv.le).record ?_⟩
    have hack : m ≤ g'.acked sender _ := hacks _ _ answer rfl
    exact ⟨hack.trans (hstr.logs.inv.acked_le _ _), Or.inl hack⟩
  | @recordSnapshot sender m answer leader stored =>
    obtain ⟨hb, hl⟩ := hstr.logs.self hn.member
    have hsender := (hn.sent _ _ answer).1
    have hne : sender ≠ v := (hn.delivered.sound _ _ answer).1
    have hpast : (c.nodes v).currentTerm ≤ g'.ballot.term sender := hacks _ _ answer
    have hlead : g'.ledger (c.nodes v).currentTerm = g'.log v := by
      have hrole : g'.ballot.role v = .leading := by rw [← hb.role]; exact congrArg _ leader
      rw [← hstr.logs.inv.leading v hrole, ← hb.currentTerm]
      rfl
    have hlen : m.lastIncludedIndex ≤ (g'.log v).length := by
      rw [← FullLog.snapIndex_of_metadata stored]
      exact hl.le
    rcases Nat.lt_or_eq_of_le hpast with hgone | hsame
    · refine ⟨g', .refl g', hstr, (h.mono hadv.le).record ⟨by rw [hlead]; exact hlen, Or.inr
        ⟨hsnapshots fun hnone => ?_, hgone⟩⟩⟩
      simp [InMemoryStorage.snapshotMetadata, hnone] at stored
    · -- the member is still in the term: it acknowledges what it has been shown to hold
      have hnode := hstr.logs.elections.node sender hsender
      rw [Cluster.withNode_nodes_ne hne, hh.nodes] at hnode
      have hagree := hheld sender m answer rfl leader (hnode.currentTerm.trans hsame.symm) stored hl
      obtain ⟨hadv', hacked⟩ := hstr.ack (u := sender) (m := m.lastIncludedIndex)
        (by rw [← hsame, hlead]; exact hagree) (by rw [← hsame, hlead]; exact hlen)
      refine ⟨_, hadv', hacked, (h.mono (hadv.le.trans hadv'.le)).record ⟨?_, Or.inl ?_⟩⟩
      · show m.lastIncludedIndex ≤ (g'.ledger (c.nodes v).currentTerm).length
        rw [hlead]
        exact hlen
      · simp [Replicated.ack, hsame]

/-- Everything recorded anywhere is sound. -/
def AllMatched (d : Deployment SM) (snapshots : Prop) (c : Cluster P SM)
    (g : Replicated NodeId (LogEntry P)) : Prop :=
  ∀ u ∈ d.members, Matched d snapshots g (c.nodes u)

theorem AllMatched.restart (h : AllMatched d snapshots c g) (v : NodeId) :
    AllMatched d snapshots
      { c with nodes := Function.update c.nodes v ((c.nodes v).restart d) } (g.rest v) := by
  intro u hu
  by_cases huv : u = v
  · subst huv
    simp only [Function.update_self]
    exact fun hr => by cases hr
  · simp only [Function.update_of_ne huv]
    exact (h u hu).mono Replicated.le_rest

end

end MetalRaft
