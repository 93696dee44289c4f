import MetalRaft.DeadEnd
import MetalRaft.Quiescence

/-!
# A campaign is won in any order

A node whose election timer fires, in a majority that is silent and in which everyone can follow
it, becomes their leader.  Its questions and their answers may be delivered in any order, and more
than once; what matters is that none of them is lost.

* `stored_term` — the storage of a member knows the member's term.
* `Campaign` — how far the node has come, and what it still waits for from whom.
* `Campaign.step` — no delivery takes it back, and whoever is waited for has been asked.
* `campaign_is_won` — once nothing is left to be delivered, the node leads and the others follow.
-/

set_option autoImplicit false

namespace MetalRaft

open Transition

variable {P SM : Type}

/-! ## What a storage knows of the term -/

section

variable [StateMachine SM P] {d : Deployment SM} {c : Cluster P SM} {v : NodeId}

/-- The storage holds the term of the node. -/
def RaftNode.TermStored (n : TestNode P SM) : Prop := n.storage.currentTerm = n.currentTerm

open RaftNode LogReplicationManager in
theorem termStored_move {ev : Event P} {n₀ n n' : TestNode P SM}
    (hmove : Move .testUtils ev n₀ n n') (h : n.TermStored) : n'.TermStored := by
  have hterm : n.storage.currentTerm = n.currentTerm := h
  cases hmove with
  | inert hi =>
    unfold TermStored
    rw [hi.storage, hi.currentTerm]
    exact hterm
  | campaign =>
    rw [broadcast_eq]
    rfl
  | adoptTerm => rfl
  | place =>
    unfold TermStored withStorage
    rw [InMemoryStorage.placeEntries_eq]
    exact hterm
  | compact =>
    obtain ⟨_, hkept, _⟩ := InMemoryStorage.create_log_subset n.storage n.stateMachine
      n.replication.commitIndex
    exact hkept.trans hterm
  | storeChunk =>
    unfold TermStored withStorage chunkResult
    rw [InMemoryStorage.storage_applySnapshotChunk, InMemoryStorage.applySnapshotChunk_eq]
    exact hterm
  | install =>
    unfold TermStored
    simp only [chunkResult, InMemoryStorage.storage_applySnapshotChunk,
      InMemoryStorage.storage_discardEntriesBefore]
    rw [InMemoryStorage.discardEntriesBefore_eq, InMemoryStorage.applySnapshotChunk_eq]
    exact hterm
  | _ => exact hterm

theorem termStored_step {a : Action P} (hs : Settled c)
    (h : LocalInv d (fun _ => RaftNode.TermStored) (fun _ => True) c) :
    LocalInv d (fun _ => RaftNode.TermStored) (fun _ => True) (c.step d a) :=
  LocalInv.step h hs
    (fun _ _ _ _ _ _ _ _ _ hmove hn _ => ⟨termStored_move hmove hn, fun _ _ => trivial⟩)
    (fun _ _ hn => hn) (fun _ _ _ _ => rfl) (fun _ _ _ hn => hn)

theorem Reachable.termStored {ok : Cluster P SM → Action P → Prop} (h : Reachable d ok c)
    (hv : v ∈ d.members) : (c.nodes v).TermStored := by
  have hinit : LocalInv d (fun _ => RaftNode.TermStored) (fun _ => True)
      (Cluster.init d : Cluster P SM) :=
    ⟨fun _ _ => rfl, fun _ _ => trivial, by simp [Cluster.init]⟩
  have hinv := Run.invariant (I := fun c => Settled c ∧
    LocalInv d (fun _ => RaftNode.TermStored) (fun _ => True) c)
    (fun _ a hc _ => ⟨settled_step hc.1 a, termStored_step hc.1 hc.2⟩) h
    ⟨fun _ => ⟨rfl, rfl⟩, hinit⟩
  exact hinv.2.node v hv

end

/-! ## What the messages of a campaign do to a node -/

/-- A message by which a leader makes itself known in term `N`. -/
def RaftMsg.Leads (N : Nat) : RaftMsg P → Prop
  | .appendEntries term _ _ _ _ | .installSnapshot term _ _ _ _ _ _ => term = N
  | _ => False

/-- An answer to a leader of term `N`. -/
def RaftMsg.Answers (N : Nat) : RaftMsg P → Prop
  | .appendEntriesResponse term _ _ | .installSnapshotResponse term _ => term = N
  | _ => False

namespace RaftNode

variable [StateMachine SM P] {n : TestNode P SM} {sender : NodeId}

/-- An answer to a pre-vote that the node no longer waits for. -/
theorem yields_latePreVote (hsilent : n.transport = []) (sender : NodeId) {term : Nat} (g : Bool)
    (hterm : term ≤ n.currentTerm) (hpre : n.election.inPreVote = false) :
    n.Yields (.message sender (.preVoteResponse term g)) n.sheet [] := by
  have heq : n.onEvent .testUtils (.message sender (.preVoteResponse term g)) = n := by
    show n.handlePreVoteResponse .testUtils sender term g = n
    unfold handlePreVoteResponse ElectionManager.handlePreVoteResponse
    simp [Nat.not_lt.mpr hterm, hpre]
  exact yields_silence heq hsilent

/-- An answer to a canvass that does not count. -/
theorem yields_spentVote (hsilent : n.transport = []) (sender : NodeId) {g : Bool}
    (h : n.role ≠ .candidate ∨ g = false) :
    n.Yields (.message sender (.requestVoteResponse n.currentTerm g)) n.sheet [] := by
  have heq : n.onEvent .testUtils (.message sender (.requestVoteResponse n.currentTerm g)) = n := by
    show n.handleVoteResponse .testUtils sender n.currentTerm g = n
    unfold handleVoteResponse ElectionManager.handleVoteResponse
    rcases h with h | h <;> simp [h]
  exact yields_silence heq hsilent

/-- A canvass in the node's own term. -/
theorem yields_canvass (hsilent : n.transport = []) (sender cand : NodeId) (li lt : Nat) :
    ∃ s g, s.role = n.role ∧ s.term = n.currentTerm ∧
      n.Yields (.message sender (.requestVote n.currentTerm cand li lt)) s
        [⟨n.id, sender, .requestVoteResponse n.currentTerm g⟩] := by
  have heq : n.onEvent .testUtils (.message sender (.requestVote n.currentTerm cand li lt)) =
      n.answerVoteRequest sender n.currentTerm cand li lt := by
    show n.handleVoteRequest sender n.currentTerm cand li lt = _
    unfold handleVoteRequest
    rw [if_neg (Nat.lt_irrefl _)]
  refine ⟨_, ElectionManager.shouldGrantVote n.currentTerm n.currentTerm cand li lt n.storage,
    ?_, ?_, ⟨rfl, ?_⟩⟩ <;> rw [heq, answerVoteRequest_eq (Nat.le_refl _)]
  · split <;> rfl
  · split <;> rfl
  · split
    · rename_i h
      unfold RaftNode.outbox send
      dsimp only
      rw [hsilent, h]
      rfl
    · rename_i h
      unfold RaftNode.outbox send
      dsimp only
      rw [hsilent, Bool.eq_false_iff.mpr h]
      rfl

theorem leads_getAppendEntriesForPeer {S : Type} [Storage S P] (r : LogReplicationManager)
    (peer leaderId : NodeId) (s : S) :
    (r.getAppendEntriesForPeer peer leaderId s).Leads (Storage.currentTerm s) := by
  unfold LogReplicationManager.getAppendEntriesForPeer
  dsimp only
  split
  · split <;> rfl
  · rfl

omit [StateMachine SM P] in
/-- What a leader sends that had nothing to send. -/
theorem outbox_sendAppendEntries (hsilent : n.transport = []) (hstored : n.TermStored) :
    (∀ p ∈ (n.sendAppendEntriesToFollowers .testUtils).outbox,
      p.src = n.id ∧ p.dst ∈ n.config.peers n.id ∧ p.msg.Leads n.currentTerm) ∧
    ∀ u ∈ n.config.peers n.id,
      ∃ p ∈ (n.sendAppendEntriesToFollowers .testUtils).outbox, p.dst = u := by
  rw [sendAppendEntriesToFollowers_eq, peerIds_testUtils]
  unfold RaftNode.outbox
  dsimp only
  rw [hsilent, List.nil_append, List.map_map]
  constructor
  · intro p hp
    obtain ⟨u, hu, rfl⟩ := List.mem_map.mp hp
    have hterm : Storage.currentTerm n.storage = n.currentTerm := hstored
    exact ⟨rfl, hu, hterm ▸ leads_getAppendEntriesForPeer ..⟩
  · intro u hu
    exact ⟨_, List.mem_map.mpr ⟨u, hu, rfl⟩, rfl⟩

omit [StateMachine SM P] in
theorem outbox_becomeLeader (hsilent : n.transport = []) (hstored : n.TermStored) :
    (∀ p ∈ (n.becomeLeader .testUtils).outbox,
      p.src = n.id ∧ p.dst ∈ n.config.peers n.id ∧ p.msg.Leads n.currentTerm) ∧
    ∀ u ∈ n.config.peers n.id, ∃ p ∈ (n.becomeLeader .testUtils).outbox, p.dst = u := by
  unfold becomeLeader
  exact outbox_sendAppendEntries hsilent hstored

/-- The vote that makes a candidate the leader. -/
theorem yields_win (hsilent : n.transport = []) (hstored : n.TermStored) (sender : NodeId)
    (hrole : n.role = .candidate)
    (hquorum : n.config.quorumSize ≤ n.election.votesReceived.length + 1) :
    ∃ s sent, s.role = .leader ∧ s.term = n.currentTerm ∧ s.inPreVote = n.election.inPreVote ∧
      (∀ p ∈ sent, p.src = n.id ∧ p.dst ∈ n.config.peers n.id ∧ p.msg.Leads n.currentTerm) ∧
      (∀ u ∈ n.config.peers n.id, ∃ p ∈ sent, p.dst = u) ∧
      n.Yields (.message sender (.requestVoteResponse n.currentTerm true)) s sent := by
  have hall : n.config.hasQuorum (n.election.votesReceived ++ [sender]).length = true :=
    (hasQuorum_concat _ _).trans (decide_eq_true hquorum)
  have heq : n.onEvent .testUtils (.message sender (.requestVoteResponse n.currentTerm true)) =
      { n with
        election := { n.election with
          votesReceived := n.election.votesReceived ++ [sender] } }.becomeLeader .testUtils := by
    show n.handleVoteResponse .testUtils sender n.currentTerm true = _
    unfold handleVoteResponse ElectionManager.handleVoteResponse
    simp only [gt_iff_lt, Nat.lt_irrefl, if_false, hrole, ne_eq, not_true_eq_false,
      Bool.true_eq_false, or_self, Realization.testUtils, pushWithin_none, hall, if_true]
  have hlead := outbox_becomeLeader (n := { n with
    election := { n.election with
      votesReceived := n.election.votesReceived ++ [sender] } }) hsilent hstored
  rw [← heq] at hlead
  refine ⟨_, _, ?_, ?_, ?_, hlead.1, hlead.2, ⟨rfl, rfl⟩⟩ <;> rw [heq] <;>
    unfold becomeLeader <;> rw [sendAppendEntriesToFollowers_eq] <;> rfl

theorem answers_installChunk {S : Type} [Storage S P] (r : LogReplicationManager)
    (index t offset : Nat) (data : List UInt8) (done : Bool) (T : Nat) (s : S) (sm : SM)
    (role : NodeState) :
    (r.installChunk index t offset data done T s sm role).response.Answers T := by
  unfold LogReplicationManager.installChunk
  dsimp only
  split
  · rfl
  · split
    · split <;> rfl
    · rfl

open LogReplicationManager in
theorem answers_handleInstallSnapshot {S : Type} [Storage S P] (r : LogReplicationManager)
    {term currentTerm : Nat} (h : currentTerm ≤ term) (index t offset : Nat) (data : List UInt8)
    (done : Bool) (s : S) (sm : SM) (role : NodeState) :
    (r.handleInstallSnapshot term index t offset data done currentTerm s sm role).response.Answers
      term := by
  unfold LogReplicationManager.handleInstallSnapshot
  rw [if_neg (Nat.not_lt.mpr h)]
  have hall : ∀ (s : S) (role : NodeState), (if alreadyCovered index s then
      ⟨r, term, s, sm, role, .installSnapshotResponse term false⟩
      else r.installChunk index t offset data done term s sm role : InstallResult P S SM
      ).response.Answers term := by
    intro s role
    split
    · rfl
    · exact answers_installChunk ..
  exact hall _ _

omit [StateMachine SM P] in
theorem follow_follower {f : Face P SM} {T : Nat} (h : f.currentTerm < T ∨ f.role = .follower) :
    (f.follow T).role = .follower := by
  unfold Face.follow
  dsimp only
  split
  · rfl
  · rename_i hnot
    exact h.resolve_left fun hlt => hnot (Or.inl hlt)

theorem commit_follower {f : Face P SM} {id : NodeId} {c : Nat} {b : List (Nat × LogEntry P)}
    (h : f.role = .follower) : (f.commit .testUtils id c b).role = .follower := by
  unfold Face.commit
  dsimp only
  rw [h, ite_self]

/-- Where a leader that makes itself known takes a node of an earlier term, or a follower. -/
theorem led_of_outcome {msg : RaftMsg P} {N : Nat} {f : Face P SM}
    (hspeaks : n.LeaderSpeaks (.message sender msg)) (hmsg : msg.Leads N)
    (h : n.currentTerm < N ∨ n.role = .follower)
    (hout : Outcome .testUtils (.message sender msg) n f) :
    f.role = .follower ∧ f.currentTerm = N := by
  cases hout with
  | keeps calm => exact absurd hspeaks calm
  | stepsDown asked higher =>
    cases asked
    cases msg <;> first | exact hmsg.elim | exact ⟨rfl, hmsg⟩
  | yields asked =>
    cases asked
    cases hmsg
    exact ⟨follow_follower h, rfl⟩
  | learns asked =>
    cases asked
    cases hmsg
    exact ⟨commit_follower (follow_follower h), rfl⟩
  | commits leader asked =>
    cases asked
    exact hmsg.elim
  | commitsAlone leader asked => cases asked
  | hearsSnapshot asked reached =>
    cases asked
    cases hmsg
    exact ⟨follow_follower h, rfl⟩
  | installs asked reached =>
    cases asked
    cases hmsg
    exact ⟨follow_follower h, rfl⟩
  | campaigns cause | leadsAlone cause =>
    cases msg <;> first | exact hmsg.elim | exact cause.elim
  | wins candidate asked =>
    cases asked
    exact hmsg.elim

omit [StateMachine SM P] in
/-- What a node sends that had nothing to send. -/
theorem mem_outbox_send {n' : TestNode P SM} {target : NodeId} {msg : RaftMsg P} {p : Packet P}
    (hp : p ∈ (n'.send target msg).outbox) (hid : n'.id = n.id) (hsilent : n'.transport = []) :
    p = ⟨n.id, target, msg⟩ := by
  unfold RaftNode.outbox send at hp
  dsimp only at hp
  rw [hsilent, hid] at hp
  exact List.mem_singleton.mp hp

omit [StateMachine SM P] in
theorem resetElectionTimerIfValidTerm_eq (n : TestNode P SM) (term : Nat) :
    ∃ timers, n.resetElectionTimerIfValidTerm term =
      { n with election := { n.election with timerService := timers } } := by
  unfold resetElectionTimerIfValidTerm
  split
  · exact ⟨_, rfl⟩
  · exact ⟨n.election.timerService, rfl⟩

theorem outbox_acceptAppendEntries (hsilent : n.transport = []) {term prev pt : Nat}
    {es : List (LogEntry P)} {lc : Nat} (hterm : term = n.currentTerm) {p : Packet P}
    (hp : p ∈ (n.acceptAppendEntries .testUtils sender term prev pt es lc).outbox) :
    p.src = n.id ∧ p.dst = sender ∧ p.msg.Answers term := by
  obtain ⟨timers, htimers⟩ := resetElectionTimerIfValidTerm_eq n term
  unfold acceptAppendEntries at hp
  rw [htimers] at hp
  obtain rfl := mem_outbox_send (n := n) hp rfl hsilent
  exact ⟨rfl, rfl, by simp [LogReplicationManager.handleAppendEntries, RaftMsg.Answers, hterm]⟩

theorem outbox_handleInstallSnapshot (hsilent : n.transport = []) {term index t offset : Nat}
    {data : List UInt8} {done : Bool} (hterm : n.currentTerm ≤ term) {p : Packet P}
    (hp : p ∈ (n.handleInstallSnapshot sender term index t offset data done).outbox) :
    p.src = n.id ∧ p.dst = sender ∧ p.msg.Answers term := by
  obtain ⟨timers, htimers⟩ := resetElectionTimerIfValidTerm_eq n term
  unfold handleInstallSnapshot at hp
  rw [htimers] at hp
  obtain rfl := mem_outbox_send (n := n) hp rfl hsilent
  exact ⟨rfl, rfl, answers_handleInstallSnapshot _ hterm ..⟩

/-- A leader makes itself known to a node of an earlier term, or to one that follows already. -/
theorem yields_lead (hsilent : n.transport = []) (sender : NodeId) {msg : RaftMsg P} {N : Nat}
    (hmsg : msg.Leads N) (h : n.currentTerm < N ∨ n.currentTerm = N ∧ n.role = .follower) :
    ∃ s sent, s.role = .follower ∧ s.term = N ∧
      (∀ p ∈ sent, p.src = n.id ∧ p.dst = sender ∧ p.msg.Answers N) ∧
      n.Yields (.message sender msg) s sent := by
  have hle : n.currentTerm ≤ N := h.elim Nat.le_of_lt fun h => Nat.le_of_eq h.1
  have hled := fun hspeaks : n.LeaderSpeaks (.message sender msg) =>
    led_of_outcome hspeaks hmsg (h.imp_right And.right)
      (onEvent_outcome .testUtils n (.message sender msg))
  cases msg with
  | appendEntries term prev pt es lc =>
    have hN : term = N := hmsg
    subst hN
    rcases Nat.lt_or_ge n.currentTerm term with hlt | hge
    · have heq : n.onEvent .testUtils (.message sender (.appendEntries term prev pt es lc)) =
          n.stepDown term := by
        show n.handleAppendEntries .testUtils sender term prev pt es lc = _
        unfold handleAppendEntries
        rw [if_pos hlt]
      exact ⟨_, [], rfl, rfl, by simp, yields_silence heq hsilent⟩
    · have hN : n.currentTerm = term := Nat.le_antisymm hle hge
      have heq : n.onEvent .testUtils (.message sender (.appendEntries term prev pt es lc)) =
          n.acceptAppendEntries .testUtils sender term prev pt es lc := by
        show n.handleAppendEntries .testUtils sender term prev pt es lc = _
        unfold handleAppendEntries
        rw [if_neg (Nat.not_lt.mpr hge)]
      obtain ⟨hrole, hterm⟩ := hled hN.symm
      refine ⟨_, _, hrole, hterm, fun p hp => ?_, ⟨rfl, rfl⟩⟩
      rw [heq] at hp
      exact outbox_acceptAppendEntries hsilent hN.symm hp
  | installSnapshot term leaderId index t offset data done =>
    have hN : term = N := hmsg
    subst hN
    obtain ⟨hrole, hterm⟩ := hled hle
    exact ⟨_, _, hrole, hterm, fun p hp => outbox_handleInstallSnapshot hsilent hle hp, ⟨rfl, rfl⟩⟩
  | preVoteRequest | preVoteResponse | requestVote | requestVoteResponse | appendEntriesResponse
  | installSnapshotResponse => exact hmsg.elim

omit [StateMachine SM P] in
/-- In a log without configuration changes there is no removal to be applied. -/
theorem no_removal_of_fixed {d : Deployment SM} (h : FixedNode d n) {i k : Nat} {v : NodeId} :
    .removeServer v ∉ (Face.collected .testUtils
      (LogReplicationManager.batch n.storage i k)).map (·.2) := by
  intro hmem
  obtain ⟨⟨j, change⟩, hmem, rfl⟩ := List.mem_map.mp hmem
  obtain ⟨e, he, hchange⟩ := LogReplicationManager.mem_changesIn.mp
    ((mem_of_mem_foldl_pushWithin hmem).resolve_left List.not_mem_nil)
  have hget := (LogReplicationManager.mem_batch he).2.2
  refine h.log e (InMemoryStorage.getEntry_mem hget) ?_
  unfold LogEntry.change at hchange
  split at hchange
  · cases hchange
  · rename_i ch hch
    exact ⟨ch, hch⟩

/-- A leader keeps its role and its term when it is answered. -/
theorem kept_of_outcome {d : Deployment SM} (hfixed : FixedNode d n) {msg : RaftMsg P}
    (hmsg : msg.Answers n.currentTerm) (hrole : n.role = .leader) {f : Face P SM}
    (hout : Outcome .testUtils (.message sender msg) n f) :
    f.role = .leader ∧ f.currentTerm = n.currentTerm := by
  cases hout with
  | keeps => exact ⟨hrole, rfl⟩
  | stepsDown asked higher =>
    cases asked
    have hterm : msg.term = n.currentTerm := by
      cases msg <;> first | exact hmsg.elim | exact hmsg
    exact absurd higher (Nat.not_lt.mpr (Nat.le_of_eq hterm))
  | commits leader asked => exact ⟨Face.commit_leader.mpr ⟨hrole, no_removal_of_fixed hfixed⟩, rfl⟩
  | yields asked | learns asked | hearsSnapshot asked | installs asked =>
    cases asked
    exact hmsg.elim
  | commitsAlone leader asked => cases asked
  | campaigns cause | leadsAlone cause =>
    cases msg <;> first | exact hmsg.elim | exact cause.elim
  | wins candidate asked =>
    rw [hrole] at candidate
    cases candidate

theorem inPreVote_answers {msg : RaftMsg P} {N : Nat} (hmsg : msg.Answers N) :
    (n.onEvent .testUtils (.message sender msg)).election.inPreVote = n.election.inPreVote := by
  cases msg with
  | appendEntriesResponse term success m =>
    show (n.handleAppendEntriesResponse .testUtils sender term success m).election.inPreVote = _
    unfold handleAppendEntriesResponse recordAppendEntriesResponse
    dsimp only
    split
    · rfl
    · split
      · split
        · split <;> rfl
        · rfl
      · rfl
  | installSnapshotResponse term success =>
    show (n.handleInstallSnapshotResponse .testUtils sender term success).election.inPreVote = _
    unfold handleInstallSnapshotResponse
    split
    · rfl
    · split
      · split <;> rfl
      · rfl
  | preVoteRequest | preVoteResponse | requestVote | requestVoteResponse | appendEntries
  | installSnapshot => exact hmsg.elim

/-- An answer reaches the leader that waits for it. -/
theorem yields_answer {d : Deployment SM} (hsilent : n.transport = []) (hfixed : FixedNode d n)
    (sender : NodeId) {msg : RaftMsg P} (hmsg : msg.Answers n.currentTerm)
    (hrole : n.role = .leader) :
    ∃ s, s.role = .leader ∧ s.term = n.currentTerm ∧ s.inPreVote = n.election.inPreVote ∧
      n.Yields (.message sender msg) s [] := by
  obtain ⟨hlead, hterm⟩ := kept_of_outcome hfixed hmsg hrole
    (onEvent_outcome .testUtils n (.message sender msg))
  obtain ⟨outs, hto, hrank⟩ := onEvent_says .testUtils n sender msg
  have hzero : msg.rank = 0 := by
    cases msg <;> first | exact hmsg.elim | rfl
  have hnone : outs = [] := by
    refine List.eq_nil_iff_forall_not_mem.mpr fun o ho => ?_
    have hlt := hrank o ho
    omega
  refine ⟨_, hlead, hterm, inPreVote_answers hmsg, ⟨rfl, ?_⟩⟩
  unfold RaftNode.outbox
  rw [hto, hsilent, hnone]
  rfl

end RaftNode

/-! ## The campaign -/

/-- How far a node has come that stands for the next term. -/
inductive Stage where
  | asking
  | standing
  | leading

namespace Stage

/-- The term of the node, which was in term `T` before. -/
def term (T : Nat) : Stage → Nat
  | .asking => T
  | .standing | .leading => T + 1

/-- What the node itself has come to, where `q` votes decide and its log ends in `e`. -/
def Self (q T : Nat) (e : Nat × Nat) (v : NodeId) (s : Sheet) : Stage → Prop
  | .asking => s.role ≠ .leader ∧ s.term = T ∧ s.last = e ∧ s.inPreVote = true ∧
      v ∈ s.preVotes ∧ s.preVotes.length < q
  | .standing => s.role = .candidate ∧ s.term = T + 1 ∧ s.inPreVote = false ∧
      v ∈ s.votes ∧ s.votes.length < q
  | .leading => s.role = .leader ∧ s.term = T + 1 ∧ s.inPreVote = false

/-- Another node that can still be won. -/
def Open (T : Nat) (e : Nat × Nat) (s : Sheet) : Prop := s.term ≤ T ∧ NoLater s.last e

/-- Another node that has come to the new term. -/
def Won (T : Nat) (s : Sheet) : Prop := s.role = .follower ∧ s.term = T + 1

def Other (T : Nat) (e : Nat × Nat) (s : Sheet) : Stage → Prop
  | .asking => Open T e s
  | .standing | .leading => Open T e s ∨ Won T s

/-- What is on its way during the campaign. -/
inductive Sent (T : Nat) (e : Nat × Nat) (v : NodeId) : Stage → Packet P → Prop
  | ask {k : Stage} {u : NodeId} (ne : u ≠ v) :
      Sent T e v k ⟨v, u, .preVoteRequest T v e.2 e.1⟩
  | consent {k : Stage} {u : NodeId} {t : Nat} {g : Bool} (le : t ≤ k.term T) :
      Sent T e v k ⟨u, v, .preVoteResponse t g⟩
  | canvass {k : Stage} {u : NodeId} (ne : u ≠ v) (stands : k ≠ .asking) :
      Sent T e v k ⟨v, u, .requestVote (T + 1) v e.2 e.1⟩
  | vote {k : Stage} {u : NodeId} {g : Bool} (stands : k ≠ .asking) :
      Sent T e v k ⟨u, v, .requestVoteResponse (T + 1) g⟩
  | lead {u : NodeId} {msg : RaftMsg P} (ne : u ≠ v) (leads : msg.Leads (T + 1)) :
      Sent T e v .leading ⟨v, u, msg⟩
  | answer {u : NodeId} {msg : RaftMsg P} (answers : msg.Answers (T + 1)) :
      Sent T e v .leading ⟨u, v, msg⟩

/-- What the node with sheet `s` still waits for from node `u`, or has got from it. -/
def Owes (T : Nat) (e : Nat × Nat) (v : NodeId) (s su : Sheet) (net : List (Packet P))
    (u : NodeId) : Stage → Prop
  | .asking => ⟨v, u, .preVoteRequest T v e.2 e.1⟩ ∈ net ∨
      (∃ t ≤ T, ⟨u, v, .preVoteResponse t true⟩ ∈ net) ∨ u ∈ s.preVotes
  | .standing => (⟨v, u, .requestVote (T + 1) v e.2 e.1⟩ ∈ net ∧ Open T e su) ∨
      ⟨u, v, .requestVoteResponse (T + 1) true⟩ ∈ net ∨ u ∈ s.votes
  | .leading => Won T su ∨
      ∃ msg, (msg = .requestVote (T + 1) v e.2 e.1 ∨ msg.Leads (T + 1)) ∧ ⟨v, u, msg⟩ ∈ net

end Stage

section

variable [StateMachine SM P] {d : Deployment SM} {Q : Finset NodeId} {c c' : Cluster P SM}
  {a : Action P} {u v : NodeId} {T : Nat} {e : Nat × Nat} {k k' : Stage} {p : Packet P}
  {s : Sheet} {sent : List (Packet P)}

/-- The nodes of `Q` are left to themselves: what they send to each other is delivered, once or
more often, nothing else reaches them, and the rest of the cluster does what it likes. -/
def Undisturbed (Q : Finset NodeId) (c : Cluster P SM) : Action P → Prop
  | .deliver i => ∀ p ∈ c.network[i]?, p.dst ∈ Q → p.src ∈ Q
  | .lose i => ∀ p ∈ c.network[i]?, p.src ∈ Q → p.dst ∉ Q
  | .duplicate _ | .advance _ => True
  | .timer w _ | .client w _ | .restart w => w ∉ Q
  | .configChange _ _ => False

instance : (a : Action P) → Decidable (Undisturbed Q c a)
  | .deliver i => inferInstanceAs (Decidable (∀ p ∈ c.network[i]?, p.dst ∈ Q → p.src ∈ Q))
  | .lose i => inferInstanceAs (Decidable (∀ p ∈ c.network[i]?, p.src ∈ Q → p.dst ∉ Q))
  | .duplicate _ | .advance _ => isTrue trivial
  | .timer w _ | .client w _ | .restart w => inferInstanceAs (Decidable (w ∉ Q))
  | .configChange _ _ => isFalse id

/-- Node `v` of `Q` stands for term `T + 1`. -/
structure Campaign (d : Deployment SM) (Q : Finset NodeId) (v : NodeId) (T : Nat) (e : Nat × Nat)
    (k : Stage) (c : Cluster P SM) : Prop where
  reach : Reachable d FixedMembership c
  self : k.Self (d.members.length / 2 + 1) T e v (c.sheet v)
  others : ∀ u ∈ Q, u ≠ v → k.Other T e (c.sheet u)
  sent : ∀ p ∈ c.network, p.src ∈ Q → p.dst ∈ Q → k.Sent T e v p
  owes : ∀ u ∈ Q, u ≠ v → k.Owes T e v (c.sheet v) (c.sheet u) c.network u

theorem standing_of_reachable (hreach : Reachable d FixedMembership c)
    (hmembers : ∀ v ∈ Q, v ∈ d.members) : Standing d Q c :=
  ⟨hmembers, hreach.settled, hreach.fixed fun _ _ h => h⟩

/-- `c'` comes of `c` when message `p` is delivered, its receiver comes to `s` and sends `sent`. -/
structure Handles (c : Cluster P SM) (p : Packet P) (s : Sheet) (sent : List (Packet P))
    (c' : Cluster P SM) : Prop where
  self : c'.sheet p.dst = s
  others : ∀ u, u ≠ p.dst → c'.sheet u = c.sheet u
  kept : ∀ q ∈ c.network, q ≠ p → q ∈ c'.network
  new : ∀ q ∈ sent, q ∈ c'.network
  old : ∀ q ∈ c'.network, q ∈ c.network ∨ q ∈ sent

theorem handles_deliver {i : Nat} (hc : Standing d Q c) (hi : c.network[i]? = some p)
    (hdst : p.dst ∈ Q) (hy : (c.nodes p.dst).Yields (.message p.src p.msg) s sent) :
    Handles c p s sent (c.step d (.deliver i)) := by
  rw [hc.step_deliver hi hdst]
  have hnet : (Cluster.dispatch { c with network := c.network.eraseIdx i } p.dst
      (.message p.src p.msg)).network = c.network.eraseIdx i ++ sent := by
    unfold Cluster.dispatch
    rw [Cluster.withNode_network, hy.sent]
  constructor
  · unfold Cluster.sheet Cluster.dispatch
    rw [Cluster.withNode_nodes_self]
    exact hy.sheet
  · intro u hu
    unfold Cluster.sheet Cluster.dispatch
    rw [Cluster.withNode_nodes_ne hu]
  · intro q hq hne
    rw [hnet]
    apply List.mem_append_left
    obtain ⟨j, hj, hget⟩ := List.mem_iff_getElem.mp hq
    refine List.mem_eraseIdx_iff_getElem?.mpr ⟨j, fun hij => hne ?_, by simp [hj, hget]⟩
    subst hij
    rw [List.getElem?_eq_getElem hj, hget] at hi
    exact Option.some.inj hi
  · intro q hq
    rw [hnet]
    exact List.mem_append_right _ hq
  · intro q hq
    rw [hnet] at hq
    rcases List.mem_append.mp hq with hq | hq
    · exact Or.inl (List.mem_of_mem_eraseIdx hq)
    · exact Or.inr hq

/-- Another node handles a message. -/
theorem Campaign.other (h : Campaign d Q v T e k c) (hreach : Reachable d FixedMembership c')
    (hh : Handles c p s sent c') (hne : p.dst ≠ v) (hother : k.Other T e s)
    (hsent : ∀ q ∈ sent, k.Sent T e v q)
    (howes : k.Owes T e v (c.sheet v) s c'.network p.dst) : Campaign d Q v T e k c' := by
  have hself : c'.sheet v = c.sheet v := hh.others v hne.symm
  refine ⟨hreach, hself ▸ h.self, fun u hu huv => ?_, fun q hq hsrc hdst => ?_, fun u hu huv => ?_⟩
  · by_cases hup : u = p.dst
    · rw [hup, hh.self]
      exact hother
    · rw [hh.others u hup]
      exact h.others u hu huv
  · rcases hh.old q hq with hq | hq
    · exact h.sent q hq hsrc hdst
    · exact hsent q hq
  · by_cases hup : u = p.dst
    · rw [hup, hself, hh.self]
      exact howes
    · rw [hself, hh.others u hup]
      have hto : ∀ msg, ⟨v, u, msg⟩ ∈ c.network → ⟨v, u, msg⟩ ∈ c'.network :=
        fun msg hm => hh.kept _ hm fun heq => hup (congrArg Packet.dst heq)
      have hback : ∀ msg, ⟨u, v, msg⟩ ∈ c.network → ⟨u, v, msg⟩ ∈ c'.network :=
        fun msg hm => hh.kept _ hm fun heq => hne (congrArg Packet.dst heq).symm
      have hold := h.owes u hu huv
      cases k with
      | asking =>
        exact hold.imp (hto _) (Or.imp_left fun ⟨t, ht, hm⟩ => ⟨t, ht, hback _ hm⟩)
      | standing =>
        exact hold.imp (fun hm => ⟨hto _ hm.1, hm.2⟩) (Or.imp_left (hback _))
      | leading =>
        exact hold.imp_right fun ⟨msg, hkind, hm⟩ => ⟨msg, hkind, hto _ hm⟩

/-- The node itself handles a message. -/
theorem Campaign.own (h : Campaign d Q v T e k c) (hreach : Reachable d FixedMembership c')
    (hh : Handles c p s sent c') (hdst : p.dst = v)
    (hself : k'.Self (d.members.length / 2 + 1) T e v s)
    (hothers : ∀ s, k.Other T e s → k'.Other T e s)
    (hold : ∀ q : Packet P, k.Sent T e v q → k'.Sent T e v q)
    (hsent : ∀ q ∈ sent, k'.Sent T e v q)
    (howes : ∀ u ∈ Q, u ≠ v → k'.Owes T e v s (c.sheet u) c'.network u) :
    Campaign d Q v T e k' c' := by
  subst hdst
  refine ⟨hreach, hh.self.symm ▸ hself, fun u hu huv => ?_, fun q hq hsrc hdst => ?_,
    fun u hu huv => ?_⟩
  · rw [hh.others u huv]
    exact hothers _ (h.others u hu huv)
  · rcases hh.old q hq with hq | hq
    · exact hold q (h.sent q hq hsrc hdst)
    · exact hsent q hq
  · rw [hh.self, hh.others u huv]
    exact howes u hu huv

/-! ### One delivery -/

omit [StateMachine SM P] in
/-- What waits for the other nodes is still waiting when a message has gone to the node itself. -/
theorem Handles.toOther (hh : Handles c p s sent c') (hdst : p.dst = v) (hu : u ≠ v)
    {msg : RaftMsg P} (hm : ⟨v, u, msg⟩ ∈ c.network) : ⟨v, u, msg⟩ ∈ c'.network :=
  hh.kept _ hm fun heq => hu ((congrArg Packet.dst heq).trans hdst)

/-- The node keeps its sheet, and what it waits for is not what it has handled. -/
theorem Campaign.ignores (h : Campaign d Q v T e k c) (hreach : Reachable d FixedMembership c')
    (hh : Handles c p (c.sheet v) [] c') (hdst : p.dst = v)
    (hconsent : ∀ t, p.msg = .preVoteResponse t true → k ≠ .asking)
    (hvote : p.msg = .requestVoteResponse (T + 1) true → k ≠ .standing) :
    Campaign d Q v T e k c' := by
  refine h.own hreach hh hdst h.self (fun _ h => h) (fun _ h => h) (by simp) fun u hu huv => ?_
  have hold := h.owes u hu huv
  cases k with
  | asking =>
    refine hold.imp (hh.toOther hdst huv) (Or.imp_left fun ⟨t, ht, hm⟩ => ⟨t, ht, ?_⟩)
    exact hh.kept _ hm fun heq => hconsent t (congrArg Packet.msg heq).symm rfl
  | standing =>
    refine hold.imp (fun hm => ⟨hh.toOther hdst huv hm.1, hm.2⟩) (Or.imp_left fun hm => ?_)
    exact hh.kept _ hm fun heq => hvote (congrArg Packet.msg heq).symm rfl
  | leading =>
    exact hold.imp_right fun ⟨msg, hkind, hm⟩ => ⟨msg, hkind, hh.toOther hdst huv hm⟩

theorem Stage.Other.term_le (h : k.Other T e s) : s.term ≤ k.term T := by
  cases k with
  | asking => exact h.1
  | standing | leading => exact h.elim (fun h => Nat.le_succ_of_le h.1) fun h => Nat.le_of_eq h.2

theorem Campaign.ask {i : Nat} (h : Campaign d Q v T e k c) (hmembers : ∀ v ∈ Q, v ∈ d.members)
    (hu : u ∈ Q) (hne : u ≠ v) (hi : c.network[i]? = some ⟨v, u, .preVoteRequest T v e.2 e.1⟩)
    (hreach : Reachable d FixedMembership (c.step d (.deliver i))) :
    Campaign d Q v T e k (c.step d (.deliver i)) := by
  have hc := standing_of_reachable h.reach hmembers
  have hy := RaftNode.yields_preVoteRequest (hc.settled u).2 v T v e.2 e.1
  rw [(hc.settled u).1] at hy
  have hh := handles_deliver hc hi hu hy
  have hother := h.others u hu hne
  refine h.other hreach hh hne hother ?_ ?_
  · simp only [List.mem_singleton, forall_eq]
    exact .consent hother.term_le
  · have hold := h.owes u hu hne
    have hkept : ∀ q : Packet P, q.msg ≠ .preVoteRequest T v e.2 e.1 → q ∈ c.network →
        q ∈ (c.step d (.deliver i)).network :=
      fun q hq hm => hh.kept q hm fun heq => hq (congrArg Packet.msg heq)
    cases k with
    | asking =>
      have hgrant : (decide ((c.nodes u).currentTerm ≤ T ∧
          NoLater (lastEntry (c.nodes u).storage) (e.1, e.2))) = true := decide_eq_true hother
      rw [hgrant] at hh
      exact Or.inr (Or.inl ⟨_, hother.1, hh.new _ List.mem_cons_self⟩)
    | standing =>
      exact hold.imp (fun hm => ⟨hkept _ nofun hm.1, hm.2⟩) (Or.imp_left (hkept _ nofun))
    | leading =>
      refine hold.imp_right fun ⟨msg, hkind, hm⟩ => ⟨msg, hkind, hkept _ ?_ hm⟩
      rcases hkind with rfl | hleads
      · exact nofun
      · rintro rfl
        exact hleads

/-- A pre-vote that completes the quorum. -/
theorem Campaign.stand {i t : Nat} (h : Campaign d Q v T e .asking c)
    (hmembers : ∀ v ∈ Q, v ∈ d.members) (hmany : 1 < d.members.length) (hv : v ∈ Q)
    (ht : t ≤ T) (hi : c.network[i]? = some ⟨u, v, .preVoteResponse t true⟩)
    (hquorum : d.members.length / 2 + 1 ≤ (c.sheet v).preVotes.length + 1)
    (hreach : Reachable d FixedMembership (c.step d (.deliver i))) :
    Campaign d Q v T e .standing (c.step d (.deliver i)) := by
  have hc := standing_of_reachable h.reach hmembers
  obtain ⟨-, hterm, hlast, hpre, -, -⟩ := h.self
  have hpeers : 1 < (c.nodes v).config.members.length := (hc.config hv).length_eq ▸ hmany
  have hcurrent : (c.nodes v).currentTerm = T := hterm
  have hy := RaftNode.yields_candidacy (hc.settled v).2 u hpeers (hcurrent ▸ ht) hpre
    (by rw [quorumSize_eq hc hv hmany]; exact hquorum)
  have hcanvass : (c.nodes v).sheet.canvassing (P := P) v (T + 1) =
      .requestVote (T + 1) v e.2 e.1 := by
    unfold Sheet.canvassing
    rw [show (c.nodes v).sheet.last = e from hlast]
  rw [(hc.settled v).1, hcurrent, hcanvass] at hy
  have hh := handles_deliver hc hi hv hy
  refine h.own hreach hh rfl ⟨rfl, rfl, rfl, List.mem_singleton_self v, ?_⟩ (fun _ => Or.inl)
    (fun q hq => ?_) (fun q hq => ?_) fun w hw hwv => ?_
  · rw [List.length_singleton]
    omega
  · cases hq with
    | ask ne => exact .ask ne
    | consent le => exact .consent (Nat.le_succ_of_le le)
    | canvass _ stands | vote stands => exact absurd rfl stands
  · obtain ⟨w, hw, rfl⟩ := List.mem_map.mp hq
    exact .canvass (Configuration.mem_peers.mp hw).2 nofun
  · refine Or.inl ⟨hh.new _ (List.mem_map.mpr ⟨w, ?_, rfl⟩), h.others w hw hwv⟩
    exact mem_peers_of_standing hc hv hw hwv

theorem Campaign.consent {i t : Nat} {g : Bool} (h : Campaign d Q v T e k c)
    (hmembers : ∀ v ∈ Q, v ∈ d.members) (hmany : 1 < d.members.length) (hv : v ∈ Q)
    (ht : t ≤ k.term T) (hi : c.network[i]? = some ⟨u, v, .preVoteResponse t g⟩)
    (hreach : Reachable d FixedMembership (c.step d (.deliver i))) :
    ∃ k', Campaign d Q v T e k' (c.step d (.deliver i)) := by
  have hc := standing_of_reachable h.reach hmembers
  have hself := h.self
  cases k with
  | asking =>
    obtain ⟨hrole, hterm, hlast, hpre, hown, hfew⟩ := hself
    cases g with
    | false =>
      have hh := handles_deliver hc hi hv (RaftNode.yields_refusal (hc.settled v).2 u t)
      exact ⟨_, h.ignores hreach hh rfl (by simp) (by simp)⟩
    | true =>
      rcases Nat.lt_or_ge ((c.sheet v).preVotes.length + 1) (d.members.length / 2 + 1) with
        hlt | hge
      · have hcurrent : (c.nodes v).currentTerm = T := hterm
        have hy := RaftNode.yields_preVote (hc.settled v).2 u (hcurrent ▸ ht) hpre
          (by rw [quorumSize_eq hc hv hmany]; exact hlt)
        have hh := handles_deliver hc hi hv hy
        refine ⟨.asking, h.own hreach hh rfl ⟨hrole, hterm, hlast, hpre, ?_, ?_⟩ (fun _ h => h)
          (fun _ h => h) (by simp) fun w hw hwv => ?_⟩
        · exact List.mem_append_left _ hown
        · exact List.length_append.trans_lt hlt
        · rcases h.owes w hw hwv with hm | ⟨t', ht', hm⟩ | hcounted
          · exact Or.inl (hh.toOther rfl hwv hm)
          · by_cases hwu : w = u
            · exact Or.inr (Or.inr (List.mem_append_right _ (List.mem_singleton.mpr hwu)))
            · exact Or.inr (Or.inl ⟨t', ht', hh.kept _ hm fun heq => hwu (congrArg Packet.src heq)⟩)
          · exact Or.inr (Or.inr (List.mem_append_left _ hcounted))
      · exact ⟨_, h.stand hmembers hmany hv ht hi hge hreach⟩
  | standing =>
    have hcurrent : (c.nodes v).currentTerm = T + 1 := hself.2.1
    have hh := handles_deliver hc hi hv
      (RaftNode.yields_latePreVote (hc.settled v).2 u g (hcurrent ▸ ht) hself.2.2.1)
    exact ⟨_, h.ignores hreach hh rfl (fun _ _ => nofun) (by simp)⟩
  | leading =>
    have hcurrent : (c.nodes v).currentTerm = T + 1 := hself.2.1
    have hh := handles_deliver hc hi hv
      (RaftNode.yields_latePreVote (hc.settled v).2 u g (hcurrent ▸ ht) hself.2.2)
    exact ⟨_, h.ignores hreach hh rfl (fun _ _ => nofun) (by simp)⟩

/-- A node hears that it is canvassed in the new term. -/
theorem Campaign.canvass {i : Nat} (h : Campaign d Q v T e k c)
    (hmembers : ∀ v ∈ Q, v ∈ d.members) (hu : u ∈ Q) (hne : u ≠ v) (hstands : k ≠ .asking)
    (hi : c.network[i]? = some ⟨v, u, .requestVote (T + 1) v e.2 e.1⟩)
    (hreach : Reachable d FixedMembership (c.step d (.deliver i))) :
    Campaign d Q v T e k (c.step d (.deliver i)) := by
  have hc := standing_of_reachable h.reach hmembers
  have hwon : ∀ s, Stage.Won T s → k.Other T e s := fun s hs => by
    cases k with
    | asking => exact absurd rfl hstands
    | standing | leading => exact Or.inr hs
  have hother := h.others u hu hne
  have hcases : Stage.Open T e (c.sheet u) ∨ Stage.Won T (c.sheet u) := by
    cases k with
    | asking => exact absurd rfl hstands
    | standing | leading => exact hother
  rcases hcases with hopen | hold
  · obtain ⟨s, hrole, hterm, -, hy⟩ := RaftNode.yields_requestVote (hc.settled u).2 v v e.2 e.1
      (Nat.lt_succ_of_le hopen.1)
    rw [(hc.settled u).1] at hy
    have hgrant : (decide (NoLater (lastEntry (c.nodes u).storage) (e.1, e.2))) = true :=
      decide_eq_true hopen.2
    rw [hgrant] at hy
    have hh := handles_deliver hc hi hu hy
    refine h.other hreach hh hne (hwon s ⟨hrole, hterm⟩) ?_ ?_
    · simp only [List.mem_singleton, forall_eq]
      exact .vote hstands
    · cases k with
      | asking => exact absurd rfl hstands
      | standing => exact Or.inr (Or.inl (hh.new _ List.mem_cons_self))
      | leading => exact Or.inl ⟨hrole, hterm⟩
  · have hcurrent : (c.nodes u).currentTerm = T + 1 := hold.2
    obtain ⟨s, g, hrole, hterm, hy⟩ := RaftNode.yields_canvass (hc.settled u).2 v v e.2 e.1
    rw [(hc.settled u).1, hcurrent] at hy
    have hh := handles_deliver hc hi hu hy
    have hs : Stage.Won T s := ⟨hrole.trans hold.1, hterm.trans hcurrent⟩
    refine h.other hreach hh hne (hwon s hs) ?_ ?_
    · simp only [List.mem_singleton, forall_eq]
      exact .vote hstands
    · have howes := h.owes u hu hne
      cases k with
      | asking => exact absurd rfl hstands
      | standing =>
        rcases howes with ⟨-, hopen⟩ | hm | hcounted
        · have hle := hopen.1
          have heq := hold.2
          omega
        · refine Or.inr (Or.inl (hh.kept _ hm fun heq => ?_))
          cases congrArg Packet.msg heq
        · exact Or.inr (Or.inr hcounted)
      | leading => exact Or.inl hs

/-- A vote that completes the quorum. -/
theorem Campaign.win {i : Nat} (h : Campaign d Q v T e .standing c)
    (hmembers : ∀ v ∈ Q, v ∈ d.members) (hmany : 1 < d.members.length) (hv : v ∈ Q)
    (hi : c.network[i]? = some ⟨u, v, .requestVoteResponse (T + 1) true⟩)
    (hquorum : d.members.length / 2 + 1 ≤ (c.sheet v).votes.length + 1)
    (hreach : Reachable d FixedMembership (c.step d (.deliver i))) :
    Campaign d Q v T e .leading (c.step d (.deliver i)) := by
  have hc := standing_of_reachable h.reach hmembers
  obtain ⟨hrole, hterm, hpre, -, -⟩ := h.self
  have hcurrent : (c.nodes v).currentTerm = T + 1 := hterm
  obtain ⟨s, sent, hlead, hsterm, hspre, hsent, hall, hy⟩ := RaftNode.yields_win (hc.settled v).2
    (h.reach.termStored (hmembers v hv)) u hrole
    (by rw [quorumSize_eq hc hv hmany]; exact hquorum)
  rw [(hc.settled v).1] at hsent hall
  rw [hcurrent] at hy hsterm hsent
  have hh := handles_deliver hc hi hv hy
  refine h.own hreach hh rfl ⟨hlead, hsterm, hspre.trans hpre⟩ (fun _ h => h) (fun q hq => ?_)
    (fun q hq => ?_) fun w hw hwv => ?_
  · cases hq with
    | ask ne => exact .ask ne
    | consent le => exact .consent le
    | canvass ne => exact .canvass ne nofun
    | vote => exact .vote nofun
  · obtain ⟨hsrc, hdst, hleads⟩ := hsent q hq
    obtain ⟨src, dst, msg⟩ := q
    cases hsrc
    exact .lead (Configuration.mem_peers.mp hdst).2 hleads
  · obtain ⟨q, hq, hdst⟩ := hall w (mem_peers_of_standing hc hv hw hwv)
    obtain ⟨hsrc, -, hleads⟩ := hsent q hq
    obtain ⟨src, dst, msg⟩ := q
    cases hsrc
    cases hdst
    exact Or.inr ⟨msg, Or.inr hleads, hh.new _ hq⟩

theorem Campaign.vote {i : Nat} {g : Bool} (h : Campaign d Q v T e k c)
    (hmembers : ∀ v ∈ Q, v ∈ d.members) (hmany : 1 < d.members.length) (hv : v ∈ Q)
    (hstands : k ≠ .asking) (hi : c.network[i]? = some ⟨u, v, .requestVoteResponse (T + 1) g⟩)
    (hreach : Reachable d FixedMembership (c.step d (.deliver i))) :
    ∃ k', Campaign d Q v T e k' (c.step d (.deliver i)) := by
  have hc := standing_of_reachable h.reach hmembers
  have hself := h.self
  have hspent : ∀ hcurrent : (c.nodes v).currentTerm = T + 1,
      (c.nodes v).role ≠ .candidate ∨ g = false →
      Handles c ⟨u, v, .requestVoteResponse (T + 1) g⟩ (c.sheet v) []
        (c.step d (.deliver i)) := by
    intro hcurrent hidle
    have hy := RaftNode.yields_spentVote (hc.settled v).2 u hidle
    rw [hcurrent] at hy
    exact handles_deliver hc hi hv hy
  cases k with
  | asking => exact absurd rfl hstands
  | standing =>
    obtain ⟨hrole, hterm, hpre, hown, hfew⟩ := hself
    have hcurrent : (c.nodes v).currentTerm = T + 1 := hterm
    cases g with
    | false => exact ⟨_, h.ignores hreach (hspent hcurrent (Or.inr rfl)) rfl (by simp) (by simp)⟩
    | true =>
      rcases Nat.lt_or_ge ((c.sheet v).votes.length + 1) (d.members.length / 2 + 1) with hlt | hge
      · have hy := RaftNode.yields_vote (hc.settled v).2 u hrole
          (by rw [quorumSize_eq hc hv hmany]; exact hlt)
        rw [hcurrent] at hy
        have hh := handles_deliver hc hi hv hy
        refine ⟨.standing, h.own hreach hh rfl ⟨hrole, hterm, hpre, ?_, ?_⟩ (fun _ h => h)
          (fun _ h => h) (by simp) fun w hw hwv => ?_⟩
        · exact List.mem_append_left _ hown
        · exact List.length_append.trans_lt hlt
        · rcases h.owes w hw hwv with ⟨hm, hopen⟩ | hm | hcounted
          · exact Or.inl ⟨hh.toOther rfl hwv hm, hopen⟩
          · by_cases hwu : w = u
            · exact Or.inr (Or.inr (List.mem_append_right _ (List.mem_singleton.mpr hwu)))
            · exact Or.inr (Or.inl (hh.kept _ hm fun heq => hwu (congrArg Packet.src heq)))
          · exact Or.inr (Or.inr (List.mem_append_left _ hcounted))
      · exact ⟨_, h.win hmembers hmany hv hi hge hreach⟩
  | leading =>
    have hidle : (c.nodes v).role ≠ .candidate := by
      rw [show (c.nodes v).role = .leader from hself.1]
      exact nofun
    exact ⟨_, h.ignores hreach (hspent hself.2.1 (Or.inl hidle)) rfl (by simp) (fun _ => nofun)⟩

theorem Campaign.lead {i : Nat} {msg : RaftMsg P} (h : Campaign d Q v T e .leading c)
    (hmembers : ∀ v ∈ Q, v ∈ d.members) (hu : u ∈ Q) (hne : u ≠ v) (hleads : msg.Leads (T + 1))
    (hi : c.network[i]? = some ⟨v, u, msg⟩)
    (hreach : Reachable d FixedMembership (c.step d (.deliver i))) :
    Campaign d Q v T e .leading (c.step d (.deliver i)) := by
  have hc := standing_of_reachable h.reach hmembers
  have hcan : (c.nodes u).currentTerm < T + 1 ∨
      (c.nodes u).currentTerm = T + 1 ∧ (c.nodes u).role = .follower :=
    (h.others u hu hne).imp (fun hopen => Nat.lt_succ_of_le hopen.1) fun hwon => ⟨hwon.2, hwon.1⟩
  obtain ⟨s, sent, hrole, hterm, hsent, hy⟩ :=
    RaftNode.yields_lead (hc.settled u).2 v hleads hcan
  rw [(hc.settled u).1] at hsent
  have hh := handles_deliver hc hi hu hy
  refine h.other hreach hh hne (Or.inr ⟨hrole, hterm⟩) (fun q hq => ?_) (Or.inl ⟨hrole, hterm⟩)
  obtain ⟨-, hdst, hanswers⟩ := hsent q hq
  obtain ⟨src, dst, msg⟩ := q
  cases hdst
  exact .answer hanswers

theorem Campaign.answer {i : Nat} {msg : RaftMsg P} (h : Campaign d Q v T e .leading c)
    (hmembers : ∀ v ∈ Q, v ∈ d.members) (hv : v ∈ Q) (hanswers : msg.Answers (T + 1))
    (hi : c.network[i]? = some ⟨u, v, msg⟩)
    (hreach : Reachable d FixedMembership (c.step d (.deliver i))) :
    Campaign d Q v T e .leading (c.step d (.deliver i)) := by
  have hc := standing_of_reachable h.reach hmembers
  obtain ⟨hrole, hterm, hpre⟩ := h.self
  have hcurrent : (c.nodes v).currentTerm = T + 1 := hterm
  obtain ⟨s, hsrole, hsterm, hspre, hy⟩ := RaftNode.yields_answer (hc.settled v).2
    (hc.fixed.node v (hmembers v hv)) u (hcurrent ▸ hanswers) hrole
  have hh := handles_deliver hc hi hv hy
  refine h.own hreach hh rfl ⟨hsrole, hsterm.trans hcurrent, hspre.trans hpre⟩ (fun _ h => h)
    (fun _ h => h) (by simp) fun w hw hwv => ?_
  exact (h.owes w hw hwv).imp_right fun ⟨msg, hkind, hm⟩ => ⟨msg, hkind, hh.toOther rfl hwv hm⟩

/-! ### Every step -/

omit [StateMachine SM P] in
theorem Undisturbed.fixedMembership (h : Undisturbed Q c a) : FixedMembership c a := by
  cases a with
  | configChange => exact h.elim
  | _ => trivial

/-- Nothing happens to the nodes of `Q` or to the messages between them. -/
theorem Campaign.rest (h : Campaign d Q v T e k c) (hv : v ∈ Q)
    (hreach : Reachable d FixedMembership c') (hsheet : ∀ u ∈ Q, c'.sheet u = c.sheet u)
    (hold : ∀ q ∈ c'.network, q.src ∈ Q → q.dst ∈ Q → q ∈ c.network)
    (hkept : ∀ q ∈ c.network, q.src ∈ Q → q.dst ∈ Q → q ∈ c'.network) :
    Campaign d Q v T e k c' := by
  refine ⟨hreach, hsheet v hv ▸ h.self, fun u hu huv => hsheet u hu ▸ h.others u hu huv,
    fun q hq hsrc hdst => h.sent q (hold q hq hsrc hdst) hsrc hdst, fun u hu huv => ?_⟩
  rw [hsheet v hv, hsheet u hu]
  have howes := h.owes u hu huv
  cases k with
  | asking =>
    exact howes.imp (hkept _ · hv hu) (Or.imp_left fun ⟨t, ht, hm⟩ => ⟨t, ht, hkept _ hm hu hv⟩)
  | standing =>
    exact howes.imp (fun hm => ⟨hkept _ hm.1 hv hu, hm.2⟩) (Or.imp_left (hkept _ · hu hv))
  | leading => exact howes.imp_right fun ⟨msg, hkind, hm⟩ => ⟨msg, hkind, hkept _ hm hv hu⟩

/-- Another node, outside `Q`, handles an event. -/
theorem Campaign.outside {c₀ : Cluster P SM} {w : NodeId} {ev : Event P}
    (h : Campaign d Q v T e k c) (hv : v ∈ Q) (hw : w ∉ Q) (hnodes : c₀.nodes = c.nodes)
    (hreach : Reachable d FixedMembership (c₀.dispatch w ev))
    (hold : ∀ q ∈ c₀.network, q ∈ c.network)
    (hkept : ∀ q ∈ c.network, q.dst ∈ Q → q ∈ c₀.network) :
    Campaign d Q v T e k (c₀.dispatch w ev) := by
  refine h.rest hv hreach (fun u hu => ?_) (fun q hq hsrc hdst => ?_) fun q hq hsrc hdst => ?_
  · have hne : u ≠ w := fun heq => hw (heq ▸ hu)
    unfold Cluster.sheet Cluster.dispatch
    rw [Cluster.withNode_nodes_ne hne, hnodes]
  · unfold Cluster.dispatch at hq
    rw [Cluster.withNode_network] at hq
    rcases List.mem_append.mp hq with hq | hq
    · exact hold q hq
    · -- what the node sends has its own id on it
      obtain ⟨o, -, rfl⟩ := List.mem_map.mp hq
      refine absurd hsrc ?_
      dsimp only
      rw [(RaftNode.onEvent_moves .testUtils (c₀.nodes w) ev).id_eq, hnodes,
        (h.reach.settled w).1]
      exact hw
  · unfold Cluster.dispatch
    rw [Cluster.withNode_network]
    exact List.mem_append_left _ (hkept q hq hdst)

omit [StateMachine SM P] in
theorem mem_eraseIdx_of_ne {α : Type} {l : List α} {i : Nat} {x : α} (hx : x ∈ l)
    (hne : x ∉ l[i]?) : x ∈ l.eraseIdx i := by
  obtain ⟨j, hj, hget⟩ := List.mem_iff_getElem.mp hx
  refine List.mem_eraseIdx_iff_getElem?.mpr ⟨j, ?_, by simp [hj, hget]⟩
  rintro rfl
  exact hne (by simp [hj, hget])

theorem Campaign.deliver {i : Nat} (h : Campaign d Q v T e k c)
    (hmembers : ∀ v ∈ Q, v ∈ d.members) (hmany : 1 < d.members.length) (hv : v ∈ Q)
    (hok : Undisturbed Q c (.deliver i))
    (hreach : Reachable d FixedMembership (c.step d (.deliver i))) :
    ∃ k', Campaign d Q v T e k' (c.step d (.deliver i)) := by
  cases hi : c.network[i]? with
  | none =>
    have hsame : c.step d (.deliver i) = c := by simp [Cluster.step, hi]
    exact ⟨k, hsame.symm ▸ h⟩
  | some p =>
    by_cases hdst : p.dst ∈ Q
    · have hsrc := hok p hi hdst
      have hsent := h.sent p (List.mem_of_getElem? hi) hsrc hdst
      cases hsent with
      | ask ne => exact ⟨_, h.ask hmembers hdst ne hi hreach⟩
      | consent le => exact h.consent hmembers hmany hv le hi hreach
      | canvass ne stands => exact ⟨_, h.canvass hmembers hdst ne stands hi hreach⟩
      | vote stands => exact h.vote hmembers hmany hv stands hi hreach
      | lead ne leads => exact ⟨_, h.lead hmembers hdst ne leads hi hreach⟩
      | answer answers => exact ⟨_, h.answer hmembers hv answers hi hreach⟩
    · refine ⟨k, ?_⟩
      have hold : ∀ q ∈ c.network.eraseIdx i, q ∈ c.network := fun q hq =>
        List.mem_of_mem_eraseIdx hq
      have hkept : ∀ q ∈ c.network, q.dst ∈ Q → q ∈ c.network.eraseIdx i := by
        intro q hq hin
        refine mem_eraseIdx_of_ne hq fun hsame => hdst ?_
        rw [hi, Option.mem_some] at hsame
        exact hsame ▸ hin
      by_cases hd : p.dst ∈ d.members
      · have hstep : c.step d (.deliver i) =
            { c with network := c.network.eraseIdx i }.dispatch p.dst (.message p.src p.msg) := by
          simp [Cluster.step, hi, hd]
        rw [hstep] at hreach ⊢
        exact h.outside hv hdst rfl hreach hold hkept
      · have hstep : c.step d (.deliver i) = { c with network := c.network.eraseIdx i } := by
          simp [Cluster.step, hi, hd]
        rw [hstep] at hreach ⊢
        exact h.rest hv hreach (fun _ _ => rfl) (fun q hq _ _ => hold q hq)
          fun q hq _ hin => hkept q hq hin

/-- **Nothing takes a campaign back**, as long as its nodes are left to themselves. -/
theorem Campaign.step (h : Campaign d Q v T e k c) (hmembers : ∀ v ∈ Q, v ∈ d.members)
    (hmany : 1 < d.members.length) (hv : v ∈ Q) (hok : Undisturbed Q c a) :
    ∃ k', Campaign d Q v T e k' (c.step d a) := by
  have hreach : Reachable d FixedMembership (c.step d a) := .step h.reach hok.fixedMembership
  have hevent : ∀ w ev, w ∉ Q → c.step d a = (if w ∈ d.members then c.dispatch w ev else c) →
      Campaign d Q v T e k (c.step d a) := by
    intro w ev hw hstep
    by_cases hd : w ∈ d.members
    · rw [if_pos hd] at hstep
      rw [hstep] at hreach ⊢
      exact h.outside hv hw rfl hreach (fun _ h => h) fun _ h _ => h
    · rw [if_neg hd] at hstep
      exact hstep.symm ▸ h
  cases a with
  | deliver i => exact h.deliver hmembers hmany hv hok hreach
  | lose i =>
    refine ⟨k, h.rest hv hreach (fun _ _ => rfl) (fun q hq _ _ => List.mem_of_mem_eraseIdx hq)
      fun q hq hsrc hdst => mem_eraseIdx_of_ne hq fun hsame => hok q hsame hsrc hdst⟩
  | duplicate i =>
    refine ⟨k, h.rest hv hreach (fun _ _ => rfl) (fun q hq _ _ => ?_)
      fun q hq _ _ => List.mem_append_left _ hq⟩
    rcases List.mem_append.mp hq with hq | hq
    · exact hq
    · exact List.mem_of_getElem? (Option.mem_toList.mp hq)
  | timer w kind => exact ⟨k, hevent w (.timerFired kind) hok rfl⟩
  | client w payload => exact ⟨k, hevent w (.clientCommand payload) hok rfl⟩
  | restart w =>
    refine ⟨k, h.rest hv hreach (fun u hu => ?_) (fun _ hq _ _ => hq) fun _ hq _ _ => hq⟩
    have hne : u ≠ w := fun heq => hok (heq ▸ hu)
    unfold Cluster.sheet Cluster.step
    dsimp only
    rw [Function.update_of_ne hne]
  | advance millis =>
    exact ⟨k, h.rest hv hreach (fun _ _ => rfl) (fun _ hq _ _ => hq) fun _ hq _ _ => hq⟩
  | configChange => exact hok.elim

/-- The timer fires. -/
theorem campaign_start (h : Reachable d FixedMembership c) (hmembers : ∀ v ∈ Q, v ∈ d.members)
    (hmany : 1 < d.members.length) (hv : v ∈ Q) (hidle : (c.nodes v).role ≠ .leader)
    (hopen : ∀ u ∈ Q, Stage.Open (c.sheet v).term (c.sheet v).last (c.sheet u))
    (hdrained : Drained Q c) :
    Campaign d Q v (c.sheet v).term (c.sheet v).last .asking (c.step d (.timer v .election)) := by
  have hc := standing_of_reachable h hmembers
  have hy := RaftNode.yields_timer (hc.settled v).2 ((hc.config hv).length_eq ▸ hmany) hidle
  rw [(hc.settled v).1] at hy
  have hreach : Reachable d FixedMembership (c.step d (.timer v .election)) := .step h trivial
  rw [hc.step_timer hv] at hreach ⊢
  have hself : (c.dispatch v (.timerFired .election)).sheet v =
      { c.sheet v with inPreVote := true, preVotes := [v] } := by
    unfold Cluster.sheet Cluster.dispatch
    rw [Cluster.withNode_nodes_self]
    exact hy.sheet
  have hothers : ∀ u, u ≠ v → (c.dispatch v (.timerFired .election)).sheet u = c.sheet u := by
    intro u hu
    unfold Cluster.sheet Cluster.dispatch
    rw [Cluster.withNode_nodes_ne hu]
  have hnet : (c.dispatch v (.timerFired .election)).network =
      c.network ++ toEach v ((c.sheet v).asking v) ((c.nodes v).config.peers v) := by
    unfold Cluster.dispatch
    rw [Cluster.withNode_network, hy.sent]
    rfl
  refine ⟨hreach, ?_, fun u hu huv => ?_, fun p hp hsrc hdst => ?_, fun u hu huv => ?_⟩
  · rw [hself]
    refine ⟨hidle, rfl, rfl, rfl, List.mem_singleton_self v, ?_⟩
    rw [List.length_singleton]
    omega
  · rw [hothers u huv]
    exact hopen u hu
  · rw [hnet] at hp
    rcases List.mem_append.mp hp with hp | hp
    · exact absurd hdst (hdrained p hp hsrc)
    · obtain ⟨u, hu, rfl⟩ := List.mem_map.mp hp
      exact .ask (Configuration.mem_peers.mp hu).2
  · rw [hnet]
    refine Or.inl (List.mem_append_right _ (List.mem_map.mpr ⟨u, ?_, rfl⟩))
    exact mem_peers_of_standing hc hv hu huv

omit [StateMachine SM P] in
/-- Whoever has an answer from everyone in a majority has a quorum. -/
theorem quorum_of_answers {l : List NodeId} (hmajority : d.members.length < 2 * Q.card)
    (hall : ∀ u ∈ Q, u ∈ l) : d.members.length / 2 + 1 ≤ l.length := by
  have hsub : Q ⊆ l.toFinset := fun u hu => List.mem_toFinset.mpr (hall u hu)
  have hcard := (Finset.card_le_card hsub).trans (List.toFinset_card_le l)
  omega

/-- **A campaign is won in any order.**  In a majority without messages on their way, let the timer
of a node fire whose term and log nobody else in it exceeds.  However the messages between its
nodes are then delivered, and however often, once there are none left the node leads the next term
and the others follow in it, whatever else has happened in the cluster. -/
theorem campaign_is_won (h : Reachable d FixedMembership c) (hmembers : ∀ v ∈ Q, v ∈ d.members)
    (hmany : 1 < d.members.length) (hmajority : d.members.length < 2 * Q.card) (hv : v ∈ Q)
    (hidle : (c.nodes v).role ≠ .leader)
    (hterm : ∀ u ∈ Q, (c.nodes u).currentTerm ≤ (c.nodes v).currentTerm)
    (hlast : ∀ u ∈ Q, NoLater (lastEntry (c.nodes u).storage) (lastEntry (c.nodes v).storage))
    (hdrained : Drained Q c)
    (hrun : Run (Cluster.step d) (Undisturbed Q) (c.step d (.timer v .election)) c')
    (hend : Drained Q c') :
    (c'.nodes v).role = .leader ∧ (c'.nodes v).currentTerm = (c.nodes v).currentTerm + 1 ∧
      ∀ u ∈ Q, u ≠ v → (c'.nodes u).role = .follower ∧
        (c'.nodes u).currentTerm = (c.nodes v).currentTerm + 1 := by
  have hstart := campaign_start h hmembers hmany hv hidle (fun u hu => ⟨hterm u hu, hlast u hu⟩)
    hdrained
  obtain ⟨k, hcamp⟩ := Run.invariant
    (I := fun c' => ∃ k, Campaign d Q v (c.sheet v).term (c.sheet v).last k c')
    (fun _ _ ⟨_, hk⟩ hok => hk.step hmembers hmany hv hok) hrun ⟨_, hstart⟩
  have hself := hcamp.self
  have hgone : ∀ {u : NodeId} {msg : RaftMsg P}, u ∈ Q → ⟨v, u, msg⟩ ∉ c'.network :=
    fun hu hm => hend _ hm hv hu
  have hgone' : ∀ {u : NodeId} {msg : RaftMsg P}, u ∈ Q → ⟨u, v, msg⟩ ∉ c'.network :=
    fun hu hm => hend _ hm hu hv
  cases k with
  | asking =>
    have hall : ∀ u ∈ Q, u ∈ (c'.sheet v).preVotes := by
      intro u hu
      by_cases huv : u = v
      · exact huv ▸ hself.2.2.2.2.1
      · rcases hcamp.owes u hu huv with hm | ⟨t, -, hm⟩ | hcounted
        · exact absurd hm (hgone hu)
        · exact absurd hm (hgone' hu)
        · exact hcounted
    exact absurd hself.2.2.2.2.2 (Nat.not_lt.mpr (quorum_of_answers hmajority hall))
  | standing =>
    have hall : ∀ u ∈ Q, u ∈ (c'.sheet v).votes := by
      intro u hu
      by_cases huv : u = v
      · exact huv ▸ hself.2.2.2.1
      · rcases hcamp.owes u hu huv with ⟨hm, -⟩ | hm | hcounted
        · exact absurd hm (hgone hu)
        · exact absurd hm (hgone' hu)
        · exact hcounted
    exact absurd hself.2.2.2.2 (Nat.not_lt.mpr (quorum_of_answers hmajority hall))
  | leading =>
    refine ⟨hself.1, hself.2.1, fun u hu huv => ?_⟩
    rcases hcamp.owes u hu huv with hwon | ⟨msg, -, hm⟩
    · exact hwon
    · exact absurd hm (hgone hu)

end

/-- Two of three nodes elect the first of them, one message of it twice, while the timer of the
third fires as well and what it sends is lost. -/
def soloRun : List (Action UInt8) :=
  [.deliver 0, .timer 3 .election, .deliver 1, .lose 1, .lose 1, .duplicate 1, .deliver 3,
    .deliver 3, .deliver 1, .deliver 2, .deliver 3, .deliver 3]

theorem campaign_is_won_solo :
    let c : Cluster UInt8 Adder := soloRun.foldl (Cluster.step trio)
      ((Cluster.init trio).step trio (.timer 1 .election))
    (c.nodes 1).role = .leader ∧ (c.nodes 1).currentTerm = 1 ∧
      ∀ u ∈ ({1, 2} : Finset NodeId), u ≠ 1 → (c.nodes u).role = .follower ∧
        (c.nodes u).currentTerm = 1 := by
  intro c
  have hreach : Reachable trio FixedMembership (Cluster.init trio : Cluster UInt8 Adder) := .refl
  have hrun : Run (Cluster.step trio) (Undisturbed {1, 2})
      ((Cluster.init trio).step trio (.timer 1 .election)) c :=
    Admitted.run soloRun (by decide +kernel)
  exact campaign_is_won hreach (by decide) (by decide) (by decide) (by decide)
    (by decide +kernel) (by decide +kernel) (by decide +kernel) (by decide +kernel) hrun
    (by decide +kernel)

end MetalRaft
