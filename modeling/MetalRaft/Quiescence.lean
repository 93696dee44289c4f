import MetalRaft.Cascade
import MetalRaft.ClusterSteps

/-!
# Deliveries come to an end

A message is answered, if at all, with messages that stand later in the exchange: pre-votes are
followed by votes, votes by entries, entries by acknowledgements, and these by nothing.

* `RaftMsg.rank` — how far a message stands from the end of the exchange.
* `onEvent_says` — whatever a node sends while it handles a message ranks below that message,
  for every storage, state machine and realization.
* `deliveries_end` — so a cluster in which nothing but deliveries and losses happens falls silent.
-/

set_option autoImplicit false

namespace MetalRaft

open Transition Cascade

variable {P S SM : Type}

def RaftMsg.rank : RaftMsg P → Nat
  | .preVoteRequest _ _ _ _ => 5
  | .preVoteResponse _ _ => 4
  | .requestVote _ _ _ _ => 3
  | .requestVoteResponse _ _ => 2
  | .appendEntries _ _ _ _ _ | .installSnapshot _ _ _ _ _ _ _ => 1
  | .appendEntriesResponse _ _ _ | .installSnapshotResponse _ _ => 0

/-- There are six ranks. -/
def RaftMsg.ranks : Nat := 6

theorem RaftMsg.rank_lt (msg : RaftMsg P) : msg.rank < ranks := by
  cases msg <;> simp [rank, ranks]

namespace RaftNode

/-- What `n'` has sent since it was `n` ranks below `k`. -/
def Says (k : Nat) (n n' : RaftNode P S SM) : Prop :=
  ∃ outs, n'.transport = n.transport ++ outs ∧ ∀ o ∈ outs, o.msg.rank < k

section

variable {k : Nat} {n n₁ n₂ n₃ : RaftNode P S SM}

theorem Says.of_eq (h : n₁.transport = n.transport) : Says k n n₁ := ⟨[], by simp [h], by simp⟩

theorem Says.trans (h₁ : Says k n₁ n₂) (h₂ : Says k n₂ n₃) : Says k n₁ n₃ := by
  obtain ⟨outs₁, hto₁, hrank₁⟩ := h₁
  obtain ⟨outs₂, hto₂, hrank₂⟩ := h₂
  refine ⟨outs₁ ++ outs₂, by simp [hto₁, hto₂], fun o ho => ?_⟩
  rcases List.mem_append.mp ho with ho | ho
  · exact hrank₁ o ho
  · exact hrank₂ o ho

theorem Says.mono {j : Nat} (h : Says j n n₁) (hle : j ≤ k) : Says k n n₁ := by
  obtain ⟨outs, hto, hrank⟩ := h
  exact ⟨outs, hto, fun o ho => Nat.lt_of_lt_of_le (hrank o ho) hle⟩

theorem says_send {target : NodeId} {msg : RaftMsg P} (h₁ : n₁.transport = n.transport)
    (hmsg : msg.rank < k) : Says k n (n₁.send target msg) :=
  ⟨[⟨target, msg, n₁.storage⟩], by simp [send, h₁], by simpa using hmsg⟩

end

/-! ## Broadcasts -/

variable {R : Realization} {n n₁ : RaftNode P S SM}

theorem says_broadcast {k : Nat} {msg : RaftMsg P} (h₁ : n₁.transport = n.transport)
    (hmsg : msg.rank < k) : Says k n (n₁.broadcast R msg) := by
  rw [broadcast_eq]
  refine ⟨(n₁.peerIds R).map fun t => ⟨t, msg, n₁.storage⟩, by simp [h₁], fun o ho => ?_⟩
  obtain ⟨t, -, rfl⟩ := List.mem_map.mp ho
  exact hmsg

variable [Storage S P]

theorem rank_getAppendEntriesForPeer (r : LogReplicationManager)
    (peer leaderId : NodeId) (s : S) : (r.getAppendEntriesForPeer peer leaderId s).rank = 1 := by
  unfold LogReplicationManager.getAppendEntriesForPeer
  dsimp only
  split
  · split <;> rfl
  · rfl

theorem says_sendAppendEntries (h₁ : n₁.transport = n.transport) :
    Says 2 n (n₁.sendAppendEntriesToFollowers R) := by
  rw [sendAppendEntriesToFollowers_eq]
  refine ⟨(n₁.peerIds R).map fun t =>
    ⟨t, n₁.replication.getAppendEntriesForPeer t n₁.id n₁.storage, n₁.storage⟩, by simp [h₁],
    fun o ho => ?_⟩
  obtain ⟨t, -, rfl⟩ := List.mem_map.mp ho
  dsimp only
  rw [rank_getAppendEntriesForPeer]
  exact Nat.lt_succ_self 1

theorem says_becomeLeader (h₁ : n₁.transport = n.transport) : Says 2 n (n₁.becomeLeader R) :=
  says_sendAppendEntries h₁

/-! ## Handlers -/

theorem says_startElection (h₁ : n₁.transport = n.transport) :
    Says 4 n (n₁.startElection R) := by
  unfold startElection
  dsimp only
  have hstood : Says 4 n ({ n₁ with
      election := (n₁.election.startElection n₁.id n₁.currentTerm n₁.storage).1
      currentTerm := (n₁.election.startElection n₁.id n₁.currentTerm n₁.storage).2.1
      storage := (n₁.election.startElection n₁.id n₁.currentTerm n₁.storage).2.2.1
      role := (n₁.election.startElection n₁.id n₁.currentTerm n₁.storage).2.2.2.1
      }.broadcast R (n₁.election.startElection n₁.id n₁.currentTerm n₁.storage).2.2.2.2) := by
    apply says_broadcast
    · exact h₁
    · simp [ElectionManager.startElection, RaftMsg.rank]
  split
  · exact hstood.trans ((says_becomeLeader rfl).mono (by omega))
  · exact hstood

theorem says_handlePreVoteResponse {sender : NodeId} {term : Nat} {granted : Bool} :
    Says 4 n (n.handlePreVoteResponse R sender term granted) := by
  unfold handlePreVoteResponse
  dsimp only
  split
  · exact .of_eq rfl
  · split
    · exact says_startElection rfl
    · exact .of_eq rfl

theorem rank_handleVoteRequest (em : ElectionManager) (term : Nat) (cand : NodeId)
    (li lt T : Nat) (s : S) : (em.handleVoteRequest term cand li lt T s).2.2.2.rank = 2 := by
  unfold ElectionManager.handleVoteRequest
  dsimp only
  rw [apply_ite (fun x : ElectionManager × Nat × S × RaftMsg P => x.2.2.2.rank)]
  exact ite_self 2

theorem says_handleVoteRequest {sender : NodeId} {term : Nat} {cand : NodeId} {li lt : Nat} :
    Says 3 n (n.handleVoteRequest sender term cand li lt) := by
  have hstepped : (if term > n.currentTerm then n.stepDown term else n).transport =
      n.transport := by
    split <;> rfl
  unfold handleVoteRequest answerVoteRequest
  dsimp only
  apply says_send
  · exact hstepped
  · rw [rank_handleVoteRequest]
    exact Nat.lt_succ_self 2

theorem says_handleVoteResponse {sender : NodeId} {term : Nat} {granted : Bool} :
    Says 2 n (n.handleVoteResponse R sender term granted) := by
  unfold handleVoteResponse
  dsimp only
  split
  · exact .of_eq rfl
  · split
    · exact says_becomeLeader rfl
    · exact .of_eq rfl

theorem says_handleInstallSnapshotResponse {sender : NodeId} {term : Nat} {success : Bool} :
    Says 0 n (n.handleInstallSnapshotResponse R sender term success) := by
  apply Says.of_eq
  unfold handleInstallSnapshotResponse
  split
  · rfl
  · split
    · split <;> rfl
    · rfl

variable [StateMachine SM P]

theorem says_handleAppendEntries {sender : NodeId} {term prev pt : Nat} {es : List (LogEntry P)}
    {lc : Nat} : Says 1 n (n.handleAppendEntries R sender term prev pt es lc) := by
  unfold handleAppendEntries acceptAppendEntries
  split
  · exact .of_eq rfl
  · apply says_send
    · simp only [applyConfigChanges, resetElectionTimerIfValidTerm, resetElectionTimer]
      split <;> rfl
    · simp [LogReplicationManager.handleAppendEntries, RaftMsg.rank]

theorem says_handleAppendEntriesResponse {sender : NodeId} {term : Nat} {success : Bool}
    {m : Nat} : Says 0 n (n.handleAppendEntriesResponse R sender term success m) := by
  apply Says.of_eq
  unfold handleAppendEntriesResponse recordAppendEntriesResponse
  dsimp only
  split
  · rfl
  · split
    · split
      · split <;> rfl
      · rfl
    · rfl

theorem rank_installChunk (r : LogReplicationManager)
    (index term offset : Nat) (data : List UInt8) (done : Bool) (T : Nat) (s : S) (sm : SM)
    (role : NodeState) :
    (r.installChunk index term offset data done T s sm role).response.rank = 0 := by
  unfold LogReplicationManager.installChunk
  dsimp only
  split
  · rfl
  · split
    · split <;> rfl
    · rfl

theorem rank_handleInstallSnapshot (r : LogReplicationManager) (term index t offset : Nat)
    (data : List UInt8) (done : Bool) (T : Nat) (s : S) (sm : SM) (role : NodeState) :
    (r.handleInstallSnapshot term index t offset data done T s sm role).response.rank = 0 := by
  unfold LogReplicationManager.handleInstallSnapshot
  by_cases hterm : term < T
  · rw [if_pos hterm]
    rfl
  · rw [if_neg hterm]
    dsimp only
    rw [apply_ite (fun a : InstallResult P S SM => a.response.rank), rank_installChunk]
    exact ite_self 0

theorem says_handleInstallSnapshot {sender : NodeId} {term index t offset : Nat}
    {data : List UInt8} {done : Bool} :
    Says 1 n (n.handleInstallSnapshot sender term index t offset data done) := by
  unfold handleInstallSnapshot
  dsimp only
  apply says_send
  · simp only [resetElectionTimerIfValidTerm, resetElectionTimer]
    split <;> rfl
  · rw [rank_handleInstallSnapshot]
    exact Nat.zero_lt_one

/-- **A node answers with messages that rank below the one it handles.** -/
theorem onEvent_says (R : Realization) (n : RaftNode P S SM) (sender : NodeId)
    (msg : RaftMsg P) : Says msg.rank n (n.onEvent R (.message sender msg)) := by
  show Says msg.rank n (n.handleMessage R sender msg)
  cases msg with
  | preVoteRequest =>
    exact says_send rfl (by simp [ElectionManager.handlePreVoteRequest, RaftMsg.rank])
  | preVoteResponse => exact says_handlePreVoteResponse
  | requestVote => exact says_handleVoteRequest
  | requestVoteResponse => exact says_handleVoteResponse
  | appendEntries => exact says_handleAppendEntries
  | appendEntriesResponse => exact says_handleAppendEntriesResponse
  | installSnapshot => exact says_handleInstallSnapshot
  | installSnapshotResponse => exact says_handleInstallSnapshotResponse

end RaftNode

/-! ## The cluster -/

section

variable [StateMachine SM P] {d : Deployment SM} {c : Cluster P SM} {a : Action P}

/-- The action takes a message out of the network, for delivery or for good. -/
def Drains (c : Cluster P SM) : Action P → Prop
  | .deliver k | .lose k => k < c.network.length
  | _ => False

theorem spends_of_drains (hsettled : Settled c) (h : Drains c a) :
    Spends (fun p : Packet P => p.msg.rank) (c.step d a).network c.network := by
  cases a with
  | deliver k =>
    have hk : k < c.network.length := h
    refine ⟨k, c.network[k], ?_⟩
    have hfound : c.network[k]? = some c.network[k] := List.getElem?_eq_getElem hk
    by_cases hd : c.network[k].dst ∈ d.members
    · obtain ⟨outs, hto, hrank⟩ := RaftNode.onEvent_says .testUtils (c.nodes c.network[k].dst)
        c.network[k].src c.network[k].msg
      rw [(hsettled _).2, List.nil_append] at hto
      refine ⟨_, hfound, ?_, by simp only [Cluster.step, hfound, if_pos hd]; rfl⟩
      intro p hp
      obtain ⟨o, ho, rfl⟩ := List.mem_map.mp hp
      exact hrank o (hto ▸ ho)
    · exact ⟨[], hfound, by simp, by simp [Cluster.step, hfound, hd]⟩
  | lose k =>
    have hk : k < c.network.length := h
    exact ⟨k, c.network[k], [], List.getElem?_eq_getElem hk, by simp, by simp [Cluster.step]⟩
  | duplicate | timer | client | configChange | restart | advance => cases h

/-- **Deliveries come to an end.** Whatever a cluster has been through, and in whatever order its
messages are then delivered and lost, there comes a point where no message is left to take. -/
theorem deliveries_end {ok : Cluster P SM → Action P → Prop} (h : Reachable d ok c)
    (actions : Nat → Action P) :
    ∃ i, ¬ Drains (((List.range i).map actions).foldl (Cluster.step d) c) (actions i) := by
  have hsettled : ∀ i, Settled (((List.range i).map actions).foldl (Cluster.step d) c) := by
    intro i
    induction i with
    | zero => exact h.settled
    | succ i ih =>
      simp only [List.range_succ, List.map_append, List.map_cons, List.map_nil, List.foldl_append,
        List.foldl_cons, List.foldl_nil]
      exact settled_step ih _
  have hstops : ∃ i, ¬ Spends (fun p : Packet P => p.msg.rank)
      (((List.range (i + 1)).map actions).foldl (Cluster.step d) c).network
      (((List.range i).map actions).foldl (Cluster.step d) c).network :=
    Spends.exists_stop (fun c : Cluster P SM => c.network)
      fun i => ((List.range i).map actions).foldl (Cluster.step d) c
  obtain ⟨i, hstop⟩ := hstops
  refine ⟨i, fun hdrains => hstop ?_⟩
  simp only [List.range_succ, List.map_append, List.map_cons, List.map_nil, List.foldl_append,
    List.foldl_cons, List.foldl_nil]
  exact spends_of_drains (hsettled i) hdrains

end

/-- Three nodes, of which the first has asked for pre-votes, and then nothing but deliveries. -/
theorem deliveries_end_trio :
    let d := Deployment.plain [1, 2, 3] (by decide) 100
    let c : Cluster UInt8 Adder := Cluster.play d [.timer 1 .election]
    c.network.length = 2 ∧
      ∃ i, ¬ Drains (((List.range i).map fun _ => Action.deliver 0).foldl (Cluster.step d) c)
        (Action.deliver 0) := by
  intro d c
  have hreach : Reachable d (fun _ _ => True) c :=
    play_reachable [.timer 1 .election] ⟨trivial, trivial⟩
  exact ⟨by decide +kernel, deliveries_end hreach fun _ => .deliver 0⟩

end MetalRaft
