import MetalRaft.Embassy
import MetalRaft.Outcome
import MetalRaft.LogMoves

/-!
# Acknowledgements

A client is told that its command is committed when the commit index of the node that took it has
passed the index the command got.  The node looks neither whether the entry at this index is still
the one it appended, nor whether the caller that reads the answer is the one it answers.

* `RaftNode.Held` — an entry waits at its index or has been applied there; `held_move`.
* `Witnessed` — a cluster beside a record of what was appended for which call.
* `Witnessed.Sure` — no entry of a pending request is taken away, and a call reads its own answer.
* `acknowledged_is_committed` — then a call returns `Ok` only when its own command is committed.
* `acknowledged_by_late_reply` — a call returns `Ok` on the answer to an earlier one.
-/

set_option autoImplicit false

namespace MetalRaft

open Transition

variable {P S SM : Type}

/-! ## An entry at a node -/

namespace RaftNode

variable [Storage S P]

/-- Entry `e` waits at index `i` to be applied, or has been applied there. -/
def Held (n : RaftNode P S SM) (i : Nat) (e : LogEntry P) : Prop :=
  (n.replication.lastApplied < i ∧ Storage.getEntry n.storage i = some e) ∨
    (i, e) ∈ n.observer.applied

/-- The event takes nothing away from index `i` above the applied ones: an AppendEntries that the
node accepts brings the same entry again, and a snapshot that it completes ends below. -/
def Spares (n : RaftNode P S SM) (i : Nat) : Event P → Prop
  | .message _ (.appendEntries term prev pt es _) =>
    term = n.currentTerm → n.replication.lastApplied < i →
    LogReplicationManager.checkLogConsistency prev pt n.storage = true →
    Storage.getEntry (LogReplicationManager.placeEntries prev es n.storage) i =
      Storage.getEntry n.storage i
  | .message _ (.installSnapshot term _ index snapTerm offset data done) =>
    n.currentTerm ≤ term → done = true →
    LogReplicationManager.alreadyCovered index n.storage = false →
    (Storage.applySnapshotChunk n.storage offset data done index snapTerm).2.isOk = true → index < i
  | _ => True

instance [DecidableEq P] (n : RaftNode P S SM) (i : Nat) :
    (ev : Event P) → Decidable (n.Spares i ev)
  | .message _ (.appendEntries _ _ _ _ _) => inferInstanceAs (Decidable (_ → _ → _ → _ = _))
  | .message _ (.installSnapshot _ _ _ _ _ _ _) =>
    inferInstanceAs (Decidable (_ → _ → _ → _ → _ < _))
  | .message _ (.requestVote _ _ _ _) | .message _ (.requestVoteResponse _ _)
  | .message _ (.preVoteRequest _ _ _ _) | .message _ (.preVoteResponse _ _)
  | .message _ (.appendEntriesResponse _ _ _)
  | .message _ (.installSnapshotResponse _ _) | .timerFired _ | .clientCommand _
  | .configChange _ => isTrue trivial

variable [StateMachine SM P] [RetainsEntries S P] {R : Realization} {ev : Event P}
  {n₀ n n' : RaftNode P S SM} {i : Nat} {e : LogEntry P}

omit [StateMachine SM P] [RetainsEntries S P] in
/-- What becomes of an entry depends on what is applied and on the log from there on. -/
theorem Held.of_same (h : n.Held i e)
    (hstorage : Storage.getEntry n'.storage i = Storage.getEntry n.storage i)
    (happlied : n'.replication.lastApplied = n.replication.lastApplied)
    (hobserver : n'.observer = n.observer) : n'.Held i e := by
  unfold Held at *
  rw [hstorage, happlied, hobserver]
  exact h

omit [StateMachine SM P] in
theorem getEntry_cells (s : S) (t : Nat) (v : Option NodeId) (i : Nat) :
    Storage.getEntry (Storage.setVotedFor (Storage.setCurrentTerm s t) v) i =
      Storage.getEntry s i := by
  rw [RetainsEntries.setVotedFor, RetainsEntries.setCurrentTerm]

omit [StateMachine SM P] in
theorem SameData.alreadyCovered (h : SameData n₀ n) (index : Nat) :
    LogReplicationManager.alreadyCovered index n.storage =
      LogReplicationManager.alreadyCovered index n₀.storage := by
  unfold LogReplicationManager.alreadyCovered
  rcases h.storage with hs | hs
  · rw [hs]
  · rw [hs, RetainsEntries.snapshotMetadata_cells]

omit [StateMachine SM P] in
theorem SameData.chunkResult (h : SameData n₀ n) (index term offset : Nat) (data : List UInt8)
    (done : Bool) : (n.chunkResult index term offset data done).2 =
      (Storage.applySnapshotChunk n₀.storage offset data done index term).2 := by
  unfold RaftNode.chunkResult
  rcases h.storage with hs | hs
  · rw [hs]
  · rw [hs, RetainsEntries.applySnapshotChunk_cells]

/-- A snapshot of what is applied takes away nothing that waits. -/
theorem getEntry_createSnapshotInternal (hi : n.replication.commitIndex < i) :
    Storage.getEntry n.createSnapshotInternal.storage i = Storage.getEntry n.storage i := by
  unfold createSnapshotInternal SnapshotManager.create
  dsimp only
  split
  · rfl
  · split
    · rfl
    · show Storage.getEntry (SnapshotManager.compact _ _) i = _
      unfold SnapshotManager.compact
      rw [RetainsEntries.discardEntriesBefore _ _ _ hi, RetainsEntries.saveSnapshot]

theorem held_move (hspares : n₀.Spares i ev) (hterm : n₀.currentTerm ≤ n.currentTerm)
    (hmove : Move R ev n₀ n n') (h : n.Held i e) : n'.Held i e := by
  cases hmove with
  | inert hi => exact h.of_same (by rw [hi.storage]) (by rw [hi.replication]) hi.observer
  | adoptTerm => exact h.of_same (getEntry_cells _ _ _ _) rfl rfl
  | campaign =>
    rw [broadcast_eq]
    exact h.of_same (getEntry_cells _ _ _ _) rfl rfl
  | lead =>
    obtain ⟨_, happlied, _⟩ := initializeLeaderState_counters (R := R) n.replication
      n.config.members n.storage
    exact h.of_same rfl happlied rfl
  | grant => exact h.of_same (RetainsEntries.setVotedFor _ _ _) rfl rfl
  | place asked consistent =>
    rcases h with ⟨hlt, hentry⟩ | happlied
    · rw [asked] at hspares
      exact .inl ⟨hlt, (hspares rfl hlt consistent).trans hentry⟩
    · exact .inr happlied
  | applyNone below reached missing =>
    rcases h with ⟨hlt, hentry⟩ | happlied
    · have hne : n.replication.lastApplied + 1 ≠ i := by
        rintro rfl
        rw [missing] at hentry
        cases hentry
      exact .inl ⟨Nat.lt_of_le_of_ne hlt hne, hentry⟩
    · exact .inr happlied
  | @applyEntry _ entry below reached found =>
    rcases h with ⟨hlt, hentry⟩ | happlied
    · by_cases hi : n.replication.lastApplied + 1 = i
      · subst hi
        rw [found] at hentry
        cases hentry
        exact .inr (List.mem_append_right _ (List.mem_singleton.mpr rfl))
      · exact .inl ⟨Nat.lt_of_le_of_ne hlt hi, hentry⟩
    · exact .inr (List.mem_append_left _ happlied)
  | applyChanges changes =>
    obtain ⟨_, happlied⟩ := applyConfigChanges_counters (R := R) (n := n) changes
    exact h.of_same rfl happlied rfl
  | append =>
    rcases h with ⟨hlt, hentry⟩ | happlied
    · exact .inl ⟨hlt, RetainsEntries.appendEntries _ _ _ _ hentry⟩
    · exact .inr happlied
  | record =>
    obtain ⟨_, happlied⟩ := recorded_counters (R := R) n₀.replication _ _
    exact h.of_same rfl happlied rfl
  | recordSnapshot =>
    obtain ⟨_, happlied⟩ := installResponse_counters (R := R) n₀.replication _ _ _
    exact h.of_same rfl happlied rfl
  | compact _ _ _ _ _ applied =>
    rcases h with ⟨hlt, hentry⟩ | happlied
    · have hi : n.replication.commitIndex < i := by omega
      exact .inl ⟨hlt, (getEntry_createSnapshotInternal hi).trans hentry⟩
    · exact .inr happlied
  | storeChunk => exact h.of_same (RetainsEntries.applySnapshotChunk _ _ _ _ _ _ _) rfl rfl
  | @install _ _ _ index term offset data _ asked same fresh ok _ =>
    rcases h with ⟨hlt, hentry⟩ | happlied
    · rw [asked] at hspares
      rw [same.alreadyCovered] at fresh
      have hbelow : index < i := by
        apply hspares hterm rfl fresh
        rw [← same.chunkResult, ok]
        rfl
      refine .inl ⟨Nat.max_lt.mpr ⟨hlt, hbelow⟩, ?_⟩
      show Storage.getEntry (Storage.discardEntriesBefore _ _) i = _
      rw [RetainsEntries.discardEntriesBefore _ _ _ hbelow]
      exact (RetainsEntries.applySnapshotChunk _ _ _ _ _ _ _).trans hentry
    · exact .inr happlied
  | learnCommit _ _ placed =>
    subst placed
    exact h.of_same rfl rfl rfl
  | _ => exact h.of_same rfl rfl rfl

theorem held_moves (hmoves : Moves R ev n₀ n n') (hspares : n₀.Spares i ev)
    (hterm : n₀.currentTerm ≤ n.currentTerm) (h : n.Held i e) : n'.Held i e := by
  suffices hboth : n₀.currentTerm ≤ n'.currentTerm ∧ n'.Held i e from hboth.2
  induction hmoves with
  | refl => exact ⟨hterm, h⟩
  | tail _ hlast ih =>
    exact ⟨ih.1.trans hlast.currentTerm_le, held_move hspares ih.1 hlast ih.2⟩

/-- An event that spares the index keeps the entry held. -/
theorem held_onEvent (hspares : n.Spares i ev) (h : n.Held i e) : (n.onEvent R ev).Held i e :=
  held_moves (onEvent_moves R n ev) hspares (Nat.le_refl _) h

omit [RetainsEntries S P] in
/-- After each event everything committed is applied. -/
theorem applied_onEvent (h : n.replication.commitIndex ≤ n.replication.lastApplied) :
    (n.onEvent R ev).replication.commitIndex ≤ (n.onEvent R ev).replication.lastApplied := by
  have hout := onEvent_outcome R n ev
  suffices hface : ∀ f, Outcome R ev n f → f.commitIndex ≤ f.lastApplied from hface _ hout
  intro f hf
  cases hf with
  | learns => exact Nat.le_max_right _ _
  | commits => exact Nat.le_max_right _ _
  | commitsAlone => exact Nat.le_max_right _ _
  | installs =>
    exact Nat.max_le.mpr ⟨h.trans (Nat.le_max_left _ _), Nat.le_max_right _ _⟩
  | _ => exact h

omit [RetainsEntries S P] in
theorem applied_subset_onEvent : n.observer.applied ⊆ (n.onEvent R ev).observer.applied := by
  have hout := onEvent_outcome R n ev
  suffices hface : ∀ f, Outcome R ev n f → n.observer.applied ⊆ f.observer.applied from
    hface _ hout
  intro f hf
  cases hf with
  | learns => exact List.subset_append_left ..
  | commits => exact List.subset_append_left ..
  | commitsAlone => exact List.subset_append_left ..
  | _ => exact List.Subset.refl _

/-- A leader takes in a command: it goes to the index that is returned, above what is applied. -/
structure TakesCommand (n : RaftNode P S SM) (e : LogEntry P) : Prop where
  stored : Storage.getEntry (Storage.appendEntries n.storage [e])
    (Storage.lastLogIndex (Storage.appendEntries n.storage [e])) = some e
  above : n.replication.lastApplied <
    Storage.lastLogIndex (Storage.appendEntries n.storage [e])

theorem held_submit {payload : P} (hleader : n.role = .leader)
    (h : n.TakesCommand ⟨n.currentTerm, .command payload⟩) {index : Nat}
    (hindex : (n.submitClientCommand R payload).2 = .ok index) :
    (n.submitClientCommand R payload).1.Held index ⟨n.currentTerm, .command payload⟩ := by
  unfold submitClientCommand at *
  rw [submitEntry_of_leader _ hleader] at hindex
  cases hindex
  have hmoves := submitted_moves (R := R) (.command payload) hleader
    (.clientCommand payload)
  have hspares : n.Spares (Storage.lastLogIndex
      (Storage.appendEntries n.storage [⟨n.currentTerm, .command payload⟩]))
      (.clientCommand payload) := trivial
  apply held_moves hmoves hspares (Nat.le_refl _)
  exact .inl ⟨h.above, h.stored⟩

end RaftNode

/-! ## What is appended for whom -/

/-- What a node appended for the request of a call: the entry, and the index it was given. -/
structure Acceptance (P : Type) where
  caller : ResponseTx
  node : NodeId
  index : Nat
  entry : LogEntry P

namespace EmbassyCluster

variable [Storage S P] [StateMachine SM P]

/-- The entry that node `v` appends if it takes its next request. -/
def takenIn (c : EmbassyCluster P S SM) (v : NodeId) : Option (LogEntry P) :=
  match c.nextRequest v with
  | some (.write payload _) =>
    if (c.nodes v).raftNode.role = .leader then
      some ⟨(c.nodes v).raftNode.currentTerm, .command payload⟩
    else none
  | _ => none

/-- What `submit_client_command` takes in and returns in this step. -/
def acceptance (c : EmbassyCluster P S SM) : EmbassyAction P → Option (Acceptance P)
  | .client v =>
    match c.nextRequest v with
    | some (.write payload responseTx) =>
      match ((c.nodes v).raftNode.submitClientCommand .embassy payload).2 with
      | .ok index =>
        some ⟨responseTx, v, index, ⟨(c.nodes v).raftNode.currentTerm, .command payload⟩⟩
      | .error _ => none
    | _ => none
  | _ => none

/-- The log has room for what a leader appends. -/
def HasRoom (c : EmbassyCluster P S SM) : EmbassyAction P → Prop
  | .client v => ∀ e ∈ c.takenIn v,
    Storage.getEntry (Storage.appendEntries (c.nodes v).raftNode.storage [e])
      (Storage.lastLogIndex (Storage.appendEntries (c.nodes v).raftNode.storage [e])) = some e
  | _ => True

/-- A command goes above what its leader has applied; an event spares the entries of the pending
requests; and an `Ok` is received by the call that it answers. -/
def Sure (c : EmbassyCluster P S SM) : EmbassyAction P → Prop
  | .client v => ∀ e ∈ c.takenIn v, (c.nodes v).raftNode.replication.lastApplied <
    Storage.lastLogIndex (Storage.appendEntries (c.nodes v).raftNode.storage [e])
  | .select v arm => ∀ ev ∈ c.nextEvent v arm, ∀ x ∈ (c.nodes v).pendingCommands,
    (c.nodes v).raftNode.Spares x.1 ev
  | .receive k => ∀ reply ∈ c.responses.write, reply.result.isOk = true → reply.responseTx = k
  | _ => True

/-- A message is taken from the head of its link. -/
def InOrder (c : EmbassyCluster P S SM) : EmbassyAction P → Prop
  | .select _ (.message k) => ∀ p ∈ c.network[k]?, ∀ q ∈ c.network.take k,
    ¬ (q.src = p.src ∧ q.dst = p.dst)
  | _ => True

instance [DecidableEq P] (c : EmbassyCluster P S SM) (a : EmbassyAction P) :
    Decidable (c.HasRoom a) := by
  cases a <;> unfold HasRoom <;> infer_instance

instance [DecidableEq P] (c : EmbassyCluster P S SM) (a : EmbassyAction P) :
    Decidable (c.Sure a) := by
  cases a <;> unfold Sure <;> infer_instance

instance (c : EmbassyCluster P S SM) (a : EmbassyAction P) : Decidable (c.InOrder a) := by
  cases a with
  | select v arm => cases arm <;> unfold InOrder <;> infer_instance
  | _ => unfold InOrder; infer_instance

end EmbassyCluster

/-- A cluster, and beside it what has been appended for whom. -/
structure Witnessed (P S SM : Type) where
  cluster : EmbassyCluster P S SM
  accepted : List (Acceptance P)

namespace Witnessed

variable [Storage S P] [StateMachine SM P]

def init (storage : NodeId → S) (stateMachine : SM) : Witnessed P S SM :=
  ⟨.init storage stateMachine, []⟩

def step (w : Witnessed P S SM) (a : EmbassyAction P) : Witnessed P S SM :=
  ⟨w.cluster.step a, w.accepted ++ (w.cluster.acceptance a).toList⟩

omit [Storage S P] [StateMachine SM P] in
/-- What call `k` asked for was appended at a node, and this very entry was applied there at the
index it was given. -/
def Committed (w : Witnessed P S SM) (k : Nat) : Prop :=
  ∃ r ∈ w.accepted, r.caller = k ∧
    (r.index, r.entry) ∈ (w.cluster.nodes r.node).raftNode.observer.applied

/-- Call `k` asks for `payload`. -/
def Asked (calls : List (Call P)) (k : Nat) (payload : P) : Prop :=
  ∃ call, calls[k]? = some call ∧ call.payload = payload

/-- What a node holds for its clients. -/
structure Served (accepted : List (Acceptance P)) (calls : List (Call P)) (v : NodeId)
    (n : EmbassyNode P S SM) : Prop where
  settled : n.raftNode.replication.commitIndex ≤ n.raftNode.replication.lastApplied
  pending : ∀ x ∈ n.pendingCommands, ∃ r ∈ accepted, r.caller = x.2 ∧ r.node = v ∧
    r.index = x.1 ∧ n.raftNode.Held x.1 r.entry
  requests : ∀ payload tx, .write payload tx ∈ n.clientRx → Asked calls tx payload

structure Inv (w : Witnessed P S SM) : Prop where
  served : ∀ v, Served w.accepted w.cluster.calls v (w.cluster.nodes v)
  accepted : ∀ r ∈ w.accepted, ∃ payload, r.entry.entryType = .command payload ∧
    Asked w.cluster.calls r.caller payload
  reply : ∀ reply ∈ w.cluster.responses.write, reply.result = .ok () →
    w.Committed reply.responseTx
  returned : ∀ k call, w.cluster.calls[k]? = some call → call.phase = .returned (.ok ()) →
    w.Committed k

variable {w w' : Witnessed P S SM} {v : NodeId} {k : Nat}

omit [StateMachine SM P] in
theorem Served.mono {accepted accepted' : List (Acceptance P)} {calls calls' : List (Call P)}
    {n : EmbassyNode P S SM} (haccepted : accepted ⊆ accepted')
    (hasked : ∀ k p, Asked calls k p → Asked calls' k p) (h : Served accepted calls v n) :
    Served accepted' calls' v n := by
  refine ⟨h.settled, fun x hx => ?_, fun p tx hmem => hasked tx p (h.requests p tx hmem)⟩
  obtain ⟨r, hr, hrest⟩ := h.pending x hx
  exact ⟨r, haccepted hr, hrest⟩

omit [Storage S P] [StateMachine SM P] in
theorem Committed.mono (haccepted : w.accepted ⊆ w'.accepted)
    (happlied : ∀ v, (w.cluster.nodes v).raftNode.observer.applied ⊆
      (w'.cluster.nodes v).raftNode.observer.applied) (h : w.Committed k) : w'.Committed k := by
  obtain ⟨r, hr, hcaller, hmem⟩ := h
  exact ⟨r, haccepted hr, hcaller, happlied _ hmem⟩

omit [StateMachine SM P] in
/-- A step of node `v` alone. -/
theorem Inv.update {acc : List (Acceptance P)} (h : Inv w)
    (hcalls : w'.cluster.calls = w.cluster.calls) (haccepted : w'.accepted = w.accepted ++ acc)
    (hothers : ∀ u, u ≠ v → w'.cluster.nodes u = w.cluster.nodes u)
    (happlied : (w.cluster.nodes v).raftNode.observer.applied ⊆
      (w'.cluster.nodes v).raftNode.observer.applied)
    (hself : Served w'.accepted w.cluster.calls v (w'.cluster.nodes v))
    (hnew : ∀ r ∈ acc, ∃ payload, r.entry.entryType = .command payload ∧
      Asked w.cluster.calls r.caller payload)
    (hreply : ∀ reply ∈ w'.cluster.responses.write, reply.result = .ok () →
      w.Committed reply.responseTx ∨ w'.Committed reply.responseTx) : Inv w' := by
  have hsub : w.accepted ⊆ w'.accepted := by
    rw [haccepted]
    exact List.subset_append_left ..
  have hmono : ∀ j, w.Committed j → w'.Committed j := by
    intro j
    apply Committed.mono hsub
    intro u
    by_cases hu : u = v
    · subst hu
      exact happlied
    · rw [hothers u hu]
      exact List.Subset.refl _
  constructor
  · intro u
    rw [hcalls]
    by_cases hu : u = v
    · subst hu
      exact hself
    · rw [hothers u hu]
      exact (h.served u).mono hsub fun _ _ hasked => hasked
  · intro r hr
    rw [hcalls]
    rw [haccepted] at hr
    exact (List.mem_append.mp hr).elim (h.accepted r) (hnew r)
  · intro reply hmem hok
    exact (hreply reply hmem hok).elim (hmono _) id
  · intro j call hcall hphase
    rw [hcalls] at hcall
    exact hmono j (h.returned j call hcall hphase)

omit [StateMachine SM P] in
/-- A step of the calls alone. -/
theorem Inv.updateCalls (h : Inv w) (hnodes : w'.cluster.nodes = w.cluster.nodes)
    (haccepted : w'.accepted = w.accepted)
    (hreplies : ∀ reply ∈ w'.cluster.responses.write, reply ∈ w.cluster.responses.write)
    (hasked : ∀ k p, Asked w.cluster.calls k p → Asked w'.cluster.calls k p)
    (hreturned : ∀ k call, w'.cluster.calls[k]? = some call → call.phase = .returned (.ok ()) →
      w.cluster.calls[k]? = some call ∨ w.Committed k) : Inv w' := by
  have hmono : ∀ j, w.Committed j → w'.Committed j := by
    intro j hj
    unfold Committed at *
    rw [haccepted, hnodes]
    exact hj
  constructor
  · intro u
    rw [haccepted, hnodes]
    exact (h.served u).mono (List.Subset.refl _) hasked
  · intro r hr
    rw [haccepted] at hr
    obtain ⟨p, hp, hcaller⟩ := h.accepted r hr
    exact ⟨p, hp, hasked _ _ hcaller⟩
  · intro reply hmem hok
    exact hmono _ (h.reply reply (hreplies reply hmem) hok)
  · intro j call hcall hphase
    rcases hreturned j call hcall hphase with hold | hcommitted
    · exact hmono j (h.returned j call hold hphase)
    · exact hmono j hcommitted

/-! ### Steps of the callers -/

section

omit [Storage S P] [StateMachine SM P]

theorem asked_set {calls : List (Call P)} {call call' : Call P} (hcall : calls[k]? = some call)
    (hpayload : call'.payload = call.payload) {j : Nat} {payload : P}
    (h : Asked calls j payload) : Asked (calls.set k call') j payload := by
  obtain ⟨c, hc, rfl⟩ := h
  by_cases hj : k = j
  · subst hj
    rw [hcall] at hc
    cases hc
    refine ⟨call', ?_, hpayload⟩
    obtain ⟨hlt, _⟩ := List.getElem?_eq_some_iff.mp hcall
    exact List.getElem?_set_self hlt
  · exact ⟨c, (List.getElem?_set_ne hj).trans hc, rfl⟩

theorem returned_set {calls : List (Call P)} {call call' : Call P} {j : Nat}
    (hcall : (calls.set k call')[j]? = some call) :
    calls[j]? = some call ∨ j = k ∧ call = call' := by
  rw [List.getElem?_set] at hcall
  split at hcall
  · rename_i hkj
    split at hcall
    · cases hcall
      exact .inr ⟨hkj.symm, rfl⟩
    · cases hcall
  · exact .inl hcall

theorem receive_payload (call : Call P) (result : Except ClusterError Unit) :
    (call.receive result).payload = call.payload := by
  unfold Call.receive
  split
  · rfl
  · dsimp only
    split <;> rfl
  · rfl

/-- A call returns `Ok` on no other answer. -/
theorem receive_ok {call : Call P} {result : Except ClusterError Unit}
    (h : (call.receive result).phase = .returned (.ok ())) : result = .ok () := by
  unfold Call.receive at h
  split at h
  · rfl
  · dsimp only at h
    split at h <;> cases h
  · cases h

end

theorem inv_submit (h : Inv w) (payload : P) : Inv (w.step (.submit payload)) := by
  refine h.updateCalls rfl (List.append_nil _) (fun _ hr => hr) ?_ ?_
  · rintro j p ⟨call, hcall, hp⟩
    exact ⟨call, getElem?_append_of_some hcall, hp⟩
  · intro j call hcall hphase
    left
    change (w.cluster.calls ++ [Call.new payload])[j]? = some call at hcall
    rw [List.getElem?_append] at hcall
    split at hcall
    · exact hcall
    · have hnew := List.mem_of_getElem? hcall
      rw [List.mem_singleton.mp hnew] at hphase
      cases hphase

omit [StateMachine SM P] in
theorem inv_setCall (h : Inv w) {call call' : Call P} (hcall : w.cluster.calls[k]? = some call)
    (hpayload : call'.payload = call.payload)
    (hok : call'.phase = .returned (.ok ()) → w.Committed k) {responses : Responses}
    (hreplies : ∀ reply ∈ responses.write, reply ∈ w.cluster.responses.write) :
    Inv ⟨{ w.cluster with calls := w.cluster.calls.set k call', responses := responses },
      w.accepted⟩ := by
  refine h.updateCalls rfl rfl hreplies ?_ ?_
  · exact fun j p => asked_set hcall hpayload
  · intro j x hx hphase
    rcases returned_set hx with hold | ⟨rfl, rfl⟩
    · exact .inl hold
    · exact .inr (hok hphase)

theorem inv_receive (h : Inv w) (hsure : w.cluster.Sure (.receive k)) :
    Inv (w.step (.receive k)) := by
  have hstep : w.step (.receive k) = ⟨w.cluster.receive k, w.accepted⟩ := by
    unfold step
    exact congrArg _ (List.append_nil _)
  rw [hstep]
  unfold EmbassyCluster.receive
  split
  · rename_i call reply hcall hreply
    split
    · refine inv_setCall h hcall (receive_payload _ _) (fun hok => ?_) (fun _ hr => (by cases hr))
      have hresult := receive_ok hok
      have hcaller : reply.responseTx = k := hsure reply hreply (by rw [hresult]; rfl)
      rw [← hcaller]
      exact h.reply reply hreply hresult
    · exact h
  · exact h

theorem inv_timeout (h : Inv w) : Inv (w.step (.timeout k)) := by
  have hstep : w.step (.timeout k) = ⟨w.cluster.timeout k, w.accepted⟩ := by
    unfold step
    exact congrArg _ (List.append_nil _)
  rw [hstep]
  unfold EmbassyCluster.timeout
  split
  · rename_i call hcall hreply
    split
    · refine inv_setCall h hcall ?_ ?_ (fun _ hr => hr)
      · rfl
      · intro hok
        cases hok
    · exact h
  · exact h

omit [StateMachine SM P] in
/-- A request is put in the queue of a node. -/
theorem inv_queue (h : Inv w) (v : NodeId) (request : ClientRequest P) (responses : Responses)
    (hrequest : ∀ payload tx, .write payload tx = request → Asked w.cluster.calls tx payload)
    (hreplies : ∀ reply ∈ responses.write, reply ∈ w.cluster.responses.write) :
    Inv ⟨{ w.cluster.withNode v { w.cluster.nodes v with
        clientRx := (w.cluster.nodes v).clientRx ++ [request] } with responses := responses },
      w.accepted⟩ := by
  refine h.update (v := v) rfl (List.append_nil _).symm
    (fun u hu => EmbassyCluster.withNode_nodes_ne hu) ?_ ?_ (fun _ hr => (by cases hr))
    (fun reply hr hok => .inl (h.reply reply (hreplies reply hr) hok))
  · show _ ⊆ ((w.cluster.withNode v _).nodes v).raftNode.observer.applied
    rw [EmbassyCluster.withNode_nodes_self]
    exact List.Subset.refl _
  · show Served _ _ _ ((w.cluster.withNode v _).nodes v)
    rw [EmbassyCluster.withNode_nodes_self]
    refine ⟨(h.served v).settled, (h.served v).pending, fun payload tx hmem => ?_⟩
    rcases List.mem_append.mp hmem with hold | hnew
    · exact (h.served v).requests payload tx hold
    · exact hrequest payload tx (List.mem_singleton.mp hnew)

theorem inv_attempt (h : Inv w) : Inv (w.step (.attempt k)) := by
  have hstep : w.step (.attempt k) = ⟨w.cluster.attempt k, w.accepted⟩ := by
    unfold step
    exact congrArg _ (List.append_nil _)
  rw [hstep]
  unfold EmbassyCluster.attempt
  split
  · rename_i call hcall
    split
    · dsimp only
      split
      · split
        · -- the request is queued at the node, and then the call waits
          have hqueued := inv_queue h (call.targetNode + 1) (.write call.payload k)
            { w.cluster.responses with write := none } ?_ (fun _ hr => ?_)
          · refine inv_setCall hqueued hcall ?_ ?_ (fun _ hr => hr)
            · rfl
            · intro hok
              cases hok
          · intro payload tx heq
            cases heq
            exact ⟨call, hcall, rfl⟩
          · cases hr
        · refine inv_setCall h hcall ?_ ?_ (fun _ hr => ?_)
          · rfl
          · intro hok
            cases hok
          · cases hr
      · exact h
    · exact h
  · exact h

theorem inv_read (h : Inv w) (key : String) : Inv (w.step (.read v key)) := by
  have hstep : w.step (.read v key) = ⟨w.cluster.step (.read v key), w.accepted⟩ := by
    unfold step
    exact congrArg _ (List.append_nil _)
  rw [hstep]
  unfold EmbassyCluster.step
  dsimp only
  split
  · refine inv_queue h v (.read key) w.cluster.responses ?_ (fun _ hr => hr)
    intro payload tx heq
    cases heq
  · exact h

/-! ### Steps of the nodes -/

/-- What becomes of the answers when the requests up to the commit index are completed. -/
theorem complete_spec (commitIndex : Nat) (completed : List Nat) :
    ∀ st : List (Nat × ResponseTx) × Option Reply, (∀ i ∈ completed, i ≤ commitIndex) →
      (completed.foldl EmbassyNode.complete st).1 ⊆ st.1 ∧
      ∀ reply ∈ (completed.foldl EmbassyNode.complete st).2, reply ∈ st.2 ∨
        ∃ x ∈ st.1, x.1 ≤ commitIndex ∧ reply.responseTx = x.2 := by
  induction completed with
  | nil => exact fun st _ => ⟨List.Subset.refl _, fun _ hr => .inl hr⟩
  | cons i completed ih =>
    intro st hle
    rw [List.foldl_cons]
    obtain ⟨hsub, hreply⟩ := ih (EmbassyNode.complete st i)
      fun j hj => hle j (List.mem_cons_of_mem _ hj)
    have hone : (EmbassyNode.complete st i).1 ⊆ st.1 ∧
        ∀ reply ∈ (EmbassyNode.complete st i).2, reply ∈ st.2 ∨
          ∃ x ∈ st.1, x.1 ≤ commitIndex ∧ reply.responseTx = x.2 := by
      unfold EmbassyNode.complete
      split
      · rename_i x hx
        refine ⟨List.filter_subset_self _, fun reply hr => ?_⟩
        unfold trySend at hr
        split at hr
        · cases hr
          have hindex := List.find?_some hx
          rw [decide_eq_true_iff] at hindex
          exact .inr ⟨x, List.mem_of_find?_eq_some hx,
            hindex ▸ hle i (List.mem_cons_self ..), rfl⟩
        · rename_i hfull
          rw [hfull]
          exact .inl hr
      · exact ⟨List.Subset.refl _, fun _ hr => .inl hr⟩
    refine ⟨List.Subset.trans hsub hone.1, fun reply hr => ?_⟩
    rcases hreply reply hr with hold | ⟨x, hx, hrest⟩
    · exact hone.2 reply hold
    · exact .inr ⟨x, hone.1 hx, hrest⟩

theorem inv_process (h : Inv w) : Inv (w.step (.process v)) := by
  have hstep : w.step (.process v) = ⟨w.cluster.process v, w.accepted⟩ := by
    unfold step
    exact congrArg _ (List.append_nil _)
  rw [hstep]
  unfold EmbassyCluster.process
  split
  · dsimp only
    generalize hn : w.cluster.nodes v = n
    have hserved : Served w.accepted w.cluster.calls v n := hn ▸ h.served v
    obtain ⟨hsub, hreply⟩ := complete_spec n.raftNode.replication.commitIndex
      ((n.pendingCommands.takeWhile (·.1 ≤ n.raftNode.replication.commitIndex)).map (·.1))
      (n.pendingCommands, w.cluster.responses.write) (fun i hi => by
        obtain ⟨x, hx, rfl⟩ := List.mem_map.mp hi
        exact of_decide_eq_true (List.all_eq_true.mp List.all_takeWhile x hx))
    refine h.update (v := v) rfl (List.append_nil _).symm
      (fun u hu => EmbassyCluster.withNode_nodes_ne hu) ?_ ?_ (fun _ hr => (by cases hr)) ?_
    · show _ ⊆ ((w.cluster.withNode v _).nodes v).raftNode.observer.applied
      rw [EmbassyCluster.withNode_nodes_self, hn]
      exact List.Subset.refl _
    · show Served _ _ _ ((w.cluster.withNode v _).nodes v)
      rw [EmbassyCluster.withNode_nodes_self]
      exact ⟨hserved.settled, fun x hx => hserved.pending x (hsub hx), hserved.requests⟩
    · intro reply hr hok
      rcases hreply reply hr with hold | ⟨x, hx, hle, hcaller⟩
      · exact .inl (h.reply reply hold hok)
      · -- everything committed is applied, so the entry no longer waits
        obtain ⟨r, hr, hrx, hnode, hindex, hheld⟩ := hserved.pending x hx
        refine .inl ⟨r, hr, hrx.trans hcaller.symm, ?_⟩
        rw [hnode, hn, hindex]
        exact hheld.resolve_left fun hwaits =>
          absurd (hle.trans hserved.settled) (Nat.not_le.mpr hwaits.1)
  · exact h

/-- The nodes differ in nothing that an answer rests on. -/
structure Alike (n n' : EmbassyNode P S SM) : Prop where
  replication : n'.raftNode.replication = n.raftNode.replication
  storage : n'.raftNode.storage = n.raftNode.storage
  observer : n'.raftNode.observer = n.raftNode.observer
  pendingCommands : n'.pendingCommands = n.pendingCommands
  clientRx : n'.clientRx = n.clientRx

omit [Storage S P] [StateMachine SM P] in
theorem Alike.refl (n : EmbassyNode P S SM) : Alike n n := ⟨rfl, rfl, rfl, rfl, rfl⟩

omit [Storage S P] [StateMachine SM P] in
theorem alike_update {c : EmbassyCluster P S SM} {n : EmbassyNode P S SM}
    (h : Alike (c.nodes v) n) (u : NodeId) : Alike (c.nodes u) ((c.withNode v n).nodes u) := by
  by_cases hu : u = v
  · subst hu
    rw [EmbassyCluster.withNode_nodes_self]
    exact h
  · rw [EmbassyCluster.withNode_nodes_ne hu]
    exact .refl _

omit [StateMachine SM P] in
theorem Inv.alike (h : Inv w) (hnodes : ∀ v, Alike (w.cluster.nodes v) (w'.cluster.nodes v))
    (hcalls : w'.cluster.calls = w.cluster.calls) (haccepted : w'.accepted = w.accepted)
    (hresponses : w'.cluster.responses = w.cluster.responses) : Inv w' := by
  have hmono : ∀ j, w.Committed j → w'.Committed j := by
    intro j
    apply Committed.mono (haccepted ▸ List.Subset.refl _)
    intro u
    rw [(hnodes u).observer]
    exact List.Subset.refl _
  constructor
  · intro u
    have hsame := hnodes u
    have hserved := h.served u
    rw [haccepted, hcalls]
    refine ⟨?_, fun x hx => ?_, fun payload tx hmem => ?_⟩
    · rw [hsame.replication]
      exact hserved.settled
    · rw [hsame.pendingCommands] at hx
      obtain ⟨r, hr, hcaller, hnode, hindex, hheld⟩ := hserved.pending x hx
      exact ⟨r, hr, hcaller, hnode, hindex, hheld.of_same (by rw [hsame.storage])
        (by rw [hsame.replication]) hsame.observer⟩
    · rw [hsame.clientRx] at hmem
      exact hserved.requests payload tx hmem
  · intro r hr
    rw [haccepted] at hr
    rw [hcalls]
    exact h.accepted r hr
  · intro reply hr hok
    rw [hresponses] at hr
    exact hmono _ (h.reply reply hr hok)
  · intro j call hcall hphase
    rw [hcalls] at hcall
    exact hmono j (h.returned j call hcall hphase)

theorem inv_send (h : Inv w) : Inv (w.step (.send v)) := by
  have hstep : w.step (.send v) = ⟨w.cluster.send v, w.accepted⟩ := by
    unfold step
    exact congrArg _ (List.append_nil _)
  rw [hstep]
  unfold EmbassyCluster.send
  split
  · exact h.alike (alike_update ⟨rfl, rfl, rfl, rfl, rfl⟩) rfl rfl rfl
  · exact h

section

variable [RetainsEntries S P]

/-- A node hands an event to the core. -/
theorem inv_takeEvent (h : Inv w) {arm : Arm P} (hsure : w.cluster.Sure (.select v arm)) :
    Inv (w.step (.select v arm)) := by
  have hstep : w.step (.select v arm) = ⟨w.cluster.takeEvent v arm, w.accepted⟩ := by
    unfold step
    exact congrArg _ (List.append_nil _)
  rw [hstep]
  unfold EmbassyCluster.takeEvent
  split
  · rename_i ev hev
    have hserved := h.served v
    have hhandled : Inv ⟨w.cluster.withNode v
        ({ w.cluster.nodes v with
          raftNode := (w.cluster.nodes v).raftNode.onEvent .embassy ev } : EmbassyNode P S SM).drain,
        w.accepted⟩ := by
      refine h.update (v := v) rfl (List.append_nil _).symm
        (fun u hu => EmbassyCluster.withNode_nodes_ne hu) ?_ ?_ (fun _ hr => (by cases hr))
        (fun reply hr hok => .inl (h.reply reply hr hok))
      · dsimp only
        rw [EmbassyCluster.withNode_nodes_self]
        exact RaftNode.applied_subset_onEvent
      · dsimp only
        rw [EmbassyCluster.withNode_nodes_self]
        refine ⟨RaftNode.applied_onEvent hserved.settled, fun x hx => ?_, hserved.requests⟩
        obtain ⟨r, hr, hcaller, hnode, hindex, hheld⟩ := hserved.pending x hx
        exact ⟨r, hr, hcaller, hnode, hindex, RaftNode.held_onEvent (hsure ev hev x hx) hheld⟩
    dsimp only
    split
    · exact hhandled.alike (fun _ => .refl _) rfl rfl rfl
    · exact hhandled
  · split
    · exact h.alike (alike_update ⟨rfl, rfl, rfl, rfl, rfl⟩) rfl rfl rfl
    · exact h

omit [StateMachine SM P] [RetainsEntries S P] in
theorem mem_insertSorted {α : Type} {key : Nat} {x : α} {y : Nat × α} {m : List (Nat × α)}
    (h : y ∈ insertSorted key x m) : y = (key, x) ∨ y ∈ m := by
  induction m with
  | nil => exact .inl (List.mem_singleton.mp h)
  | cons z m ih =>
    unfold insertSorted at h
    split at h
    · exact List.mem_cons.mp h
    · split at h
      · rcases List.mem_cons.mp h with hy | hy
        · exact .inl hy
        · exact .inr (List.mem_cons_of_mem _ hy)
      · rcases List.mem_cons.mp h with hy | hy
        · exact .inr (hy ▸ List.mem_cons_self ..)
        · exact (ih hy).imp id (List.mem_cons_of_mem _)

omit [Storage S P] [StateMachine SM P] [RetainsEntries S P] in
theorem mem_of_nextRequest {c : EmbassyCluster P S SM} {request : ClientRequest P}
    (h : c.nextRequest v = some request) : request ∈ (c.nodes v).clientRx := by
  unfold EmbassyCluster.nextRequest at h
  split at h
  · exact List.mem_of_head? h
  · cases h

omit [StateMachine SM P] [RetainsEntries S P] in
/-- A node answers a read, or turns a command away. -/
theorem inv_turnAway (h : Inv w) {responses : Responses}
    (hreplies : ∀ reply ∈ responses.write, reply.result = .ok () →
      reply ∈ w.cluster.responses.write) :
    Inv ⟨{ w.cluster.withNode v ({ w.cluster.nodes v with
        clientRx := (w.cluster.nodes v).clientRx.tail } : EmbassyNode P S SM).drain with
      responses := responses }, w.accepted⟩ := by
  refine h.update (v := v) rfl (List.append_nil _).symm
    (fun u hu => EmbassyCluster.withNode_nodes_ne hu) ?_ ?_ (fun _ hr => (by cases hr))
    (fun reply hr hok => .inl (h.reply reply (hreplies reply hr hok) hok))
  · show _ ⊆ ((w.cluster.withNode v _).nodes v).raftNode.observer.applied
    rw [EmbassyCluster.withNode_nodes_self]
    exact List.Subset.refl _
  · show Served _ _ _ ((w.cluster.withNode v _).nodes v)
    rw [EmbassyCluster.withNode_nodes_self]
    exact ⟨(h.served v).settled, (h.served v).pending,
      fun payload tx hmem => (h.served v).requests payload tx (List.mem_of_mem_tail hmem)⟩

/-- A leader appends a command and keeps its caller in mind. -/
theorem inv_takeCommand (h : Inv w) {payload : P} {tx : ResponseTx} {index : Nat}
    (hasked : Asked w.cluster.calls tx payload)
    (hleader : (w.cluster.nodes v).raftNode.role = .leader)
    (htakes : (w.cluster.nodes v).raftNode.TakesCommand
      ⟨(w.cluster.nodes v).raftNode.currentTerm, .command payload⟩)
    (hindex : ((w.cluster.nodes v).raftNode.submitClientCommand .embassy payload).2 = .ok index) :
    Inv ⟨w.cluster.withNode v ({ w.cluster.nodes v with
        clientRx := (w.cluster.nodes v).clientRx.tail
        raftNode := ((w.cluster.nodes v).raftNode.submitClientCommand .embassy payload).1
        pendingCommands := insertSorted index tx (w.cluster.nodes v).pendingCommands } :
          EmbassyNode P S SM).drain,
      w.accepted ++
        [⟨tx, v, index, ⟨(w.cluster.nodes v).raftNode.currentTerm, .command payload⟩⟩]⟩ := by
  have hserved := h.served v
  let submitted := (w.cluster.nodes v).raftNode.onEvent .embassy (.clientCommand payload)
  have hsettled : submitted.replication.commitIndex ≤ submitted.replication.lastApplied :=
    RaftNode.applied_onEvent hserved.settled
  have happlied : (w.cluster.nodes v).raftNode.observer.applied ⊆ submitted.observer.applied :=
    RaftNode.applied_subset_onEvent
  refine h.update (v := v) rfl rfl (fun u hu => EmbassyCluster.withNode_nodes_ne hu) ?_ ?_ ?_
    (fun reply hr hok => .inl (h.reply reply hr hok))
  · dsimp only
    rw [EmbassyCluster.withNode_nodes_self]
    exact happlied
  · dsimp only
    rw [EmbassyCluster.withNode_nodes_self]
    refine ⟨hsettled, fun x hx => ?_,
      fun p j hmem => hserved.requests p j (List.mem_of_mem_tail hmem)⟩
    rcases mem_insertSorted hx with rfl | hold
    · exact ⟨_, List.mem_append_right _ (List.mem_singleton.mpr rfl), rfl, rfl, rfl,
        RaftNode.held_submit hleader htakes hindex⟩
    · obtain ⟨r, hr, hcaller, hnode, hrindex, hheld⟩ := hserved.pending x hold
      have hspares : (w.cluster.nodes v).raftNode.Spares x.1 (.clientCommand payload) := trivial
      have hkept := RaftNode.held_onEvent (R := .embassy) hspares hheld
      exact ⟨r, List.mem_append_left _ hr, hcaller, hnode, hrindex, hkept⟩
  · intro r hr
    rw [List.mem_singleton.mp hr]
    exact ⟨payload, rfl, hasked⟩

/-- A node takes a request of a client. -/
theorem inv_takeRequest (h : Inv w) (hroom : w.cluster.HasRoom (.client v))
    (hsure : w.cluster.Sure (.client v)) : Inv (w.step (.client v)) := by
  show Inv ⟨w.cluster.takeRequest v, w.accepted ++ (w.cluster.acceptance (.client v)).toList⟩
  cases hrequest : w.cluster.nextRequest v with
  | none =>
    have htake : w.cluster.takeRequest v = w.cluster := by
      unfold EmbassyCluster.takeRequest
      rw [hrequest]
    have hnone : w.cluster.acceptance (.client v) = none := by
      unfold EmbassyCluster.acceptance
      dsimp only
      rw [hrequest]
    rw [htake, hnone, Option.toList_none, List.append_nil]
    exact h
  | some request =>
    unfold EmbassyCluster.takeRequest EmbassyCluster.acceptance
    dsimp only
    rw [hrequest]
    cases request with
    | read key =>
      dsimp only
      rw [Option.toList_none, List.append_nil]
      unfold EmbassyNode.handleClientRequest
      dsimp only
      split
      · exact inv_turnAway h fun _ hr _ => hr
      · exact inv_turnAway h fun _ hr _ => hr
    | write payload tx =>
      have hasked := (h.served v).requests payload tx (mem_of_nextRequest hrequest)
      by_cases hleader : (w.cluster.nodes v).raftNode.role = .leader
      · have htaken : w.cluster.takenIn v =
            some ⟨(w.cluster.nodes v).raftNode.currentTerm, .command payload⟩ := by
          unfold EmbassyCluster.takenIn
          rw [hrequest]
          exact if_pos hleader
        have htakes : (w.cluster.nodes v).raftNode.TakesCommand
            ⟨(w.cluster.nodes v).raftNode.currentTerm, .command payload⟩ :=
          ⟨hroom _ htaken, hsure _ htaken⟩
        have hindex := RaftNode.submitEntry_of_leader (R := .embassy)
          (.command payload) hleader
        have hinv := inv_takeCommand h hasked hleader htakes hindex
        unfold EmbassyNode.handleClientRequest
        dsimp only
        unfold RaftNode.submitClientCommand at hinv ⊢
        rw [hindex]
        exact hinv
      · have haway : (w.cluster.nodes v).raftNode.submitClientCommand .embassy payload =
            ((w.cluster.nodes v).raftNode, .error ⟨(w.cluster.nodes v).raftNode.currentLeader⟩) := by
          unfold RaftNode.submitClientCommand RaftNode.submitEntry
          rw [if_pos hleader]
        unfold EmbassyNode.handleClientRequest
        dsimp only
        rw [haway]
        dsimp only
        rw [Option.toList_none, List.append_nil]
        apply inv_turnAway h
        intro reply hr hok
        dsimp only at hr
        unfold trySend at hr
        split at hr
        · cases hr
          cases hok
        · rename_i hfull
          rw [hfull]
          exact hr

theorem inv_step {a : EmbassyAction P} (hroom : w.cluster.HasRoom a) (hsure : w.cluster.Sure a)
    (h : Inv w) : Inv (w.step a) := by
  cases a with
  | submit payload => exact inv_submit h payload
  | attempt k => exact inv_attempt h
  | receive k => exact inv_receive h hsure
  | timeout k => exact inv_timeout h
  | read v key => exact inv_read h key
  | client v => exact inv_takeRequest h hroom hsure
  | select v arm => exact inv_takeEvent h hsure
  | send v => exact inv_send h
  | process v => exact inv_process h
  | lose k => exact h.alike (fun _ => .refl _) rfl (List.append_nil _) rfl
  | advance millis =>
    exact h.alike (fun _ => ⟨rfl, rfl, rfl, rfl, rfl⟩) rfl (List.append_nil _) rfl

omit [RetainsEntries S P] in
theorem inv_init (storage : NodeId → S) (stateMachine : SM) :
    Inv (init (P := P) storage stateMachine) := by
  constructor
  · intro v
    refine ⟨Nat.zero_le _, fun _ hx => (by cases hx), fun _ _ hmem => (by cases hmem)⟩
  · intro r hr
    cases hr
  · intro reply hr
    cases hr
  · intro k call hcall
    cases hcall

/-- **No false acknowledgement.**  In every run whose steps leave the entries of pending requests
where they are, and in which a call reads no answer but its own, a call of `submit_command` that
returns `Ok` has its payload in the entry that was appended for it, and this entry was committed
and applied at the index that it was given. -/
theorem acknowledged_is_committed {storage : NodeId → S} {stateMachine : SM}
    (hrun : Run step (fun w a => w.cluster.HasRoom a ∧ w.cluster.Sure a)
      (init storage stateMachine) w) {call : Call P} (hcall : w.cluster.calls[k]? = some call)
    (hok : call.phase = .returned (.ok ())) :
    ∃ r ∈ w.accepted, r.caller = k ∧ r.entry.entryType = .command call.payload ∧
      (r.index, r.entry) ∈ (w.cluster.nodes r.node).raftNode.observer.applied := by
  have hinv : Inv w :=
    hrun.invariant (fun _ _ hs hadmitted => inv_step hadmitted.1 hadmitted.2 hs)
      (inv_init storage stateMachine)
  obtain ⟨r, hr, hcaller, happlied⟩ := hinv.returned k call hcall hok
  obtain ⟨payload, htype, call', hcall', hpayload⟩ := hinv.accepted r hr
  rw [hcaller, hcall] at hcall'
  cases hcall'
  exact ⟨r, hr, hcaller, htype.trans (by rw [hpayload]), happlied⟩

end

end Witnessed

/-! ## Runs of five nodes -/

/-- Node `v` takes a message from the network, sends what it has to, and goes on. -/
def takesMessage (v : NodeId) (k sends : Nat) : List (EmbassyAction UInt8) :=
  .select v (.message k) :: List.replicate sends (.send v) ++ [.process v]

/-- Node 1 is elected by 2 and 3 and appends the command of call 0; both acknowledge it. -/
def commandAcknowledged : List (EmbassyAction UInt8) :=
  .select 1 (.timer .election) :: List.replicate 4 (.send 1) ++ [.process 1] ++
  takesMessage 2 0 1 ++ takesMessage 3 0 1 ++ takesMessage 1 2 0 ++ takesMessage 1 2 4 ++
  takesMessage 2 2 1 ++ takesMessage 3 2 1 ++ takesMessage 1 4 0 ++ takesMessage 1 4 4 ++
  [.submit 10, .attempt 0, .client 1] ++ List.replicate 4 (.send 1) ++ [.process 1] ++
  takesMessage 2 4 1 ++ takesMessage 2 7 1 ++ takesMessage 3 4 1 ++ takesMessage 3 6 1

/-- The leader hears of it and answers. -/
def commandAnswered : List (EmbassyAction UInt8) :=
  takesMessage 1 8 0 ++ takesMessage 1 8 0 ++ takesMessage 1 8 0 ++ takesMessage 1 8 0

def ackRun : List (EmbassyAction UInt8) :=
  commandAcknowledged ++ commandAnswered ++ [.receive 0]

/-- Five fresh nodes after some actions. -/
def playFive (actions : List (EmbassyAction UInt8)) :
    Witnessed UInt8 (EmbassyStorage UInt8) Adder :=
  actions.foldl Witnessed.step (.init (fun _ => .new) ⟨0⟩)

theorem playFive_run
    {ok : Witnessed UInt8 (EmbassyStorage UInt8) Adder → EmbassyAction UInt8 → Prop}
    (actions : List (EmbassyAction UInt8))
    (h : Admitted Witnessed.step ok (.init (fun _ => .new) ⟨0⟩) actions) :
    Run Witnessed.step ok (.init (fun _ => .new) ⟨0⟩) (playFive actions) :=
  h.run actions

theorem acknowledged_is_committed_five :
    ∃ r ∈ (playFive ackRun).accepted, r.caller = 0 ∧ r.entry.entryType = .command 10 ∧
      (r.index, r.entry) ∈
        ((playFive ackRun).cluster.nodes r.node).raftNode.observer.applied := by
  have hcall : (playFive ackRun).cluster.calls[0]? = some ⟨10, 0, 0, .returned (.ok ())⟩ := by
    decide +kernel
  exact Witnessed.acknowledged_is_committed (playFive_run ackRun (by decide +kernel)) hcall rfl

/-- The call times out, and before the leader hears of the acknowledgements it takes the request of
another call. -/
def lateRun : List (EmbassyAction UInt8) :=
  commandAcknowledged ++ [.timeout 0, .submit 20, .attempt 1, .client 1] ++
    List.replicate 4 (.send 1) ++ [.process 1] ++ commandAnswered ++ [.receive 1]

/-- The second call returns `Ok` on the answer to the first, while nobody has acknowledged the entry
that was appended for it. -/
theorem acknowledged_by_late_reply :
    ¬ ∀ (w : Witnessed UInt8 (EmbassyStorage UInt8) Adder) (k : Nat) (call : Call UInt8),
      Run Witnessed.step (fun w a => w.cluster.HasRoom a ∧ w.cluster.InOrder a)
        (.init (fun _ => .new) ⟨0⟩) w →
      w.cluster.calls[k]? = some call → call.phase = .returned (.ok ()) →
      ∃ r ∈ w.accepted, r.caller = k ∧ r.entry.entryType = .command call.payload ∧
        (r.index, r.entry) ∈ (w.cluster.nodes r.node).raftNode.observer.applied := by
  intro h
  have hcall : (playFive lateRun).cluster.calls[1]? = some ⟨20, 0, 0, .returned (.ok ())⟩ := by
    decide +kernel
  obtain ⟨r, hr, hcaller, -, happlied⟩ := h (playFive lateRun) 1 _
    (playFive_run lateRun (by decide +kernel)) hcall rfl
  have hnone : ∀ r ∈ (playFive lateRun).accepted, r.caller = 1 →
      (r.index, r.entry) ∉ ((playFive lateRun).cluster.nodes r.node).raftNode.observer.applied := by
    decide +kernel
  exact hnone r hr hcaller happlied

end MetalRaft
