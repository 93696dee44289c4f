import MetalRaft.Cluster
import MetalRaft.CommitPoint
import MetalRaft.InMemoryCopy
import Mathlib.Data.List.Perm.Subperm

/-!
# A node of the device and its copy in memory

A node of the embassy realization keeps its log in a storage of limited capacity and its maps,
votes and peers in `heapless` collections.  `RaftNode.inMemory` is the same node over the
unlimited storage and collections of `test-utils`.

* `OnDevice` — the log, the configuration and the maps fit the device.
* `inMemory_onEvent` — while they do, the node and its copy handle every event alike.
-/

set_option autoImplicit false

namespace MetalRaft

variable {P S SM : Type}

/-! ## Collections that fit -/

theorem mem_items_of_get? {α : Type} {w : Window α} {i : Nat} {x : α} (h : w.get? i = some x) :
    x ∈ w.items := by
  unfold Window.get? at h
  split at h
  · cases h
  · exact List.mem_of_getElem? h

theorem pushWithin_of_lt {α : Type} {cap : Option Nat} {xs : List α} (x : α)
    (h : ∀ k ∈ cap, xs.length < k) : pushWithin cap xs x = xs ++ [x] := by
  cases cap with
  | none => rfl
  | some k => exact if_pos (h k rfl)

namespace MapCollection

/-- Each key occurs once and is one of `members`. -/
structure Within (members : List NodeId) (m : MapCollection) : Prop where
  nodup : (m.entries.map (·.1)).Nodup
  subset : m.entries.map (·.1) ⊆ members

variable {members : List NodeId} {m : MapCollection} {key : NodeId} {value : Nat}

theorem within_new : new.Within members := ⟨List.nodup_nil, List.nil_subset _⟩

theorem any_key : m.entries.any (·.1 == key) = true ↔ key ∈ m.entries.map (·.1) := by
  rw [List.any_eq_true, List.mem_map]
  simp only [beq_iff_eq]

/-- Two families of collections that hold all members insert alike. -/
theorem insert_eq {R : Realization} (hR : ∀ cap ∈ R.maps, members.length ≤ cap)
    (h : m.Within members) (hkey : key ∈ members) (value : Nat) :
    m.insert R key value = m.insert .testUtils key value := by
  unfold insert
  split
  · rfl
  · rename_i hnew
    have hout : key ∉ m.entries.map (·.1) := fun hin => hnew (any_key.mpr hin)
    have hall : (key :: m.entries.map (·.1)).length ≤ members.length :=
      (List.Nodup.subperm (List.nodup_cons.mpr ⟨hout, h.nodup⟩)
        (List.cons_subset.mpr ⟨hkey, h.subset⟩)).length_le
    rw [List.length_cons, List.length_map] at hall
    rw [pushWithin_of_lt _ fun cap hcap => Nat.lt_of_lt_of_le hall (hR cap hcap)]
    rfl

theorem Within.insert (h : m.Within members) (hkey : key ∈ members) (value : Nat) :
    (m.insert .testUtils key value).Within members := by
  unfold MapCollection.insert
  split
  · have hkeys : (m.entries.map fun e => if e.1 == key then (key, value) else e).map (·.1) =
        m.entries.map (·.1) := by
      rw [List.map_map]
      refine List.map_congr_left fun e _ => ?_
      by_cases he : e.1 = key <;> simp [he]
    exact ⟨hkeys ▸ h.nodup, hkeys ▸ h.subset⟩
  · rename_i hnew
    have hout : key ∉ m.entries.map (·.1) := fun hin => hnew (any_key.mpr hin)
    have hkeys : (pushWithin Realization.testUtils.maps m.entries (key, value)).map (·.1) =
        m.entries.map (·.1) ++ [key] := List.map_append
    constructor
    · rw [hkeys]
      exact List.nodup_append.mpr ⟨h.nodup, List.nodup_singleton _, by
        rintro a ha b hb rfl
        exact hout (List.mem_singleton.mp hb ▸ ha)⟩
    · rw [hkeys]
      exact List.append_subset.mpr ⟨h.subset, List.cons_subset.mpr ⟨hkey, List.nil_subset _⟩⟩

theorem Within.mono {members' : List NodeId} (h : m.Within members) (hsub : members ⊆ members') :
    m.Within members' :=
  ⟨h.nodup, List.Subset.trans h.subset hsub⟩

/-- The index list holds one index for each member at most, besides that of the leader. -/
theorem computeMedian_eq {R : Realization} {config : Configuration}
    (hR : ∀ cap ∈ R.medians, config.members.length < cap) (leaderLastIndex : Nat)
    (catchingUpServers : MapCollection) (leaderId : NodeId) :
    m.computeMedian R leaderLastIndex config catchingUpServers leaderId =
      m.computeMedian .testUtils leaderLastIndex config catchingUpServers leaderId := by
  suffices hall : ∀ (ids : List NodeId) (indices : List Nat),
      (∀ cap ∈ R.medians, indices.length + ids.length ≤ cap) →
      ids.foldl
        (fun indices member =>
          if member == leaderId then indices
          else if (catchingUpServers.get member).isSome then indices
          else pushWithin R.medians indices ((m.get member).getD 0)) indices =
        ids.foldl
          (fun indices member =>
            if member == leaderId then indices
            else if (catchingUpServers.get member).isSome then indices
            else pushWithin Realization.testUtils.medians indices ((m.get member).getD 0))
          indices by
    have hfirst : pushWithin R.medians [] leaderLastIndex = [leaderLastIndex] :=
      pushWithin_of_lt _ fun cap hcap => Nat.zero_lt_of_lt (hR cap hcap)
    have hvoters : m.voterIndices R leaderLastIndex config catchingUpServers leaderId =
        m.voterIndices .testUtils leaderLastIndex config catchingUpServers leaderId := by
      unfold voterIndices
      rw [hfirst]
      refine hall config.members [leaderLastIndex] fun cap hcap => ?_
      rw [List.length_singleton, Nat.add_comm]
      exact hR cap hcap
    unfold computeMedian
    rw [hvoters]
  intro ids
  induction ids with
  | nil => exact fun _ _ => rfl
  | cons member ids ih =>
    intro indices hfits
    have hpush : pushWithin R.medians indices ((m.get member).getD 0) =
        indices ++ [(m.get member).getD 0] :=
      pushWithin_of_lt _ fun cap hcap => by
        have := hfits cap hcap
        rw [List.length_cons] at this
        omega
    rw [List.foldl_cons, List.foldl_cons, hpush]
    split
    · exact ih _ fun cap hcap => by have := hfits cap hcap; rw [List.length_cons] at this; omega
    · split
      · exact ih _ fun cap hcap => by have := hfits cap hcap; rw [List.length_cons] at this; omega
      · exact ih _ fun cap hcap => by
          have := hfits cap hcap
          rw [List.length_cons] at this
          rw [List.length_append, List.length_singleton]
          omega

end MapCollection

namespace LogReplicationManager

/-- The leader's maps name members only. -/
structure Within (members : List NodeId) (r : LogReplicationManager) : Prop where
  nextIndex : r.nextIndex.Within members
  matchIndex : r.matchIndex.Within members

variable {members : List NodeId} {r : LogReplicationManager}

theorem Within.recorded (h : r.Within members) {sender : NodeId} (hsender : sender ∈ members)
    (m : Nat) : (r.recorded .testUtils sender m).Within members := by
  have hnext := h.nextIndex.insert hsender (m + 1)
  have hmatch := h.matchIndex.insert hsender m
  unfold LogReplicationManager.recorded
  generalize hr : ({ r with
    matchIndex := r.matchIndex.insert .testUtils sender m
    nextIndex := r.nextIndex.insert .testUtils sender (m + 1) } : LogReplicationManager) = r'
  rcases RaftNode.checkAndPromote_eq r' sender with heq | heq <;> rw [heq, ← hr] <;>
    exact ⟨hnext, hmatch⟩

theorem Within.initialized [Storage S P] (storage : S) :
    ∀ (peers : List NodeId) {r : LogReplicationManager}, r.Within members → peers ⊆ members →
      (r.initializeLeaderState .testUtils peers storage).Within members
  | [], _, h, _ => h
  | peer :: peers, r, h, hpeers => by
    have hin : peer ∈ members := hpeers List.mem_cons_self
    have hnext : LogReplicationManager.Within members
        { r with
          nextIndex := r.nextIndex.insert .testUtils peer (Storage.lastLogIndex storage + 1)
          matchIndex := r.matchIndex.insert .testUtils peer 0 } :=
      ⟨h.nextIndex.insert hin _, h.matchIndex.insert hin _⟩
    exact Within.initialized storage peers hnext fun v hv => hpeers (List.mem_cons_of_mem _ hv)

/-- Maps that hold all members are filled alike. -/
theorem recorded_eq {R : Realization} (hR : ∀ cap ∈ R.maps, members.length ≤ cap)
    (h : r.Within members) {sender : NodeId} (hsender : sender ∈ members) (m : Nat) :
    r.recorded R sender m = r.recorded .testUtils sender m := by
  unfold recorded
  rw [MapCollection.insert_eq hR h.nextIndex hsender,
    MapCollection.insert_eq hR h.matchIndex hsender]

theorem initializeLeaderState_eq [Storage S P] {R : Realization}
    (hR : ∀ cap ∈ R.maps, members.length ≤ cap) (storage : S) :
    ∀ (peers : List NodeId) {r : LogReplicationManager}, r.Within members → peers ⊆ members →
      r.initializeLeaderState R peers storage = r.initializeLeaderState .testUtils peers storage
  | [], _, _, _ => rfl
  | peer :: peers, r, h, hpeers => by
    have hin : peer ∈ members := hpeers List.mem_cons_self
    have hnext : LogReplicationManager.Within members
        { r with
          nextIndex := r.nextIndex.insert .testUtils peer (Storage.lastLogIndex storage + 1)
          matchIndex := r.matchIndex.insert .testUtils peer 0 } :=
      ⟨h.nextIndex.insert hin _, h.matchIndex.insert hin _⟩
    have ih := initializeLeaderState_eq hR storage peers hnext fun v hv =>
      hpeers (List.mem_cons_of_mem _ hv)
    unfold initializeLeaderState at ih ⊢
    rw [List.foldl_cons, List.foldl_cons, MapCollection.insert_eq hR h.nextIndex hin,
      MapCollection.insert_eq hR h.matchIndex hin]
    exact ih

end LogReplicationManager

/-! ## The copy of a node -/

namespace Realization

/-- A family of collections that holds all of so many members, and a member more in its medians. -/
structure Holds (R : Realization) (k : Nat) : Prop where
  nodes : ∀ cap ∈ R.nodes, k ≤ cap
  maps : ∀ cap ∈ R.maps, k ≤ cap
  medians : ∀ cap ∈ R.medians, k < cap

theorem embassy_holds {k : Nat} (hk : k ≤ 8) : embassy.Holds k where
  nodes _ h := by cases h; omega
  maps _ h := by cases h; exact hk
  medians _ h := by cases h; omega

end Realization

namespace RaftNode

open LogReplicationManager

variable [Storage S P] [LogStorage S P] {n : RaftNode P S SM}

/-- The same node over a storage in memory. -/
def inMemory (n : RaftNode P S SM) : TestNode P SM where
  id := n.id
  role := n.role
  currentTerm := n.currentTerm
  currentLeader := n.currentLeader
  transport := n.transport.map fun o => ⟨o.target, o.msg, LogStorage.inMemory o.stored⟩
  storage := LogStorage.inMemory n.storage
  stateMachine := n.stateMachine
  observer := n.observer
  election := n.election
  replication := n.replication
  configManager := n.configManager
  snapshotManager := n.snapshotManager
  leaderLease := n.leaderLease

/-- The log, the configuration and the maps of a node fit the device. -/
structure OnDevice (n : RaftNode P S SM) : Prop where
  formed : LogStorage.Formed n.storage
  held : (LogStorage.image n.storage).log.items.length ≤ EmbassyStorage.collectionCapacity
  members : n.config.members.length ≤ 8
  maps : n.replication.Within n.config.members
  commands : ∀ e ∈ (LogStorage.image n.storage).log.items, ¬ e.IsConfigChange

theorem onDevice_inMemory : n.inMemory.OnDevice ↔ n.OnDevice :=
  ⟨fun h => ⟨h.formed, h.held, h.members, h.maps, h.commands⟩,
    fun h => ⟨h.formed, h.held, h.members, h.maps, h.commands⟩⟩

/-- Only the log, the configuration and the maps matter. -/
theorem OnDevice.of_same {n' : RaftNode P S SM} (h : n.OnDevice)
    (himage : LogStorage.image n'.storage = LogStorage.image n.storage)
    (hconfig : n'.configManager = n.configManager) (hmaps : n'.replication = n.replication) :
    n'.OnDevice where
  formed := LogStorage.formed_of_image h.formed himage
  held := himage ▸ h.held
  members := by
    unfold config
    rw [hconfig]
    exact h.members
  maps := by
    unfold config
    rw [hconfig, hmaps]
    exact h.maps
  commands := himage ▸ h.commands

/-! ### Messages -/

@[simp] theorem send_inMemory (n : RaftNode P S SM) (target : NodeId) (msg : RaftMsg P) :
    (n.send target msg).inMemory = n.inMemory.send target msg := by
  unfold send inMemory
  rw [List.map_append]
  rfl

theorem peerIds_inMemory (h : n.OnDevice) : n.peerIds .embassy = n.inMemory.peerIds .testUtils := by
  have hfits : ∀ k, Realization.embassy.nodes = some k →
      ([] : List NodeId).length + (n.config.peers n.id).length ≤ k := by
    intro k hk
    have hpeers : (n.config.peers n.id).length ≤ n.config.members.length :=
      List.length_filter_le _ _
    have := (Realization.embassy_holds h.members).nodes k hk
    rw [List.length_nil]
    omega
  unfold peerIds
  rw [foldl_pushWithin_of_fits _ _ hfits]
  exact (foldl_pushWithin_none _ _).symm

theorem broadcast_inMemory (h : n.OnDevice) (msg : RaftMsg P) :
    (n.broadcast .embassy msg).inMemory = n.inMemory.broadcast .testUtils msg := by
  rw [broadcast_eq, broadcast_eq, ← peerIds_inMemory h]
  unfold inMemory
  rw [List.map_append, List.map_map]
  rfl

variable [DeviceStorage S P]

theorem getAppendEntriesForPeer_inMemory {s : S} (hs : LogStorage.Formed s)
    (hheld : (LogStorage.image s).log.items.length ≤ EmbassyStorage.collectionCapacity)
    (r : LogReplicationManager) (peer leaderId : NodeId) :
    r.getAppendEntriesForPeer peer leaderId (LogStorage.inMemory s) =
      r.getAppendEntriesForPeer peer leaderId s := by
  have hfollower : ∀ term, r.getAppendEntriesForFollower peer term (LogStorage.inMemory s) =
      r.getAppendEntriesForFollower peer term s := by
    intro term
    unfold getAppendEntriesForFollower
    simp only [LogStorage.inMemory_getEntry, LogStorage.inMemory_loadSnapshot,
      LogStorage.inMemory_getEntries hs hheld]
  unfold getAppendEntriesForPeer
  simp only [LogStorage.inMemory_firstLogIndex, LogStorage.inMemory_currentTerm,
    LogStorage.inMemory_getSnapshotChunk, LogStorage.inMemory_snapshotMetadata, hfollower]

theorem sendAppendEntriesToFollowers_inMemory (h : n.OnDevice) :
    (n.sendAppendEntriesToFollowers .embassy).inMemory =
      n.inMemory.sendAppendEntriesToFollowers .testUtils := by
  rw [sendAppendEntriesToFollowers_eq, sendAppendEntriesToFollowers_eq, ← peerIds_inMemory h]
  unfold inMemory
  rw [List.map_append, List.map_map]
  simp only [getAppendEntriesForPeer_inMemory h.formed h.held]
  rfl

theorem handleHeartbeatTimer_inMemory (h : n.OnDevice) :
    (n.handleHeartbeatTimer .embassy).inMemory = n.inMemory.handleHeartbeatTimer .testUtils := by
  unfold handleHeartbeatTimer
  by_cases hleader : n.role = .leader
  · have hsent := sendAppendEntriesToFollowers_inMemory h
    rw [if_pos hleader, if_pos (show n.inMemory.role = .leader from hleader)]
    unfold sendHeartbeats
    rw [← hsent]
    rfl
  · rw [if_neg hleader, if_neg (show ¬ n.inMemory.role = .leader from hleader)]

/-! ### Elections -/

omit [DeviceStorage S P] in
theorem isLogUpToDate_inMemory (h : n.OnDevice) (li lt : Nat) :
    ElectionManager.isLogUpToDate li lt n.inMemory.storage =
      ElectionManager.isLogUpToDate li lt n.storage := by
  unfold ElectionManager.isLogUpToDate
  rw [← LogStorage.inMemory_lastLogTerm n.storage, ← LogStorage.inMemory_lastLogIndex h.formed]
  rfl

omit [DeviceStorage S P] in
theorem handlePreVoteRequest_inMemory (h : n.OnDevice) (sender : NodeId) (term li lt : Nat) :
    (n.handlePreVoteRequest sender term li lt).inMemory =
      n.inMemory.handlePreVoteRequest sender term li lt := by
  unfold handlePreVoteRequest ElectionManager.handlePreVoteRequest
  rw [send_inMemory, isLogUpToDate_inMemory h]
  rfl

omit [DeviceStorage S P] in
theorem startPreVote_inMemory (h : n.OnDevice) :
    (n.startPreVote .embassy).inMemory = n.inMemory.startPreVote .testUtils := by
  unfold startPreVote
  refine (broadcast_inMemory ?_ _).trans ?_
  · exact h.of_same rfl rfl rfl
  · unfold ElectionManager.startPreVote
    rw [← LogStorage.inMemory_lastLogTerm, ← LogStorage.inMemory_lastLogIndex h.formed]
    rfl

omit [DeviceStorage S P] in
theorem startPreVote_onDevice (h : n.OnDevice) : (n.startPreVote .embassy).OnDevice := by
  unfold startPreVote
  rw [broadcast_eq]
  exact h.of_same rfl rfl rfl

theorem becomeLeader_inMemory (h : n.OnDevice) :
    (n.becomeLeader .embassy).inMemory = n.inMemory.becomeLeader .testUtils := by
  have hwithin := h.maps.initialized n.storage n.config.members (List.Subset.refl _)
  have heq := initializeLeaderState_eq (Realization.embassy_holds h.members).maps n.storage
    n.config.members h.maps (List.Subset.refl _)
  have hsame : n.inMemory.replication.initializeLeaderState .testUtils n.inMemory.config.members
      n.inMemory.storage =
      n.replication.initializeLeaderState .testUtils n.config.members n.storage := by
    unfold initializeLeaderState
    rw [← LogStorage.inMemory_lastLogIndex h.formed]
    rfl
  unfold becomeLeader
  refine (sendAppendEntriesToFollowers_inMemory ?_).trans ?_
  · exact ⟨h.formed, h.held, h.members, heq ▸ hwithin, h.commands⟩
  · rw [hsame, heq]
    rfl

variable [LawfulStorage S P]

omit [DeviceStorage S P] in
theorem stepDown_inMemory (n : RaftNode P S SM) (newTerm : Nat) :
    (n.stepDown newTerm).inMemory = n.inMemory.stepDown newTerm := by
  unfold stepDown inMemory resetElectionTimer
  simp only [LogStorage.inMemory_setVotedFor, LogStorage.inMemory_setCurrentTerm]

omit [LawfulStorage S P] [DeviceStorage S P] in
theorem stepDown_onDevice (h : n.OnDevice) (newTerm : Nat) : (n.stepDown newTerm).OnDevice :=
  h.of_same (LogStorage.image_cells _ _ _) rfl rfl

/-- The node as a candidate of the next term, and what it asks its peers. -/
def candidacy (n : RaftNode P S SM) : RaftNode P S SM × RaftMsg P :=
  let started := n.election.startElection n.id n.currentTerm n.storage
  ({ n with
      election := started.1
      currentTerm := started.2.1
      storage := started.2.2.1
      role := started.2.2.2.1 }, started.2.2.2.2)

omit [LogStorage S P] [LawfulStorage S P] [DeviceStorage S P] in
theorem startElection_eq (R : Realization) (n : RaftNode P S SM) :
    n.startElection R =
      if n.config.members.length ≤ 1 then (n.candidacy.1.broadcast R n.candidacy.2).becomeLeader R
      else n.candidacy.1.broadcast R n.candidacy.2 := by
  have hconfig : (n.candidacy.1.broadcast R n.candidacy.2).config = n.config := by
    rw [broadcast_eq]
    rfl
  rw [← hconfig]
  rfl

omit [LawfulStorage S P] [DeviceStorage S P] in
theorem candidacy_onDevice (h : n.OnDevice) : n.candidacy.1.OnDevice :=
  h.of_same (LogStorage.image_cells _ _ _) rfl rfl

omit [DeviceStorage S P] in
theorem candidacy_inMemory (h : n.OnDevice) :
    n.inMemory.candidacy = (n.candidacy.1.inMemory, n.candidacy.2) := by
  have hs : LogStorage.inMemory n.candidacy.1.storage = n.inMemory.candidacy.1.storage := by
    unfold candidacy ElectionManager.startElection
    dsimp only
    rw [LogStorage.inMemory_setVotedFor, LogStorage.inMemory_setCurrentTerm]
    rfl
  refine Prod.ext ?_ ?_
  · unfold inMemory at hs ⊢
    rw [hs]
    rfl
  · show RaftMsg.requestVote _ _ (Storage.lastLogIndex n.inMemory.candidacy.1.storage)
      (Storage.lastLogTerm n.inMemory.candidacy.1.storage) = _
    rw [← hs, LogStorage.inMemory_lastLogTerm,
      LogStorage.inMemory_lastLogIndex (candidacy_onDevice h).formed]
    rfl

theorem startElection_inMemory (h : n.OnDevice) :
    (n.startElection .embassy).inMemory = n.inMemory.startElection .testUtils := by
  have hcandidate := candidacy_onDevice h
  have hasked : (n.candidacy.1.broadcast .embassy n.candidacy.2).OnDevice := by
    rw [broadcast_eq]
    exact hcandidate.of_same rfl rfl rfl
  rw [startElection_eq, startElection_eq, candidacy_inMemory h, ← broadcast_inMemory hcandidate,
    ← becomeLeader_inMemory hasked, apply_ite inMemory]
  rfl

theorem handleElectionTimer_inMemory (h : n.OnDevice) :
    (n.handleElectionTimer .embassy).inMemory = n.inMemory.handleElectionTimer .testUtils := by
  rw [handleElectionTimer_eq, handleElectionTimer_eq, ← startPreVote_inMemory h,
    ← startElection_inMemory (startPreVote_onDevice h), apply_ite inMemory, apply_ite inMemory]
  rfl

theorem handlePreVoteResponse_inMemory (h : n.OnDevice)
    (hvotes : n.election.inPreVote = true → n.election.preVotesReceived.length < 10)
    (sender : NodeId) (term : Nat) (voteGranted : Bool) :
    (n.handlePreVoteResponse .embassy sender term voteGranted).inMemory =
      n.inMemory.handlePreVoteResponse .testUtils sender term voteGranted := by
  have hcounted : n.election.handlePreVoteResponse .embassy sender voteGranted n.config =
      n.election.handlePreVoteResponse .testUtils sender voteGranted n.config := by
    unfold ElectionManager.handlePreVoteResponse
    split
    · rfl
    · rename_i hcount
      simp only [Bool.or_eq_true, Bool.not_eq_true', not_or, Bool.not_eq_false] at hcount
      rw [pushWithin_of_lt sender
        fun cap hcap => by cases hcap; exact hvotes hcount.1]
      rfl
  unfold handlePreVoteResponse
  dsimp only
  rw [hcounted, apply_ite inMemory, apply_ite inMemory, startElection_inMemory]
  · rfl
  · exact h.of_same rfl rfl rfl

omit [DeviceStorage S P] in
theorem handleVoteRequest_inMemory (h : n.OnDevice) (sender : NodeId) (term : Nat)
    (cand : NodeId) (li lt : Nat) :
    (n.handleVoteRequest sender term cand li lt).inMemory =
      n.inMemory.handleVoteRequest sender term cand li lt := by
  have hanswer : ∀ {n : RaftNode P S SM}, n.OnDevice → term ≤ n.currentTerm →
      (n.answerVoteRequest sender term cand li lt).inMemory =
        n.inMemory.answerVoteRequest sender term cand li lt := by
    intro n h hle
    have hgrant : ElectionManager.shouldGrantVote term n.inMemory.currentTerm cand li lt
        n.inMemory.storage =
        ElectionManager.shouldGrantVote term n.currentTerm cand li lt n.storage := by
      unfold ElectionManager.shouldGrantVote
      rw [isLogUpToDate_inMemory h]
      rfl
    have hvoted : LogStorage.inMemory (Storage.setVotedFor n.storage (some cand)) =
        Storage.setVotedFor n.inMemory.storage (some cand) :=
      LogStorage.inMemory_setVotedFor n.storage (some cand)
    rw [answerVoteRequest_eq hle, answerVoteRequest_eq (n := n.inMemory) hle]
    by_cases hg : ElectionManager.shouldGrantVote term n.currentTerm cand li lt n.storage = true
    · rw [if_pos hg, if_pos (hgrant.trans hg), send_inMemory, ← hvoted]
      rfl
    · rw [if_neg hg, if_neg (fun hg' => hg (hgrant.symm.trans hg')), send_inMemory]
      rfl
  unfold handleVoteRequest
  dsimp only
  by_cases hlt : term > n.currentTerm
  · rw [if_pos hlt, if_pos (show term > n.inMemory.currentTerm from hlt), ← stepDown_inMemory]
    exact hanswer (stepDown_onDevice h term) (Nat.le_refl _)
  · rw [if_neg hlt, if_neg (show ¬ term > n.inMemory.currentTerm from hlt)]
    exact hanswer h (Nat.not_lt.mp hlt)

theorem handleVoteResponse_inMemory (h : n.OnDevice)
    (hvotes : n.role = .candidate → n.election.votesReceived.length < 10)
    (sender : NodeId) (term : Nat) (voteGranted : Bool) :
    (n.handleVoteResponse .embassy sender term voteGranted).inMemory =
      n.inMemory.handleVoteResponse .testUtils sender term voteGranted := by
  have hcounted : n.election.handleVoteResponse .embassy sender term voteGranted n.currentTerm
      n.role n.config = n.election.handleVoteResponse .testUtils sender term voteGranted
        n.currentTerm n.role n.config := by
    unfold ElectionManager.handleVoteResponse
    split
    · rfl
    · split
      · rfl
      · rename_i hcount
        have hcandidate : n.role = .candidate := by
          by_contra hne
          exact hcount (Or.inl hne)
        rw [pushWithin_of_lt sender
          fun cap hcap => by cases hcap; exact hvotes hcandidate]
        rfl
  unfold handleVoteResponse
  dsimp only
  rw [hcounted, apply_ite inMemory, apply_ite inMemory, becomeLeader_inMemory, stepDown_inMemory]
  · rfl
  · exact h.of_same rfl rfl rfl

variable [StateMachine SM P]

/-! ### Applying -/

omit [LawfulStorage S P] [DeviceStorage S P] in
/-- Nothing but commands is applied, so there are no configuration changes to collect. -/
theorem applyCommittedEntries_inMemory {s : S}
    (hs : ∀ e ∈ (LogStorage.image s).log.items, ¬ e.IsConfigChange) (r : LogReplicationManager)
    (sm : SM) (observer : Observer P) :
    r.applyCommittedEntries .embassy s sm observer =
        r.applyCommittedEntries .testUtils (LogStorage.inMemory s) sm observer ∧
      (r.applyCommittedEntries .embassy s sm observer).configChanges = [] := by
  have hone : ∀ st : ApplyState P SM, applyOne .embassy s st =
      applyOne .testUtils (LogStorage.inMemory s) st ∧
        (applyOne .embassy s st).configChanges = st.configChanges := by
    intro st
    unfold applyOne
    dsimp only
    rw [LogStorage.inMemory_getEntry]
    cases he : Storage.getEntry s (st.lastApplied + 1) with
    | none => exact ⟨rfl, rfl⟩
    | some e =>
      rw [LogStorage.getEntry_eq] at he
      have hcommand := hs e (mem_items_of_get? he)
      obtain ⟨term, entryType⟩ := e
      cases entryType with
      | command payload => exact ⟨rfl, rfl⟩
      | configChange change => exact absurd ⟨change, rfl⟩ hcommand
  have hloop : ∀ (fuel : Nat) (st : ApplyState P SM), applyLoop .embassy s fuel st =
      applyLoop .testUtils (LogStorage.inMemory s) fuel st ∧
        (applyLoop .embassy s fuel st).configChanges = st.configChanges := by
    intro fuel
    induction fuel with
    | zero => exact fun _ => ⟨rfl, rfl⟩
    | succ fuel ih =>
      intro st
      unfold applyLoop
      rw [← (hone st).1]
      exact ⟨(ih _).1, (ih _).2.trans (hone st).2⟩
  unfold applyCommittedEntries
  rw [← (hloop _ _).1]
  exact ⟨rfl, (hloop _ _).2⟩

omit [LawfulStorage S P] [DeviceStorage S P] in
theorem quorumIndex_inMemory {s : S} (hs : LogStorage.Formed s) (r : LogReplicationManager)
    {config : Configuration} (hconfig : config.members.length ≤ 8) (leaderId : NodeId) :
    r.quorumIndex .embassy s config leaderId =
      r.quorumIndex .testUtils (LogStorage.inMemory s) config leaderId := by
  unfold quorumIndex
  rw [MapCollection.computeMedian_eq (Realization.embassy_holds hconfig).medians,
    LogStorage.inMemory_lastLogIndex hs]
  simp only [LogStorage.inMemory_getEntry, LogStorage.inMemory_currentTerm]

omit [LawfulStorage S P] [DeviceStorage S P] in
theorem advanceCommitIndex_inMemory {s : S} (hformed : LogStorage.Formed s)
    (hs : ∀ e ∈ (LogStorage.image s).log.items, ¬ e.IsConfigChange) (r : LogReplicationManager)
    (sm : SM) {config : Configuration} (hconfig : config.members.length ≤ 8) (leaderId : NodeId)
    (observer : Observer P) :
    r.advanceCommitIndex .embassy s sm config leaderId observer =
        r.advanceCommitIndex .testUtils (LogStorage.inMemory s) sm config leaderId observer ∧
      (r.advanceCommitIndex .embassy s sm config leaderId observer).configChanges = [] := by
  rw [advanceCommitIndex_eq, advanceCommitIndex_eq, quorumIndex_inMemory hformed r hconfig]
  split
  · exact ⟨rfl, rfl⟩
  · exact applyCommittedEntries_inMemory hs _ sm observer

omit [LogStorage S P] [LawfulStorage S P] [DeviceStorage S P] in
/-- The commit rule moves the counters, not the maps. -/
theorem advanceCommitIndex_within {R : Realization} {members : List NodeId}
    {r : LogReplicationManager} (h : r.Within members) (s : S) (sm : SM) (config : Configuration)
    (leaderId : NodeId) (observer : Observer P) :
    (r.advanceCommitIndex R s sm config leaderId observer).replication.Within members := by
  rw [advanceCommitIndex_eq]
  split <;> exact ⟨h.nextIndex, h.matchIndex⟩

omit [LogStorage S P] [LawfulStorage S P] [DeviceStorage S P] [StateMachine SM P] in
theorem applyConfigChanges_nil (R : Realization) (n : RaftNode P S SM) :
    n.applyConfigChanges R [] = n := rfl

/-! ### Submitting -/

/-- What a leader does once it has appended an entry. -/
def announce (R : Realization) (n : RaftNode P S SM) : RaftNode P S SM :=
  if n.config.members.length ≤ 1 then
    let a := n.replication.advanceCommitIndex R n.storage n.stateMachine n.config n.id n.observer
    ((n.adopt a).applyConfigChanges R a.configChanges).sendAppendEntriesToFollowers R
  else n.sendAppendEntriesToFollowers R

omit [LogStorage S P] [LawfulStorage S P] [DeviceStorage S P] in
theorem submitClientCommand_of_leader (R : Realization) (h : n.role = .leader) (payload : P) :
    (n.submitClientCommand R payload).1 =
      (n.withStorage
        (Storage.appendEntries n.storage [⟨n.currentTerm, .command payload⟩])).announce R := by
  unfold submitClientCommand submitEntry announce
  rw [if_neg (not_not_intro h)]
  dsimp only
  rw [apply_ite (sendAppendEntriesToFollowers R)]
  rfl

omit [LawfulStorage S P] in
theorem announce_inMemory (h : n.OnDevice) :
    (n.announce .embassy).inMemory = n.inMemory.announce .testUtils := by
  obtain ⟨hadvance, hnone⟩ := advanceCommitIndex_inMemory h.formed h.commands n.replication
    n.stateMachine h.members n.id n.observer
  generalize ha : n.replication.advanceCommitIndex .embassy n.storage n.stateMachine n.config n.id
    n.observer = a at hadvance hnone
  have hcopy : n.inMemory.replication.advanceCommitIndex .testUtils n.inMemory.storage
      n.inMemory.stateMachine n.inMemory.config n.inMemory.id n.inMemory.observer = a :=
    hadvance.symm
  have hadopted : (n.adopt a).OnDevice := by
    refine ⟨h.formed, h.held, h.members, ?_, h.commands⟩
    show a.replication.Within n.config.members
    rw [← ha]
    exact advanceCommitIndex_within h.maps _ _ _ _ _
  unfold announce
  rw [ha, hcopy]
  dsimp only
  rw [hnone, applyConfigChanges_nil, applyConfigChanges_nil, apply_ite inMemory,
    sendAppendEntriesToFollowers_inMemory h, sendAppendEntriesToFollowers_inMemory hadopted]
  rfl

omit [LogStorage S P] [LawfulStorage S P] [DeviceStorage S P] in
theorem announce_storage (R : Realization) (n : RaftNode P S SM) :
    (n.announce R).storage = n.storage := by
  unfold announce
  split
  · rw [sendAppendEntriesToFollowers_eq]
    rfl
  · rw [sendAppendEntriesToFollowers_eq]

theorem submitClientCommand_inMemory (h : n.OnDevice) (payload : P)
    (hheld : (LogStorage.image (n.submitClientCommand .embassy payload).1.storage).log.items.length ≤
      EmbassyStorage.collectionCapacity) :
    (n.submitClientCommand .embassy payload).1.inMemory =
      (n.inMemory.submitClientCommand .testUtils payload).1 := by
  by_cases hrole : n.role = .leader
  · rw [submitClientCommand_of_leader .embassy hrole, announce_storage] at hheld
    have hroom := LogStorage.held_of_appended hheld
    generalize hentry : (⟨n.currentTerm, .command payload⟩ : LogEntry P) = entry
    have hfits : ∀ cap ∈ LogStorage.capacity S,
        (LogStorage.image n.storage).log.items.length + [entry].length ≤ cap :=
      fun cap hcap => hroom.trans (Nat.le_of_lt (DeviceStorage.capacity cap hcap))
    have himage : LogStorage.image (Storage.appendEntries n.storage [entry]) =
        { LogStorage.image n.storage with
          log := (LogStorage.image n.storage).log.append [entry] } := by
      rw [LogStorage.image_appendEntries, LogImage.append, fitting_eq_self hfits]
    have happended : (n.withStorage (Storage.appendEntries n.storage [entry])).OnDevice := by
      refine ⟨LogStorage.formed_appendEntries h.formed _, ?_, h.members, h.maps, ?_⟩
      · show (LogStorage.image (Storage.appendEntries n.storage [entry])).log.items.length ≤ _
        rw [himage]
        exact (List.length_append ..).trans_le hroom
      · show ∀ e ∈ (LogStorage.image (Storage.appendEntries n.storage [entry])).log.items, _
        rw [himage]
        intro e he
        rcases List.mem_append.mp he with he | he
        · exact h.commands e he
        · rw [List.mem_singleton.mp he, ← hentry]
          rintro ⟨change, hchange⟩
          cases hchange
    have hcopy : LogStorage.inMemory (Storage.appendEntries n.storage [entry]) =
        Storage.appendEntries n.inMemory.storage [entry] := LogStorage.inMemory_appendEntries hroom
    rw [submitClientCommand_of_leader .embassy hrole,
      submitClientCommand_of_leader .testUtils (n := n.inMemory) hrole, hentry,
      announce_inMemory happended]
    show RaftNode.announce _ _ = RaftNode.announce _ (n.inMemory.withStorage
      (Storage.appendEntries n.inMemory.storage [⟨n.currentTerm, .command payload⟩]))
    rw [hentry, ← hcopy]
    rfl
  · unfold submitClientCommand submitEntry
    rw [if_pos hrole, if_pos (show n.inMemory.role ≠ .leader from hrole)]

/-! ### Entries of a leader -/

theorem tryAppendEntries_inMemory {s : S} (hs : LogStorage.Formed s)
    (hcommands : ∀ e ∈ (LogStorage.image s).log.items, ¬ e.IsConfigChange)
    (r : LogReplicationManager) (prev pt : Nat) {es : List (LogEntry P)}
    (hes : ∀ e ∈ es, ¬ e.IsConfigChange) (lc : Nat) (sm : SM) (observer : Observer P)
    {a : AppendResult P S SM} (ha : r.tryAppendEntries .embassy prev pt es lc s sm observer = a)
    (hheld : (LogStorage.image a.storage).log.items.length ≤ EmbassyStorage.collectionCapacity) :
    r.tryAppendEntries .testUtils prev pt es lc (LogStorage.inMemory s) sm observer =
        ⟨a.replication, LogStorage.inMemory a.storage, a.stateMachine, a.observer,
          a.configChanges⟩ ∧
      a.configChanges.getD [] = [] ∧ LogStorage.Formed a.storage := by
  have hcheck : checkLogConsistency prev pt (LogStorage.inMemory s) =
      checkLogConsistency prev pt s := by
    unfold checkLogConsistency
    rw [LogStorage.inMemory_getEntry, LogStorage.inMemory_snapshotMetadata]
  unfold tryAppendEntries at ha ⊢
  rw [hcheck]
  by_cases hc : checkLogConsistency prev pt s = false
  · rw [if_pos hc] at ha ⊢
    subst ha
    exact ⟨rfl, rfl, hs⟩
  · rw [if_neg hc] at ha ⊢
    have hstorage : a.storage = placeEntries prev es s := by
      rw [← ha]
      dsimp only
      split <;> rfl
    have hplaced : LogStorage.inMemory (placeEntries prev es s) =
        placeEntries prev es (LogStorage.inMemory s) :=
      LogStorage.inMemory_placeEntries hs (hstorage ▸ hheld)
    have hformed := LogStorage.formed_placeEntries hs prev es
    have hclean : ∀ e ∈ (LogStorage.image (placeEntries prev es s)).log.items,
        ¬ e.IsConfigChange := by
      intro e he
      have he' : e ∈ (placeEntries prev es (LogStorage.inMemory s)).log := hplaced ▸ he
      rw [InMemoryStorage.placeEntries_eq] at he'
      rcases InMemoryStorage.mem_placedLog he' with he' | he'
      · exact hcommands e he'
      · exact hes e he'
    dsimp only at ha ⊢
    rw [← hplaced, LogStorage.inMemory_lastLogIndex hformed]
    split at ha
    · rename_i hlc
      obtain ⟨happlied, hnone⟩ := applyCommittedEntries_inMemory hclean
        { r with commitIndex := min lc (Storage.lastLogIndex (placeEntries prev es s)) } sm observer
      subst ha
      rw [if_pos hlc, ← happlied]
      exact ⟨rfl, hnone, hformed⟩
    · rename_i hlc
      subst ha
      rw [if_neg hlc]
      exact ⟨rfl, rfl, hformed⟩

omit [LogStorage S P] [LawfulStorage S P] [DeviceStorage S P] in
/-- A request of an earlier term is refused; its sender still counts as the leader. -/
theorem acceptAppendEntries_of_lt {R : Realization} {term : Nat} (hlt : term < n.currentTerm)
    (sender : NodeId) (prev pt : Nat) (es : List (LogEntry P)) (lc : Nat) :
    n.acceptAppendEntries R sender term prev pt es lc =
      { n with currentLeader := some sender }.send sender
        (.appendEntriesResponse n.currentTerm false (Storage.lastLogIndex n.storage)) := by
  unfold acceptAppendEntries resetElectionTimerIfValidTerm
  rw [if_neg (Nat.not_le.mpr hlt)]
  dsimp only
  rw [handleAppendEntries_of_lt hlt]
  rfl

theorem handleAppendEntries_inMemory (h : n.OnDevice) (sender : NodeId) (term prev pt : Nat)
    {es : List (LogEntry P)} (hes : ∀ e ∈ es, ¬ e.IsConfigChange) (lc : Nat)
    (hheld : (LogStorage.image
      (n.handleAppendEntries .embassy sender term prev pt es lc).storage).log.items.length ≤
      EmbassyStorage.collectionCapacity) :
    (n.handleAppendEntries .embassy sender term prev pt es lc).inMemory =
      n.inMemory.handleAppendEntries .testUtils sender term prev pt es lc := by
  unfold handleAppendEntries at hheld ⊢
  by_cases hgt : term > n.currentTerm
  · rw [if_pos hgt, if_pos (show term > n.inMemory.currentTerm from hgt)]
    exact stepDown_inMemory n term
  · rw [if_neg hgt] at hheld ⊢
    rw [if_neg (show ¬ term > n.inMemory.currentTerm from hgt)]
    rcases Nat.lt_or_eq_of_le (Nat.not_lt.mp hgt) with hlt | rfl
    · rw [acceptAppendEntries_of_lt hlt,
        acceptAppendEntries_of_lt (n := n.inMemory) hlt, send_inMemory,
        ← LogStorage.inMemory_lastLogIndex h.formed]
      rfl
    · generalize ha : n.replication.tryAppendEntries .embassy prev pt es lc n.storage
        n.stateMachine n.observer = a
      rw [acceptAppendEntries_of_eq n sender prev pt es lc ha] at hheld ⊢
      obtain ⟨hcopy, hnone, hformed⟩ := tryAppendEntries_inMemory h.formed h.commands n.replication
        prev pt hes lc n.stateMachine n.observer ha hheld
      have haccepted := acceptAppendEntries_of_eq n.inMemory sender prev pt es lc hcopy
      refine Eq.trans ?_ haccepted.symm
      rw [send_inMemory, hnone, applyConfigChanges_nil, applyConfigChanges_nil,
        LogStorage.inMemory_lastLogIndex hformed]
      rfl

/-! ### Answers of a follower -/

omit [LawfulStorage S P] [DeviceStorage S P] in
theorem recordedAnswer_inMemory (h : n.OnDevice) {sender : NodeId}
    (hsender : sender ∈ n.config.members) (success : Bool) (m : Nat) :
    n.replication.handleAppendEntriesResponse .embassy sender success m n.storage n.stateMachine
        n.config n.id n.observer =
      n.replication.handleAppendEntriesResponse .testUtils sender success m
        (LogStorage.inMemory n.storage) n.stateMachine n.config n.id n.observer ∧
    (n.replication.handleAppendEntriesResponse .embassy sender success m n.storage n.stateMachine
        n.config n.id n.observer).configChanges = [] := by
  have hR := (Realization.embassy_holds h.members).maps
  unfold LogReplicationManager.handleAppendEntriesResponse
  split
  · dsimp only
    split
    · have heq := recorded_eq hR h.maps hsender m
      unfold recorded at heq
      rw [heq]
      exact advanceCommitIndex_inMemory h.formed h.commands _ _ h.members _ _
    · exact ⟨rfl, rfl⟩
  · dsimp only
    split
    · rw [MapCollection.insert_eq hR h.maps.nextIndex hsender]
      exact ⟨rfl, rfl⟩
    · exact ⟨rfl, rfl⟩

omit [DeviceStorage S P] in
theorem create_inMemory (s : S) (sm : SM) (i : Nat) :
    LogStorage.inMemory (SnapshotManager.create s sm i).1 =
      (SnapshotManager.create (LogStorage.inMemory s) sm i).1 := by
  unfold SnapshotManager.create SnapshotManager.compact
  rw [LogStorage.inMemory_getEntry]
  split
  · rfl
  · split
    · rfl
    · dsimp only
      rw [LogStorage.inMemory_discardEntriesBefore, LogStorage.inMemory_saveSnapshot]

omit [DeviceStorage S P] in
theorem handleAppendEntriesResponse_inMemory (h : n.OnDevice) {sender : NodeId}
    (hsender : sender ∈ n.config.members) (term : Nat) (success : Bool) (m : Nat) :
    (n.handleAppendEntriesResponse .embassy sender term success m).inMemory =
      n.inMemory.handleAppendEntriesResponse .testUtils sender term success m := by
  obtain ⟨hcopy, hnone⟩ := recordedAnswer_inMemory h hsender success m
  have hrecorded : (n.recordAppendEntriesResponse .embassy sender success m).inMemory =
      n.inMemory.recordAppendEntriesResponse .testUtils sender success m := by
    unfold recordAppendEntriesResponse
    generalize ha : n.replication.handleAppendEntriesResponse .embassy sender success m n.storage
      n.stateMachine n.config n.id n.observer = a at hcopy hnone
    have hcopy' : n.inMemory.replication.handleAppendEntriesResponse .testUtils sender success m
        n.inMemory.storage n.inMemory.stateMachine n.inMemory.config n.inMemory.id
        n.inMemory.observer = a := hcopy.symm
    rw [hcopy']
    dsimp only
    rw [hnone, applyConfigChanges_nil, applyConfigChanges_nil]
    have hcreate := create_inMemory n.storage a.stateMachine a.replication.commitIndex
    have hshould : ({ n.adopt a with leaderLease := (n.adopt a).leaderLease.grant } :
        RaftNode P S SM).shouldCreateSnapshot = n.snapshotManager.shouldCreate
          a.replication.commitIndex (LogStorage.inMemory n.storage) := by
      unfold shouldCreateSnapshot SnapshotManager.shouldCreate
      rw [LogStorage.inMemory_loadSnapshot]
      rfl
    rw [apply_ite inMemory, apply_ite inMemory, hshould]
    unfold createSnapshotInternal inMemory
    dsimp only [adopt]
    rw [hcreate]
    rfl
  unfold handleAppendEntriesResponse
  rw [apply_ite inMemory, apply_ite inMemory, stepDown_inMemory, hrecorded]
  rfl

/-! ### Snapshots -/

omit [DeviceStorage S P] [StateMachine SM P] in
theorem storageIn_inMemory (n : RaftNode P S SM) (T : Nat) :
    LogStorage.inMemory (n.storageIn T) = n.inMemory.storageIn T := by
  unfold storageIn
  rw [apply_ite LogStorage.inMemory, LogStorage.inMemory_setVotedFor,
    LogStorage.inMemory_setCurrentTerm]
  rfl

omit [DeviceStorage S P] [StateMachine SM P] in
theorem joining_inMemory (n : RaftNode P S SM) (T : Nat) :
    (n.joining T).inMemory = n.inMemory.joining T := by
  unfold joining inMemory
  dsimp only
  rw [storageIn_inMemory]
  rfl

theorem installChunk_inMemory (s : S) (r : LogReplicationManager) (index term : Nat)
    {data : List UInt8} (hdata : data.length ≤ EmbassyStorage.snapshotCapacity) (T : Nat) (sm : SM)
    (role : NodeState) {a : InstallResult P S SM}
    (ha : r.installChunk index term 0 data true T s sm role = a) :
    r.installChunk index term 0 data true T (LogStorage.inMemory s) sm role =
      ⟨a.replication, a.currentTerm, LogStorage.inMemory a.storage, a.stateMachine, a.role,
        a.response⟩ := by
  obtain ⟨hresult, hstored⟩ := LogStorage.inMemory_wholeSnapshot (s := s) index term hdata
  unfold installChunk at ha ⊢
  dsimp only at ha ⊢
  rw [← hresult, ← hstored, LogStorage.inMemory_loadSnapshot]
  generalize Storage.applySnapshotChunk s 0 data true index term = stored at ha ⊢
  obtain ⟨s', result⟩ := stored
  cases result with
  | error e =>
    subst ha
    rfl
  | ok =>
    dsimp only at ha ⊢
    rw [if_pos rfl] at ha ⊢
    split at ha
    · subst ha
      rfl
    · subst ha
      rw [← LogStorage.inMemory_discardEntriesBefore]

theorem handleInstallSnapshot_inMemory (n : RaftNode P S SM) (sender : NodeId)
    (T index term : Nat) {data : List UInt8}
    (hdata : data.length ≤ EmbassyStorage.snapshotCapacity) :
    (n.handleInstallSnapshot sender T index term 0 data true).inMemory =
      n.inMemory.handleInstallSnapshot sender T index term 0 data true := by
  by_cases hlt : T < n.currentTerm
  · rw [handleInstallSnapshot_of_lt hlt, handleInstallSnapshot_of_lt (n := n.inMemory) hlt,
      send_inMemory]
    rfl
  · have hle := Nat.not_lt.mp hlt
    have hcovered : alreadyCovered index (LogStorage.inMemory (n.storageIn T)) =
        alreadyCovered index (n.storageIn T) := by
      unfold alreadyCovered
      rw [LogStorage.inMemory_snapshotMetadata]
    generalize ha : n.replication.installChunk index term 0 data true T (n.storageIn T)
      n.stateMachine (n.joining T).role = a
    have hcopy := installChunk_inMemory (n.storageIn T) n.replication index term hdata T
      n.stateMachine (n.joining T).role ha
    rw [handleInstallSnapshot_of_le hle, handleInstallSnapshot_of_le (n := n.inMemory) hle, ha,
      ← storageIn_inMemory, ← joining_inMemory, hcovered]
    dsimp only
    rw [apply_ite inMemory, send_inMemory, send_inMemory]
    have hcopy' : n.inMemory.replication.installChunk index term 0 data true T
        (LogStorage.inMemory (n.storageIn T)) n.inMemory.stateMachine (n.joining T).inMemory.role =
        _ := hcopy
    rw [hcopy']
    rfl

omit [LawfulStorage S P] [DeviceStorage S P] [StateMachine SM P] in
theorem handleInstallSnapshotResponse_inMemory [LawfulStorage S P] (h : n.OnDevice)
    {sender : NodeId} (hsender : sender ∈ n.config.members) (term : Nat) (success : Bool) :
    (n.handleInstallSnapshotResponse .embassy sender term success).inMemory =
      n.inMemory.handleInstallSnapshotResponse .testUtils sender term success := by
  have hmaps : ∀ m, n.replication.handleInstallSnapshotResponse .embassy sender success m =
      n.replication.handleInstallSnapshotResponse .testUtils sender success m := by
    intro m
    unfold LogReplicationManager.handleInstallSnapshotResponse
    split
    · exact recorded_eq (Realization.embassy_holds h.members).maps h.maps hsender m
    · rfl
  have hmeta : Storage.snapshotMetadata n.inMemory.storage = Storage.snapshotMetadata n.storage :=
    LogStorage.inMemory_snapshotMetadata n.storage
  unfold handleInstallSnapshotResponse
  rw [apply_ite inMemory, apply_ite inMemory, stepDown_inMemory, hmeta]
  cases Storage.snapshotMetadata n.storage with
  | none => rfl
  | some m =>
    dsimp only
    rw [hmaps]
    rfl

/-! ### Every event -/

/-- The event is one that a device may see: no configuration change, a sender that is known, and
snapshots that come whole. -/
def Familiar (n : RaftNode P S SM) : Event P → Prop
  | .timerFired _ | .clientCommand _ => True
  | .configChange _ => False
  | .message sender msg => sender ∈ n.config.members ∧
    match msg with
    | .appendEntries _ _ _ entries _ => ∀ e ∈ entries, ¬ e.IsConfigChange
    | .installSnapshot _ _ _ _ offset data done =>
      offset = 0 ∧ done = true ∧ data.length ≤ EmbassyStorage.snapshotCapacity
    | _ => True

/-- A vote that is counted has a place in the collection. -/
structure RoomForVotes (n : RaftNode P S SM) : Prop where
  preVotes : n.election.inPreVote = true → n.election.preVotesReceived.length < 10
  votes : n.role = .candidate → n.election.votesReceived.length < 10

/-- **A node of the device and its copy in memory handle every event alike**, as long as the log
that is left fits a collection. -/
theorem inMemory_onEvent (h : n.OnDevice) (hvotes : n.RoomForVotes) {ev : Event P}
    (hev : n.Familiar ev)
    (hheld : (LogStorage.image (n.onEvent .embassy ev).storage).log.items.length ≤
      EmbassyStorage.collectionCapacity) :
    (n.onEvent .embassy ev).inMemory = n.inMemory.onEvent .testUtils ev := by
  cases ev with
  | timerFired kind =>
    cases kind with
    | election => exact handleElectionTimer_inMemory h
    | heartbeat => exact handleHeartbeatTimer_inMemory h
  | clientCommand payload => exact submitClientCommand_inMemory h payload hheld
  | configChange change => exact hev.elim
  | message sender msg =>
    obtain ⟨hsender, hmsg⟩ := hev
    cases msg with
    | requestVote T cand li lt => exact handleVoteRequest_inMemory h sender T cand li lt
    | requestVoteResponse T granted =>
      exact handleVoteResponse_inMemory h hvotes.votes sender T granted
    | preVoteRequest T cand li lt => exact handlePreVoteRequest_inMemory h sender T li lt
    | preVoteResponse T granted =>
      exact handlePreVoteResponse_inMemory h hvotes.preVotes sender T granted
    | appendEntries T prev pt es lc =>
      exact handleAppendEntries_inMemory h sender T prev pt hmsg lc hheld
    | appendEntriesResponse T success m =>
      exact handleAppendEntriesResponse_inMemory h hsender T success m
    | installSnapshot T leaderId index term offset data done =>
      obtain ⟨rfl, rfl, hdata⟩ := hmsg
      exact handleInstallSnapshot_inMemory n sender T index term hdata
    | installSnapshotResponse T success =>
      exact handleInstallSnapshotResponse_inMemory h hsender T success

end RaftNode

end MetalRaft
