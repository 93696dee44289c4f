import MetalRaft.LogSim
import Mathlib.Logic.Function.Iterate

/-!
# Catching up

A leader brings a peer up to its own log by lock-step rounds: it builds its message, the peer
handles it, and the leader handles the answer.

* `lockStep` — one round.
* `Facing` — the two nodes while the rounds go on and nothing is settled yet.
-/

set_option autoImplicit false

namespace MetalRaft

open Transition Voting

variable {P SM : Type} [StateMachine SM P]

/-! ## What is known of an index -/

namespace InMemoryStorage

/-- The term at index `i`, as far as the storage knows it: that of the entry, or of the entry at
which the snapshot ends. -/
def termAt (s : InMemoryStorage P) (i : Nat) : Option Nat :=
  if i = s.snapIndex then some s.snapTerm else (s.getEntry i).map (·.term)

theorem termAt_snapIndex (s : InMemoryStorage P) : s.termAt s.snapIndex = some s.snapTerm :=
  if_pos rfl

/-- One chunk, not an empty one, brings the whole snapshot. -/
def ServesSnapshot (s : InMemoryStorage P) : Prop :=
  ∃ chunk ∈ s.getSnapshotChunk 0 usizeMax, chunk.done = true

instance (s : InMemoryStorage P) : Decidable s.ServesSnapshot :=
  inferInstanceAs (Decidable (∃ chunk ∈ s.getSnapshotChunk 0 usizeMax, chunk.done = true))

end InMemoryStorage

section

variable {s : InMemoryStorage P} {l : List (LogEntry P)} {i t next : Nat}

omit [StateMachine SM P]

/-- A term that is known is that of an entry of the whole log. -/
theorem FullLog.of_termAt (h : FullLog s l) (ht : s.termAt i = some t) :
    s.snapIndex ≤ i ∧ i ≤ l.length ∧ (i = 0 ∨ ∃ e, l[i - 1]? = some e ∧ e.term = t) := by
  unfold InMemoryStorage.termAt at ht
  split at ht
  · rename_i hi
    refine ⟨Nat.le_of_eq hi.symm, hi ▸ h.le, ?_⟩
    cases hx : s.snapshot with
    | none => left; rw [hi]; simp [InMemoryStorage.snapIndex, hx]
    | some x =>
      have hm : s.snapshotMetadata = some x.metadata := by
        simp [InMemoryStorage.snapshotMetadata, hx]
      obtain ⟨_, e, he, hterm⟩ := h.boundary _ hm
      rw [← FullLog.snapIndex_of_metadata hm, ← hi] at he
      refine Or.inr ⟨e, he, hterm.trans ?_⟩
      simpa [InMemoryStorage.snapTerm, hx] using ht
  · obtain ⟨e, he, hterm⟩ := Option.map_eq_some_iff.mp ht
    obtain ⟨_, hlen, hget⟩ := h.of_getEntry he
    exact ⟨Nat.le_of_lt (h.shaped.getEntry_bounds he).1, hlen, Or.inr ⟨e, hget, hterm⟩⟩

theorem SameLog.termAt {s' : InMemoryStorage P} (h : SameLog s s') (i : Nat) :
    s'.termAt i = s.termAt i := by
  unfold InMemoryStorage.termAt
  rw [h.snapIndex, h.snapTerm, h.getEntry]

/-- The consistency check compares terms that are known. -/
theorem FullLog.consistent_iff (h : FullLog s l) :
    LogReplicationManager.checkLogConsistency i t s = true ↔ i = 0 ∨ s.termAt i = some t := by
  unfold LogReplicationManager.checkLogConsistency InMemoryStorage.termAt
  simp only [InMemoryStorage.storage_getEntry, InMemoryStorage.storage_snapshotMetadata]
  by_cases h0 : i = 0
  · simp [h0]
  · rw [if_neg h0]
    cases he : s.getEntry i with
    | some e =>
      have hlt := (h.shaped.getEntry_bounds he).1
      rw [if_neg (by omega)]
      simp [h0]
    | none =>
      cases hx : s.snapshot with
      | none =>
        have hsnap : s.snapIndex = 0 := by simp [InMemoryStorage.snapIndex, hx]
        simp [InMemoryStorage.snapshotMetadata, hx, h0, hsnap]
      | some x =>
        have hsnap : s.snapIndex = x.metadata.lastIncludedIndex := by
          simp [InMemoryStorage.snapIndex, hx]
        have hterm : s.snapTerm = x.metadata.lastIncludedTerm := by
          simp [InMemoryStorage.snapTerm, hx]
        by_cases hi : i = x.metadata.lastIncludedIndex
        · simp [InMemoryStorage.snapshotMetadata, hx, hsnap, hterm, hi, eq_comm]
          omega
        · simp [InMemoryStorage.snapshotMetadata, hx, hsnap, hi, h0]

/-- The term that an AppendEntries names for the entry before its own. -/
theorem FullLog.prevTerm_eq (h : FullLog s l) :
    (if i = 0 then 0
      else match s.getEntry i with
        | some entry => entry.term
        | none =>
          match s.snapshot with
          | some x =>
            if i = x.metadata.lastIncludedIndex then x.metadata.lastIncludedTerm else 0
          | none => 0) = (s.termAt i).getD 0 := by
  unfold InMemoryStorage.termAt
  by_cases hsnap : i = s.snapIndex
  · have hnone : s.getEntry i = none := by
      rw [h.shaped.getEntry_eq, if_pos (Nat.le_of_eq hsnap)]
    rw [if_pos hsnap, hnone]
    cases hx : s.snapshot with
    | none => simp [InMemoryStorage.snapTerm, hx]
    | some x =>
      have hm : s.snapshotMetadata = some x.metadata := by
        simp [InMemoryStorage.snapshotMetadata, hx]
      have hpos := (h.boundary _ hm).1
      rw [FullLog.snapIndex_of_metadata hm] at hsnap
      simp only [hsnap, if_true, InMemoryStorage.snapTerm, hx, Option.map_some, Option.getD_some]
      rw [if_neg (by omega)]
  · rw [if_neg hsnap]
    by_cases h0 : i = 0
    · rw [if_pos h0, h.shaped.getEntry_eq, if_pos (by omega)]
      rfl
    · rw [if_neg h0]
      cases s.getEntry i with
      | some e => rfl
      | none =>
        cases hx : s.snapshot with
        | none => rfl
        | some x =>
          have hidx : s.snapIndex = x.metadata.lastIncludedIndex := by
            simp [InMemoryStorage.snapIndex, hx]
          exact if_neg (by omega)

/-- Where the log goes back far enough, the entries from the peer's next index on are sent. -/
theorem FullLog.request_entries (h : FullLog s l) (r : LogReplicationManager)
    (peer leaderId : NodeId) (hnext : (r.nextIndex.get peer).getD 1 = next)
    (hfirst : s.firstIndex ≤ next) :
    r.getAppendEntriesForPeer peer leaderId s = .appendEntries s.currentTerm (next - 1)
      ((s.termAt (next - 1)).getD 0) (l.drop (next - 1)) r.commitIndex := by
  have hshaped : s.firstIndex = s.snapIndex + 1 := h.shaped
  have hlen : s.log.length = l.length - s.snapIndex := by rw [h.log, List.length_drop]
  have hle := h.le
  unfold LogReplicationManager.getAppendEntriesForPeer
  simp only [InMemoryStorage.storage_firstLogIndex, InMemoryStorage.storage_currentTerm, hnext]
  rw [if_neg (by omega)]
  unfold LogReplicationManager.getAppendEntriesForFollower
  simp only [InMemoryStorage.storage_getEntry, InMemoryStorage.storage_loadSnapshot,
    InMemoryStorage.storage_getEntries, InMemoryStorage.storage_lastLogIndex, hnext]
  congr 1
  · exact h.prevTerm_eq
  · rw [h.lastLogIndex]
    unfold InMemoryStorage.getEntries
    by_cases hend : l.length + 1 ≤ next
    · rw [if_pos (Or.inr hend), List.drop_eq_nil_of_le (by omega)]
    · rw [if_neg (by omega)]
      dsimp only
      rw [if_pos (by omega), List.take_of_length_le (by omega), h.log, List.drop_drop]
      congr 1
      omega

/-- Where the log does not go back so far, the snapshot is sent, if it can be. -/
theorem InMemoryStorage.ServesSnapshot.request (hserves : s.ServesSnapshot)
    (r : LogReplicationManager) (peer leaderId : NodeId)
    (hnext : (r.nextIndex.get peer).getD 1 = next) (hfirst : next < s.firstIndex) :
    ∃ x, s.snapshot = some x ∧ r.getAppendEntriesForPeer peer leaderId s =
      .installSnapshot s.currentTerm leaderId x.metadata.lastIncludedIndex
        x.metadata.lastIncludedTerm 0 x.data true := by
  obtain ⟨chunk, hchunk, hdone⟩ := hserves
  unfold LogReplicationManager.getAppendEntriesForPeer
  simp only [InMemoryStorage.storage_firstLogIndex, InMemoryStorage.storage_currentTerm, hnext,
    InMemoryStorage.storage_getSnapshotChunk, InMemoryStorage.storage_snapshotMetadata,
    Option.mem_def.mp hchunk]
  rw [if_pos hfirst]
  unfold InMemoryStorage.getSnapshotChunk at hchunk
  unfold InMemoryStorage.snapshotMetadata
  cases hx : s.snapshot with
  | none => rw [hx] at hchunk; cases hchunk
  | some x =>
    rw [hx] at hchunk
    refine ⟨x, rfl, ?_⟩
    cases hdata : chunkAt x.data 0 usizeMax with
    | none => simp [hdata] at hchunk
    | some data =>
      simp only [hdata, Option.mem_def, Option.some.injEq] at hchunk
      subst hchunk
      have hwhole : data = x.data := by
        unfold chunkAt at hdata
        split at hdata
        · cases hdata
        · simp only [Option.some.injEq, List.drop_zero] at hdata
          simp only [Nat.zero_add, decide_eq_true_eq] at hdone
          rw [← hdata] at hdone ⊢
          exact List.take_of_length_le (by rw [List.length_take] at hdone; omega)
      rw [hwhole]
      simp

end

namespace RaftNode

/-! ## One message and its answer -/

/-- The node is in term `T` and has the log of `s`; it has sent `msg` and nothing else. -/
structure Answered (n n' : TestNode P SM) (T : Nat) (s : InMemoryStorage P) (msg : RaftMsg P) :
    Prop where
  id : n'.id = n.id
  currentTerm : n'.currentTerm = T
  storage : SameLog s n'.storage
  transport : ∃ o, n'.transport = n.transport ++ [o] ∧ o.msg = msg

variable {n : TestNode P SM} {sender leaderId : NodeId} {T prev pt lc index term m : Nat}
  {es : List (LogEntry P)} {data : List UInt8}

/-- What `try_append_entries` leaves in the storage, and whether it succeeds. -/
theorem tryAppendEntries_result (r : LogReplicationManager) (prev pt : Nat)
    (es : List (LogEntry P)) (lc : Nat) (s : InMemoryStorage P) (sm : SM) (observer : Observer P) :
    (r.tryAppendEntries .testUtils prev pt es lc s sm observer).storage =
        (bif LogReplicationManager.checkLogConsistency prev pt s then
          LogReplicationManager.placeEntries prev es s else s) ∧
      (r.tryAppendEntries .testUtils prev pt es lc s sm observer).configChanges.isSome =
        LogReplicationManager.checkLogConsistency prev pt s := by
  unfold LogReplicationManager.tryAppendEntries
  cases hcheck : LogReplicationManager.checkLogConsistency prev pt s with
  | false => exact ⟨rfl, rfl⟩
  | true =>
    simp only [Bool.true_eq_false, if_false]
    split <;> exact ⟨rfl, rfl⟩

/-- Entries of the node's own term are answered. -/
theorem answered_entries (sender : NodeId) (prev pt : Nat) (es : List (LogEntry P)) (lc : Nat)
    (hT : n.currentTerm = T) {ok : Bool}
    (hok : LogReplicationManager.checkLogConsistency prev pt n.storage = ok)
    {s : InMemoryStorage P}
    (hs : s = bif ok then LogReplicationManager.placeEntries prev es n.storage else n.storage) :
    Answered n (n.onEvent .testUtils (.message sender (.appendEntries T prev pt es lc))) T s
      (.appendEntriesResponse T ok s.lastLogIndex) := by
  subst hT hok
  show Answered n (n.handleAppendEntries .testUtils sender n.currentTerm prev pt es lc) _ _ _
  unfold handleAppendEntries
  rw [if_neg (Nat.lt_irrefl _)]
  obtain ⟨hstorage, hsome⟩ := tryAppendEntries_result n.replication prev pt es lc n.storage
    n.stateMachine n.observer
  rw [acceptAppendEntries_of_eq _ _ _ _ _ _ rfl, hsome]
  refine ⟨rfl, rfl, ?_, ⟨_, rfl, ?_⟩⟩
  · rw [hs, ← hstorage]
    exact SameLog.refl _
  · rw [hs, ← hstorage]
    rfl

/-- Entries of a later term make the node step down, and are not answered. -/
theorem silent_entries (sender : NodeId) (prev pt : Nat) (es : List (LogEntry P)) (lc : Nat)
    (hT : n.currentTerm < T) :
    let n' := n.onEvent .testUtils (.message sender (.appendEntries T prev pt es lc))
    n'.id = n.id ∧ n'.currentTerm = T ∧ SameLog n.storage n'.storage ∧
      n'.transport = n.transport := by
  intro n'
  have hn' : n' = n.stepDown T := by
    show n.handleAppendEntries .testUtils sender T prev pt es lc = _
    unfold handleAppendEntries
    rw [if_pos hT]
  rw [hn']
  exact ⟨rfl, rfl, ⟨rfl, rfl, rfl⟩, rfl⟩

/-- A snapshot, of the node's term or of a later one, that the node holds already. -/
theorem answered_covered {offset : Nat} {done : Bool} (hT : n.currentTerm ≤ T)
    (hcovered : LogReplicationManager.alreadyCovered index n.storage = true) :
    Answered n (n.onEvent .testUtils
      (.message sender (.installSnapshot T leaderId index term offset data done))) T n.storage
      (.installSnapshotResponse T false) := by
  have hsame := SameLog.storageIn n T
  show Answered n (n.handleInstallSnapshot sender T index term offset data done) _ _ _
  rw [handleInstallSnapshot_of_le hT, if_pos (by rw [hsame.alreadyCovered]; exact hcovered)]
  exact ⟨rfl, rfl, hsame, ⟨_, rfl, rfl⟩⟩

/-- A whole snapshot that the node does not hold yet. -/
theorem answered_install (hT : n.currentTerm ≤ T) (hs : n.storage.Shaped)
    (hfresh : LogReplicationManager.alreadyCovered index n.storage = false) :
    Answered n (n.onEvent .testUtils
      (.message sender (.installSnapshot T leaderId index term 0 data true))) T
      (n.storage.compactedTo ⟨⟨index, term⟩, data⟩) (.installSnapshotResponse T true) := by
  obtain ⟨s, hsame, hnode⟩ := handleInstallSnapshot_whole sender term data hT hs hfresh
  show Answered n (n.handleInstallSnapshot sender T index term 0 data true) _ _ _
  rw [hnode]
  exact ⟨rfl, rfl, hsame, ⟨_, rfl, rfl⟩⟩

/-! ## The leader's side -/

/-- A leader goes back by one index on a rejection. -/
theorem onEvent_rejection (leader : n.role = .leader) (hT : n.currentTerm = T)
    (hnext : 1 < (n.replication.nextIndex.get sender).getD 1) :
    n.onEvent .testUtils (.message sender (.appendEntriesResponse T false m)) =
      n.withReplication { n.replication with
        nextIndex := n.replication.nextIndex.insert .testUtils sender
          ((n.replication.nextIndex.get sender).getD 1 - 1) } := by
  subst hT
  show n.handleAppendEntriesResponse .testUtils sender n.currentTerm false m = _
  unfold handleAppendEntriesResponse
  rw [if_neg (Nat.lt_irrefl _), if_pos ⟨leader, rfl⟩]
  unfold recordAppendEntriesResponse LogReplicationManager.handleAppendEntriesResponse
  simp only [Bool.false_eq_true, if_false, gt_iff_lt, if_pos hnext]
  exact if_neg (Nat.lt_irrefl _)

/-- A leader takes no notice of a refused snapshot. -/
theorem onEvent_refusal (leader : n.role = .leader) (hT : n.currentTerm = T) :
    n.onEvent .testUtils (.message sender (.installSnapshotResponse T false)) = n := by
  subst hT
  show n.handleInstallSnapshotResponse .testUtils sender n.currentTerm false = n
  unfold handleInstallSnapshotResponse
  rw [if_neg (Nat.lt_irrefl _), if_pos ⟨leader, rfl⟩]
  split <;> rfl

/-- A leader goes on behind its snapshot once the peer has it. -/
theorem onEvent_installed {x : SnapshotMetadata} (leader : n.role = .leader)
    (hT : n.currentTerm = T) (stored : n.storage.snapshotMetadata = some x) :
    n.onEvent .testUtils (.message sender (.installSnapshotResponse T true)) =
      n.withReplication (n.replication.recorded .testUtils sender x.lastIncludedIndex) := by
  subst hT
  show n.handleInstallSnapshotResponse .testUtils sender n.currentTerm true = _
  unfold handleInstallSnapshotResponse
  rw [if_neg (Nat.lt_irrefl _), if_pos ⟨leader, rfl⟩]
  simp only [InMemoryStorage.storage_snapshotMetadata, stored]
  rfl

theorem nextIndex_recorded (r : LogReplicationManager) :
    (r.recorded .testUtils sender m).nextIndex.get sender = some (m + 1) := by
  have hnext : (r.recorded .testUtils sender m).nextIndex =
      r.nextIndex.insert .testUtils sender (m + 1) := by
    unfold LogReplicationManager.recorded
    rcases checkAndPromote_eq _ sender with h | h <;> rw [h]
  rw [hnext]
  exact MapCollection.get_insert_self rfl _ _ _

/-- Whatever a leader makes of an answer, its log stays as it is. -/
theorem fullLog_answer {l : List (LogEntry P)} {T : Nat} {success : Bool}
    (h : FullLog n.storage l) :
    FullLog (n.onEvent .testUtils
      (.message sender (.appendEntriesResponse T success m))).storage l := by
  have hmoves := onEvent_moves .testUtils n
    (.message sender (.appendEntriesResponse T success m))
  generalize n.onEvent .testUtils (.message sender (.appendEntriesResponse T success m)) = n'
    at hmoves
  induction hmoves with
  | refl => exact h
  | @tail n₁ n₂ _ hlast ih =>
    cases hlast.logCases ih.shaped with
    | quiet hq => exact ih.of_same hq.sameLog
    | append _ submits => cases submits
    | place asked | learnCommit asked | install asked => cases asked
    | applyNone | applyEntry | commit => exact ih
    | compact _ found =>
      obtain ⟨hpos, _, he⟩ := ih.of_getEntry found
      exact ih.compact (Nat.le_of_lt (ih.shaped.getEntry_bounds found).1) hpos he rfl

end RaftNode

/-! ## Rounds -/

open RaftNode

/-- One round: the leader builds its message to the peer, the peer handles it, and the leader
handles the answer, if there is one. -/
def lockStep (x : TestNode P SM × TestNode P SM) : TestNode P SM × TestNode P SM :=
  let request := x.1.replication.getAppendEntriesForPeer x.2.id x.1.id x.1.storage
  let peer := x.2.onEvent .testUtils (.message x.1.id request)
  match (peer.transport.drop x.2.transport.length).head? with
  | none => (x.1, peer)
  | some answer => (x.1.onEvent .testUtils (.message x.2.id answer.msg), peer)

/-- Nothing is settled yet: the leader has storage `s` and would go on with index `next`, and the
peer has the log of `s'`. -/
structure Facing (s s' : InMemoryStorage P) (next : Nat) (x : TestNode P SM × TestNode P SM) :
    Prop where
  leader : x.1.role = .leader
  storage : x.1.storage = s
  currentTerm : x.1.currentTerm = s.currentTerm
  behind : x.2.currentTerm ≤ s.currentTerm
  same : SameLog s' x.2.storage
  next : (x.1.replication.nextIndex.get x.2.id).getD 1 = next

section

variable {x : TestNode P SM × TestNode P SM} {s s' : InMemoryStorage P} {l l' : List (LogEntry P)}
  {next : Nat}

theorem lockStep_of_answered {request msg : RaftMsg P} {T : Nat} {sent : InMemoryStorage P}
    (hrequest : x.1.replication.getAppendEntriesForPeer x.2.id x.1.id x.1.storage = request)
    (h : Answered x.2 (x.2.onEvent .testUtils (.message x.1.id request)) T sent msg) :
    lockStep x = (x.1.onEvent .testUtils (.message x.2.id msg),
      x.2.onEvent .testUtils (.message x.1.id request)) := by
  obtain ⟨o, htransport, rfl⟩ := h.transport
  unfold lockStep
  rw [hrequest]
  dsimp only
  rw [htransport, List.drop_left]
  rfl

theorem lockStep_of_silent {request : RaftMsg P}
    (hrequest : x.1.replication.getAppendEntriesForPeer x.2.id x.1.id x.1.storage = request)
    (h : (x.2.onEvent .testUtils (.message x.1.id request)).transport = x.2.transport) :
    lockStep x = (x.1, x.2.onEvent .testUtils (.message x.1.id request)) := by
  unfold lockStep
  rw [hrequest]
  dsimp only
  rw [h, List.drop_length]
  rfl

omit [StateMachine SM P] in
theorem Facing.request_entries (h : Facing s s' next x) (hl : FullLog s l)
    (hfirst : s.firstIndex ≤ next) :
    x.1.replication.getAppendEntriesForPeer x.2.id x.1.id x.1.storage =
      .appendEntries s.currentTerm (next - 1) ((s.termAt (next - 1)).getD 0)
        (l.drop (next - 1)) x.1.replication.commitIndex := by
  rw [h.storage]
  exact hl.request_entries x.1.replication x.2.id x.1.id h.next hfirst

/-- A peer in an earlier term takes over the leader's term and drops the entries. -/
theorem Facing.behind_step (h : Facing s s' next x) (hl : FullLog s l)
    (hfirst : s.firstIndex ≤ next) (hlt : x.2.currentTerm < s.currentTerm) :
    Facing s s' next (lockStep x) ∧ (lockStep x).2.currentTerm = s.currentTerm := by
  obtain ⟨hid, hterm, hsame, htransport⟩ := silent_entries x.1.id (next - 1)
    ((s.termAt (next - 1)).getD 0) (l.drop (next - 1))
    x.1.replication.commitIndex hlt
  rw [lockStep_of_silent (h.request_entries hl hfirst) htransport]
  refine ⟨⟨h.leader, h.storage, h.currentTerm, Nat.le_of_eq hterm, h.same.trans hsame, ?_⟩, hterm⟩
  rw [hid]
  exact h.next

/-- A rejection takes the leader back by one index. -/
theorem Facing.reject_step (h : Facing s s' next x) (hl : FullLog s l) (hl' : FullLog s' l')
    (hfirst : s.firstIndex ≤ next) (hterm : x.2.currentTerm = s.currentTerm) (hnext : 1 < next)
    (hcheck : s'.termAt (next - 1) ≠ some ((s.termAt (next - 1)).getD 0)) :
    Facing s s' (next - 1) (lockStep x) ∧ (lockStep x).2.currentTerm = s.currentTerm := by
  have hrejects : LogReplicationManager.checkLogConsistency (next - 1)
      ((s.termAt (next - 1)).getD 0) x.2.storage = false := by
    rw [Bool.eq_false_iff]
    intro hc
    rcases (hl'.of_same h.same).consistent_iff.mp hc with h0 | ht
    · omega
    · rw [h.same.termAt] at ht
      exact hcheck ht
  have hanswered := answered_entries x.1.id (next - 1) ((s.termAt (next - 1)).getD 0)
    (l.drop (next - 1)) x.1.replication.commitIndex hterm hrejects rfl
  rw [lockStep_of_answered (h.request_entries hl hfirst) hanswered]
  have hbefore : 1 < (x.1.replication.nextIndex.get x.2.id).getD 1 := by rw [h.next]; exact hnext
  rw [onEvent_rejection h.leader h.currentTerm hbefore]
  refine ⟨⟨h.leader, h.storage, h.currentTerm, Nat.le_of_eq hanswered.currentTerm,
    h.same.trans hanswered.storage, ?_⟩, hanswered.currentTerm⟩
  rw [hanswered.id, h.next]
  dsimp only [withReplication]
  rw [MapCollection.get_insert_self rfl]
  rfl

omit [StateMachine SM P] in
theorem Facing.request_snapshot (h : Facing s s' next x) (hserves : s.ServesSnapshot)
    (hfirst : next < s.firstIndex) :
    ∃ m, s.snapshot = some m ∧
      x.1.replication.getAppendEntriesForPeer x.2.id x.1.id x.1.storage =
        .installSnapshot s.currentTerm x.1.id m.metadata.lastIncludedIndex
          m.metadata.lastIncludedTerm 0 m.data true := by
  rw [h.storage]
  exact hserves.request x.1.replication x.2.id x.1.id h.next hfirst

/-- A snapshot that the peer refuses leads nowhere. -/
theorem Facing.refuse_step (h : Facing s s' next x) (hserves : s.ServesSnapshot)
    (hfirst : next < s.firstIndex)
    (hcovered : LogReplicationManager.alreadyCovered s.snapIndex s' = true) :
    Facing s s' next (lockStep x) := by
  obtain ⟨m, hm, hrequest⟩ := h.request_snapshot hserves hfirst
  have hsnap : s.snapIndex = m.metadata.lastIncludedIndex := by
    simp [InMemoryStorage.snapIndex, hm]
  rw [hsnap, ← h.same.alreadyCovered] at hcovered
  have hanswered : Answered x.2 (x.2.onEvent .testUtils (.message x.1.id
      (.installSnapshot s.currentTerm x.1.id m.metadata.lastIncludedIndex
        m.metadata.lastIncludedTerm 0 m.data true))) s.currentTerm x.2.storage _ :=
    answered_covered h.behind hcovered
  rw [lockStep_of_answered hrequest hanswered, onEvent_refusal h.leader h.currentTerm]
  refine ⟨h.leader, h.storage, h.currentTerm, Nat.le_of_eq hanswered.currentTerm,
    h.same.trans hanswered.storage, ?_⟩
  rw [hanswered.id]
  exact h.next

/-- A snapshot that the peer installs: the leader goes on behind it. -/
theorem Facing.install_step (h : Facing s s' next x) (hs' : s'.Shaped) (hserves : s.ServesSnapshot)
    (hfirst : next < s.firstIndex)
    (hfresh : LogReplicationManager.alreadyCovered s.snapIndex s' = false) :
    ∃ m, s.snapshot = some m ∧ Facing s (s'.compactedTo m) (s.snapIndex + 1) (lockStep x) ∧
      (lockStep x).2.currentTerm = s.currentTerm := by
  obtain ⟨m, hm, hrequest⟩ := h.request_snapshot hserves hfirst
  have hsnap : s.snapIndex = m.metadata.lastIncludedIndex := by
    simp [InMemoryStorage.snapIndex, hm]
  rw [hsnap, ← h.same.alreadyCovered] at hfresh
  have hanswered : Answered x.2 (x.2.onEvent .testUtils (.message x.1.id
      (.installSnapshot s.currentTerm x.1.id m.metadata.lastIncludedIndex
        m.metadata.lastIncludedTerm 0 m.data true))) s.currentTerm (x.2.storage.compactedTo m) _ :=
    answered_install h.behind (h.same.shaped.mpr hs') hfresh
  have hstored : x.1.storage.snapshotMetadata = some m.metadata := by
    rw [h.storage]
    simp [InMemoryStorage.snapshotMetadata, hm]
  rw [lockStep_of_answered hrequest hanswered, onEvent_installed h.leader h.currentTerm hstored]
  have hsame : SameLog (s'.compactedTo m) (x.2.storage.compactedTo m) := by
    refine ⟨?_, rfl, rfl⟩
    show x.2.storage.log.drop _ = s'.log.drop _
    rw [h.same.log, h.same.snapIndex]
  refine ⟨m, hm, ⟨h.leader, h.storage, h.currentTerm, Nat.le_of_eq hanswered.currentTerm,
    hsame.trans hanswered.storage, ?_⟩, hanswered.currentTerm⟩
  · rw [hanswered.id, hsnap]
    dsimp only [withReplication]
    rw [nextIndex_recorded]
    rfl

/-- Entries that the peer accepts bring it up to the leader's log. -/
theorem Facing.accept_step (h : Facing s s' next x) (hl : FullLog s l) (hl' : FullLog s' l')
    (hfirst : s.firstIndex ≤ next) (hterm : x.2.currentTerm = s.currentTerm)
    (hcheck : next = 1 ∨ s'.termAt (next - 1) = some ((s.termAt (next - 1)).getD 0))
    (hsnap : s'.snapIndex ≤ next - 1) (hagree : Agree (next - 1) l' l) :
    FullLog (lockStep x).1.storage l ∧ (lockStep x).2.storage.snapshot = s'.snapshot ∧
      ∃ l'', FullLog (lockStep x).2.storage l'' ∧ Agree l.length l'' l ∧
        Agree s'.snapIndex l'' l' := by
  have hlocal := hl'.of_same h.same
  have haccepts : LogReplicationManager.checkLogConsistency (next - 1)
      ((s.termAt (next - 1)).getD 0) x.2.storage = true := by
    rw [hlocal.consistent_iff, h.same.termAt]
    exact hcheck.imp (fun hone => by omega) id
  have hanswered := answered_entries x.1.id (next - 1) ((s.termAt (next - 1)).getD 0)
    (l.drop (next - 1)) x.1.replication.commitIndex hterm haccepts rfl
  rw [lockStep_of_answered (h.request_entries hl hfirst) hanswered]
  have hprev := (hlocal.consistent haccepts).1
  have hleader : FullLog x.1.storage l := by rw [h.storage]; exact hl
  have hstorage := hanswered.storage
  rw [InMemoryStorage.placeEntries_eq] at hstorage
  refine ⟨fullLog_answer hleader, ?_, ?_⟩
  · rw [hstorage.snapshot]
    exact h.same.snapshot
  · by_cases hnil : l.drop (next - 1) = []
    · have hlen : l.length ≤ next - 1 := by rwa [List.drop_eq_nil_iff] at hnil
      have hsame : SameLog x.2.storage { x.2.storage with
          log := x.2.storage.placedLog (next - 1) (l.drop (next - 1)) } := by
        refine ⟨?_, rfl, rfl⟩
        show x.2.storage.placedLog (next - 1) (l.drop (next - 1)) = x.2.storage.log
        rw [hnil]
        rfl
      exact ⟨l', hlocal.of_same (hsame.trans hstorage), hagree.mono hlen, Agree.refl _ _⟩
    · refine ⟨l'.take (next - 1) ++ l.drop (next - 1), ?_, ?_, ?_⟩
      · exact (hlocal.place (by rw [h.same.snapIndex]; exact hsnap) hprev hnil).of_same hstorage
      · rw [show l'.take (next - 1) = l.take (next - 1) from hagree, List.take_append_drop]
        exact Agree.refl _ _
      · have hlen : (l'.take (next - 1)).length = next - 1 := by rw [List.length_take]; omega
        exact (agree_append (by omega)).symm.trans (agree_take hsnap _)

end

end MetalRaft
