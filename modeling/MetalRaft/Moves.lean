import MetalRaft.MessageHandler
import Mathlib.Logic.Relation

/-!
# What the handlers do

Every event handler is a chain of a few elementary moves.  `Move R ev n₀ n n'` says that a node
that was in state `n₀` when it began to handle `ev`, and is in state `n` now, may go on to `n'`;
each constructor carries the guard under which the code takes that move.

* `Speaks` — the messages that a node may hand to the transport, and when.
* `onEvent_moves` — handling an event is a chain of moves, for every storage, state machine,
  realization and event.

An invariant is therefore checked against the moves, once each, and not against the handlers.
-/

set_option autoImplicit false

namespace MetalRaft

open Relation

variable {P S SM : Type} [Storage S P] [StateMachine SM P]

/-- The entry is a configuration change. -/
def LogEntry.IsConfigChange (e : LogEntry P) : Prop := ∃ ch, e.entryType = .configChange ch

/-- What applying the entry does to the state machine. -/
def LogEntry.applyTo (e : LogEntry P) (sm : SM) : SM :=
  match e.entryType with
  | .command payload => StateMachine.apply sm payload
  | .configChange _ => sm

/-- The leader's maps once `sender` has acknowledged index `m`. -/
def LogReplicationManager.recorded (R : Realization) (r : LogReplicationManager) (sender : NodeId)
    (m : Nat) : LogReplicationManager :=
  { r with
    matchIndex := r.matchIndex.insert R sender m
    nextIndex := r.nextIndex.insert R sender (m + 1) }.checkAndPromoteCaughtUpServer sender

/-- A client command or configuration change event, and the entry it asks for. -/
inductive Submits : Event P → EntryType P → Prop where
  | command (payload : P) : Submits (.clientCommand payload) (.command payload)
  | configChange (change : ConfigurationChange) :
    Submits (.configChange change) (.configChange change)

namespace RaftNode

/-- The storage holds a configuration change. -/
def HoldsConfigChange (n : RaftNode P S SM) : Prop :=
  ∃ i e, Storage.getEntry n.storage i = some e ∧ e.IsConfigChange

/-- A snapshot message of the node's own term reached the storage call while only the term, the
vote and the role could have changed. -/
structure SameData (n₀ n : RaftNode P S SM) : Prop where
  storage : n.storage = n₀.storage ∨
    n.storage = Storage.setVotedFor (Storage.setCurrentTerm n₀.storage n.currentTerm) none
  replication : n.replication = n₀.replication
  stateMachine : n.stateMachine = n₀.stateMachine

/-- Only pre-votes, timers, the known leader and the lease differ. -/
structure Inert (n n' : RaftNode P S SM) : Prop where
  id : n'.id = n.id
  role : n'.role = n.role
  currentTerm : n'.currentTerm = n.currentTerm
  transport : n'.transport = n.transport
  storage : n'.storage = n.storage
  stateMachine : n'.stateMachine = n.stateMachine
  observer : n'.observer = n.observer
  votesReceived : n'.election.votesReceived = n.election.votesReceived
  replication : n'.replication = n.replication
  configManager : n'.configManager = n.configManager
  snapshotManager : n'.snapshotManager = n.snapshotManager

/-! ## Messages -/

/-- The messages that node `n`, which began as `n₀`, may send while it handles `ev`. -/
inductive Speaks (R : Realization) (ev : Event P) (n₀ n : RaftNode P S SM) :
    NodeId → RaftMsg P → Prop where
  | preVoteRequest {target term candidateId lastLogIndex lastLogTerm}
      (peer : target ∈ n.peerIds R) :
      Speaks R ev n₀ n target (.preVoteRequest term candidateId lastLogIndex lastLogTerm)
  | preVoteResponse {target msg term granted} (asked : ev = .message target msg) :
      Speaks R ev n₀ n target (.preVoteResponse term granted)
  | refusal {target msg} (asked : ev = .message target msg) :
      Speaks R ev n₀ n target (.requestVoteResponse n.currentTerm false)
  | rejection {target msg i} (asked : ev = .message target msg) :
      Speaks R ev n₀ n target (.appendEntriesResponse n.currentTerm false i)
  | acknowledgement {target prev pt es lc}
      (asked : ev = .message target (.appendEntries n.currentTerm prev pt es lc))
      (term : n.currentTerm = n₀.currentTerm)
      (consistent : LogReplicationManager.checkLogConsistency prev pt n₀.storage = true)
      (storage : n.storage = LogReplicationManager.placeEntries prev es n₀.storage) :
      Speaks R ev n₀ n target
        (.appendEntriesResponse n.currentTerm true (Storage.lastLogIndex n.storage))
  | entries {target} (peer : target ∈ n.peerIds R)
      (leader : n.role = .leader ∨ n.HoldsConfigChange) :
      Speaks R ev n₀ n target (n.replication.getAppendEntriesForPeer target n.id n.storage)
  | chunkResponse {target T leaderId i t offset data done success}
      (asked : ev = .message target (.installSnapshot T leaderId i t offset data done)) :
      Speaks R ev n₀ n target (.installSnapshotResponse n.currentTerm success)

/-! ## Moves -/

/-- The two events that make the node start an election. -/
def StartsElection (R : Realization) (n : RaftNode P S SM) : Event P → Prop
  | .timerFired .election => n.role ≠ .leader ∧ n.config.members.length ≤ 1
  | .message sender (.preVoteResponse term voteGranted) =>
    term ≤ n.currentTerm ∧ n.election.inPreVote = true ∧ voteGranted = true ∧
      n.config.hasQuorum (pushWithin R.nodes n.election.preVotesReceived sender).length = true
  | _ => False

instance (R : Realization) (n : RaftNode P S SM) : (ev : Event P) →
    Decidable (n.StartsElection R ev)
  | .timerFired .election => inferInstanceAs (Decidable (_ ∧ _))
  | .timerFired .heartbeat | .clientCommand _ | .configChange _ => isFalse False.elim
  | .message _ (.preVoteResponse _ _) => inferInstanceAs (Decidable (_ ∧ _))
  | .message _ (.requestVote _ _ _ _) | .message _ (.requestVoteResponse _ _)
  | .message _ (.preVoteRequest _ _ _ _) | .message _ (.appendEntries _ _ _ _ _)
  | .message _ (.appendEntriesResponse _ _ _) | .message _ (.installSnapshot _ _ _ _ _ _ _)
  | .message _ (.installSnapshotResponse _ _) => isFalse False.elim

/-- The node in a new term, without a vote. -/
def inTerm (n : RaftNode P S SM) (T : Nat) : RaftNode P S SM :=
  { n with
    currentTerm := T
    storage := Storage.setVotedFor (Storage.setCurrentTerm n.storage T) none
    role := .follower }

/-- The node standing for the next term, before it has told anyone. -/
def standing (n : RaftNode P S SM) : RaftNode P S SM :=
  { n with
    election := { n.election with votesReceived := [n.id] }
    currentTerm := n.currentTerm + 1
    storage :=
      Storage.setVotedFor (Storage.setCurrentTerm n.storage (n.currentTerm + 1)) (some n.id)
    role := .candidate }

/-- The node with one more vote counted. -/
def counting (R : Realization) (n : RaftNode P S SM) (sender : NodeId) : RaftNode P S SM :=
  { n with
    election :=
      { n.election with votesReceived := pushWithin R.nodes n.election.votesReceived sender } }

def leading (R : Realization) (n : RaftNode P S SM) : RaftNode P S SM :=
  { n with
    role := .leader
    replication := n.replication.initializeLeaderState R n.config.members n.storage }

def withStorage (n : RaftNode P S SM) (storage : S) : RaftNode P S SM :=
  { n with storage := storage }

def withReplication (n : RaftNode P S SM) (r : LogReplicationManager) : RaftNode P S SM :=
  { n with replication := r }

/-- What a chunk does to the storage. -/
def chunkResult (n : RaftNode P S SM) (index : Nat) (term : Nat) (offset : Nat)
    (data : List UInt8) (done : Bool) : S × Except SnapshotError Unit :=
  Storage.applySnapshotChunk n.storage offset data done index term

/-- The elementary moves of the handlers. -/
inductive Move (R : Realization) (ev : Event P) (n₀ : RaftNode P S SM) :
    RaftNode P S SM → RaftNode P S SM → Prop where
  | inert {n n'} (h : Inert n n') : Move R ev n₀ n n'
  | adoptTerm {n} {T : Nat} (higher : n.currentTerm < T) : Move R ev n₀ n (n.inTerm T)
  | rest {n} (candidate : n.role = .candidate) : Move R ev n₀ n { n with role := .follower }
  | campaign {n} (cause : n₀.StartsElection R ev) (config : n.configManager = n₀.configManager) :
      Move R ev n₀ n
        (n.standing.broadcast R
          (.requestVote (n.currentTerm + 1) n.id (Storage.lastLogIndex n.standing.storage)
            (Storage.lastLogTerm n.standing.storage)))
  | tally {sender} (answer : ev = .message sender (.requestVoteResponse n₀.currentTerm true))
      (candidate : n₀.role = .candidate) : Move R ev n₀ n₀ (n₀.counting R sender)
  | lead {n} (candidate : n.role = .candidate)
      (quorum : n.config.hasQuorum n.election.votesReceived.length = true ∨
        n.config.members.length ≤ 1) :
      Move R ev n₀ n (n.leading R)
  | grant {n sender cand li lt}
      (asked : ev = .message sender (.requestVote n.currentTerm cand li lt))
      (silent : n.transport = n₀.transport)
      (free : Storage.votedFor n.storage = none ∨ Storage.votedFor n.storage = some cand)
      (upToDate : ElectionManager.isLogUpToDate li lt n.storage = true) :
      Move R ev n₀ n
        ((n.withStorage (Storage.setVotedFor n.storage (some cand))).send sender
          (.requestVoteResponse n.currentTerm true))
  | say {n} (outs : List (Outgoing P S))
      (spoken : ∀ o ∈ outs, o.stored = n.storage ∧ Speaks R ev n₀ n o.target o.msg) :
      Move R ev n₀ n { n with transport := n.transport ++ outs }
  | place {sender prev pt es lc}
      (asked : ev = .message sender (.appendEntries n₀.currentTerm prev pt es lc))
      (consistent : LogReplicationManager.checkLogConsistency prev pt n₀.storage = true) :
      Move R ev n₀ n₀
        (n₀.withStorage (LogReplicationManager.placeEntries prev es n₀.storage))
  | learnCommit {n sender prev pt es lc}
      (asked : ev = .message sender (.appendEntries n₀.currentTerm prev pt es lc))
      (consistent : LogReplicationManager.checkLogConsistency prev pt n₀.storage = true)
      (placed : n = n₀.withStorage (LogReplicationManager.placeEntries prev es n₀.storage))
      (higher : n₀.replication.commitIndex < lc) :
      Move R ev n₀ n
        (n.withReplication
          { n₀.replication with commitIndex := min lc (Storage.lastLogIndex n.storage) })
  | applyNone {n} (below : n.replication.lastApplied < n.replication.commitIndex)
      (reached : n.replication.commitIndex ≤ Storage.lastLogIndex n.storage ∨
        (Storage.getEntry n.storage n.replication.commitIndex).isSome)
      (missing : Storage.getEntry n.storage (n.replication.lastApplied + 1) = none) :
      Move R ev n₀ n
        (n.withReplication { n.replication with lastApplied := n.replication.lastApplied + 1 })
  | applyEntry {n} {entry : LogEntry P}
      (below : n.replication.lastApplied < n.replication.commitIndex)
      (reached : n.replication.commitIndex ≤ Storage.lastLogIndex n.storage ∨
        (Storage.getEntry n.storage n.replication.commitIndex).isSome)
      (found : Storage.getEntry n.storage (n.replication.lastApplied + 1) = some entry) :
      Move R ev n₀ n
        { n with
          replication := { n.replication with lastApplied := n.replication.lastApplied + 1 }
          stateMachine := entry.applyTo n.stateMachine
          observer := ⟨n.observer.applied ++ [(n.replication.lastApplied + 1, entry)]⟩ }
  | applyChanges {n} (changes : ConfigChangeCollection)
      (found : ∃ ch ∈ changes, ∃ e, Storage.getEntry n.storage ch.1 = some e ∧
        e.entryType = .configChange ch.2) :
      Move R ev n₀ n (n.applyConfigChanges R changes)
  | append {entryType} (leader : n₀.role = .leader) (submits : Submits ev entryType) :
      Move R ev n₀ n₀
        (n₀.withStorage (Storage.appendEntries n₀.storage [⟨n₀.currentTerm, entryType⟩]))
  | record {sender m}
      (answer : ev = .message sender (.appendEntriesResponse n₀.currentTerm true m))
      (leader : n₀.role = .leader)
      (higher : (n₀.replication.matchIndex.get sender).getD 0 < m) :
      Move R ev n₀ n₀ (n₀.withReplication (n₀.replication.recorded R sender m))
  | backOff {sender m}
      (answer : ev = .message sender (.appendEntriesResponse n₀.currentTerm false m))
      (leader : n₀.role = .leader) (next : Nat) :
      Move R ev n₀ n₀
        (n₀.withReplication
          { n₀.replication with nextIndex := n₀.replication.nextIndex.insert R sender next })
  | recordSnapshot {sender success} {m : SnapshotMetadata}
      (answer : ev = .message sender (.installSnapshotResponse n₀.currentTerm success))
      (leader : n₀.role = .leader)
      (stored : Storage.snapshotMetadata n₀.storage = some m) :
      Move R ev n₀ n₀
        (n₀.withReplication
          (n₀.replication.handleInstallSnapshotResponse R sender success m.lastIncludedIndex))
  | commit {n} {entry : LogEntry P} {newCommit} (leader : n.role = .leader)
      (median : n.replication.matchIndex.computeMedian R (Storage.lastLogIndex n.storage) n.config
        n.replication.catchingUpServers n.id = some newCommit)
      (higher : n.replication.commitIndex < newCommit)
      (found : Storage.getEntry n.storage newCommit = some entry)
      (term : entry.term = Storage.currentTerm n.storage) :
      Move R ev n₀ n (n.withReplication { n.replication with commitIndex := newCommit })
  | compact {n} {entry : LogEntry P} (leader : n.role = .leader ∨ n.HoldsConfigChange)
      (storage : n.storage = n₀.storage)
      (raised : n₀.replication.commitIndex < n.replication.commitIndex)
      (found : Storage.getEntry n.storage n.replication.commitIndex = some entry)
      (term : entry.term = Storage.currentTerm n.storage)
      (applied : n.replication.lastApplied =
        max n₀.replication.lastApplied n.replication.commitIndex) :
      Move R ev n₀ n n.createSnapshotInternal
  | storeChunk {n sender leaderId index term offset data done}
      (asked : ev = .message sender
        (.installSnapshot n.currentTerm leaderId index term offset data done))
      (same : SameData n₀ n)
      (fresh : LogReplicationManager.alreadyCovered index n.storage = false)
      (partly : (∃ e, (n.chunkResult index term offset data done).2 = .error e) ∨ done = false ∨
        Storage.loadSnapshot (n.chunkResult index term offset data done).1 = none) :
      Move R ev n₀ n (n.withStorage (n.chunkResult index term offset data done).1)
  | install {n sender leaderId index term offset data} {snapshot : Snapshot}
      (asked : ev = .message sender
        (.installSnapshot n.currentTerm leaderId index term offset data true))
      (same : SameData n₀ n)
      (fresh : LogReplicationManager.alreadyCovered index n.storage = false)
      (ok : (n.chunkResult index term offset data true).2 = .ok ())
      (loaded : Storage.loadSnapshot (n.chunkResult index term offset data true).1 =
        some snapshot) :
      Move R ev n₀ n
        { n with
          replication :=
            { n.replication with
              commitIndex := max n.replication.commitIndex index
              lastApplied := max n.replication.lastApplied index }
          storage := Storage.discardEntriesBefore
            (n.chunkResult index term offset data true).1 (index + 1)
          stateMachine := (StateMachine.restoreFromSnapshot n.stateMachine snapshot.data).1 }

/-- A chain of moves. -/
abbrev Moves (R : Realization) (ev : Event P) (n₀ : RaftNode P S SM) :
    RaftNode P S SM → RaftNode P S SM → Prop :=
  ReflTransGen (Move R ev n₀)

variable {R : Realization} {ev : Event P} {n₀ n n' : RaftNode P S SM}

theorem Move.one (h : Move R ev n₀ n n') : Moves R ev n₀ n n' := .single h

/-! ## Sending -/

omit [Storage S P] [StateMachine SM P] in
theorem foldl_send (msg : RaftNode P S SM → NodeId → RaftMsg P)
    (hmsg : ∀ n outs, msg { n with transport := outs } = msg n) :
    ∀ (targets : List NodeId) (n : RaftNode P S SM),
      targets.foldl (fun n target => n.send target (msg n target)) n =
        { n with transport := n.transport ++ targets.map fun t => ⟨t, msg n t, n.storage⟩ }
  | [], n => by simp
  | t :: targets, n => by
    rw [List.foldl_cons, foldl_send msg hmsg targets]
    simp [hmsg, send]

omit [Storage S P] [StateMachine SM P] in
theorem broadcast_eq (n : RaftNode P S SM) (msg : RaftMsg P) :
    n.broadcast R msg =
      { n with transport := n.transport ++ (n.peerIds R).map fun t => ⟨t, msg, n.storage⟩ } :=
  foldl_send (fun _ _ => msg) (fun _ _ => rfl) _ n

omit [StateMachine SM P] in
theorem configManager_startPreVote (n : RaftNode P S SM) :
    (n.startPreVote R).configManager = n.configManager := by
  unfold startPreVote
  rw [broadcast_eq]

omit [StateMachine SM P] in
/-- Asking for pre-votes does not change the configuration that decides what comes next. -/
theorem handleElectionTimer_eq (n : RaftNode P S SM) :
    n.handleElectionTimer R =
      if n.role ≠ .leader then
        if n.config.members.length ≤ 1 then (n.startPreVote R).startElection R
        else n.startPreVote R
      else n := by
  have hconfig : (n.startPreVote R).config = n.config :=
    congrArg ConfigChangeManager.config (configManager_startPreVote n)
  unfold handleElectionTimer
  dsimp only
  rw [hconfig]

omit [StateMachine SM P] in
theorem sendAppendEntriesToFollowers_eq (n : RaftNode P S SM) :
    n.sendAppendEntriesToFollowers R =
      { n with
        transport := n.transport ++ (n.peerIds R).map fun t =>
          ⟨t, n.replication.getAppendEntriesForPeer t n.id n.storage, n.storage⟩ } :=
  foldl_send (fun n t => n.replication.getAppendEntriesForPeer t n.id n.storage)
    (fun _ _ => rfl) _ n

theorem send_moves {target : NodeId} {msg : RaftMsg P} (h : Speaks R ev n₀ n target msg) :
    Moves R ev n₀ n (n.send target msg) := by
  refine (Move.say [⟨target, msg, n.storage⟩] ?_).one
  intro o ho
  rw [List.mem_singleton.mp ho]
  exact ⟨rfl, h⟩

theorem sendEntries_moves (h : n.role = .leader ∨ n.HoldsConfigChange) :
    Moves R ev n₀ n (n.sendAppendEntriesToFollowers R) := by
  rw [sendAppendEntriesToFollowers_eq]
  refine (Move.say _ ?_).one
  intro o ho
  obtain ⟨t, ht, rfl⟩ := List.mem_map.mp ho
  exact ⟨rfl, .entries ht h⟩

/-! ## Elections -/

theorem inert_moves (h : Inert n n') : Moves R ev n₀ n n' := (Move.inert h).one

theorem becomeLeader_moves (hrole : n.role = .candidate)
    (hquorum : n.config.hasQuorum n.election.votesReceived.length = true ∨
      n.config.members.length ≤ 1) : Moves R ev n₀ n (n.becomeLeader R) := by
  have hlead : Moves R ev n₀ n (n.leading R) := (Move.lead hrole hquorum).one
  refine (hlead.trans (inert_moves ?_)).trans (sendEntries_moves (Or.inl rfl))
  constructor <;> rfl

theorem startElection_moves (hcause : n₀.StartsElection R ev)
    (hconfig : n.configManager = n₀.configManager) : Moves R ev n₀ n (n.startElection R) := by
  have hstand : Moves R ev n₀ n
      ({ n with
          election :=
            { n.election with
              inPreVote := false
              timerService := n.election.timerService.resetElectionTimer } }.standing.broadcast R
        (.requestVote (n.currentTerm + 1) n.id (Storage.lastLogIndex n.standing.storage)
          (Storage.lastLogTerm n.standing.storage))) := by
    refine (inert_moves ?_).trans (Move.campaign (n := { n with
      election :=
        { n.election with
          inPreVote := false
          timerService := n.election.timerService.resetElectionTimer } }) hcause hconfig).one
    constructor <;> rfl
  unfold startElection
  dsimp only
  split
  · rename_i h
    refine hstand.trans (becomeLeader_moves ?_ (Or.inr ?_))
    · rw [broadcast_eq]; rfl
    · exact h
  · exact hstand

theorem handlePreVoteRequest_moves {sender : NodeId} {term : Nat} {candidateId : NodeId}
    {li lt : Nat} (hev : ev = .message sender (.preVoteRequest term candidateId li lt)) :
    Moves R ev n₀ n (n.handlePreVoteRequest sender term li lt) :=
  send_moves (.preVoteResponse hev)

theorem handlePreVoteResponse_moves {sender : NodeId} {term : Nat} {granted : Bool}
    (hev : ev = .message sender (.preVoteResponse term granted)) :
    Moves R ev n₀ n₀ (n₀.handlePreVoteResponse R sender term granted) := by
  unfold handlePreVoteResponse
  split
  · exact .refl
  · rename_i hterm
    unfold ElectionManager.handlePreVoteResponse
    split
    · exact .refl
    · rename_i hcount
      simp only [Bool.or_eq_true, Bool.not_eq_true', not_or, Bool.not_eq_false] at hcount
      have hinert : ∀ inPreVote, Moves R ev n₀ n₀
          { n₀ with
            election :=
              { n₀.election with
                preVotesReceived := pushWithin R.nodes n₀.election.preVotesReceived sender
                inPreVote := inPreVote } } := fun _ => inert_moves (by constructor <;> rfl)
      dsimp only
      split
      · rename_i hquorum
        refine (hinert false).trans (startElection_moves ?_ rfl)
        rw [hev]
        exact ⟨Nat.not_lt.mp hterm, hcount.1, hcount.2, hquorum⟩
      · exact hinert _

theorem stepDown_moves {T : Nat} (h : n.currentTerm < T) : Moves R ev n₀ n (n.stepDown T) := by
  refine (Move.adoptTerm h).one.trans (inert_moves ?_)
  constructor <;> rfl

theorem shouldGrantVote_iff {term currentTerm : Nat} {cand : NodeId} {li lt : Nat} {s : S} :
    ElectionManager.shouldGrantVote term currentTerm cand li lt s = true ↔
      currentTerm ≤ term ∧ (Storage.votedFor s = none ∨ Storage.votedFor s = some cand) ∧
        ElectionManager.isLogUpToDate li lt s = true := by
  unfold ElectionManager.shouldGrantVote
  by_cases hterm : term < currentTerm
  · rw [if_pos hterm]
    exact iff_of_false Bool.false_ne_true fun h => Nat.not_lt.mpr h.1 hterm
  · rw [if_neg hterm]
    have hle := Nat.not_lt.mp hterm
    cases hvoted : Storage.votedFor s with
    | none => simp [hle]
    | some voted => by_cases hcand : voted = cand <;> simp [hle, hcand]

omit [StateMachine SM P] in
/-- Once the node has the term of the request, all that is left is to grant the vote or not. -/
theorem answerVoteRequest_eq {sender : NodeId} {term : Nat} {cand : NodeId} {li lt : Nat}
    (hterm : term ≤ n.currentTerm) :
    n.answerVoteRequest sender term cand li lt =
      if ElectionManager.shouldGrantVote term n.currentTerm cand li lt n.storage = true then
        { n with
          election := { n.election with
            timerService := n.election.timerService.resetElectionTimer }
          storage := Storage.setVotedFor n.storage (some cand) }.send sender
            (.requestVoteResponse n.currentTerm true)
      else n.send sender (.requestVoteResponse n.currentTerm false) := by
  have hbehind : decide (term > n.currentTerm) = false := by simpa using hterm
  unfold answerVoteRequest ElectionManager.handleVoteRequest
  simp only [hbehind, Bool.false_eq_true, if_false]
  split <;> rfl

theorem answerVoteRequest_moves {sender : NodeId} {term : Nat} {cand : NodeId} {li lt : Nat}
    (hev : ev = .message sender (.requestVote term cand li lt)) (hterm : term ≤ n.currentTerm)
    (hsilent : n.transport = n₀.transport) :
    Moves R ev n₀ n (n.answerVoteRequest sender term cand li lt) := by
  rw [answerVoteRequest_eq hterm]
  split
  · rename_i hgrant
    obtain ⟨hle, hfree, hup⟩ := shouldGrantVote_iff.mp hgrant
    obtain rfl : term = n.currentTerm := Nat.le_antisymm hterm hle
    refine (Move.grant hev hsilent hfree hup).one.trans (inert_moves ?_)
    constructor <;> rfl
  · exact send_moves (.refusal hev)

theorem handleVoteRequest_moves {sender : NodeId} {term : Nat} {cand : NodeId} {li lt : Nat}
    (hev : ev = .message sender (.requestVote term cand li lt)) :
    Moves R ev n₀ n₀ (n₀.handleVoteRequest sender term cand li lt) := by
  unfold handleVoteRequest
  dsimp only
  split
  · rename_i h
    exact (stepDown_moves h).trans (answerVoteRequest_moves hev (Nat.le_refl _) rfl)
  · rename_i h
    exact answerVoteRequest_moves hev (Nat.not_lt.mp h) rfl

theorem handleVoteResponse_moves {sender : NodeId} {term : Nat} {granted : Bool}
    (hev : ev = .message sender (.requestVoteResponse term granted)) :
    Moves R ev n₀ n₀ (n₀.handleVoteResponse R sender term granted) := by
  unfold handleVoteResponse
  split
  · rename_i h; exact stepDown_moves h
  · rename_i h
    unfold ElectionManager.handleVoteResponse
    simp only [h, if_false]
    split
    · exact .refl
    · rename_i hcount
      simp only [not_or, not_not, Bool.not_eq_false] at hcount
      obtain ⟨hrole, rfl, rfl⟩ := hcount
      have htally : Moves R ev n₀ n₀ (n₀.counting R sender) := (Move.tally hev hrole).one
      dsimp only
      split
      · rename_i hq; exact htally.trans (becomeLeader_moves hrole (Or.inl hq))
      · exact htally

theorem startPreVote_moves : Moves R ev n₀ n (n.startPreVote R) := by
  unfold startPreVote
  rw [broadcast_eq]
  refine (inert_moves ?_).trans (Move.say _ ?_).one
  · constructor <;> rfl
  · intro o ho
    obtain ⟨t, ht, rfl⟩ := List.mem_map.mp ho
    exact ⟨rfl, .preVoteRequest ht⟩

theorem handleElectionTimer_moves (hev : ev = .timerFired .election) :
    Moves R ev n₀ n₀ (n₀.handleElectionTimer R) := by
  rw [handleElectionTimer_eq]
  split
  · rename_i hrole
    split
    · rename_i hlen
      refine startPreVote_moves.trans (startElection_moves ?_ (configManager_startPreVote n₀))
      rw [hev]
      exact ⟨hrole, hlen⟩
    · exact startPreVote_moves
  · exact .refl

theorem handleHeartbeatTimer_moves : Moves R ev n₀ n (n.handleHeartbeatTimer R) := by
  unfold handleHeartbeatTimer
  split
  · rename_i h
    refine (sendEntries_moves (Or.inl h)).trans (inert_moves ?_)
    constructor <;> rfl
  · exact .refl

/-! ## Applying -/

/-- The node once the apply loop has got as far as `st`. -/
def progress (n : RaftNode P S SM) (st : ApplyState P SM) : RaftNode P S SM :=
  { n with
    replication := { n.replication with lastApplied := st.lastApplied }
    stateMachine := st.stateMachine
    observer := st.observer }

theorem applyOne_move (changes : ConfigChangeCollection)
    (hbelow : n.replication.lastApplied < n.replication.commitIndex)
    (hreached : n.replication.commitIndex ≤ Storage.lastLogIndex n.storage ∨
      (Storage.getEntry n.storage n.replication.commitIndex).isSome) :
    Move R ev n₀ n
      (n.progress (LogReplicationManager.applyOne R n.storage
        ⟨n.replication.lastApplied, n.stateMachine, n.observer, changes⟩)) := by
  cases hfound : Storage.getEntry n.storage (n.replication.lastApplied + 1) with
  | none =>
    simp only [LogReplicationManager.applyOne, hfound]
    exact .applyNone hbelow hreached hfound
  | some entry =>
    have hmove : Move R ev n₀ n _ := .applyEntry hbelow hreached hfound
    simp only [LogReplicationManager.applyOne, hfound]
    obtain ⟨term, entryType⟩ := entry
    cases entryType <;> exact hmove

theorem applyOne_lastApplied (storage : S) (st : ApplyState P SM) :
    (LogReplicationManager.applyOne R storage st).lastApplied = st.lastApplied + 1 := by
  simp only [LogReplicationManager.applyOne]
  split
  · rfl
  · split <;> rfl

theorem applyLoop_lastApplied (storage : S) :
    ∀ (fuel : Nat) (st : ApplyState P SM),
      (LogReplicationManager.applyLoop R storage fuel st).lastApplied = st.lastApplied + fuel
  | 0, _ => rfl
  | fuel + 1, st => by
    unfold LogReplicationManager.applyLoop
    rw [applyLoop_lastApplied storage fuel, applyOne_lastApplied]
    omega

theorem applyLoop_moves :
    ∀ (fuel : Nat) (n : RaftNode P S SM) (changes : ConfigChangeCollection),
      n.replication.lastApplied + fuel ≤ n.replication.commitIndex →
      (n.replication.commitIndex ≤ Storage.lastLogIndex n.storage ∨
        (Storage.getEntry n.storage n.replication.commitIndex).isSome) →
      Moves R ev n₀ n
        (n.progress (LogReplicationManager.applyLoop R n.storage fuel
          ⟨n.replication.lastApplied, n.stateMachine, n.observer, changes⟩))
  | 0, _, _, _, _ => .refl
  | fuel + 1, n, changes, hfuel, hreached => by
    refine (applyOne_move changes (by omega) hreached).one.trans ?_
    refine applyLoop_moves fuel _ (LogReplicationManager.applyOne R n.storage
      ⟨n.replication.lastApplied, n.stateMachine, n.observer, changes⟩).configChanges ?_ hreached
    have := applyOne_lastApplied (R := R) n.storage
      ⟨n.replication.lastApplied, n.stateMachine, n.observer, changes⟩
    simp only [progress, this]
    omega

/-- Every collected change was found in the log. -/
theorem applyLoop_configChanges (storage : S) :
    ∀ (fuel : Nat) (st : ApplyState P SM),
      (∀ ch ∈ st.configChanges, ∃ e, Storage.getEntry storage ch.1 = some e ∧
        e.entryType = .configChange ch.2) →
      ∀ ch ∈ (LogReplicationManager.applyLoop R storage fuel st).configChanges,
        ∃ e, Storage.getEntry storage ch.1 = some e ∧ e.entryType = .configChange ch.2
  | 0, _, h => h
  | fuel + 1, st, h => by
    refine applyLoop_configChanges storage fuel _ ?_
    simp only [LogReplicationManager.applyOne]
    cases hfound : Storage.getEntry storage (st.lastApplied + 1) with
    | none => exact h
    | some entry =>
      cases htype : entry.entryType with
      | command payload => simpa only [htype] using h
      | configChange change =>
        simp only [htype]
        intro ch hch
        unfold pushWithin at hch
        have hnew : ch ∈ st.configChanges ++ [(st.lastApplied + 1, change)] := by
          split at hch
          · exact hch
          · split at hch
            · exact hch
            · exact List.mem_append_left _ hch
        rcases List.mem_append.mp hnew with hold | hnew
        · exact h ch hold
        · rw [List.mem_singleton.mp hnew]; exact ⟨entry, hfound, htype⟩

/-- The apply loop as `apply_committed_entries` runs it. -/
theorem applyCommitted_moves
    (hreached : n.replication.commitIndex ≤ Storage.lastLogIndex n.storage ∨
      (Storage.getEntry n.storage n.replication.commitIndex).isSome) :
    Moves R ev n₀ n
      (n.adopt (n.replication.applyCommittedEntries R n.storage n.stateMachine n.observer)) := by
  by_cases hle : n.replication.lastApplied ≤ n.replication.commitIndex
  · exact applyLoop_moves _ n [] (by omega) hreached
  · unfold LogReplicationManager.applyCommittedEntries
    rw [Nat.sub_eq_zero_of_le (by omega)]
    exact .refl

theorem applyCommitted_lastApplied (r : LogReplicationManager) (storage : S) (sm : SM)
    (observer : Observer P) :
    (r.applyCommittedEntries R storage sm observer).replication.lastApplied =
      max r.lastApplied r.commitIndex := by
  unfold LogReplicationManager.applyCommittedEntries
  simp only [applyLoop_lastApplied]
  omega

theorem applyCommitted_configChanges (r : LogReplicationManager) (storage : S) (sm : SM)
    (observer : Observer P) :
    ∀ ch ∈ (r.applyCommittedEntries R storage sm observer).configChanges,
      ∃ e, Storage.getEntry storage ch.1 = some e ∧ e.entryType = .configChange ch.2 :=
  applyLoop_configChanges storage _ _ (by simp)

theorem applyConfigChanges_moves (changes : ConfigChangeCollection)
    (h : ∀ ch ∈ changes, ∃ e, Storage.getEntry n.storage ch.1 = some e ∧
      e.entryType = .configChange ch.2) :
    Moves R ev n₀ n (n.applyConfigChanges R changes) := by
  cases changes with
  | nil => exact .refl
  | cons ch changes =>
    exact (Move.applyChanges _ ⟨ch, by simp, h ch (by simp)⟩).one

/-! ## AppendEntries -/

/-- What `try_append_entries` does once the consistency check has passed. -/
theorem tryAppendEntries_moves {sender : NodeId} {prev : Nat} {pt : Nat}
    {es : List (LogEntry P)} {lc : Nat}
    (hev : ev = .message sender (.appendEntries n₀.currentTerm prev pt es lc))
    (hcheck : LogReplicationManager.checkLogConsistency prev pt n₀.storage = true)
    {a : AppendResult P S SM}
    (ha : a = n₀.replication.tryAppendEntries R prev pt es lc n₀.storage n₀.stateMachine
      n₀.observer) :
    Moves R ev n₀ n₀
        { n₀ with
          replication := a.replication
          storage := a.storage
          stateMachine := a.stateMachine
          observer := a.observer } ∧
      a.storage = LogReplicationManager.placeEntries prev es n₀.storage ∧
      ∃ changes, a.configChanges = some changes ∧
        ∀ ch ∈ changes, ∃ e, Storage.getEntry a.storage ch.1 = some e ∧
          e.entryType = .configChange ch.2 := by
  have hplace : Moves R ev n₀ n₀
      (n₀.withStorage (LogReplicationManager.placeEntries prev es n₀.storage)) :=
    (Move.place hev hcheck).one
  unfold LogReplicationManager.tryAppendEntries at ha
  simp only [hcheck, Bool.true_eq_false, if_false] at ha
  split at ha
  · rename_i hlc
    subst ha
    refine ⟨?_, rfl, _, rfl, applyCommitted_configChanges _ _ _ _⟩
    refine (hplace.trans (Move.learnCommit hev hcheck rfl hlc).one).trans ?_
    exact applyCommitted_moves (Or.inl (Nat.min_le_right _ _))
  · subst ha
    exact ⟨hplace, rfl, [], rfl, by simp⟩

theorem restIfCandidate_moves :
    Moves R ev n₀ n { n with role := if n.role = .candidate then .follower else n.role } := by
  split
  · rename_i h; exact (Move.rest h).one
  · exact .refl

theorem handleAppendEntries_of_lt {r : LogReplicationManager} {term currentTerm : Nat}
    (hlt : term < currentTerm) (prev pt : Nat) (es : List (LogEntry P)) (lc : Nat) (storage : S)
    (sm : SM) (role : NodeState) (observer : Observer P) :
    r.handleAppendEntries R term prev pt es lc currentTerm storage sm role observer =
      ⟨r, currentTerm, storage, sm, role, observer,
        .appendEntriesResponse currentTerm false (Storage.lastLogIndex storage), []⟩ := by
  have hbehind : decide (term > currentTerm) = false := by simpa using Nat.le_of_lt hlt
  have hne : ¬ (term = currentTerm ∧ role = .candidate) := by omega
  simp only [LogReplicationManager.handleAppendEntries, hbehind, hne, hlt, Bool.false_eq_true,
    if_false, if_true, Option.isSome_none, Option.getD_none]

theorem handleAppendEntries_of_eq (r : LogReplicationManager) (term prev pt : Nat)
    (es : List (LogEntry P)) (lc : Nat) (storage : S) (sm : SM) (role : NodeState)
    (observer : Observer P) :
    r.handleAppendEntries R term prev pt es lc term storage sm role observer =
      let a := r.tryAppendEntries R prev pt es lc storage sm observer
      ⟨a.replication, term, a.storage, a.stateMachine,
        if role = .candidate then .follower else role, a.observer,
        .appendEntriesResponse term a.configChanges.isSome (Storage.lastLogIndex a.storage),
        a.configChanges.getD []⟩ := by
  simp only [LogReplicationManager.handleAppendEntries, gt_iff_lt, Nat.lt_irrefl, decide_false,
    Bool.false_eq_true, if_false, true_and]

/-- A message of the node's own term. -/
theorem acceptAppendEntries_of_eq (n : RaftNode P S SM) (sender : NodeId) (prev pt : Nat)
    (es : List (LogEntry P)) (lc : Nat) {a : AppendResult P S SM}
    (ha : n.replication.tryAppendEntries R prev pt es lc n.storage n.stateMachine n.observer = a) :
    n.acceptAppendEntries R sender n.currentTerm prev pt es lc =
      ({ n with
          replication := a.replication
          storage := a.storage
          stateMachine := a.stateMachine
          observer := a.observer
          role := if n.role = NodeState.candidate then NodeState.follower else n.role
          election := n.resetElectionTimer.election
          currentLeader := some sender }.applyConfigChanges R (a.configChanges.getD [])).send sender
        (.appendEntriesResponse n.currentTerm a.configChanges.isSome
          (Storage.lastLogIndex a.storage)) := by
  unfold acceptAppendEntries resetElectionTimerIfValidTerm
  rw [if_pos (Nat.le_refl _)]
  dsimp only [resetElectionTimer]
  rw [handleAppendEntries_of_eq, ha]

theorem acceptAppendEntries_moves {sender : NodeId} {term prev pt : Nat}
    {es : List (LogEntry P)} {lc : Nat}
    (hev : ev = .message sender (.appendEntries term prev pt es lc))
    (hterm : term ≤ n₀.currentTerm) :
    Moves R ev n₀ n₀ (n₀.acceptAppendEntries R sender term prev pt es lc) := by
  rcases Nat.lt_or_eq_of_le hterm with hlt | rfl
  · have hge : ¬ term ≥ n₀.currentTerm := by omega
    unfold acceptAppendEntries resetElectionTimerIfValidTerm
    simp only [hge, if_false, handleAppendEntries_of_lt hlt]
    refine (inert_moves ?_).trans (send_moves (.rejection hev))
    constructor <;> rfl
  · by_cases hcheck : LogReplicationManager.checkLogConsistency prev pt n₀.storage = true
    · generalize ha : n₀.replication.tryAppendEntries R prev pt es lc n₀.storage
        n₀.stateMachine n₀.observer = a
      obtain ⟨hmoves, hstorage, changes, hchanges, hfound⟩ :=
        tryAppendEntries_moves (R := R) hev hcheck ha.symm
      rw [acceptAppendEntries_of_eq _ _ _ _ _ _ ha, hchanges]
      refine (((hmoves.trans restIfCandidate_moves).trans (inert_moves ?_)).trans
        (applyConfigChanges_moves _ hfound)).trans (send_moves ?_)
      · constructor <;> rfl
      · exact .acknowledgement hev rfl hcheck hstorage
    · have htry : n₀.replication.tryAppendEntries R prev pt es lc n₀.storage n₀.stateMachine
          n₀.observer = ⟨n₀.replication, n₀.storage, n₀.stateMachine, n₀.observer, none⟩ := by
        unfold LogReplicationManager.tryAppendEntries
        rw [if_pos (by simpa using hcheck)]
      rw [acceptAppendEntries_of_eq _ _ _ _ _ _ htry]
      refine ((restIfCandidate_moves).trans (inert_moves ?_)).trans (send_moves (.rejection hev))
      constructor <;> rfl

theorem handleAppendEntries_moves {sender : NodeId} {term prev pt : Nat}
    {es : List (LogEntry P)} {lc : Nat}
    (hev : ev = .message sender (.appendEntries term prev pt es lc)) :
    Moves R ev n₀ n₀ (n₀.handleAppendEntries R sender term prev pt es lc) := by
  unfold handleAppendEntries
  split
  · rename_i h; exact stepDown_moves h
  · rename_i h; exact acceptAppendEntries_moves hev (Nat.not_lt.mp h)

/-! ## Committing -/

/-- The leader's commit rule: nothing moves, or the median is committed and applied. -/
theorem advanceCommitIndex_moves (ev : Event P) (n₀ : RaftNode P S SM) (hleader : n.role = .leader)
    {a : ApplyResult P SM}
    (ha : n.replication.advanceCommitIndex R n.storage n.stateMachine n.config n.id n.observer =
      a) :
    Moves R ev n₀ n (n.adopt a) ∧
      (∀ ch ∈ a.configChanges, ∃ e, Storage.getEntry n.storage ch.1 = some e ∧
        e.entryType = .configChange ch.2) ∧
      (n.adopt a = n ∧ a.configChanges = [] ∨
        n.replication.commitIndex < a.replication.commitIndex ∧
        a.replication.lastApplied = max n.replication.lastApplied a.replication.commitIndex ∧
        ∃ entry, Storage.getEntry n.storage a.replication.commitIndex = some entry ∧
          entry.term = Storage.currentTerm n.storage) := by
  unfold LogReplicationManager.advanceCommitIndex at ha
  dsimp only at ha
  split at ha
  · subst ha; exact ⟨.refl, by simp, Or.inl ⟨rfl, rfl⟩⟩
  · rename_i newCommit hmedian
    split at ha
    · rename_i higher
      split at ha
      · subst ha; exact ⟨.refl, by simp, Or.inl ⟨rfl, rfl⟩⟩
      · rename_i entry hentry
        split at ha
        · rename_i hterm
          subst ha
          refine ⟨(Move.commit hleader hmedian higher hentry hterm).one.trans ?_,
            applyCommitted_configChanges _ _ _ _, Or.inr ⟨higher, ?_, entry, hentry, hterm⟩⟩
          · refine applyCommitted_moves (Or.inr ?_)
            exact Option.isSome_iff_exists.mpr ⟨entry, hentry⟩
          · exact applyCommitted_lastApplied _ _ _ _
        · subst ha; exact ⟨.refl, by simp, Or.inl ⟨rfl, rfl⟩⟩
    · subst ha; exact ⟨.refl, by simp, Or.inl ⟨rfl, rfl⟩⟩

omit [Storage S P] [StateMachine SM P] in
theorem applyChange_counters (selfId : NodeId) (last : Nat) (c : ChangeResult)
    (entry : Nat × ConfigurationChange) :
    (ConfigChangeManager.applyChange R selfId last c entry).replication.commitIndex =
        c.replication.commitIndex ∧
      (ConfigChangeManager.applyChange R selfId last c entry).replication.lastApplied =
        c.replication.lastApplied := by
  unfold ConfigChangeManager.applyChange
  obtain ⟨index, change⟩ := entry
  cases change <;> dsimp only <;> split <;> split <;> (try split) <;> exact ⟨rfl, rfl⟩

omit [StateMachine SM P] in
theorem applyConfigChanges_counters (changes : ConfigChangeCollection) :
    (n.applyConfigChanges R changes).replication.commitIndex = n.replication.commitIndex ∧
      (n.applyConfigChanges R changes).replication.lastApplied = n.replication.lastApplied := by
  suffices h : ∀ (changes : ConfigChangeCollection) (c : ChangeResult),
      (changes.foldl (ConfigChangeManager.applyChange R n.id (Storage.lastLogIndex n.storage))
          c).replication.commitIndex = c.replication.commitIndex ∧
        (changes.foldl (ConfigChangeManager.applyChange R n.id (Storage.lastLogIndex n.storage))
          c).replication.lastApplied = c.replication.lastApplied by
    exact h changes _
  intro changes
  induction changes with
  | nil => intro c; exact ⟨rfl, rfl⟩
  | cons entry changes ih =>
    intro c
    rw [List.foldl_cons]
    have hone := applyChange_counters (R := R) n.id
      (Storage.lastLogIndex n.storage) c entry
    have hrest := ih (ConfigChangeManager.applyChange R n.id (Storage.lastLogIndex n.storage) c
      entry)
    exact ⟨hrest.1.trans hone.1, hrest.2.trans hone.2⟩

theorem checkAndPromote_eq (r : LogReplicationManager) (peer : NodeId) :
    r.checkAndPromoteCaughtUpServer peer = r ∨
      r.checkAndPromoteCaughtUpServer peer =
        { r with catchingUpServers := r.catchingUpServers.remove peer } := by
  unfold LogReplicationManager.checkAndPromoteCaughtUpServer
  split
  · dsimp only
    split
    · exact Or.inr rfl
    · exact Or.inl rfl
  · exact Or.inl rfl

theorem recorded_counters (r : LogReplicationManager) (sender : NodeId) (m : Nat) :
    (r.recorded R sender m).commitIndex = r.commitIndex ∧
      (r.recorded R sender m).lastApplied = r.lastApplied := by
  unfold LogReplicationManager.recorded
  generalize hr : ({ r with
    matchIndex := r.matchIndex.insert R sender m
    nextIndex := r.nextIndex.insert R sender (m + 1) } : LogReplicationManager) = r'
  rcases checkAndPromote_eq r' sender with h | h <;> rw [h, ← hr] <;> exact ⟨rfl, rfl⟩

theorem installResponse_counters (r : LogReplicationManager) (peer : NodeId) (success : Bool)
    (m : Nat) :
    (r.handleInstallSnapshotResponse R peer success m).commitIndex = r.commitIndex ∧
      (r.handleInstallSnapshotResponse R peer success m).lastApplied = r.lastApplied := by
  unfold LogReplicationManager.handleInstallSnapshotResponse
  split
  · exact recorded_counters r peer m
  · exact ⟨rfl, rfl⟩

theorem initializeLeaderState_counters {S : Type} [Storage S P] (r : LogReplicationManager)
    (peers : List NodeId) (storage : S) :
    (r.initializeLeaderState R peers storage).commitIndex = r.commitIndex ∧
      (r.initializeLeaderState R peers storage).lastApplied = r.lastApplied ∧
      (r.initializeLeaderState R peers storage).catchingUpServers = r.catchingUpServers := by
  unfold LogReplicationManager.initializeLeaderState
  dsimp only
  generalize Storage.lastLogIndex storage + 1 = next
  induction peers generalizing r with
  | nil => exact ⟨rfl, rfl, rfl⟩
  | cons peer peers ih => rw [List.foldl_cons]; exact ih _

/-- What follows a commit: the lease, the committed changes, perhaps a snapshot. -/
theorem afterCommit_moves {changes : ConfigChangeCollection} {entry : LogEntry P}
    (hleader : n.role = .leader) (hstorage : n.storage = n₀.storage)
    (hraised : n₀.replication.commitIndex < n.replication.commitIndex)
    (hentry : Storage.getEntry n.storage n.replication.commitIndex = some entry)
    (hterm : entry.term = Storage.currentTerm n.storage)
    (happlied : n.replication.lastApplied =
      max n₀.replication.lastApplied n.replication.commitIndex)
    (hfound : ∀ ch ∈ changes, ∃ e, Storage.getEntry n.storage ch.1 = some e ∧
      e.entryType = .configChange ch.2) :
    Moves R ev n₀ n
      (let n := { n with leaderLease := n.leaderLease.grant }.applyConfigChanges R changes
       if n.shouldCreateSnapshot then n.createSnapshotInternal else n) := by
  have hlease : Moves R ev n₀ n { n with leaderLease := n.leaderLease.grant } :=
    inert_moves (by constructor <;> rfl)
  have hchanged := hlease.trans (applyConfigChanges_moves changes hfound)
  have hcounters := applyConfigChanges_counters (R := R)
    (n := { n with leaderLease := n.leaderLease.grant }) changes
  have hsame : ({ n with leaderLease := n.leaderLease.grant }.applyConfigChanges R
      changes).storage = n.storage := rfl
  have hrole : changes = [] → ({ n with leaderLease := n.leaderLease.grant }.applyConfigChanges R
      changes).role = n.role := by intro h; subst h; rfl
  dsimp only
  generalize { n with leaderLease := n.leaderLease.grant }.applyConfigChanges R changes = n' at *
  split
  · refine hchanged.trans (Move.one ?_)
    refine @Move.compact _ _ _ _ _ _ _ _ _ entry ?_ ?_ ?_ ?_ ?_ ?_
    · cases changes with
      | nil => exact Or.inl ((hrole rfl).trans hleader)
      | cons ch changes =>
        obtain ⟨e, he, htype⟩ := hfound ch (by simp)
        exact Or.inr ⟨ch.1, e, by rw [hsame]; exact he, ch.2, htype⟩
    · exact hsame.trans hstorage
    · rw [hcounters.1]; exact hraised
    · rw [hcounters.1, hsame]; exact hentry
    · rw [hsame]; exact hterm
    · rw [hcounters.1, hcounters.2]; exact happlied
  · exact hchanged

theorem recordAppendEntriesResponse_moves {sender : NodeId} {success : Bool} {m : Nat}
    (hev : ev = .message sender (.appendEntriesResponse n₀.currentTerm success m))
    (hleader : n₀.role = .leader) :
    Moves R ev n₀ n₀ (n₀.recordAppendEntriesResponse R sender success m) := by
  unfold recordAppendEntriesResponse
  dsimp only
  generalize ha : n₀.replication.handleAppendEntriesResponse R sender success m n₀.storage
    n₀.stateMachine n₀.config n₀.id n₀.observer = a
  unfold LogReplicationManager.handleAppendEntriesResponse at ha
  cases success with
  | false =>
    have hback : Moves R ev n₀ n₀ (n₀.adopt a) ∧
        a.replication.commitIndex = n₀.replication.commitIndex := by
      simp only [Bool.false_eq_true, if_false] at ha
      split at ha
      · subst ha; exact ⟨(Move.backOff hev hleader _).one, rfl⟩
      · subst ha; exact ⟨.refl, rfl⟩
    rw [if_neg]
    · exact hback.1
    · simp only [adopt, hback.2, gt_iff_lt, Nat.lt_irrefl, not_false_eq_true]
  | true =>
    simp only [if_true] at ha
    split at ha
    · rename_i hm
      have hrecord := (Move.record (R := R) hev hleader hm).one
      obtain ⟨hmoves, hfound, hres⟩ := advanceCommitIndex_moves (R := R) ev n₀
        (n := n₀.withReplication (n₀.replication.recorded R sender m)) hleader ha
      have hcommit := recorded_counters (R := R) n₀.replication sender m
      have hadopt : Moves R ev n₀ n₀ (n₀.adopt a) := hrecord.trans hmoves
      rcases hres with ⟨hsame, hnil⟩ | ⟨hraised, happlied, entry, hentry, hterm⟩
      · have hc : (n₀.adopt a).replication.commitIndex = n₀.replication.commitIndex := by
          have := congrArg (fun n : RaftNode P S SM => n.replication.commitIndex) hsame
          exact this.trans hcommit.1
        rw [if_neg (by simp only [hc, gt_iff_lt, Nat.lt_irrefl, not_false_eq_true])]
        exact hadopt
      · have hraised' : n₀.replication.commitIndex < a.replication.commitIndex := by
          rw [← hcommit.1]; exact hraised
        rw [if_pos (show (n₀.adopt a).replication.commitIndex > _ from hraised')]
        refine hadopt.trans (afterCommit_moves hleader rfl hraised' hentry hterm ?_ hfound)
        rw [← hcommit.2]; exact happlied
    · subst ha
      rw [if_neg (by simp only [adopt, gt_iff_lt, Nat.lt_irrefl, not_false_eq_true])]
      exact .refl

theorem handleAppendEntriesResponse_moves {sender : NodeId} {term : Nat} {success : Bool}
    {m : Nat} (hev : ev = .message sender (.appendEntriesResponse term success m)) :
    Moves R ev n₀ n₀ (n₀.handleAppendEntriesResponse R sender term success m) := by
  unfold handleAppendEntriesResponse
  split
  · rename_i h; exact stepDown_moves h
  · split
    · rename_i h
      obtain ⟨hleader, rfl⟩ := h
      exact recordAppendEntriesResponse_moves hev hleader
    · exact .refl

/-! ## InstallSnapshot -/

/-- The node takes over what `handle_install_snapshot` left behind. -/
def takeInstall (n : RaftNode P S SM) (a : InstallResult P S SM) : RaftNode P S SM :=
  { n with
    replication := a.replication
    currentTerm := a.currentTerm
    storage := a.storage
    stateMachine := a.stateMachine
    role := a.role }

/-- The storage in which a chunk of term `T` is put. -/
def storageIn (n : RaftNode P S SM) (T : Nat) : S :=
  if n.currentTerm < T then Storage.setVotedFor (Storage.setCurrentTerm n.storage T) none
  else n.storage

omit [StateMachine SM P] in
theorem storageIn_self : n.storageIn n.currentTerm = n.storage := if_neg (Nat.lt_irrefl _)

/-- The node in the term of a snapshot, whose sender it follows. -/
def joining (n : RaftNode P S SM) (T : Nat) : RaftNode P S SM :=
  { n.resetElectionTimer with
    currentTerm := T
    storage := n.storageIn T
    role := if n.currentTerm < T ∨ n.role = .candidate then .follower else n.role }

theorem handleInstallSnapshot_of_lt {sender : NodeId} {T index term offset : Nat}
    {data : List UInt8} {done : Bool} (hlt : T < n.currentTerm) :
    n.handleInstallSnapshot sender T index term offset data done =
      n.send sender (.installSnapshotResponse n.currentTerm false) := by
  have hreset : n.resetElectionTimerIfValidTerm T = n := if_neg (Nat.not_le.mpr hlt)
  unfold handleInstallSnapshot LogReplicationManager.handleInstallSnapshot
  rw [hreset]
  dsimp only
  rw [if_pos hlt]

/-- **A snapshot of a term that counts** is refused where its index is covered, and installed chunk by
chunk elsewhere. -/
theorem handleInstallSnapshot_of_le {sender : NodeId} {T index term offset : Nat}
    {data : List UInt8} {done : Bool} (hle : n.currentTerm ≤ T) :
    n.handleInstallSnapshot sender T index term offset data done =
      if LogReplicationManager.alreadyCovered index (n.storageIn T) then
        (n.joining T).send sender (.installSnapshotResponse T false)
      else
        let a := n.replication.installChunk index term offset data done T (n.storageIn T)
          n.stateMachine (n.joining T).role
        ((n.joining T).takeInstall a).send sender a.response := by
  have hreset : n.resetElectionTimerIfValidTerm T = n.resetElectionTimer := if_pos hle
  have hstorage : (if decide (T > n.currentTerm) = true then
      Storage.setVotedFor (Storage.setCurrentTerm n.storage T) none else n.storage) =
      n.storageIn T := by
    simp only [decide_eq_true_eq, gt_iff_lt, storageIn]
  have hrole : (if decide (T > n.currentTerm) = true then NodeState.follower
      else if T = n.currentTerm ∧ n.role = .candidate then .follower else n.role) =
      (n.joining T).role := by
    simp only [joining, decide_eq_true_eq, gt_iff_lt]
    by_cases hgt : n.currentTerm < T
    · simp only [hgt, if_true, true_or]
    · have hT : T = n.currentTerm := by omega
      simp only [hT, Nat.lt_irrefl, if_false, true_and, false_or]
  unfold handleInstallSnapshot LogReplicationManager.handleInstallSnapshot
  rw [hreset]
  dsimp only [resetElectionTimer]
  rw [if_neg (Nat.not_lt.mpr hle), hstorage, hrole]
  split <;> rfl

theorem installChunk_moves {sender leaderId : NodeId} {index term offset : Nat}
    {data : List UInt8} {done : Bool}
    (hev : ev = .message sender
      (.installSnapshot n.currentTerm leaderId index term offset data done))
    (hsame : SameData n₀ n)
    (hfresh : LogReplicationManager.alreadyCovered index n.storage = false) :
    ∃ success,
      (n.replication.installChunk index term offset data done n.currentTerm n.storage
        n.stateMachine n.role).response = .installSnapshotResponse n.currentTerm success ∧
      (n.replication.installChunk index term offset data done n.currentTerm n.storage
        n.stateMachine n.role).currentTerm = n.currentTerm ∧
      Moves R ev n₀ n (n.takeInstall (n.replication.installChunk index term offset data done
        n.currentTerm n.storage n.stateMachine n.role)) := by
  have hstore := fun h => (Move.storeChunk (R := R) hev hsame hfresh h).one
  unfold LogReplicationManager.installChunk
  dsimp only
  cases hresult : (Storage.applySnapshotChunk n.storage offset data done index term).2 with
  | error e => exact ⟨false, rfl, rfl, hstore (Or.inl ⟨e, hresult⟩)⟩
  | ok u =>
    cases done with
    | false => exact ⟨true, rfl, rfl, hstore (Or.inr (Or.inl rfl))⟩
    | true =>
      cases hload : Storage.loadSnapshot
          (Storage.applySnapshotChunk n.storage offset data true index term).1 with
      | none =>
        simp only [if_true]
        exact ⟨true, rfl, trivial, hstore (Or.inr (Or.inr hload))⟩
      | some snapshot =>
        simp only [if_true]
        exact ⟨true, rfl, trivial, (Move.install hev hsame hfresh hresult hload).one⟩

theorem joining_moves (R : Realization) (ev : Event P) {T : Nat} (h : n₀.currentTerm ≤ T) :
    Moves R ev n₀ n₀ (n₀.joining T) ∧ SameData n₀ (n₀.joining T) := by
  rcases Nat.eq_or_lt_of_le h with rfl | hlt
  · have hnode : n₀.joining n₀.currentTerm =
        { n₀.resetElectionTimer with
          role := if n₀.role = .candidate then .follower else n₀.role } := by
      simp [joining, storageIn, resetElectionTimer]
    rw [hnode]
    exact ⟨restIfCandidate_moves.trans (inert_moves (by constructor <;> rfl)), Or.inl rfl, rfl, rfl⟩
  · have hnode : n₀.joining T = (n₀.inTerm T).resetElectionTimer := by
      simp [joining, storageIn, inTerm, resetElectionTimer, hlt]
    rw [hnode]
    exact ⟨(Move.adoptTerm hlt).one.trans (inert_moves (by constructor <;> rfl)), Or.inr rfl, rfl,
      rfl⟩

theorem handleInstallSnapshot_moves {sender leaderId : NodeId} {T index term offset : Nat}
    {data : List UInt8} {done : Bool}
    (hev : ev = .message sender (.installSnapshot T leaderId index term offset data done)) :
    Moves R ev n₀ n₀ (n₀.handleInstallSnapshot sender T index term offset data done) := by
  rcases Nat.lt_or_ge T n₀.currentTerm with hlt | hle
  · rw [handleInstallSnapshot_of_lt hlt]
    exact send_moves (.chunkResponse hev)
  · obtain ⟨hmoves, hsame⟩ := joining_moves R ev hle
    rw [handleInstallSnapshot_of_le hle]
    split
    · exact hmoves.trans (send_moves (.chunkResponse hev))
    · rename_i hcovered
      let n := n₀.joining T
      let a := n.replication.installChunk index term offset data done n.currentTerm n.storage
        n.stateMachine n.role
      have hchunk : ∃ success, a.response = .installSnapshotResponse n.currentTerm success ∧
          a.currentTerm = n.currentTerm ∧ Moves R ev n₀ n (n.takeInstall a) :=
        installChunk_moves hev hsame (Bool.eq_false_iff.mpr hcovered)
      obtain ⟨success, hresp, hterm, hinstall⟩ := hchunk
      show Moves R ev n₀ n₀ ((n.takeInstall a).send sender a.response)
      rw [hresp, ← hterm]
      exact (hmoves.trans hinstall).trans (send_moves (.chunkResponse hev))

theorem handleInstallSnapshotResponse_moves {sender : NodeId} {term : Nat} {success : Bool}
    (hev : ev = .message sender (.installSnapshotResponse term success)) :
    Moves R ev n₀ n₀ (n₀.handleInstallSnapshotResponse R sender term success) := by
  unfold handleInstallSnapshotResponse
  split
  · rename_i h; exact stepDown_moves h
  · split
    · rename_i h
      obtain ⟨hleader, rfl⟩ := h
      split
      · exact .refl
      · rename_i m hm; exact (Move.recordSnapshot hev hleader hm).one
    · exact .refl

/-! ## Submitting -/

theorem submitEntry_of_leader (entryType : EntryType P) (hleader : n.role = .leader) :
    (n.submitEntry R entryType).2 =
      .ok (Storage.lastLogIndex (Storage.appendEntries n.storage [⟨n.currentTerm, entryType⟩])) := by
  unfold submitEntry
  rw [if_neg (not_not_intro hleader)]

/-- What a leader does once it has appended the entry. -/
theorem submitted_moves (entryType : EntryType P) (hleader : n₀.role = .leader) (ev : Event P) :
    Moves R ev n₀
      (n₀.withStorage (Storage.appendEntries n₀.storage [⟨n₀.currentTerm, entryType⟩]))
      (n₀.submitEntry R entryType).1 := by
  unfold submitEntry
  rw [if_neg (not_not_intro hleader)]
  dsimp only
  generalize hn : n₀.withStorage
    (Storage.appendEntries n₀.storage [⟨n₀.currentTerm, entryType⟩]) = n
  have hlead : n.role = .leader := by rw [← hn]; exact hleader
  split
  · generalize ha : n.replication.advanceCommitIndex R n.storage n.stateMachine n.config n.id
      n.observer = a
    obtain ⟨hmoves, hfound, _⟩ := advanceCommitIndex_moves (R := R) ev n₀ hlead ha
    have hchanged := hmoves.trans (applyConfigChanges_moves (n := n.adopt a) _ hfound)
    have hspeaks : ((n.adopt a).applyConfigChanges R a.configChanges).role = .leader ∨
        ((n.adopt a).applyConfigChanges R a.configChanges).HoldsConfigChange := by
      cases hcs : a.configChanges with
      | nil => exact Or.inl hlead
      | cons ch changes =>
        obtain ⟨e, he, htype⟩ := hfound ch (by simp [hcs])
        exact Or.inr ⟨ch.1, e, he, ch.2, htype⟩
    have hall := hchanged.trans (sendEntries_moves hspeaks)
    subst hn ha
    exact hall
  · subst hn
    exact sendEntries_moves (Or.inl hleader)

theorem submitEntry_moves {entryType : EntryType P} (hsub : Submits ev entryType) :
    Moves R ev n₀ n₀ (n₀.submitEntry R entryType).1 := by
  by_cases hleader : n₀.role = .leader
  · exact (Move.append hleader hsub).one.trans (submitted_moves _ hleader ev)
  · unfold submitEntry
    rw [if_pos hleader]

/-! ## Every event -/

/-- **Handling an event is a chain of moves.** -/
theorem onEvent_moves (R : Realization) (n : RaftNode P S SM) (ev : Event P) :
    Moves R ev n n (n.onEvent R ev) := by
  cases ev with
  | timerFired kind =>
    cases kind with
    | election => exact handleElectionTimer_moves rfl
    | heartbeat => exact handleHeartbeatTimer_moves
  | clientCommand payload => exact submitEntry_moves (.command payload)
  | configChange change => exact submitEntry_moves (.configChange change)
  | message sender msg =>
    cases msg with
    | requestVote => exact handleVoteRequest_moves rfl
    | requestVoteResponse => exact handleVoteResponse_moves rfl
    | preVoteRequest => exact handlePreVoteRequest_moves rfl
    | preVoteResponse => exact handlePreVoteResponse_moves rfl
    | appendEntries => exact handleAppendEntries_moves rfl
    | appendEntriesResponse => exact handleAppendEntriesResponse_moves rfl
    | installSnapshot => exact handleInstallSnapshot_moves rfl
    | installSnapshotResponse => exact handleInstallSnapshotResponse_moves rfl

/-! ## What no move changes -/

theorem Move.id_eq (h : Move R ev n₀ n n') : n'.id = n.id := by
  cases h with
  | inert h => exact h.id
  | campaign => rw [broadcast_eq]; rfl
  | _ => rfl

theorem Moves.id_eq (h : Moves R ev n₀ n n') : n'.id = n.id := by
  induction h with
  | refl => rfl
  | tail _ hlast ih => exact hlast.id_eq.trans ih

theorem Move.currentTerm_le (h : Move R ev n₀ n n') : n.currentTerm ≤ n'.currentTerm := by
  cases h with
  | inert h => exact Nat.le_of_eq h.currentTerm.symm
  | adoptTerm higher => exact Nat.le_of_lt higher
  | campaign => rw [broadcast_eq]; exact Nat.le_succ _
  | _ => exact Nat.le_refl _

theorem Moves.currentTerm_le (h : Moves R ev n₀ n n') : n.currentTerm ≤ n'.currentTerm := by
  induction h with
  | refl => exact Nat.le_refl _
  | tail _ hlast ih => exact ih.trans hlast.currentTerm_le

end RaftNode

end MetalRaft
