import MetalRaft.Moves

/-!
# What handling an event comes to

* `batch` — the entries that the apply loop takes from a log; `applyLoop_eq` says what the loop
  leaves behind in terms of them.
* `Face` — the part of a node that leadership, reads and membership rest on: role, term, lease,
  configuration, counters, state machine and the entries applied so far.
* `Outcome` — everything that handling an event may do to it; `onEvent_outcome` goes through the
  handlers once.
-/

set_option autoImplicit false

namespace MetalRaft

variable {P S SM : Type}

/-- The term that a message carries. -/
def RaftMsg.term : RaftMsg P → Nat
  | .requestVote term _ _ _ | .requestVoteResponse term _ | .preVoteRequest term _ _ _
  | .preVoteResponse term _ | .appendEntries term _ _ _ _ | .appendEntriesResponse term _ _
  | .installSnapshot term _ _ _ _ _ _ | .installSnapshotResponse term _ => term

/-- The message belongs to a pre-vote. -/
def RaftMsg.isPreVote : RaftMsg P → Bool
  | .preVoteRequest _ _ _ _ | .preVoteResponse _ _ => true
  | _ => false

/-- The configuration change that an entry carries. -/
def LogEntry.change (e : LogEntry P) : Option ConfigurationChange :=
  match e.entryType with
  | .command _ => none
  | .configChange change => some change

/-! ## The apply loop -/

namespace LogReplicationManager

variable [Storage S P] [StateMachine SM P] {R : Realization}

/-- The entries at the `fuel` indexes above `i`, each with its index; an index without an entry is
passed over. -/
def batch (storage : S) : Nat → Nat → List (Nat × LogEntry P)
  | _, 0 => []
  | i, fuel + 1 =>
    match Storage.getEntry storage (i + 1) with
    | none => batch storage (i + 1) fuel
    | some e => (i + 1, e) :: batch storage (i + 1) fuel

/-- The configuration changes among the entries of a batch. -/
def changesIn (b : List (Nat × LogEntry P)) : List (Nat × ConfigurationChange) :=
  b.filterMap fun x => x.2.change.map (x.1, ·)

omit [StateMachine SM P] in
theorem mem_batch {storage : S} {x : Nat × LogEntry P} :
    ∀ {fuel i : Nat}, x ∈ batch storage i fuel →
      i < x.1 ∧ x.1 ≤ i + fuel ∧ Storage.getEntry storage x.1 = some x.2
  | 0, _, h => by cases h
  | fuel + 1, i, h => by
    unfold batch at h
    split at h
    · obtain ⟨hlt, hle, hx⟩ := mem_batch h
      exact ⟨by omega, by omega, hx⟩
    · rename_i e he
      rcases List.mem_cons.mp h with rfl | h
      · exact ⟨by simp, by simp, he⟩
      · obtain ⟨hlt, hle, hx⟩ := mem_batch h
        exact ⟨by omega, by omega, hx⟩

omit [Storage S P] [StateMachine SM P] in
theorem mem_changesIn {b : List (Nat × LogEntry P)} {i : Nat} {change : ConfigurationChange} :
    (i, change) ∈ changesIn b ↔ ∃ e, (i, e) ∈ b ∧ e.change = some change := by
  unfold changesIn
  simp only [List.mem_filterMap, Option.map_eq_some_iff, Prod.mk.injEq, Prod.exists]
  constructor
  · rintro ⟨j, e, hmem, ch, hch, rfl, rfl⟩
    exact ⟨e, hmem, hch⟩
  · rintro ⟨e, hmem, hch⟩
    exact ⟨i, e, hmem, change, hch, rfl, rfl⟩

omit [StateMachine SM P] in
theorem batch_of_none {storage : S} {i : Nat} (h : Storage.getEntry storage (i + 1) = none)
    (fuel : Nat) : batch storage i (fuel + 1) = batch storage (i + 1) fuel := by
  rw [batch, h]

omit [StateMachine SM P] in
theorem batch_of_some {storage : S} {i : Nat} {e : LogEntry P}
    (h : Storage.getEntry storage (i + 1) = some e) (fuel : Nat) :
    batch storage i (fuel + 1) = (i + 1, e) :: batch storage (i + 1) fuel := by
  rw [batch, h]

omit [StateMachine SM P] in
theorem batch_add {storage : S} :
    ∀ {m k i : Nat}, batch storage i (m + k) = batch storage i m ++ batch storage (i + m) k
  | 0, k, i => by simp [batch]
  | m + 1, k, i => by
    rw [Nat.succ_add, ← Nat.add_assoc]
    cases he : Storage.getEntry storage (i + 1) with
    | none => rw [batch_of_none he, batch_of_none he, batch_add, Nat.add_right_comm]
    | some e =>
      rw [batch_of_some he, batch_of_some he, batch_add, List.cons_append, Nat.add_right_comm]

omit [StateMachine SM P] in
/-- What is applied up to `j` and then up to `k`. -/
theorem batch_split (storage : S) (i : Nat) {j k : Nat} (h : j ≤ k) :
    batch storage i (k - i) =
      batch storage i (j - i) ++ batch storage (max i j) (k - max i j) := by
  rw [show k - i = j - i + (k - max i j) by omega, batch_add, show i + (j - i) = max i j by omega]

omit [StateMachine SM P] in
theorem batch_congr {storage storage' : S} :
    ∀ {fuel i : Nat}, (∀ j, i < j → j ≤ i + fuel →
      Storage.getEntry storage' j = Storage.getEntry storage j) →
        batch storage' i fuel = batch storage i fuel
  | 0, _, _ => rfl
  | fuel + 1, i, h => by
    simp only [batch]
    rw [h (i + 1) (by omega) (by omega), batch_congr (i := i + 1) fun j hlt hle =>
      h j (by omega) (by omega)]

omit [Storage S P] [StateMachine SM P] in
theorem changesIn_append (b b' : List (Nat × LogEntry P)) :
    changesIn (b ++ b') = changesIn b ++ changesIn b' := List.filterMap_append

theorem applyOne_of_none {storage : S} {st : ApplyState P SM}
    (h : Storage.getEntry storage (st.lastApplied + 1) = none) :
    applyOne R storage st = { st with lastApplied := st.lastApplied + 1 } := by
  simp only [applyOne, h]

theorem applyOne_of_some {storage : S} {st : ApplyState P SM} {e : LogEntry P}
    (h : Storage.getEntry storage (st.lastApplied + 1) = some e) :
    applyOne R storage st =
      ⟨st.lastApplied + 1, e.applyTo st.stateMachine,
        ⟨st.observer.applied ++ [(st.lastApplied + 1, e)]⟩,
        (changesIn [(st.lastApplied + 1, e)]).foldl (pushWithin R.configChanges)
          st.configChanges⟩ := by
  obtain ⟨term, entryType⟩ := e
  simp only [applyOne, h]
  cases entryType <;> rfl

/-- What the apply loop leaves behind. -/
theorem applyLoop_eq (storage : S) :
    ∀ (fuel : Nat) (st : ApplyState P SM),
      applyLoop R storage fuel st =
        ⟨st.lastApplied + fuel,
          (batch storage st.lastApplied fuel).foldl (fun sm x => x.2.applyTo sm) st.stateMachine,
          ⟨st.observer.applied ++ batch storage st.lastApplied fuel⟩,
          (changesIn (batch storage st.lastApplied fuel)).foldl (pushWithin R.configChanges)
            st.configChanges⟩
  | 0, st => by simp [applyLoop, batch, changesIn]
  | fuel + 1, st => by
    unfold applyLoop
    rw [applyLoop_eq storage fuel]
    have hadd : st.lastApplied + 1 + fuel = st.lastApplied + (fuel + 1) := by omega
    cases he : Storage.getEntry storage (st.lastApplied + 1) with
    | none => rw [batch_of_none he, applyOne_of_none he, hadd]
    | some e =>
      rw [batch_of_some he, applyOne_of_some he, hadd, ← List.singleton_append (l := batch _ _ _)]
      simp only [changesIn, List.foldl_append, List.filterMap_append, List.foldl_cons,
        List.foldl_nil, List.append_assoc]

/-- What `apply_committed_entries` leaves behind. -/
theorem applyCommittedEntries_eq (r : LogReplicationManager) (storage : S) (sm : SM)
    (observer : Observer P) :
    r.applyCommittedEntries R storage sm observer =
      let b := batch storage r.lastApplied (r.commitIndex - r.lastApplied)
      ⟨{ r with lastApplied := max r.lastApplied r.commitIndex },
        b.foldl (fun sm x => x.2.applyTo sm) sm, ⟨observer.applied ++ b⟩,
        (changesIn b).foldl (pushWithin R.configChanges) []⟩ := by
  unfold applyCommittedEntries
  rw [applyLoop_eq]
  simp only [ApplyResult.mk.injEq, LogReplicationManager.mk.injEq, and_true, true_and]
  omega

end LogReplicationManager

/-! ## Configuration changes -/

namespace ConfigChangeManager

variable {R : Realization}

/-- The members after a change. -/
def changeMembers (R : Realization) (members : List NodeId) : ConfigurationChange → List NodeId
  | .addServer nodeId => pushWithin R.nodes (members.foldl (pushWithin R.nodes) []) nodeId
  | .removeServer nodeId => (members.filter (· != nodeId)).foldl (pushWithin R.nodes) []

/-- The manager after a change found at an index. -/
def changed (R : Realization) (m : ConfigChangeManager) (entry : Nat × ConfigurationChange) :
    ConfigChangeManager :=
  ⟨⟨changeMembers R m.config.members entry.2⟩,
    if m.pendingChange = some entry.1 then none else m.pendingChange⟩

/-- `apply_changes` forgets the tracked index last, whatever the change was. -/
theorem forget_pending (c : ChangeResult) (i : Nat) :
    (if c.manager.pendingChange = some i then
        { c with manager := { c.manager with pendingChange := none } } else c) =
      { c with
        manager :=
          ⟨c.manager.config,
            if c.manager.pendingChange = some i then none else c.manager.pendingChange⟩ } := by
  split <;> rfl

theorem applyChange_manager (selfId : NodeId) (last : Nat) (c : ChangeResult)
    (entry : Nat × ConfigurationChange) :
    (applyChange R selfId last c entry).manager = c.manager.changed R entry := by
  unfold applyChange changed
  simp only [forget_pending]
  split
  · rename_i h
    split <;> simp only [h, changeMembers]
  · rename_i h
    split <;> split <;> simp only [h, changeMembers]

theorem applyChange_role (selfId : NodeId) (last : Nat) (c : ChangeResult)
    (entry : Nat × ConfigurationChange) :
    (applyChange R selfId last c entry).role =
      if entry.2 = .removeServer selfId then .follower else c.role := by
  unfold applyChange
  simp only [forget_pending]
  split
  · rename_i h
    split <;> simp [h]
  · rename_i h
    split <;> split <;> simp [*]

theorem applyChanges_manager (m : ConfigChangeManager) (changes : ConfigChangeCollection)
    (selfId : NodeId) (last : Nat) (r : LogReplicationManager) (role : NodeState) :
    (applyChanges R m changes selfId last r role).manager = changes.foldl (changed R) m := by
  unfold applyChanges
  suffices h : ∀ c : ChangeResult, (changes.foldl (applyChange R selfId last) c).manager =
      changes.foldl (changed R) c.manager from h _
  induction changes with
  | nil => exact fun _ => rfl
  | cons entry changes ih =>
    intro c
    rw [List.foldl_cons, List.foldl_cons, ih, applyChange_manager]

theorem applyChanges_role (m : ConfigChangeManager) (changes : ConfigChangeCollection)
    (selfId : NodeId) (last : Nat) (r : LogReplicationManager) (role : NodeState) :
    (applyChanges R m changes selfId last r role).role =
      if .removeServer selfId ∈ changes.map (·.2) then .follower else role := by
  unfold applyChanges
  suffices h : ∀ c : ChangeResult, (changes.foldl (applyChange R selfId last) c).role =
      if .removeServer selfId ∈ changes.map (·.2) then .follower else c.role from h _
  induction changes with
  | nil => exact fun _ => rfl
  | cons entry changes ih =>
    intro c
    rw [List.foldl_cons, ih, applyChange_role, List.map_cons]
    by_cases hentry : entry.2 = .removeServer selfId
    · simp [hentry]
    · have hne : ConfigurationChange.removeServer selfId ≠ entry.2 := fun h => hentry h.symm
      simp only [hentry, if_false, List.mem_cons, hne, false_or]

end ConfigChangeManager

/-! ## The face of a node -/

/-- The part of a node that leadership, reads and membership rest on. -/
structure Face (P SM : Type) where
  role : NodeState
  currentTerm : Nat
  leaderLease : LeaderLease
  configManager : ConfigChangeManager
  commitIndex : Nat
  lastApplied : Nat
  stateMachine : SM
  observer : Observer P

namespace Face

variable [StateMachine SM P]

/-- The changes of a batch that fit their collection. -/
def collected (R : Realization) (b : List (Nat × LogEntry P)) : ConfigChangeCollection :=
  (LogReplicationManager.changesIn b).foldl (pushWithin R.configChanges) []

/-- Index `c` is committed and the entries of batch `b` are applied, on the node `id`. -/
def commit (R : Realization) (id : NodeId) (f : Face P SM) (c : Nat)
    (b : List (Nat × LogEntry P)) : Face P SM :=
  { f with
    role := if .removeServer id ∈ (collected R b).map (·.2) then .follower else f.role
    configManager := (collected R b).foldl (ConfigChangeManager.changed R) f.configManager
    commitIndex := c
    lastApplied := max f.lastApplied c
    stateMachine := b.foldl (fun sm x => x.2.applyTo sm) f.stateMachine
    observer := ⟨f.observer.applied ++ b⟩ }

/-- The node follows a leader of term `T`; in its own term only a candidate changes its role. -/
def follow (f : Face P SM) (T : Nat) : Face P SM :=
  { f with
    role := if f.currentTerm < T ∨ f.role = .candidate then .follower else f.role
    currentTerm := T }

def stepDown (f : Face P SM) (T : Nat) : Face P SM :=
  { f with role := .follower, currentTerm := T, leaderLease := f.leaderLease.revoke }

omit [StateMachine SM P] in
theorem follow_leader {f : Face P SM} {T : Nat} :
    (f.follow T).role = .leader ↔ f.role = .leader ∧ ¬ f.currentTerm < T := by
  unfold follow
  dsimp only
  by_cases h : f.currentTerm < T ∨ f.role = .candidate
  · rw [if_pos h]
    constructor
    · intro hrole; cases hrole
    · rintro ⟨hrole, hlt⟩
      rcases h with h | h
      · exact absurd h hlt
      · rw [hrole] at h; cases h
  · rw [if_neg h]
    exact ⟨fun hrole => ⟨hrole, fun hlt => h (Or.inl hlt)⟩, fun hrole => hrole.1⟩

omit [StateMachine SM P] in
theorem follow_ne_candidate (f : Face P SM) (T : Nat) : (f.follow T).role ≠ .candidate := by
  unfold follow
  dsimp only
  by_cases h : f.currentTerm < T ∨ f.role = .candidate
  · rw [if_pos h]
    decide
  · rw [if_neg h]
    exact fun hrole => h (Or.inr hrole)

theorem commit_ne_candidate {R : Realization} {id : NodeId} {f : Face P SM} {c : Nat}
    {b : List (Nat × LogEntry P)} (h : f.role ≠ .candidate) :
    (f.commit R id c b).role ≠ .candidate := by
  unfold commit
  dsimp only
  split
  · decide
  · exact h

theorem commit_leader {R : Realization} {id : NodeId} {f : Face P SM} {c : Nat}
    {b : List (Nat × LogEntry P)} : (f.commit R id c b).role = .leader ↔
      f.role = .leader ∧ .removeServer id ∉ (collected R b).map (·.2) := by
  unfold commit
  dsimp only
  split
  · rename_i h
    constructor
    · intro hrole; cases hrole
    · rintro ⟨_, hnot⟩; exact absurd h hnot
  · rename_i h
    exact ⟨fun hrole => ⟨hrole, h⟩, fun hrole => hrole.1⟩

end Face

namespace RaftNode

open LogReplicationManager

variable [Storage S P] [StateMachine SM P] {R : Realization} {ev : Event P}
  {n n' : RaftNode P S SM}

omit [Storage S P] [StateMachine SM P] in
def face (n : RaftNode P S SM) : Face P SM :=
  ⟨n.role, n.currentTerm, n.leaderLease, n.configManager, n.replication.commitIndex,
    n.replication.lastApplied, n.stateMachine, n.observer⟩

/-- The event is a message of a leader that the node has to follow. -/
def LeaderSpeaks (n : RaftNode P S SM) : Event P → Prop
  | .message _ (.appendEntries term _ _ _ _) => term = n.currentTerm
  | .message _ (.installSnapshot term _ _ _ _ _ _) => n.currentTerm ≤ term
  | _ => False

/-- What handling event `ev` may do to the face of node `n`. -/
inductive Outcome (R : Realization) (ev : Event P) (n : RaftNode P S SM) : Face P SM → Prop
  | keeps (calm : ¬ n.LeaderSpeaks ev) : Outcome R ev n n.face
  | stepsDown {sender : NodeId} {msg : RaftMsg P} (asked : ev = .message sender msg)
      (higher : n.currentTerm < msg.term) : Outcome R ev n (n.face.stepDown msg.term)
  | yields {sender : NodeId} {prev pt : Nat} {es : List (LogEntry P)} {lc : Nat}
      (asked : ev = .message sender (.appendEntries n.currentTerm prev pt es lc)) :
      Outcome R ev n (n.face.follow n.currentTerm)
  | learns {sender : NodeId} {prev pt : Nat} {es : List (LogEntry P)} {lc c : Nat} {storage : S}
      (asked : ev = .message sender (.appendEntries n.currentTerm prev pt es lc))
      (consistent : checkLogConsistency prev pt n.storage = true)
      (placed : storage = placeEntries prev es n.storage)
      (higher : n.replication.commitIndex < lc) (reached : c = min lc (Storage.lastLogIndex storage)) :
      Outcome R ev n
        ((n.face.follow n.currentTerm).commit R n.id c
          (batch storage n.replication.lastApplied (c - n.replication.lastApplied)))
  | commits {sender : NodeId} {m c : Nat} {e : LogEntry P} (leader : n.role = .leader)
      (asked : ev = .message sender (.appendEntriesResponse n.currentTerm true m))
      (higher : n.replication.commitIndex < c)
      (found : Storage.getEntry n.storage c = some e)
      (term : e.term = Storage.currentTerm n.storage) :
      Outcome R ev n
        ({ n.face with leaderLease := n.leaderLease.grant }.commit R n.id c
          (batch n.storage n.replication.lastApplied (c - n.replication.lastApplied)))
  | commitsAlone {entryType : EntryType P} {storage : S} {c : Nat} {e : LogEntry P}
      (leader : n.role = .leader) (asked : Submits ev entryType)
      (alone : n.config.members.length ≤ 1)
      (appended : storage = Storage.appendEntries n.storage [⟨n.currentTerm, entryType⟩])
      (higher : n.replication.commitIndex < c)
      (found : Storage.getEntry storage c = some e)
      (term : e.term = Storage.currentTerm storage) :
      Outcome R ev n
        (n.face.commit R n.id c
          (batch storage n.replication.lastApplied (c - n.replication.lastApplied)))
  | hearsSnapshot {sender leaderId : NodeId} {T index term offset : Nat} {data : List UInt8}
      {done : Bool}
      (asked : ev = .message sender (.installSnapshot T leaderId index term offset data done))
      (reached : n.currentTerm ≤ T) : Outcome R ev n (n.face.follow T)
  | installs {sender leaderId : NodeId} {T index term offset : Nat} {data : List UInt8}
      {result : S × Except SnapshotError Unit} {snapshot : Snapshot}
      (asked : ev = .message sender (.installSnapshot T leaderId index term offset data true))
      (reached : n.currentTerm ≤ T)
      (fresh : alreadyCovered index (n.storageIn T) = false)
      (stored : result = Storage.applySnapshotChunk (n.storageIn T) offset data true index term)
      (ok : result.2 = .ok ()) (loaded : Storage.loadSnapshot result.1 = some snapshot) :
      Outcome R ev n
        { n.face.follow T with
          commitIndex := max n.replication.commitIndex index
          lastApplied := max n.replication.lastApplied index
          stateMachine := (StateMachine.restoreFromSnapshot n.stateMachine snapshot.data).1 }
  | campaigns (cause : n.StartsElection R ev) (peers : 1 < n.config.members.length) :
      Outcome R ev n { n.face with role := .candidate, currentTerm := n.currentTerm + 1 }
  | leadsAlone (cause : n.StartsElection R ev) (alone : n.config.members.length ≤ 1) :
      Outcome R ev n { n.face with role := .leader, currentTerm := n.currentTerm + 1 }
  | wins {sender : NodeId} (candidate : n.role = .candidate)
      (asked : ev = .message sender (.requestVoteResponse n.currentTerm true)) :
      Outcome R ev n { n.face with role := .leader }

/-! ## The handlers -/

omit [Storage S P] [StateMachine SM P] in
@[simp] theorem face_send (target : NodeId) (msg : RaftMsg P) :
    (n.send target msg).face = n.face := rfl

omit [Storage S P] [StateMachine SM P] in
@[simp] theorem face_broadcast (msg : RaftMsg P) : (n.broadcast R msg).face = n.face := by
  rw [broadcast_eq]
  rfl

omit [StateMachine SM P] in
@[simp] theorem face_sendAppendEntriesToFollowers :
    (n.sendAppendEntriesToFollowers R).face = n.face := by
  rw [sendAppendEntriesToFollowers_eq]
  rfl

omit [StateMachine SM P] in
theorem face_stepDown (T : Nat) : (n.stepDown T).face = n.face.stepDown T := rfl

omit [StateMachine SM P] in
theorem face_becomeLeader : (n.becomeLeader R).face = { n.face with role := .leader } := by
  unfold becomeLeader
  rw [face_sendAppendEntriesToFollowers]
  have h := initializeLeaderState_counters (R := R) n.replication n.config.members n.storage
  unfold face
  simp only [h.1, h.2.1]

omit [StateMachine SM P] in
theorem face_startElection :
    (n.startElection R).face =
      { n.face with
        role := if n.config.members.length ≤ 1 then .leader else .candidate
        currentTerm := n.currentTerm + 1 } := by
  unfold startElection
  dsimp only
  rw [broadcast_eq]
  split
  · rename_i h
    rw [face_becomeLeader]
    have h' : n.config.members.length ≤ 1 := h
    rw [if_pos h']
    rfl
  · rename_i h
    have h' : ¬ n.config.members.length ≤ 1 := h
    rw [if_neg h']
    rfl

omit [StateMachine SM P] in
theorem face_applyConfigChanges (changes : ConfigChangeCollection) :
    (n.applyConfigChanges R changes).face =
      { n.face with
        role := if .removeServer n.id ∈ changes.map (·.2) then .follower else n.role
        configManager := changes.foldl (ConfigChangeManager.changed R) n.configManager } := by
  have h := applyConfigChanges_counters (R := R) (n := n) changes
  unfold face
  rw [h.1, h.2]
  unfold applyConfigChanges
  simp only [ConfigChangeManager.applyChanges_manager, ConfigChangeManager.applyChanges_role]

/-- Applying what is committed, and then the changes among it. -/
theorem face_apply {r : LogReplicationManager} {storage : S} {a : ApplyResult P SM}
    (ha : r.applyCommittedEntries R storage n.stateMachine n.observer = a)
    (hr : r.lastApplied = n.replication.lastApplied) :
    ((n.adopt a).applyConfigChanges R a.configChanges).face =
      n.face.commit R n.id r.commitIndex
        (batch storage n.replication.lastApplied (r.commitIndex - n.replication.lastApplied)) := by
  subst ha
  rw [face_applyConfigChanges, applyCommittedEntries_eq, hr]
  rfl

/-- The commit rule leaves everything as it is, or raises the commit index to an entry of the
stored term and applies. -/
theorem advanceCommitIndex_cases {r : LogReplicationManager} {storage : S} {sm : SM}
    {config : Configuration} {id : NodeId} {observer : Observer P} {a : ApplyResult P SM}
    (ha : r.advanceCommitIndex R storage sm config id observer = a) :
    a = ⟨r, sm, observer, []⟩ ∨
      ∃ c e, r.commitIndex < c ∧ Storage.getEntry storage c = some e ∧
        e.term = Storage.currentTerm storage ∧
        { r with commitIndex := c }.applyCommittedEntries R storage sm observer = a := by
  unfold advanceCommitIndex at ha
  dsimp only at ha
  split at ha
  · exact Or.inl ha.symm
  · rename_i c hmedian
    split at ha
    · rename_i hhigher
      split at ha
      · exact Or.inl ha.symm
      · rename_i e he
        split at ha
        · rename_i hterm
          exact Or.inr ⟨c, e, hhigher, he, hterm, ha⟩
        · exact Or.inl ha.symm
    · exact Or.inl ha.symm

/-- A leader that runs the commit rule and applies what it commits. -/
theorem face_advance {a : ApplyResult P SM}
    (ha : n.replication.advanceCommitIndex R n.storage n.stateMachine n.config n.id n.observer =
      a) :
    ((n.adopt a).applyConfigChanges R a.configChanges).face = n.face ∨
      ∃ c e, n.replication.commitIndex < c ∧ Storage.getEntry n.storage c = some e ∧
        e.term = Storage.currentTerm n.storage ∧
        ((n.adopt a).applyConfigChanges R a.configChanges).face =
          n.face.commit R n.id c
            (batch n.storage n.replication.lastApplied (c - n.replication.lastApplied)) := by
  rcases advanceCommitIndex_cases ha with ha | ⟨c, e, hhigher, he, hterm, ha⟩
  · subst ha
    exact Or.inl rfl
  · exact Or.inr ⟨c, e, hhigher, he, hterm, face_apply ha rfl⟩

theorem outcome_handleAppendEntries {sender : NodeId} {term prev pt : Nat}
    {es : List (LogEntry P)} {lc : Nat}
    (hev : ev = .message sender (.appendEntries term prev pt es lc)) :
    Outcome R ev n (n.handleAppendEntries R sender term prev pt es lc).face := by
  unfold handleAppendEntries
  split
  · rename_i h
    exact .stepsDown hev h
  · rename_i hterm
    rcases Nat.lt_or_eq_of_le (Nat.not_lt.mp hterm) with hlt | rfl
    · have hge : ¬ term ≥ n.currentTerm := by omega
      unfold acceptAppendEntries resetElectionTimerIfValidTerm
      simp only [hge, if_false, handleAppendEntries_of_lt hlt]
      refine .keeps ?_
      rw [hev]
      exact Nat.ne_of_lt hlt
    · generalize ha : n.replication.tryAppendEntries R prev pt es lc n.storage n.stateMachine
        n.observer = a
      rw [acceptAppendEntries_of_eq _ _ _ _ _ _ ha, face_send]
      have hrole : n.face.follow n.currentTerm =
          { n.face with role := if n.role = .candidate then .follower else n.role } := by
        unfold Face.follow
        simp only [face, Nat.lt_irrefl, false_or]
      have hquiet : Outcome R ev n
          { n.face with role := if n.role = .candidate then .follower else n.role } := by
        rw [← hrole]
        exact .yields hev
      unfold tryAppendEntries at ha
      split at ha
      · subst ha
        exact hquiet
      · rename_i hcheck
        dsimp only at ha
        split at ha
        · rename_i hlc
          have hout := Outcome.learns (R := R) hev (by simpa using hcheck) rfl hlc rfl
          rw [hrole] at hout
          subst ha
          rw [applyCommittedEntries_eq]
          simp only [Option.getD_some, face_applyConfigChanges]
          exact hout
        · subst ha
          exact hquiet

theorem outcome_recordAppendEntriesResponse {sender : NodeId} {success : Bool} {m : Nat}
    (hev : ev = .message sender (.appendEntriesResponse n.currentTerm success m))
    (hleader : n.role = .leader) :
    Outcome R ev n (n.recordAppendEntriesResponse R sender success m).face := by
  have hcalm : ¬ n.LeaderSpeaks ev := by rw [hev]; exact fun h => h
  unfold recordAppendEntriesResponse
  dsimp only
  generalize ha : n.replication.handleAppendEntriesResponse R sender success m n.storage
    n.stateMachine n.config n.id n.observer = a
  unfold LogReplicationManager.handleAppendEntriesResponse at ha
  have hsame : ∀ {r : LogReplicationManager}, r.commitIndex = n.replication.commitIndex →
      r.lastApplied = n.replication.lastApplied → a = ⟨r, n.stateMachine, n.observer, []⟩ →
      Outcome R ev n
        (if (n.adopt a).replication.commitIndex > n.replication.commitIndex then
          let n := { n.adopt a with leaderLease := (n.adopt a).leaderLease.grant }
          let n := n.applyConfigChanges R a.configChanges
          if n.shouldCreateSnapshot then n.createSnapshotInternal else n
        else n.adopt a).face := by
    intro r hc hl ha
    subst ha
    have hface : (n.adopt (⟨r, n.stateMachine, n.observer, []⟩ : ApplyResult P SM)).face =
        n.face := by
      unfold adopt face
      rw [hc, hl]
    rw [if_neg, hface]
    · exact .keeps hcalm
    · show ¬ r.commitIndex > _
      omega
  cases success with
  | false =>
    simp only [Bool.false_eq_true, if_false] at ha
    split at ha
    · refine hsame ?_ ?_ ha.symm <;> rfl
    · exact hsame rfl rfl ha.symm
  | true =>
    simp only [if_true] at ha
    split at ha
    · have hcounters := recorded_counters (R := R) n.replication sender m
      rcases advanceCommitIndex_cases ha with ha | ⟨c, e, hhigher, he, hterm, ha⟩
      · exact hsame hcounters.1 hcounters.2 ha
      · have hcommit : (n.adopt a).replication.commitIndex = c := by
          rw [← ha, applyCommittedEntries_eq]
          rfl
        have hraised : n.replication.commitIndex < c := by
          rw [← hcounters.1]
          exact hhigher
        have hface := face_apply (R := R)
          (n := { n with leaderLease := n.leaderLease.grant }) ha hcounters.2
        rw [if_pos (by omega)]
        have hout := Outcome.commits (R := R) hleader hev hraised he hterm
        rw [show { n.face with leaderLease := n.leaderLease.grant } =
          ({ n with leaderLease := n.leaderLease.grant } : RaftNode P S SM).face from rfl] at hout
        rw [← hface] at hout
        split <;> exact hout
    · exact hsame rfl rfl ha.symm

theorem outcome_submitEntry {entryType : EntryType P} (hsub : Submits ev entryType) :
    Outcome R ev n (n.submitEntry R entryType).1.face := by
  have hcalm : ¬ n.LeaderSpeaks ev := by cases hsub <;> exact fun h => h
  unfold submitEntry
  split
  · exact .keeps hcalm
  · rename_i hrole
    have hleader : n.role = .leader := not_ne_iff.mp hrole
    dsimp only
    rw [face_sendAppendEntriesToFollowers]
    split
    · rename_i halone
      generalize hs : n.withStorage (Storage.appendEntries n.storage [⟨n.currentTerm, entryType⟩]) =
        n₁
      rcases face_advance (R := R) (n := n₁) rfl with h | ⟨c, e, hhigher, he, hterm, h⟩
      · subst hs
        exact h.symm ▸ .keeps hcalm
      · subst hs
        exact h.symm ▸ .commitsAlone hleader hsub halone rfl hhigher he hterm
    · exact .keeps hcalm

/-- A node that starts an election stands, or leads at once where it takes itself to be alone. -/
theorem outcome_startElection (hcause : n.StartsElection R ev) (hface : n'.face = n.face)
    (hconfig : n'.configManager = n.configManager) :
    Outcome R ev n (n'.startElection R).face := by
  have hterm : n'.currentTerm = n.currentTerm := congrArg Face.currentTerm hface
  have hmembers : n'.config.members = n.config.members := by
    unfold config
    rw [hconfig]
  rw [face_startElection, hface, hterm, hmembers]
  split
  · rename_i halone
    exact .leadsAlone hcause halone
  · rename_i hpeers
    exact .campaigns hcause (Nat.not_le.mp hpeers)

theorem outcome_handleInstallSnapshot {sender leaderId : NodeId} {T index term offset : Nat}
    {data : List UInt8} {done : Bool}
    (hev : ev = .message sender (.installSnapshot T leaderId index term offset data done)) :
    Outcome R ev n (n.handleInstallSnapshot sender T index term offset data done).face := by
  rcases Nat.lt_or_ge T n.currentTerm with hlt | hle
  · rw [handleInstallSnapshot_of_lt hlt, face_send]
    refine .keeps ?_
    rw [hev]
    exact Nat.not_le.mpr hlt
  · have hfollows : Outcome R ev n (n.face.follow T) := .hearsSnapshot hev hle
    rw [handleInstallSnapshot_of_le hle]
    split
    · exact hfollows
    · rename_i hcovered
      unfold installChunk
      dsimp only
      split
      · exact hfollows
      · rename_i u hresult
        split
        · rename_i hdone
          subst hdone
          split
          · exact hfollows
          · rename_i snapshot hload
            exact .installs hev hle (by simpa using hcovered) rfl hresult hload
        · exact hfollows

theorem outcome_handlePreVoteResponse {sender : NodeId} {term : Nat} {granted : Bool}
    (hev : ev = .message sender (.preVoteResponse term granted)) :
    Outcome R ev n (n.handlePreVoteResponse R sender term granted).face := by
  have hcalm : ¬ n.LeaderSpeaks ev := by rw [hev]; exact fun h => h
  unfold handlePreVoteResponse
  split
  · exact .keeps hcalm
  · rename_i hterm
    dsimp only
    split
    · rename_i hstart
      unfold ElectionManager.handlePreVoteResponse at hstart
      split at hstart
      · cases hstart
      · rename_i hcounts
        dsimp only at hstart
        split at hstart
        · rename_i hquorum
          have hcause : n.StartsElection R ev := by
            rw [hev]
            simp only [Bool.or_eq_true, Bool.not_eq_true', not_or, Bool.not_eq_false] at hcounts
            exact ⟨Nat.not_lt.mp hterm, hcounts.1, hcounts.2, hquorum⟩
          exact outcome_startElection hcause rfl rfl
        · cases hstart
    · exact .keeps hcalm

omit [StateMachine SM P] in
theorem face_startPreVote (n : RaftNode P S SM) : (n.startPreVote R).face = n.face := by
  unfold startPreVote
  rw [face_broadcast]
  rfl

theorem outcome_handleElectionTimer (hev : ev = .timerFired .election) :
    Outcome R ev n (n.handleElectionTimer R).face := by
  have hcalm : ¬ n.LeaderSpeaks ev := by rw [hev]; exact fun h => h
  rw [handleElectionTimer_eq]
  split
  · rename_i hrole
    split
    · rename_i halone
      have hcause : n.StartsElection R ev := by
        rw [hev]
        exact ⟨hrole, halone⟩
      exact outcome_startElection hcause (face_startPreVote n) (configManager_startPreVote n)
    · rw [face_startPreVote]
      exact .keeps hcalm
  · exact .keeps hcalm

theorem outcome_handleVoteRequest {sender : NodeId} {term : Nat} {cand : NodeId} {li lt : Nat}
    (hev : ev = .message sender (.requestVote term cand li lt)) :
    Outcome R ev n (n.handleVoteRequest sender term cand li lt).face := by
  have hcalm : ¬ n.LeaderSpeaks ev := by rw [hev]; exact fun h => h
  have hanswer : ∀ n₁ : RaftNode P S SM, term ≤ n₁.currentTerm →
      (n₁.answerVoteRequest sender term cand li lt).face = n₁.face := by
    intro n₁ hle
    rw [answerVoteRequest_eq hle]
    split <;> rfl
  unfold handleVoteRequest
  dsimp only
  split
  · rename_i hgt
    rw [hanswer _ (Nat.le_refl _), face_stepDown]
    exact .stepsDown hev hgt
  · rename_i hgt
    rw [hanswer _ (Nat.not_lt.mp hgt)]
    exact .keeps hcalm

theorem outcome_handleVoteResponse {sender : NodeId} {term : Nat} {granted : Bool}
    (hev : ev = .message sender (.requestVoteResponse term granted)) :
    Outcome R ev n (n.handleVoteResponse R sender term granted).face := by
  have hcalm : ¬ n.LeaderSpeaks ev := by rw [hev]; exact fun h => h
  unfold handleVoteResponse
  split
  · rename_i h
    exact .stepsDown hev h
  · rename_i hterm
    dsimp only
    split
    · rename_i hwon
      unfold ElectionManager.handleVoteResponse at hwon
      rw [if_neg hterm] at hwon
      split at hwon
      · cases hwon
      · rename_i hcounts
        simp only [ne_eq, not_or, Decidable.not_not, Bool.not_eq_false] at hcounts
        obtain ⟨hrole, rfl, rfl⟩ := hcounts
        rw [face_becomeLeader]
        exact .wins hrole hev
    · exact .keeps hcalm

/-- **What handling an event comes to.** -/
theorem onEvent_outcome (R : Realization) (n : RaftNode P S SM) (ev : Event P) :
    Outcome R ev n (n.onEvent R ev).face := by
  cases ev with
  | timerFired kind =>
    cases kind with
    | election => exact outcome_handleElectionTimer rfl
    | heartbeat =>
      show Outcome R _ n (n.handleHeartbeatTimer R).face
      unfold handleHeartbeatTimer
      split
      · have hface : (n.sendHeartbeats R).face = n.face := face_sendAppendEntriesToFollowers
        rw [hface]
        exact .keeps fun h => h
      · exact .keeps fun h => h
  | clientCommand payload => exact outcome_submitEntry (.command payload)
  | configChange change => exact outcome_submitEntry (.configChange change)
  | message sender msg =>
    cases msg with
    | requestVote => exact outcome_handleVoteRequest rfl
    | requestVoteResponse => exact outcome_handleVoteResponse rfl
    | preVoteRequest => exact .keeps fun h => h
    | preVoteResponse => exact outcome_handlePreVoteResponse rfl
    | appendEntries => exact outcome_handleAppendEntries rfl
    | appendEntriesResponse term success m =>
      show Outcome R _ n (n.handleAppendEntriesResponse R sender term success m).face
      unfold handleAppendEntriesResponse
      split
      · rename_i h
        exact @Outcome.stepsDown _ _ _ _ _ _ _ _ _ (.appendEntriesResponse term success m) rfl h
      · split
        · rename_i h
          obtain ⟨hleader, rfl⟩ := h
          exact outcome_recordAppendEntriesResponse rfl hleader
        · exact .keeps fun h => h
    | installSnapshot => exact outcome_handleInstallSnapshot rfl
    | installSnapshotResponse term success =>
      show Outcome R _ n (n.handleInstallSnapshotResponse R sender term success).face
      unfold handleInstallSnapshotResponse
      split
      · rename_i h
        exact @Outcome.stepsDown _ _ _ _ _ _ _ _ _ (.installSnapshotResponse term success) rfl h
      · split
        · split
          · exact .keeps fun h => h
          · rename_i m _
            have hface : ({ n with
                replication := n.replication.handleInstallSnapshotResponse R sender success
                  m.lastIncludedIndex } : RaftNode P S SM).face = n.face := by
              have hcounters := installResponse_counters (R := R) n.replication sender success
                m.lastIncludedIndex
              unfold face
              rw [hcounters.1, hcounters.2]
            rw [hface]
            exact .keeps fun h => h
        · exact .keeps fun h => h

/-- An event that starts an election does so whatever the role of the node is. -/
theorem face_of_startsElection (hcause : n.StartsElection R ev) :
    (n.onEvent R ev).face =
      { n.face with
        role := if n.config.members.length ≤ 1 then .leader else .candidate
        currentTerm := n.currentTerm + 1 } := by
  unfold StartsElection at hcause
  split at hcause
  · obtain ⟨hrole, halone⟩ := hcause
    have hface : (n.startPreVote R).face = n.face := face_startPreVote n
    have hmembers : (n.startPreVote R).config.members = n.config.members :=
      congrArg (fun f => f.configManager.config.members) hface
    have hterm : (n.startPreVote R).currentTerm = n.currentTerm := congrArg Face.currentTerm hface
    show (n.handleElectionTimer R).face = _
    rw [handleElectionTimer_eq, if_pos hrole, if_pos halone, face_startElection, hface, hterm,
      hmembers]
  · obtain ⟨hterm, hpre, hgranted, hquorum⟩ := hcause
    simp only [onEvent, handleMessage, handlePreVoteResponse, gt_iff_lt, Nat.not_lt.mpr hterm,
      if_false, ElectionManager.handlePreVoteResponse, hpre, hgranted, Bool.not_true, Bool.or_self,
      Bool.false_eq_true, hquorum, if_true, face_startElection]
    rfl
  · exact hcause.elim

end RaftNode

end MetalRaft
