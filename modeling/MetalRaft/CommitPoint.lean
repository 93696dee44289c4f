import MetalRaft.Outcome

/-!
# How far an event commits

Which entries a node commits and applies on an event is settled by its state before the event.

* `LogReplicationManager.quorumIndex` — where the commit rule of a leader gets to.
* `RaftNode.commitPoint` — the log an event leaves and the index that it commits in it, if it
  commits any; `newlyCommitted` — the entries it applies.
* `Commits` — what the node looks like afterwards; `onEvent_commits` goes through the events.
-/

set_option autoImplicit false

namespace MetalRaft

variable {P S SM : Type}

open LogReplicationManager

namespace LogReplicationManager

variable [Storage S P]

/-- The index that the commit rule moves the commit index to: the median of the matched indexes,
where it lies further on and its entry is of the current term. -/
def quorumIndex (R : Realization) (r : LogReplicationManager) (storage : S)
    (config : Configuration) (leaderId : NodeId) : Option Nat :=
  (r.matchIndex.computeMedian R (Storage.lastLogIndex storage) config r.catchingUpServers
    leaderId).filter fun c =>
      decide (r.commitIndex < c) &&
        ((Storage.getEntry storage c).map (·.term) == some (Storage.currentTerm storage))

theorem quorumIndex_eq_some {R : Realization} {r : LogReplicationManager} {storage : S}
    {config : Configuration} {leaderId : NodeId} {c : Nat}
    (h : r.quorumIndex R storage config leaderId = some c) :
    r.commitIndex < c ∧ ∃ e, Storage.getEntry storage c = some e ∧
      e.term = Storage.currentTerm storage := by
  obtain ⟨_, hc⟩ := Option.filter_eq_some_iff.mp h
  simpa using hc

/-- The commit rule in terms of the index it gets to. -/
theorem advanceCommitIndex_eq [StateMachine SM P] {R : Realization} (r : LogReplicationManager)
    (storage : S) (sm : SM) (config : Configuration) (id : NodeId) (observer : Observer P) :
    r.advanceCommitIndex R storage sm config id observer =
      match r.quorumIndex R storage config id with
      | none => ⟨r, sm, observer, []⟩
      | some c => applyCommittedEntries R { r with commitIndex := c } storage sm observer := by
  unfold advanceCommitIndex quorumIndex
  dsimp only
  cases r.matchIndex.computeMedian R (Storage.lastLogIndex storage) config r.catchingUpServers
    id with
  | none => rfl
  | some c =>
    simp only [Option.filter, gt_iff_lt]
    by_cases hc : r.commitIndex < c
    · rw [if_pos hc]
      split
      · rename_i he
        simp [he]
      · rename_i e he
        by_cases ht : e.term = Storage.currentTerm storage <;> simp [he, hc, ht]
    · simp [hc]

end LogReplicationManager

namespace RaftNode

variable [Storage S P] [StateMachine SM P] {R : Realization} {ev : Event P}
  {n n' : RaftNode P S SM}

omit [StateMachine SM P] in
/-- What a leader that takes itself to be alone commits with an entry that it appends. -/
def submitPoint (R : Realization) (n : RaftNode P S SM) (entryType : EntryType P) :
    Option (S × Nat) :=
  let storage := Storage.appendEntries n.storage [⟨n.currentTerm, entryType⟩]
  if n.role = .leader ∧ n.config.members.length ≤ 1 then
    (n.replication.quorumIndex R storage n.config n.id).map (storage, ·)
  else none

omit [StateMachine SM P] in
/-- The log that an event leaves and the index up to which it commits that log, where it commits
anything. -/
def commitPoint (R : Realization) (n : RaftNode P S SM) : Event P → Option (S × Nat)
  | .message _ (.appendEntries term prev pt es lc) =>
    let storage := placeEntries prev es n.storage
    if term = n.currentTerm ∧ checkLogConsistency prev pt n.storage = true ∧
        n.replication.commitIndex < lc then
      some (storage, min lc (Storage.lastLogIndex storage))
    else none
  | .message sender (.appendEntriesResponse term success m) =>
    if n.role = .leader ∧ term = n.currentTerm ∧ success = true ∧
        (n.replication.matchIndex.get sender).getD 0 < m then
      ((n.replication.recorded R sender m).quorumIndex R n.storage n.config n.id).map (n.storage, ·)
    else none
  | .clientCommand payload => n.submitPoint R (.command payload)
  | .configChange change => n.submitPoint R (.configChange change)
  | _ => none

omit [StateMachine SM P] in
/-- The entries that an event makes the node apply, each with its index. -/
def newlyCommitted (R : Realization) (n : RaftNode P S SM) (ev : Event P) :
    List (Nat × LogEntry P) :=
  (n.commitPoint R ev).elim [] fun x =>
    batch x.1 n.replication.lastApplied (x.2 - n.replication.lastApplied)

omit [StateMachine SM P] in
theorem newlyCommitted_of_none (h : n.commitPoint R ev = none) : n.newlyCommitted R ev = [] := by
  rw [newlyCommitted, h]
  rfl

omit [StateMachine SM P] in
theorem newlyCommitted_of_some {s : S} {c : Nat} (h : n.commitPoint R ev = some (s, c)) :
    n.newlyCommitted R ev =
      batch s n.replication.lastApplied (c - n.replication.lastApplied) := by
  rw [newlyCommitted, h]
  rfl

omit [StateMachine SM P] in
/-- A leader takes a snapshot at the index that an answer made it commit. -/
def takesSnapshot (n : RaftNode P S SM) (c : Nat) : Event P → Bool
  | .message _ (.appendEntriesResponse ..) => n.snapshotManager.shouldCreate c n.storage
  | _ => false

/-- What an event does to the commit index, to what is applied and to the configuration. -/
inductive Commits (R : Realization) (ev : Event P) (n n' : RaftNode P S SM) : Prop
  | nothing (point : n.commitPoint R ev = none) (configManager : n'.configManager = n.configManager)
      (observer : n'.observer = n.observer) (stateMachine : n'.stateMachine = n.stateMachine)
      (commitIndex : n'.replication.commitIndex = n.replication.commitIndex)
      (lastApplied : n'.replication.lastApplied = n.replication.lastApplied)
  | installs {sender leaderId : NodeId} {T index term offset : Nat} {data : List UInt8}
      {result : S × Except SnapshotError Unit}
      (asked : ev = .message sender (.installSnapshot T leaderId index term offset data true))
      (reached : n.currentTerm ≤ T) (fresh : alreadyCovered index (n.storageIn T) = false)
      (stored : result = Storage.applySnapshotChunk (n.storageIn T) offset data true index term)
      (ok : result.2 = .ok ())
      (storage : n'.storage = Storage.discardEntriesBefore result.1 (index + 1))
      (configManager : n'.configManager = n.configManager) (observer : n'.observer = n.observer)
      (commitIndex : n'.replication.commitIndex = max n.replication.commitIndex index)
      (lastApplied : n'.replication.lastApplied = max n.replication.lastApplied index)
  | upTo {s : S} {c : Nat} {f : Face P SM} (point : n.commitPoint R ev = some (s, c))
      (leads : f.role = .leader ↔ n.role = .leader)
      (configManager : f.configManager = n.configManager) (observer : f.observer = n.observer)
      (stateMachine : f.stateMachine = n.stateMachine)
      (lastApplied : f.lastApplied = n.replication.lastApplied)
      (face : n'.face = f.commit R n.id c (n.newlyCommitted R ev))
      (storage : n'.storage =
        if n.takesSnapshot c ev then (SnapshotManager.create s n'.stateMachine c).1 else s)

/-- An event other than an answer or a submission commits nothing beyond its commit point. -/
theorem commits_of_outcome (hout : Outcome R ev n n'.face) (hpoint : n.commitPoint R ev = none)
    (hanswer : ∀ sender success m,
      ev ≠ .message sender (.appendEntriesResponse n.currentTerm success m))
    (hsubmit : ∀ entryType, ¬ Submits ev entryType)
    (hstorage : ∀ sender T leaderId index term offset data,
      ev = .message sender (.installSnapshot T leaderId index term offset data true) →
      n.currentTerm ≤ T → alreadyCovered index (n.storageIn T) = false →
      (Storage.applySnapshotChunk (n.storageIn T) offset data true index term).2 = .ok () →
      (Storage.loadSnapshot
        (Storage.applySnapshotChunk (n.storageIn T) offset data true index term).1).isSome →
      n'.storage = Storage.discardEntriesBefore
        (Storage.applySnapshotChunk (n.storageIn T) offset data true index term).1 (index + 1)) :
    Commits R ev n n' := by
  have hface : ∀ {f : Face P SM}, n'.face = f → f.configManager = n.configManager →
      f.observer = n.observer → f.stateMachine = n.stateMachine →
      f.commitIndex = n.replication.commitIndex → f.lastApplied = n.replication.lastApplied →
      Commits R ev n n' := by
    rintro f rfl hmanager hobserver hmachine hcommit happlied
    exact .nothing hpoint hmanager hobserver hmachine hcommit happlied
  generalize hf : n'.face = f at hout
  cases hout with
  | keeps | stepsDown | yields | hearsSnapshot | campaigns | leadsAlone | wins =>
    exact hface hf rfl rfl rfl rfl rfl
  | learns asked consistent placed higher reached =>
    subst asked
    exact absurd hpoint (by
      unfold commitPoint
      simp [consistent, higher])
  | commits leader asked => exact absurd asked (hanswer _ _ _)
  | commitsAlone leader asked => exact absurd asked (hsubmit _)
  | installs asked reached fresh stored ok loaded =>
    subst stored
    exact .installs asked reached fresh rfl ok
      (hstorage _ _ _ _ _ _ _ asked reached fresh ok (by rw [loaded]; rfl))
      (congrArg Face.configManager hf) (congrArg Face.observer hf) (congrArg Face.commitIndex hf)
      (congrArg Face.lastApplied hf)

theorem commits_handleAppendEntries {sender : NodeId} {term prev pt : Nat}
    {es : List (LogEntry P)} {lc : Nat}
    (hev : ev = .message sender (.appendEntries term prev pt es lc)) :
    Commits R ev n (n.handleAppendEntries R sender term prev pt es lc) := by
  subst hev
  by_cases hpoint : term = n.currentTerm ∧ checkLogConsistency prev pt n.storage = true ∧
      n.replication.commitIndex < lc
  · obtain ⟨rfl, hc, hlc⟩ := hpoint
    have hsome : n.commitPoint R (.message sender (.appendEntries n.currentTerm prev pt es lc)) =
        some (placeEntries prev es n.storage,
          min lc (Storage.lastLogIndex (placeEntries prev es n.storage))) :=
      if_pos ⟨rfl, hc, hlc⟩
    generalize ha : n.replication.tryAppendEntries R prev pt es lc n.storage n.stateMachine
      n.observer = a
    have hnot : ¬ n.currentTerm < n.currentTerm := Nat.lt_irrefl _
    unfold handleAppendEntries
    rw [if_neg hnot, acceptAppendEntries_of_eq _ _ _ _ _ _ ha]
    unfold tryAppendEntries at ha
    rw [if_neg (by simp [hc])] at ha
    dsimp only at ha
    rw [if_pos hlc, applyCommittedEntries_eq] at ha
    subst ha
    refine .upTo (f := { n.face with
      role := if n.role = .candidate then .follower else n.role }) hsome ?_ rfl rfl rfl rfl ?_ ?_
    · dsimp only
      split
      · rename_i hrole
        rw [hrole]
        decide
      · exact Iff.rfl
    · rw [face_send, face_applyConfigChanges, newlyCommitted_of_some hsome]
      rfl
    · rfl
  · have hnone : n.commitPoint R (.message sender (.appendEntries term prev pt es lc)) = none :=
      if_neg hpoint
    exact commits_of_outcome (outcome_handleAppendEntries rfl) hnone (fun _ _ _ h => (by cases h))
      (fun _ h => (by cases h)) (fun _ _ _ _ _ _ _ h => (by cases h))

/-- A leader that only takes note of an answer. -/
theorem commits_noted {sender : NodeId} {success : Bool} {m : Nat} {r : LogReplicationManager}
    (hpoint : n.commitPoint R ev = none) (hcommit : r.commitIndex = n.replication.commitIndex)
    (happlied : r.lastApplied = n.replication.lastApplied)
    (ha : n.replication.handleAppendEntriesResponse R sender success m n.storage n.stateMachine
      n.config n.id n.observer = ⟨r, n.stateMachine, n.observer, []⟩) :
    Commits R ev n (n.recordAppendEntriesResponse R sender success m) := by
  unfold recordAppendEntriesResponse
  dsimp only
  rw [ha, if_neg]
  · exact .nothing hpoint rfl rfl rfl hcommit happlied
  · show ¬ r.commitIndex > _
    omega

/-- A leader that commits after an answer, and may take a snapshot then. -/
theorem commits_raised {sender : NodeId} {success : Bool} {m c : Nat} {r : LogReplicationManager}
    (hev : ev = .message sender (.appendEntriesResponse n.currentTerm success m))
    (hpoint : n.commitPoint R ev = some (n.storage, c)) (hhigher : n.replication.commitIndex < c)
    (hcommit : r.commitIndex = c) (happlied : r.lastApplied = n.replication.lastApplied)
    (ha : n.replication.handleAppendEntriesResponse R sender success m n.storage n.stateMachine
        n.config n.id n.observer =
      r.applyCommittedEntries R n.storage n.stateMachine n.observer) :
    Commits R ev n (n.recordAppendEntriesResponse R sender success m) := by
  unfold recordAppendEntriesResponse
  dsimp only
  rw [ha]
  generalize hres : r.applyCommittedEntries R n.storage n.stateMachine n.observer = a
  have hraised : (n.adopt a).replication.commitIndex = c := by
    rw [← hres, applyCommittedEntries_eq]
    exact hcommit
  rw [if_pos (by omega)]
  have hface :=
    face_apply (R := R) (n := { n with leaderLease := n.leaderLease.grant }) hres happlied
  rw [hcommit] at hface
  generalize hn :
    ({ n.adopt a with leaderLease := (n.adopt a).leaderLease.grant }).applyConfigChanges R
      a.configChanges = n₁
  have hface₁ : n₁.face = ({ n.face with leaderLease := n.leaderLease.grant }).commit R n.id c
      (n.newlyCommitted R ev) := by
    rw [← hn]
    refine hface.trans ?_
    rw [newlyCommitted_of_some hpoint]
    rfl
  have hstorage : n₁.storage = n.storage := by rw [← hn]; rfl
  have hcreate : n₁.shouldCreateSnapshot = n.takesSnapshot c ev := by
    have hcommit₁ : n₁.replication.commitIndex = c := congrArg Face.commitIndex hface₁
    have hmanager : n₁.snapshotManager = n.snapshotManager := by rw [← hn]; rfl
    unfold shouldCreateSnapshot
    rw [hcommit₁, hstorage, hmanager, hev]
    rfl
  rw [hcreate]
  split
  · rename_i htakes
    refine .upTo hpoint Iff.rfl rfl rfl rfl rfl hface₁ ?_
    rw [if_pos htakes, ← hstorage]
    unfold createSnapshotInternal
    rw [show n₁.replication.commitIndex = c from congrArg Face.commitIndex hface₁]
  · rename_i htakes
    refine .upTo hpoint Iff.rfl rfl rfl rfl rfl hface₁ ?_
    rw [if_neg htakes, hstorage]

/-- A higher answer is recorded, and then the commit rule is tried. -/
theorem handleAppendEntriesResponse_of_higher {sender : NodeId} {m : Nat}
    (hmatch : (n.replication.matchIndex.get sender).getD 0 < m) :
    n.replication.handleAppendEntriesResponse R sender true m n.storage n.stateMachine n.config n.id
        n.observer =
      match (n.replication.recorded R sender m).quorumIndex R n.storage n.config n.id with
      | none => ⟨n.replication.recorded R sender m, n.stateMachine, n.observer, []⟩
      | some c => applyCommittedEntries R
          { n.replication.recorded R sender m with commitIndex := c } n.storage n.stateMachine
          n.observer := by
  rw [← advanceCommitIndex_eq]
  simp only [LogReplicationManager.handleAppendEntriesResponse, if_true, gt_iff_lt, hmatch]
  rfl

theorem commits_recordAppendEntriesResponse {sender : NodeId} {success : Bool} {m : Nat}
    (hev : ev = .message sender (.appendEntriesResponse n.currentTerm success m))
    (hleader : n.role = .leader) :
    Commits R ev n (n.recordAppendEntriesResponse R sender success m) := by
  have hpoint : n.commitPoint R ev =
      if success = true ∧ (n.replication.matchIndex.get sender).getD 0 < m then
        ((n.replication.recorded R sender m).quorumIndex R n.storage n.config n.id).map
          (n.storage, ·)
      else none := by
    rw [hev]
    simp only [commitPoint, hleader, true_and]
  cases success with
  | false =>
    have hnone : n.commitPoint R ev = none := by simpa using hpoint
    by_cases hnext : (n.replication.nextIndex.get sender).getD 1 > 1
    · refine commits_noted hnone rfl rfl ?_ (r := { n.replication with
        nextIndex := n.replication.nextIndex.insert R sender
          ((n.replication.nextIndex.get sender).getD 1 - 1) })
      simp [LogReplicationManager.handleAppendEntriesResponse, hnext]
    · refine commits_noted hnone rfl rfl ?_ (r := n.replication)
      simp [LogReplicationManager.handleAppendEntriesResponse, hnext]
  | true =>
    by_cases hmatch : (n.replication.matchIndex.get sender).getD 0 < m
    · rw [if_pos ⟨rfl, hmatch⟩] at hpoint
      obtain ⟨hcommit, happlied⟩ := recorded_counters (R := R) n.replication sender m
      have ha := handleAppendEntriesResponse_of_higher (R := R) hmatch
      cases hquorum : (n.replication.recorded R sender m).quorumIndex R n.storage n.config n.id with
      | none =>
        rw [hquorum] at ha hpoint
        exact commits_noted hpoint hcommit happlied ha
      | some c =>
        rw [hquorum] at ha hpoint
        have hhigher := (quorumIndex_eq_some hquorum).1
        rw [hcommit] at hhigher
        exact commits_raised (r := { n.replication.recorded R sender m with commitIndex := c }) hev
          hpoint hhigher rfl happlied ha
    · refine commits_noted ?_ rfl rfl ?_ (r := n.replication)
      · rw [hpoint, if_neg fun h => hmatch h.2]
      · simp [LogReplicationManager.handleAppendEntriesResponse, hmatch]

/-- Messages sent afterwards change nothing of it. -/
theorem Commits.spoken {n'' : RaftNode P S SM} (h : Commits R ev n n') (hface : n''.face = n'.face)
    (hstorage : n''.storage = n'.storage) : Commits R ev n n'' := by
  obtain ⟨id, role, currentTerm, leader, transport, storage, sm, observer, election, replication,
    manager, snapshots, lease⟩ := n''
  simp only [face, Face.mk.injEq] at hface hstorage
  obtain ⟨rfl, rfl, rfl, rfl, hcommit, happlied, rfl, rfl⟩ := hface
  subst hstorage
  cases h with
  | nothing point manager observer machine commitIndex lastApplied =>
    exact .nothing point manager observer machine (hcommit.trans commitIndex)
      (happlied.trans lastApplied)
  | installs asked reached fresh stored ok storage manager observer commitIndex lastApplied =>
    exact .installs asked reached fresh stored ok storage manager observer
      (hcommit.trans commitIndex) (happlied.trans lastApplied)
  | upTo point leads manager observer machine lastApplied hface hstorage =>
    refine .upTo point leads manager observer machine lastApplied ?_ hstorage
    rw [← hface]
    unfold face
    rw [hcommit, happlied]

theorem commits_submitEntry {entryType : EntryType P} (hsub : Submits ev entryType) :
    Commits R ev n (n.submitEntry R entryType).1 := by
  have hpoint : n.commitPoint R ev = n.submitPoint R entryType := by cases hsub <;> rfl
  have htakes : ∀ c, n.takesSnapshot c ev = false := by cases hsub <;> exact fun _ => rfl
  unfold submitEntry
  by_cases hleader : n.role = .leader
  · rw [if_neg (not_not_intro hleader)]
    dsimp only
    refine Commits.spoken ?_ face_sendAppendEntriesToFollowers
      (by rw [sendAppendEntriesToFollowers_eq])
    unfold submitPoint at hpoint
    dsimp only at hpoint
    generalize hs : Storage.appendEntries n.storage [⟨n.currentTerm, entryType⟩] = s at hpoint ⊢
    split
    · rename_i halone
      have halone' : n.config.members.length ≤ 1 := halone
      rw [if_pos ⟨hleader, halone'⟩] at hpoint
      generalize ha : n.replication.advanceCommitIndex R s n.stateMachine
        ({ n with storage := s } : RaftNode P S SM).config n.id n.observer = a
      have ha' := advanceCommitIndex_eq (R := R) n.replication s n.stateMachine n.config n.id
        n.observer
      cases hquorum : n.replication.quorumIndex R s n.config n.id with
      | none =>
        rw [hquorum] at ha' hpoint
        have hnone := ha.symm.trans ha'
        subst hnone
        exact .nothing hpoint rfl rfl rfl rfl rfl
      | some c =>
        rw [hquorum] at ha' hpoint
        have hsome := ha'.symm.trans ha
        have hface := face_apply (R := R) (n := n.withStorage s) hsome rfl
        refine .upTo (f := n.face) hpoint Iff.rfl rfl rfl rfl rfl ?_ ?_
        · refine hface.trans ?_
          rw [newlyCommitted_of_some hpoint]
          rfl
        · rw [htakes]
          rfl
    · rename_i halone
      have halone' : ¬ n.config.members.length ≤ 1 := halone
      rw [if_neg fun h => halone' h.2] at hpoint
      exact .nothing hpoint rfl rfl rfl rfl rfl
  · rw [if_pos hleader]
    refine .nothing ?_ rfl rfl rfl rfl rfl
    rw [hpoint]
    exact if_neg fun h => hleader h.1

omit [StateMachine SM P] in
theorem commitPoint_of_term {sender : NodeId} {term : Nat} {success : Bool} {m : Nat}
    (h : ¬ (n.role = .leader ∧ term = n.currentTerm)) :
    n.commitPoint R (.message sender (.appendEntriesResponse term success m)) = none :=
  if_neg fun hpoint => h ⟨hpoint.1, hpoint.2.1⟩

/-- What a completed snapshot transfer leaves in the storage. -/
theorem storage_handleInstallSnapshot {sender : NodeId} {T index term offset : Nat}
    {data : List UInt8} (hreached : n.currentTerm ≤ T)
    (hfresh : alreadyCovered index (n.storageIn T) = false)
    (hok : (Storage.applySnapshotChunk (n.storageIn T) offset data true index term).2 = .ok ())
    (hloaded : (Storage.loadSnapshot
      (Storage.applySnapshotChunk (n.storageIn T) offset data true index term).1).isSome) :
    (n.handleInstallSnapshot sender T index term offset data true).storage =
      Storage.discardEntriesBefore
        (Storage.applySnapshotChunk (n.storageIn T) offset data true index term).1 (index + 1) := by
  obtain ⟨snapshot, hsnapshot⟩ := Option.isSome_iff_exists.mp hloaded
  rw [handleInstallSnapshot_of_le hreached, hfresh]
  simp only [Bool.false_eq_true, if_false, installChunk, hok, if_true, hsnapshot, send, takeInstall]

/-- An event that is neither an answer nor a submission. -/
theorem commits_of_quiet (hpoint : n.commitPoint R ev = none)
    (hanswer : ∀ sender success m,
      ev ≠ .message sender (.appendEntriesResponse n.currentTerm success m))
    (hsubmit : ∀ entryType, ¬ Submits ev entryType)
    (hsnapshot : ∀ sender T leaderId index term offset data done,
      ev ≠ .message sender (.installSnapshot T leaderId index term offset data done)) :
    Commits R ev n (n.onEvent R ev) :=
  commits_of_outcome (onEvent_outcome R n ev) hpoint hanswer hsubmit
    fun _ _ _ _ _ _ _ h => absurd h (hsnapshot _ _ _ _ _ _ _ _)

/-- **What an event commits.** -/
theorem onEvent_commits (R : Realization) (n : RaftNode P S SM) (ev : Event P) :
    Commits R ev n (n.onEvent R ev) := by
  cases ev with
  | timerFired kind =>
    exact commits_of_quiet rfl (fun _ _ _ h => (by cases h)) (fun _ h => (by cases h))
      fun _ _ _ _ _ _ _ _ h => (by cases h)
  | clientCommand payload => exact commits_submitEntry (.command payload)
  | configChange change => exact commits_submitEntry (.configChange change)
  | message sender msg =>
    cases msg with
    | appendEntries => exact commits_handleAppendEntries rfl
    | appendEntriesResponse term success m =>
      show Commits R _ n (n.handleAppendEntriesResponse R sender term success m)
      unfold handleAppendEntriesResponse
      split
      · exact .nothing (commitPoint_of_term fun h => by omega) rfl rfl rfl rfl rfl
      · split
        · rename_i h
          obtain ⟨hleader, rfl⟩ := h
          exact commits_recordAppendEntriesResponse rfl hleader
        · rename_i h
          exact .nothing (commitPoint_of_term h) rfl rfl rfl rfl rfl
    | installSnapshot T leaderId index term offset data done =>
      refine commits_of_outcome (onEvent_outcome R n _) rfl (fun _ _ _ h => (by cases h))
        (fun _ h => (by cases h)) fun _ _ _ _ _ _ _ hev hreached hfresh hok hloaded => ?_
      cases hev
      exact storage_handleInstallSnapshot hreached hfresh hok hloaded
    | _ =>
      exact commits_of_quiet rfl (fun _ _ _ h => (by cases h)) (fun _ h => (by cases h))
        fun _ _ _ _ _ _ _ _ h => (by cases h)

end RaftNode

end MetalRaft
