import MetalRaft.Lease

/-!
# One configuration change at a time

`add_server` and `remove_server` refuse a change while another one is under way, and what they
know of it is the one index that this leader has tracked itself.  A change that arrives as an
event is not guarded, and one that an earlier leader left in the log is not tracked.

* `Watched` — a node, and the indexes at which it has appended guarded changes since it was
  elected that are not committed yet.
* `Watched.tracked_turn` — the guard tracks all of these, through commits, snapshots and messages
  of any kind.
* `one_change_at_a_time` — where the guard is asked, and the changes above the commit index are the
  leader's own, every change appended is the only one and valid.
* `two_changes_at_once` — a leader with two uncommitted changes.
-/

set_option autoImplicit false

namespace MetalRaft

open Transition

/-- The change names a server that can be added, or one that can be removed. -/
def ConfigurationChange.ValidFor (members : List NodeId) : ConfigurationChange → Prop
  | .addServer nodeId => nodeId ∉ members
  | .removeServer nodeId => nodeId ∈ members ∧ members.filter (· != nodeId) ≠ []

namespace ConfigChangeManager

/-- What the guard of `add_server` lets through. -/
structure AddsServer (m : ConfigChangeManager) (nodeId selfId : NodeId) (commitIndex : Nat)
    (change : ConfigurationChange) : Prop where
  free : m.changeInProgress commitIndex = false
  fresh : ¬ (nodeId = selfId ∨ m.config.contains nodeId = true)
  change : change = .addServer nodeId

/-- What the guard of `remove_server` lets through. -/
structure RemovesServer (m : ConfigChangeManager) (nodeId selfId : NodeId) (commitIndex : Nat)
    (change : ConfigurationChange) : Prop where
  free : m.changeInProgress commitIndex = false
  others : m.config.members.length ≠ 1
  known : nodeId = selfId ∨ m.config.contains nodeId = true
  change : change = .removeServer nodeId

theorem addServer_ok {m : ConfigChangeManager} {nodeId selfId : NodeId} {isLeader : Bool}
    {commitIndex : Nat} {change : ConfigurationChange}
    (h : m.addServer nodeId selfId isLeader commitIndex = .ok change) :
    m.AddsServer nodeId selfId commitIndex change := by
  unfold addServer at h
  split at h
  · cases h
  · split at h
    · cases h
    · rename_i hfree
      split at h
      · cases h
      · rename_i hfresh
        cases h
        exact ⟨Bool.not_eq_true _ ▸ hfree, hfresh, rfl⟩

theorem removeServer_ok {m : ConfigChangeManager} {nodeId selfId : NodeId} {isLeader : Bool}
    {commitIndex : Nat} {change : ConfigurationChange}
    (h : m.removeServer nodeId selfId isLeader commitIndex = .ok change) :
    m.RemovesServer nodeId selfId commitIndex change := by
  unfold removeServer at h
  split at h
  · cases h
  · split at h
    · cases h
    · rename_i hfree
      split at h
      · cases h
      · rename_i hothers
        split at h
        · cases h
        · rename_i hknown
          cases h
          refine ⟨Bool.not_eq_true _ ▸ hfree, hothers, ?_, rfl⟩
          by_contra hnot
          obtain ⟨hne, hout⟩ := not_or.mp hnot
          exact hknown ⟨hne, Bool.not_eq_true _ ▸ hout⟩

end ConfigChangeManager

variable {P SM : Type}

theorem LogEntry.isConfigChange_iff {e : LogEntry P} : e.IsConfigChange ↔ e.change.isSome := by
  unfold LogEntry.IsConfigChange LogEntry.change
  cases e.entryType <;> simp

namespace RaftNode

/-- The indexes above the commit index at which the log holds a configuration change. -/
def pendingIndexes (n : TestNode P SM) : List Nat :=
  ((n.storage.log.zipIdx n.storage.firstIndex).filter fun x =>
    x.1.change.isSome && decide (n.replication.commitIndex < x.2)).map (·.2)

theorem mem_pendingIndexes {n : TestNode P SM} {i : Nat} {e : LogEntry P}
    (hi : n.replication.commitIndex < i) (he : n.storage.getEntry i = some e)
    (hchange : e.IsConfigChange) : i ∈ n.pendingIndexes := by
  unfold InMemoryStorage.getEntry at he
  split at he
  · cases he
  · rename_i hfirst
    unfold pendingIndexes
    rw [List.mem_map]
    refine ⟨(e, i), ?_, rfl⟩
    rw [List.mem_filter, List.mem_zipIdx_iff_le_and_getElem?_sub]
    refine ⟨⟨Nat.not_lt.mp hfirst, he⟩, ?_⟩
    simp only [LogEntry.isConfigChange_iff.mp hchange, hi, decide_true, Bool.and_self]

variable [StateMachine SM P] {R : Realization} {ev : Event P} {n n' : TestNode P SM}

/-! ## The tracked index -/

theorem foldl_changed_pending {R : Realization} {i : Nat} (changes : ConfigChangeCollection) :
    ∀ m : ConfigChangeManager, m.pendingChange = some i → (∀ x ∈ changes, x.1 ≠ i) →
      (changes.foldl (ConfigChangeManager.changed R) m).pendingChange = some i := by
  induction changes with
  | nil => exact fun _ h _ => h
  | cons entry changes ih =>
    intro m hm hne
    refine ih _ ?_ fun x hx => hne x (List.mem_cons_of_mem _ hx)
    unfold ConfigChangeManager.changed
    dsimp only
    rw [hm, if_neg fun h => hne entry (List.mem_cons_self ..) (Option.some.inj h).symm]

/-- Applying what is committed up to `c` forgets no index above `c`. -/
theorem commit_pending {f : Face P SM} {s : InMemoryStorage P} {id c i : Nat}
    (hi : f.configManager.pendingChange = some i) (hc : c < i) :
    (f.commit R id c (LogReplicationManager.batch s f.lastApplied
      (c - f.lastApplied))).configManager.pendingChange = some i := by
  refine foldl_changed_pending _ _ hi fun x hx hxi => ?_
  obtain ⟨j, change⟩ := x
  subst hxi
  obtain ⟨e, he, _⟩ := LogReplicationManager.mem_changesIn.mp
    ((mem_of_mem_foldl_pushWithin hx).resolve_left List.not_mem_nil)
  have hb := LogReplicationManager.mem_batch he
  dsimp only at hb hc
  omega

/-- A tracked index stays tracked until it is committed. -/
theorem pending_onEvent {i : Nat} (hi : n.configManager.pendingChange = some i)
    (hc : (n.onEvent R ev).replication.commitIndex < i) :
    (n.onEvent R ev).configManager.pendingChange = some i := by
  have hout := onEvent_outcome R n ev
  have hcommit : (n.onEvent R ev).face.commitIndex < i := hc
  show (n.onEvent R ev).face.configManager.pendingChange = some i
  generalize (n.onEvent R ev).face = f at hout hcommit ⊢
  cases hout with
  | learns => exact commit_pending (f := n.face.follow n.currentTerm) hi hcommit
  | commits =>
    exact commit_pending (f := { n.face with leaderLease := n.leaderLease.grant }) hi hcommit
  | commitsAlone => exact commit_pending (f := n.face) hi hcommit
  | _ => exact hi

/-! ## Submitting -/

theorem submitEntry_log {entryType : EntryType P} (h : n.role = .leader) :
    (n.submitEntry R entryType).1.storage.log =
      n.storage.log ++ [⟨n.currentTerm, entryType⟩] := by
  unfold submitEntry
  rw [if_neg (not_not_intro h)]
  dsimp only
  rw [sendAppendEntriesToFollowers_eq]
  dsimp only
  split <;> rfl

/-- What a leader's guarded call comes to. -/
theorem submitTracked_cases (h : n.role = .leader)
    (change : Except ConfigError ConfigurationChange) :
    (∃ e, change = .error e ∧ n.submitTracked R change = (n, .error e)) ∨
    ∃ ch index, change = .ok ch ∧ n.submitTracked R change =
      ({ n.onEvent R (.configChange ch) with
          configManager :=
            (n.onEvent R (.configChange ch)).configManager.trackPendingChange index },
        .ok index) := by
  cases change with
  | error e => exact Or.inl ⟨e, rfl, rfl⟩
  | ok ch =>
    refine Or.inr ⟨ch, Storage.lastLogIndex (Storage.appendEntries n.storage
      [⟨n.currentTerm, .configChange ch⟩]), rfl, ?_⟩
    unfold submitTracked onEvent submitConfigChange submitEntry
    dsimp only
    rw [if_neg (not_not_intro h)]

end RaftNode

/-! ## Turns -/

/-- A node, and the indexes above its commit index at which it has appended a change through
`add_server` or `remove_server` since it was elected. -/
structure Watched (P SM : Type) where
  node : TestNode P SM
  own : List Nat

inductive AdminTurn (P SM : Type) where
  | event (ev : Event P)
  | addServer (nodeId : NodeId)
  | removeServer (nodeId : NodeId)
  | restart (stateMachine : SM) (timers : TimerService) (peers : List NodeId)
      (threshold clock leaseDurationMillis : Nat)

/-- The turn is not the delivery of a message. -/
def AdminTurn.IsCall : AdminTurn P SM → Prop
  | .event (.message _ _) => False
  | _ => True

namespace Watched

open RaftNode

variable [StateMachine SM P] {R : Realization} {w w₀ : Watched P SM} {t : AdminTurn P SM}

/-- What is left of the indexes in `own` when the node has become `n`. -/
def uncommitted (n : TestNode P SM) (own : List Nat) : List Nat :=
  own.filter fun i => decide (n.replication.commitIndex < i)

/-- After a guarded call: the index it returned is the leader's own. -/
def called (w : Watched P SM) (r : TestNode P SM × Except ConfigError Nat) : Watched P SM :=
  ⟨r.1, uncommitted r.1 (w.own ++ r.2.toOption.toList)⟩

def turn (R : Realization) (w : Watched P SM) : AdminTurn P SM → Watched P SM
  | .event ev =>
    let n := w.node.onEvent R ev
    ⟨n, if w.node.role = .leader then uncommitted n w.own else []⟩
  | .addServer nodeId => w.called (w.node.addServer R nodeId)
  | .removeServer nodeId => w.called (w.node.removeServer R nodeId)
  | .restart stateMachine timers peers threshold clock leaseDurationMillis =>
    ⟨newFromBuilder R w.node.id w.node.storage stateMachine timers [] peers w.node.observer
      threshold clock leaseDurationMillis, []⟩

/-- In this turn the leader appends a change to its log. -/
def Appends (R : Realization) (w : Watched P SM) (t : AdminTurn P SM)
    (change : ConfigurationChange) : Prop :=
  w.node.role = .leader ∧ t.IsCall ∧
    (w.turn R t).node.storage.log =
      w.node.storage.log ++ [⟨w.node.currentTerm, .configChange change⟩]

/-- A leader is asked for a change through the guard only, and then every uncommitted change in
its log is its own; a removal names a member besides which there is another one. -/
def GuardCovers (w : Watched P SM) : AdminTurn P SM → Prop
  | .event (.configChange _) => w.node.role ≠ .leader
  | .event _ | .restart _ _ _ _ _ _ => True
  | .addServer _ => w.node.role = .leader → ∀ i ∈ w.node.pendingIndexes, i ∈ w.own
  | .removeServer nodeId => w.node.role = .leader →
    (∀ i ∈ w.node.pendingIndexes, i ∈ w.own) ∧
    (nodeId = w.node.id → nodeId ∈ w.node.config.members) ∧
    (w.node.config.members.length = 1 ∨ ∃ v ∈ w.node.config.members, v ≠ nodeId)

/-- The guard knows of every change of the leader's own. -/
structure Tracked (w : Watched P SM) : Prop where
  above : ∀ i ∈ w.own, w.node.replication.commitIndex < i
  tracked : w.node.role = .leader → ∀ i ∈ w.own, w.node.configManager.pendingChange = some i

omit [StateMachine SM P] in
theorem Tracked.inProgress (h : w.Tracked) (hrole : w.node.role = .leader) {i : Nat}
    (hi : i ∈ w.own) :
    w.node.configManager.changeInProgress w.node.replication.commitIndex = true := by
  have habove := h.above i hi
  unfold ConfigChangeManager.changeInProgress ConfigChangeManager.isChangeCommitted
  rw [h.tracked hrole i hi]
  simpa using habove

omit [StateMachine SM P] in
theorem mem_uncommitted {n : TestNode P SM} {own : List Nat} {i : Nat} :
    i ∈ uncommitted n own ↔ i ∈ own ∧ n.replication.commitIndex < i := by
  simp [uncommitted]

omit [StateMachine SM P] in
/-- A call that the guard lets through finds nothing of the leader's own. -/
theorem own_eq_nil (h : w.Tracked) (hrole : w.node.role = .leader)
    (hfree : w.node.configManager.changeInProgress w.node.replication.commitIndex = false) :
    w.own = [] := by
  rw [List.eq_nil_iff_forall_not_mem]
  intro i hi
  rw [h.inProgress hrole hi] at hfree
  cases hfree

theorem tracked_called (h : w.Tracked) (hrole : w.node.role = .leader)
    {change : Except ConfigError ConfigurationChange}
    (hfree : ∀ ch, change = .ok ch →
      w.node.configManager.changeInProgress w.node.replication.commitIndex = false) :
    (w.called (w.node.submitTracked R change)).Tracked := by
  refine ⟨fun i hi => (mem_uncommitted.mp hi).2, fun hled i hi => ?_⟩
  have hmem := (mem_uncommitted.mp hi).1
  rcases submitTracked_cases (R := R) hrole change with ⟨e, he, heq⟩ | ⟨ch, index, hch, heq⟩
  · rw [heq] at hmem
    unfold called
    rw [heq]
    refine h.tracked hrole i ?_
    simpa [Except.toOption] using hmem
  · rw [heq, own_eq_nil h hrole (hfree ch hch)] at hmem
    have hindex : i = index := by simpa [Except.toOption] using hmem
    unfold called
    rw [heq, hindex]
    rfl

omit [StateMachine SM P] in
theorem tracked_fresh (n : TestNode P SM) : Tracked ⟨n, []⟩ :=
  ⟨fun _ hi => absurd hi List.not_mem_nil, fun _ _ hi => absurd hi List.not_mem_nil⟩

omit [StateMachine SM P] in
/-- A call at a node that does not lead is refused. -/
theorem tracked_refused (hrole : w.node.role ≠ .leader) {e : ConfigError} :
    (w.called (w.node, .error e)).Tracked :=
  ⟨fun _ hi => (mem_uncommitted.mp hi).2, fun hled => absurd hled hrole⟩

theorem tracked_addServer (h : w.Tracked) (nodeId : NodeId) :
    (w.called (w.node.addServer R nodeId)).Tracked := by
  unfold addServer
  by_cases hrole : w.node.role = .leader
  · refine tracked_called h hrole fun ch hch => ?_
    exact (ConfigChangeManager.addServer_ok hch).free
  · have herr : w.node.configManager.addServer nodeId w.node.id (decide (w.node.role = .leader))
        w.node.replication.commitIndex = .error .notLeader := by
      rw [decide_eq_false hrole]
      rfl
    rw [herr]
    exact tracked_refused hrole

theorem tracked_removeServer (h : w.Tracked) (nodeId : NodeId) :
    (w.called (w.node.removeServer R nodeId)).Tracked := by
  unfold removeServer
  by_cases hrole : w.node.role = .leader
  · refine tracked_called h hrole fun ch hch => ?_
    exact (ConfigChangeManager.removeServer_ok hch).free
  · have herr : w.node.configManager.removeServer nodeId w.node.id
        (decide (w.node.role = .leader)) w.node.replication.commitIndex = .error .notLeader := by
      rw [decide_eq_false hrole]
      rfl
    rw [herr]
    exact tracked_refused hrole

/-- **The guard tracks every uncommitted change of the leader's own**, whatever turn is taken. -/
theorem tracked_turn (h : w.Tracked) (t : AdminTurn P SM) : (w.turn R t).Tracked := by
  cases t with
  | event ev =>
    constructor
    · intro i hi
      unfold turn at hi
      dsimp only at hi
      split at hi
      · exact (mem_uncommitted.mp hi).2
      · cases hi
    · intro _ i hi
      unfold turn at hi
      dsimp only at hi
      split at hi
      · rename_i hrole
        obtain ⟨hown, habove⟩ := mem_uncommitted.mp hi
        exact pending_onEvent (h.tracked hrole i hown) habove
      · cases hi
  | addServer nodeId => exact tracked_addServer h nodeId
  | removeServer nodeId => exact tracked_removeServer h nodeId
  | restart => exact tracked_fresh _

/-! ## What is appended -/

/-- An event that a leader is admitted appends no change. -/
theorem not_appends_event {ev : Event P} {change : ConfigurationChange}
    (hok : w.GuardCovers (.event ev)) : ¬ w.Appends R (.event ev) change := by
  rintro ⟨hrole, hcall, hlog⟩
  cases ev with
  | message => exact hcall
  | timerFired kind =>
    have hsame : (w.node.onEvent R (.timerFired kind)).storage = w.node.storage := by
      cases kind with
      | election =>
        unfold onEvent handleTimer handleElectionTimer
        dsimp only
        rw [if_neg (not_not_intro hrole)]
      | heartbeat =>
        unfold onEvent handleTimer handleHeartbeatTimer sendHeartbeats
        dsimp only
        rw [if_pos hrole, sendAppendEntriesToFollowers_eq]
    have hlog' : (w.node.onEvent R (.timerFired kind)).storage.log = _ := hlog
    rw [hsame] at hlog'
    simp at hlog'
  | clientCommand payload =>
    have happended : (w.node.onEvent R (.clientCommand payload)).storage.log =
        w.node.storage.log ++ [⟨w.node.currentTerm, .command payload⟩] := submitEntry_log hrole
    have hlog' := happended.symm.trans hlog
    simp at hlog'
  | configChange => exact hok hrole

/-- A guarded call appends a change only if the guard lets this change through. -/
theorem change_of_called {change : Except ConfigError ConfigurationChange}
    {ch : ConfigurationChange} (hrole : w.node.role = .leader)
    (hlog : (w.called (w.node.submitTracked R change)).node.storage.log =
      w.node.storage.log ++ [⟨w.node.currentTerm, .configChange ch⟩]) : change = .ok ch := by
  rcases submitTracked_cases (R := R) hrole change with ⟨e, he, heq⟩ | ⟨ch', index, hch, heq⟩
  · unfold called at hlog
    rw [heq] at hlog
    simp at hlog
  · unfold called at hlog
    rw [heq] at hlog
    have happended : (w.node.onEvent R (.configChange ch')).storage.log =
        w.node.storage.log ++ [⟨w.node.currentTerm, .configChange ch'⟩] := submitEntry_log hrole
    have hlog' := happended.symm.trans hlog
    have hsame : ch' = ch := by simpa using hlog'
    rw [hch, hsame]

theorem appends_cases {change : ConfigurationChange} (hok : w.GuardCovers t)
    (h : w.Appends R t change) :
    (∃ nodeId, t = .addServer nodeId ∧
      w.node.configManager.addServer nodeId w.node.id true w.node.replication.commitIndex =
        .ok change) ∨
    ∃ nodeId, t = .removeServer nodeId ∧
      w.node.configManager.removeServer nodeId w.node.id true w.node.replication.commitIndex =
        .ok change := by
  have hlead : decide (w.node.role = .leader) = true := decide_eq_true h.1
  cases t with
  | event ev => exact absurd h (not_appends_event hok)
  | addServer nodeId =>
    refine Or.inl ⟨nodeId, rfl, ?_⟩
    rw [← hlead]
    exact change_of_called h.1 h.2.2
  | removeServer nodeId =>
    refine Or.inr ⟨nodeId, rfl, ?_⟩
    rw [← hlead]
    exact change_of_called h.1 h.2.2
  | restart =>
    have hlog : w.node.storage.log = _ := h.2.2
    simp at hlog

/-! ## Runs of one node -/

/-- **One configuration change at a time**: in every run of arbitrary events, guarded calls and
restarts in which the guard covers what leaders are asked for, a leader that appends a change
has no other change above its commit index, and the change is valid for its configuration. -/
theorem one_change_at_a_time {id : NodeId} {storage : InMemoryStorage P} {stateMachine : SM}
    {timers : TimerService} {peers : List NodeId} {observer : Observer P}
    {threshold clock lease : Nat} {change : ConfigurationChange}
    (hrun : Run (turn R) GuardCovers
      ⟨newFromBuilder R id storage stateMachine timers [] peers observer threshold clock lease, []⟩
      w)
    (hok : w.GuardCovers t) (happends : w.Appends R t change) :
    (∀ i e, w.node.replication.commitIndex < i → w.node.storage.getEntry i = some e →
      ¬ e.IsConfigChange) ∧ change.ValidFor w.node.config.members := by
  have htracked : w.Tracked := Run.invariant (fun _ t h _ => tracked_turn h t) hrun
    (tracked_fresh _)
  have hrole := happends.1
  -- an uncommitted change would be the leader's own, and the guard would have refused
  have hnone : (∀ i ∈ w.node.pendingIndexes, i ∈ w.own) →
      w.node.configManager.changeInProgress w.node.replication.commitIndex = false →
      ∀ i e, w.node.replication.commitIndex < i → w.node.storage.getEntry i = some e →
        ¬ e.IsConfigChange := by
    intro hown hfree i e hi he hchange
    have hmem := hown i (mem_pendingIndexes hi he hchange)
    rw [own_eq_nil htracked hrole hfree] at hmem
    cases hmem
  rcases appends_cases hok happends with ⟨nodeId, rfl, hch⟩ | ⟨nodeId, rfl, hch⟩
  · have hlet := ConfigChangeManager.addServer_ok hch
    refine ⟨hnone (hok hrole) hlet.free, ?_⟩
    rw [hlet.change]
    intro hmem
    exact hlet.fresh (Or.inr (Configuration.contains_iff.mpr hmem))
  · have hlet := ConfigChangeManager.removeServer_ok hch
    obtain ⟨hown, hself, hother⟩ := hok hrole
    refine ⟨hnone hown hlet.free, ?_⟩
    rw [hlet.change]
    constructor
    · by_cases hid : nodeId = w.node.id
      · exact hself hid
      · exact Configuration.contains_iff.mp (hlet.known.resolve_left hid)
    · obtain ⟨v, hv, hne⟩ := hother.resolve_left hlet.others
      exact List.ne_nil_of_mem (List.mem_filter.mpr ⟨hv, by simpa using hne⟩)

end Watched

/-! ## Two changes at once -/

/-- Node 1 of three is elected leader of term 1. -/
def electedTurns : List (AdminTurn UInt8 Adder) :=
  [.event (.timerFired .election), .event (.message 2 (.preVoteResponse 0 true)),
    .event (.message 2 (.requestVoteResponse 1 true))]

/-- It adds node 4, and node 2 acknowledges the addition. -/
def additionTurns : List (AdminTurn UInt8 Adder) :=
  [.addServer 4, .event (.message 2 (.appendEntriesResponse 1 true 1))]

instance (w : Watched UInt8 Adder) : (t : AdminTurn UInt8 Adder) → Decidable (w.GuardCovers t)
  | .event (.configChange _) => inferInstanceAs (Decidable (_ ≠ _))
  | .event (.message _ _) | .event (.timerFired _) | .event (.clientCommand _)
  | .restart _ _ _ _ _ _ => isTrue trivial
  | .addServer _ => inferInstanceAs (Decidable (_ = _ → ∀ _ ∈ _, _))
  | .removeServer nodeId => inferInstanceAs (Decidable (_ = _ → (∀ _ ∈ _, _) ∧ (_ → _) ∧
      (_ ∨ ∃ v ∈ w.node.config.members, v ≠ nodeId)))

/-- Once the first addition is committed, the next one is the only uncommitted change. -/
theorem one_change_at_a_time_trio :
    let w := (electedTurns ++ additionTurns).foldl (Watched.turn .testUtils) ⟨trioNode, []⟩
    (∀ i e, w.node.replication.commitIndex < i → w.node.storage.getEntry i = some e →
      ¬ e.IsConfigChange) ∧ (ConfigurationChange.addServer 5).ValidFor w.node.config.members :=
  Watched.one_change_at_a_time (R := .testUtils) (t := .addServer 5)
    (Admitted.run (electedTurns ++ additionTurns) (by decide +kernel)) (by decide +kernel)
    ⟨by decide +kernel, trivial, by decide +kernel⟩

/-- Two changes that come as events are appended one after the other, the first one uncommitted. -/
theorem two_changes_at_once :
    ¬ ∀ (w : Watched UInt8 Adder) (t : AdminTurn UInt8 Adder) (change : ConfigurationChange),
      Run (Watched.turn .testUtils) (fun _ _ => True) ⟨trioNode, []⟩ w →
      w.Appends .testUtils t change →
      (∀ i e, w.node.replication.commitIndex < i → w.node.storage.getEntry i = some e →
        ¬ e.IsConfigChange) ∧ change.ValidFor w.node.config.members := by
  intro h
  have hlast := h _ (.event (.configChange (.addServer 5))) (.addServer 5)
    (Admitted.run (electedTurns ++ [.event (.configChange (.addServer 4))])
      (by simp [Admitted, electedTurns])) ⟨by decide +kernel, trivial, by decide +kernel⟩
  exact hlast.1 1 ⟨1, .configChange (.addServer 4)⟩ (by decide +kernel) (by decide +kernel)
    ⟨.addServer 4, rfl⟩

end MetalRaft
