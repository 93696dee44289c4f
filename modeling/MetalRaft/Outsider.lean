import MetalRaft.Cluster
import MetalRaft.Moves

/-!
# Nodes outside their own configuration

A node that a committed change has removed from its configuration is a follower, and the only way
out of that role is to start an election.  Two shortcuts let it: a configuration of at most one
member counts as won, whoever that member is, and pre-votes are counted without asking whether
the node may stand.

* `inside_move` — every move keeps a node inside its configuration or a follower.
* `outsider_starts_iff` — exactly the two shortcuts lead such a node out of its role.
* `outsider_stays_follower` — in every run without them, a node outside its configuration is a
  follower.
* `outsider_leads` — with them it may lead.
-/

set_option autoImplicit false

namespace MetalRaft

open Transition

namespace RaftNode

variable {P S SM : Type} [Storage S P] [StateMachine SM P] {R : Realization} {ev : Event P}
  {n₀ n n' : RaftNode P S SM}

/-- The members fit their collection, and the node is one of them or a follower. -/
structure Inside (R : Realization) (id : NodeId) (members : List NodeId) (role : NodeState) :
    Prop where
  fits : ∀ cap, R.nodes = some cap → members.length ≤ cap
  inside : id ∈ members ∨ role = .follower

/-! ## Configuration changes -/

theorem inside_applyChange {selfId : NodeId} {last : Nat} {c : ChangeResult}
    (entry : Nat × ConfigurationChange)
    (h : Inside R selfId c.manager.config.members c.role) :
    Inside R selfId (ConfigChangeManager.applyChange R selfId last c entry).manager.config.members
      (ConfigChangeManager.applyChange R selfId last c entry).role := by
  obtain ⟨index, change⟩ := entry
  have hcopy : c.manager.config.members.foldl (pushWithin R.nodes) [] =
      c.manager.config.members := by
    rw [foldl_pushWithin_of_fits]
    · rfl
    · intro k hk; have := h.fits k hk; simp only [List.length_nil]; omega
  cases change with
  | addServer nodeId =>
    have hnew : Inside R selfId (pushWithin R.nodes c.manager.config.members nodeId) c.role := by
      refine ⟨fun cap hcap => ?_, h.inside.imp_left fun hm => ?_⟩
      · rw [hcap]; exact pushWithin_length_le _ (h.fits cap hcap)
      · unfold pushWithin
        split
        · exact List.mem_append_left _ hm
        · split
          · exact List.mem_append_left _ hm
          · exact hm
    unfold ConfigChangeManager.applyChange
    simp only [hcopy]
    split <;> split <;> exact hnew
  | removeServer nodeId =>
    have hkeep : (c.manager.config.members.filter (· != nodeId)).foldl (pushWithin R.nodes) [] =
        c.manager.config.members.filter (· != nodeId) := by
      rw [foldl_pushWithin_of_fits]
      · rfl
      · intro k hk
        have := h.fits k hk
        have := List.length_filter_le (· != nodeId) c.manager.config.members
        simp only [List.length_nil]
        omega
    have hfits : ∀ cap, R.nodes = some cap →
        (c.manager.config.members.filter (· != nodeId)).length ≤ cap := fun cap hcap =>
      Nat.le_trans (List.length_filter_le _ _) (h.fits cap hcap)
    unfold ConfigChangeManager.applyChange
    simp only [hkeep]
    by_cases hself : nodeId = selfId
    · simp only [hself, if_true] at hfits ⊢
      split <;> split <;> exact ⟨hfits, Or.inr rfl⟩
    · have hnew : Inside R selfId (c.manager.config.members.filter (· != nodeId)) c.role := by
        refine ⟨hfits, h.inside.imp_left fun hm => ?_⟩
        rw [List.mem_filter]
        exact ⟨hm, by simpa using fun heq => hself heq.symm⟩
      simp only [hself, if_false]
      split <;> split <;> exact hnew

/-- The node as the invariant sees it. -/
def IsInside (R : Realization) (n : RaftNode P S SM) : Prop :=
  Inside R n.id n.config.members n.role

omit [StateMachine SM P] in
theorem inside_applyConfigChanges (changes : ConfigChangeCollection) (h : n.IsInside R) :
    (n.applyConfigChanges R changes).IsInside R := by
  suffices hall : ∀ (changes : ConfigChangeCollection) (c : ChangeResult),
      Inside R n.id c.manager.config.members c.role →
      Inside R n.id
        (changes.foldl (ConfigChangeManager.applyChange R n.id (Storage.lastLogIndex n.storage))
          c).manager.config.members
        (changes.foldl (ConfigChangeManager.applyChange R n.id (Storage.lastLogIndex n.storage))
          c).role from hall changes _ h
  intro changes
  induction changes with
  | nil => exact fun _ hc => hc
  | cons entry changes ih => exact fun c hc => ih _ (inside_applyChange entry hc)

/-! ## Moves -/

/-- The node is outside its configuration and the event starts an election all the same. -/
def OutsiderStarts (R : Realization) (n : RaftNode P S SM) (ev : Event P) : Prop :=
  n.config.contains n.id = false ∧ n.StartsElection R ev

theorem inside_move (hok : ¬ n₀.OutsiderStarts R ev) (hid : n.id = n₀.id)
    (hmove : Move R ev n₀ n n') (h : n.IsInside R) : n'.IsInside R := by
  cases hmove with
  | inert hi =>
    unfold IsInside config
    rw [hi.id, hi.configManager, hi.role]
    exact h
  | adoptTerm | rest => exact ⟨h.fits, Or.inr rfl⟩
  | campaign cause hconfig =>
    rw [broadcast_eq]
    refine ⟨h.fits, Or.inl ?_⟩
    have hin : n₀.config.contains n₀.id = true := by
      cases hc : n₀.config.contains n₀.id with
      | true => rfl
      | false => exact absurd ⟨hc, cause⟩ hok
    rw [Configuration.contains_iff, ← hid] at hin
    unfold config at hin
    rw [← hconfig] at hin
    exact hin
  | lead candidate =>
    refine ⟨h.fits, Or.inl (h.inside.resolve_right ?_)⟩
    rw [candidate]
    decide
  | applyChanges changes => exact inside_applyConfigChanges changes h
  | _ => exact ⟨h.fits, h.inside⟩

theorem inside_onEvent (hok : ¬ n.OutsiderStarts R ev) (h : n.IsInside R) :
    (n.onEvent R ev).IsInside R := by
  have hmoves := onEvent_moves R n ev
  generalize n.onEvent R ev = n' at hmoves ⊢
  induction hmoves with
  | refl => exact h
  | tail hmoves hlast ih => exact inside_move hok (Moves.id_eq hmoves) hlast ih

/-! ## The two shortcuts -/

theorem follower_move (hcause : ¬ n₀.StartsElection R ev) (hmove : Move R ev n₀ n n')
    (h : n.role = .follower) : n'.role = .follower := by
  cases hmove with
  | inert hi => exact hi.role.trans h
  | adoptTerm | rest => rfl
  | campaign cause => exact absurd cause hcause
  | lead candidate => rw [h] at candidate; cases candidate
  | applyChanges changes =>
    -- a configuration change only ever takes the role away
    suffices hall : ∀ (changes : ConfigChangeCollection) (c : ChangeResult), c.role = .follower →
        (changes.foldl (ConfigChangeManager.applyChange R n.id (Storage.lastLogIndex n.storage))
          c).role = .follower from hall changes _ h
    intro changes
    induction changes with
    | nil => exact fun _ hc => hc
    | cons entry changes ih =>
      intro c hc
      refine ih _ ?_
      obtain ⟨index, change⟩ := entry
      unfold ConfigChangeManager.applyChange
      cases change <;> dsimp only <;> split <;> split <;> (try split) <;> first | exact hc | rfl
  | _ => exact h

omit [StateMachine SM P] in
theorem startElection_role (n : RaftNode P S SM) : (n.startElection R).role ≠ .follower := by
  unfold startElection
  dsimp only
  split
  · simp only [becomeLeader, sendAppendEntriesToFollowers_eq]
    decide
  · rw [broadcast_eq]
    simp [ElectionManager.startElection]

/-- **A follower leaves its role exactly by starting an election**: on an election timeout with
at most one member in its configuration, or on the pre-vote that completes a quorum.  Whether the
node is a member itself is not looked at. -/
theorem outsider_starts_iff (h : n.role = .follower) :
    (n.onEvent R ev).role ≠ .follower ↔ n.StartsElection R ev := by
  constructor
  · intro hrole
    by_contra hcause
    refine hrole ?_
    have hmoves := onEvent_moves R n ev
    generalize n.onEvent R ev = n' at hmoves ⊢
    induction hmoves with
    | refl => exact h
    | tail _ hlast ih => exact follower_move hcause hlast ih
  · intro hcause
    unfold StartsElection at hcause
    split at hcause
    · show (n.handleElectionTimer R).role ≠ .follower
      rw [handleElectionTimer_eq, if_pos hcause.1, if_pos hcause.2]
      exact startElection_role _
    · obtain ⟨hterm, hpre, hgranted, hquorum⟩ := hcause
      simp only [onEvent, handleMessage, handlePreVoteResponse, gt_iff_lt,
        Nat.not_lt.mpr hterm, if_false, ElectionManager.handlePreVoteResponse, hpre, hgranted,
        Bool.not_true, Bool.or_self, Bool.false_eq_true, hquorum, if_true]
      exact startElection_role _
    · exact hcause.elim

/-! ## Runs of one node -/

/-- The node as the builder makes it: a follower that knows itself. -/
theorem newFromBuilder_inside (R : Realization) (id : NodeId) (storage : S) (stateMachine : SM)
    (timers : TimerService) (transport : List (Outgoing P S)) (peers : List NodeId)
    (observer : Observer P) (threshold clock lease : Nat) :
    (newFromBuilder R id storage stateMachine timers transport peers observer threshold clock
      lease).IsInside R := by
  refine ⟨fun cap hcap => ?_, Or.inr rfl⟩
  unfold newFromBuilder config
  simp only [ConfigChangeManager.new, hcap]
  refine foldl_pushWithin_length_le _ _ (pushWithin_length_le _ ?_)
  simp

/-- **A node outside its own configuration never leads**, in every run of arbitrary events in
which no such node is made to start an election by one of the two shortcuts. -/
theorem outsider_stays_follower {id : NodeId} {storage : S} {stateMachine : SM}
    {timers : TimerService} {transport : List (Outgoing P S)} {peers : List NodeId}
    {observer : Observer P} {threshold clock lease : Nat}
    (h : Run (fun n ev => n.onEvent R ev) (fun n ev => ¬ n.OutsiderStarts R ev)
      (newFromBuilder R id storage stateMachine timers transport peers observer threshold clock
        lease) n)
    (hout : n.config.contains n.id = false) : n.role = .follower := by
  have hinside : n.IsInside R := Run.invariant (fun _ _ hn hok => inside_onEvent hok hn) h
    (newFromBuilder_inside R id storage stateMachine timers transport peers observer threshold
      clock lease)
  refine hinside.inside.resolve_left fun hmem => ?_
  rw [Configuration.contains_iff.mpr hmem] at hout
  cases hout

end RaftNode

/-! ## A removed node that leads -/

/-- Node 1 of two, as it starts. -/
def duoNode : TestNode UInt8 Adder :=
  .newFromBuilder .testUtils 1 .new ⟨0⟩ ⟨none, none, 0⟩ [] [2] ⟨[]⟩ 100 0 100

/-- The leader, node 2, makes itself known and then replicates the removal of node 1. -/
def removal : List (Event UInt8) :=
  [.message 2 (.appendEntries 1 0 0 [⟨1, .configChange (.removeServer 1)⟩] 1),
    .message 2 (.appendEntries 1 0 0 [⟨1, .configChange (.removeServer 1)⟩] 1)]

instance {R : Realization} {n : TestNode UInt8 Adder} (ev : Event UInt8) :
    Decidable (n.OutsiderStarts R ev) :=
  inferInstanceAs (Decidable (_ ∧ _))

/-- Removed from its configuration, node 1 is a follower. -/
theorem outsider_stays_follower_duo :
    let n := removal.foldl (fun n ev => n.onEvent .testUtils ev) duoNode
    n.config.contains n.id = false ∧ n.role = .follower :=
  ⟨by decide +kernel, RaftNode.outsider_stays_follower (R := .testUtils)
    (Admitted.run removal (by decide +kernel)) (by decide +kernel)⟩

/-- Its election timer then makes it the leader of a cluster it does not belong to. -/
theorem outsider_leads :
    ¬ ∀ n : TestNode UInt8 Adder,
      Run (fun n ev => n.onEvent .testUtils ev) (fun _ _ => True) duoNode n →
      n.config.contains n.id = false → n.role = .follower := by
  intro h
  have hrole := h _ (Admitted.run (removal ++ [.timerFired .election]) (by simp [Admitted,
    removal])) (by decide +kernel)
  exact absurd hrole (by decide +kernel)

end MetalRaft
