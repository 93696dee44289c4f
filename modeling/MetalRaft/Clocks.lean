import MetalRaft.Campaign
import MetalRaft.Timers

/-!
# Clocks

The clocks of the timers and of the leases are one clock, which no event moves.

* `Reachable.shows` — all clocks of a cluster agree.
* `TimersWait E` — no election timer fires before it has run for `E`.
-/

set_option autoImplicit false

namespace MetalRaft

open Transition

variable {P SM : Type}

namespace RaftNode

variable {S : Type} {R : Realization} {ev : Event P} {n : RaftNode P S SM}

/-- What the clock of the timers and the clock of the lease show. -/
def clocks (n : RaftNode P S SM) : Nat × Nat :=
  (n.election.timerService.clock, n.leaderLease.clock)

variable [Storage S P]

theorem timerClock_becomeLeader :
    (n.becomeLeader R).election.timerService.clock = n.election.timerService.clock := by
  unfold becomeLeader
  rw [sendAppendEntriesToFollowers_eq]
  rfl

theorem timerClock_startElection :
    (n.startElection R).election.timerService.clock = n.election.timerService.clock := by
  unfold startElection
  dsimp only
  rw [broadcast_eq]
  split
  · exact timerClock_becomeLeader
  · rfl

theorem timerClock_handleElectionTimer :
    (n.handleElectionTimer R).election.timerService.clock = n.election.timerService.clock := by
  have hpre : (n.startPreVote R).election.timerService.clock =
      n.election.timerService.clock := by
    unfold startPreVote
    rw [broadcast_eq]
    rfl
  rw [handleElectionTimer_eq]
  split
  · split
    · exact timerClock_startElection.trans hpre
    · exact hpre
  · rfl

theorem timerClock_handleVoteRequest {sender cand : NodeId} {term li lt : Nat} :
    (n.handleVoteRequest sender term cand li lt).election.timerService.clock =
      n.election.timerService.clock := by
  have hanswer : ∀ {n : RaftNode P S SM}, term ≤ n.currentTerm →
      (n.answerVoteRequest sender term cand li lt).election.timerService.clock =
        n.election.timerService.clock := by
    intro n hterm
    rcases timers_answerVoteRequest hterm with h | h <;> rw [h]
    rfl
  unfold handleVoteRequest
  dsimp only
  split
  · exact hanswer (Nat.le_refl _)
  · rename_i hgt
    exact hanswer (Nat.not_lt.mp hgt)

variable [StateMachine SM P]

theorem timerClock_handleAppendEntries {sender : NodeId} {term prev pt : Nat}
    {es : List (LogEntry P)} {lc : Nat} :
    (n.handleAppendEntries R sender term prev pt es lc).election.timerService.clock =
      n.election.timerService.clock := by
  unfold handleAppendEntries
  split
  · rfl
  · unfold acceptAppendEntries resetElectionTimerIfValidTerm
    split <;> rfl

theorem timers_recordAppendEntriesResponse {sender : NodeId} {success : Bool} {m : Nat} :
    (n.recordAppendEntriesResponse R sender success m).election = n.election := by
  unfold recordAppendEntriesResponse
  dsimp only
  split
  · split <;> rfl
  · rfl

theorem timerClock_handleInstallSnapshot {sender : NodeId} {T index term offset : Nat}
    {data : List UInt8} {done : Bool} :
    (n.handleInstallSnapshot sender T index term offset data done).election.timerService.clock =
      n.election.timerService.clock := by
  rcases Nat.lt_or_ge T n.currentTerm with hlt | hle
  · rw [handleInstallSnapshot_of_lt hlt]
    rfl
  · rw [handleInstallSnapshot_of_le hle]
    split <;> rfl

theorem timers_submitEntry {entryType : EntryType P} :
    (n.submitEntry R entryType).1.election = n.election := by
  unfold submitEntry
  split
  · rfl
  · dsimp only
    rw [sendAppendEntriesToFollowers_eq]
    dsimp only
    split <;> rfl

theorem timerClock_onEvent (R : Realization) (n : RaftNode P S SM) (ev : Event P) :
    (n.onEvent R ev).election.timerService.clock = n.election.timerService.clock := by
  cases ev with
  | timerFired kind =>
    cases kind with
    | election => exact timerClock_handleElectionTimer
    | heartbeat =>
      show (n.handleHeartbeatTimer R).election.timerService.clock = _
      unfold handleHeartbeatTimer sendHeartbeats
      rw [sendAppendEntriesToFollowers_eq]
      split <;> rfl
  | clientCommand payload | configChange change =>
    show (n.submitEntry R _).1.election.timerService.clock = _
    rw [timers_submitEntry]
  | message sender msg =>
    cases msg with
    | preVoteRequest => rfl
    | preVoteResponse term granted =>
      show (n.handlePreVoteResponse R sender term granted).election.timerService.clock = _
      unfold handlePreVoteResponse ElectionManager.handlePreVoteResponse
      dsimp only
      split
      · rfl
      · split
        · rfl
        · split
          · exact timerClock_startElection
          · rfl
    | requestVote => exact timerClock_handleVoteRequest
    | requestVoteResponse term granted =>
      show (n.handleVoteResponse R sender term granted).election.timerService.clock = _
      unfold handleVoteResponse ElectionManager.handleVoteResponse
      split
      · rfl
      · dsimp only
        split
        · rfl
        · split
          · exact timerClock_becomeLeader
          · rfl
    | appendEntries => exact timerClock_handleAppendEntries
    | appendEntriesResponse term success m =>
      show (n.handleAppendEntriesResponse R sender term success m).election.timerService.clock = _
      unfold handleAppendEntriesResponse
      split
      · rfl
      · split
        · rw [timers_recordAppendEntriesResponse]
        · rfl
    | installSnapshot => exact timerClock_handleInstallSnapshot
    | installSnapshotResponse term success =>
      show (n.handleInstallSnapshotResponse R sender term success).election.timerService.clock = _
      unfold handleInstallSnapshotResponse
      split
      · rfl
      · split
        · split <;> rfl
        · rfl

theorem leaseClock_of_outcome {f : Face P SM} (hout : Outcome R ev n f) :
    f.leaderLease.clock = n.leaderLease.clock := by
  cases hout <;> rfl

theorem clocks_onEvent (R : Realization) (n : RaftNode P S SM) (ev : Event P) :
    (n.onEvent R ev).clocks = n.clocks :=
  Prod.ext (timerClock_onEvent R n ev)
    (leaseClock_of_outcome (onEvent_outcome R n ev))

section

variable {n : TestNode P SM} {sender : NodeId} {msg : RaftMsg P}

/-- Whoever hears of a leader waits anew. -/
theorem timers_lead (hmsg : msg.Leads n.currentTerm) :
    (n.onEvent .testUtils (.message sender msg)).election.timerService =
      n.election.timerService.resetElectionTimer := by
  cases msg with
  | appendEntries term prev pt es lc =>
    have hterm : term = n.currentTerm := hmsg
    show (n.handleAppendEntries .testUtils sender term prev pt es lc).election.timerService = _
    unfold handleAppendEntries
    rw [if_neg (Nat.not_lt.mpr (Nat.le_of_eq hterm))]
    unfold acceptAppendEntries resetElectionTimerIfValidTerm
    rw [if_pos (Nat.le_of_eq hterm.symm)]
    rfl
  | installSnapshot T leaderId index term offset data done =>
    have hterm : T = n.currentTerm := hmsg
    show (n.handleInstallSnapshot sender T index term offset data done).election.timerService = _
    rw [handleInstallSnapshot_of_le (Nat.le_of_eq hterm.symm)]
    split <;> rfl
  | preVoteRequest | preVoteResponse | requestVote | requestVoteResponse | appendEntriesResponse
  | installSnapshotResponse => exact hmsg.elim

end

end RaftNode

section

variable [StateMachine SM P] {d : Deployment SM} {c c₀ : Cluster P SM} {a : Action P} {now : Nat}

/-- The clocks of all nodes show `now`. -/
def Cluster.Shows (c : Cluster P SM) (now : Nat) : Prop := ∀ v, (c.nodes v).clocks = (now, now)

theorem Cluster.Shows.withNode (h : c.Shows now) (hnodes : c₀.nodes = c.nodes) (v : NodeId)
    (ev : Event P) : (c₀.dispatch v ev).Shows now := by
  intro u
  unfold Cluster.dispatch
  by_cases hu : u = v
  · subst hu
    rw [Cluster.withNode_nodes_self, hnodes]
    exact (RaftNode.clocks_onEvent .testUtils (c.nodes u) ev).trans (h u)
  · rw [Cluster.withNode_nodes_ne hu, hnodes]
    exact h u

theorem shows_advance (h : c.Shows now) (millis : Nat) :
    (c.step d (.advance millis)).Shows (now + millis) := by
  intro u
  obtain ⟨htimer, hlease⟩ := Prod.ext_iff.mp (h u)
  exact Prod.ext (congrArg (· + millis) htimer) (congrArg (· + millis) hlease)

theorem shows_restart (h : c.Shows now) (v : NodeId) : (c.step d (.restart v)).Shows now := by
  intro u
  have hlease : (c.nodes v).leaderLease.clock = now := congrArg Prod.snd (h v)
  unfold Cluster.step
  dsimp only
  by_cases hu : u = v
  · subst hu
    rw [Function.update_self]
    exact Prod.ext hlease hlease
  · rw [Function.update_of_ne hu]
    exact h u

theorem shows_step (h : c.Shows now) (ha : ∀ millis, a ≠ .advance millis) :
    (c.step d a).Shows now := by
  rcases Cluster.step_cases d c a with ⟨v, ev, c₀, hh, hs⟩ | ⟨net, _, hs⟩ | ⟨k, p, _, _, hs⟩ |
    ⟨v, rfl, _⟩ | ⟨millis, rfl, _⟩
  · rw [hs]
    exact h.withNode hh.nodes v ev
  · rw [hs]
    exact h
  · rw [hs]
    exact h
  · exact shows_restart h v
  · exact absurd rfl (ha millis)

/-- All clocks agree. -/
theorem Reachable.shows {ok : Cluster P SM → Action P → Prop} (h : Reachable d ok c) :
    ∃ now, c.Shows now := by
  refine Run.invariant (I := fun c => ∃ now, c.Shows now) (fun c a ⟨now, hn⟩ _ => ?_) h
    ⟨0, fun _ => rfl⟩
  cases a with
  | advance millis => exact ⟨_, shows_advance hn millis⟩
  | deliver | lose | duplicate | timer | client | configChange | restart =>
    exact ⟨now, shows_step hn nofun⟩

end

/-- An election timer fires only when it has run for `E` since it was last reset. -/
def TimersWait {P SM : Type} (E : Nat) (c : Cluster P SM) : Action P → Prop
  | .timer v .election => ∃ reset ∈ (c.nodes v).election.timerService.election,
      reset + E ≤ (c.nodes v).election.timerService.clock
  | _ => True

instance {P SM : Type} (E : Nat) (c : Cluster P SM) : (a : Action P) → Decidable (TimersWait E c a)
  | .timer v .election => inferInstanceAs (Decidable
      (∃ reset ∈ (c.nodes v).election.timerService.election,
        reset + E ≤ (c.nodes v).election.timerService.clock))
  | .timer _ .heartbeat | .deliver _ | .lose _ | .duplicate _ | .client _ _ | .configChange _ _
  | .restart _ | .advance _ => isTrue trivial

end MetalRaft
