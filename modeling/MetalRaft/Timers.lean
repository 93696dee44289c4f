import MetalRaft.CommitPoint
import MetalRaft.Deposed
import MetalRaft.Lifetime

/-!
# Timers and roles

A leader is meant to have its heartbeat timer armed and nobody else to; everyone else in the
configuration waits on the election timer.  Winning an election stops both timers before it arms
the heartbeat timer.  No way out of leadership stops a timer.

* `Timing` — what handling an event may do to the timers and the role, taken together.
* `Resigns` — the events that end a leadership; `resigns_iff`.
* `timers_match_role_iff` — timers match roles in every state of a life if and only if no leader
  ever resigns in it.
-/

set_option autoImplicit false

namespace MetalRaft

open Transition LogReplicationManager

namespace RaftNode

variable {P S SM : Type}

/-- Armed from its reset until both timers are stopped. -/
def heartbeatArmed (n : RaftNode P S SM) : Prop := n.election.timerService.heartbeat.isSome = true

def electionArmed (n : RaftNode P S SM) : Prop := n.election.timerService.election.isSome = true

/-- The timers match the role. -/
structure TimersMatch (n : RaftNode P S SM) : Prop where
  heartbeat : n.heartbeatArmed ↔ n.role = .leader
  election : n.id ∈ n.config.members → n.role ≠ .leader → n.electionArmed

instance (n : RaftNode P S SM) : Decidable n.TimersMatch :=
  decidable_of_iff ((n.election.timerService.heartbeat.isSome = true ↔ n.role = .leader) ∧
      (n.id ∈ n.config.members → n.role ≠ .leader →
        n.election.timerService.election.isSome = true))
    ⟨fun h => ⟨h.1, h.2⟩, fun h => ⟨h.heartbeat, h.election⟩⟩

/-- What handling an event may do to the timers and the role. -/
inductive Timing (n n' : RaftNode P S SM) : Prop
  | idles (timers : n'.election.timerService = n.election.timerService)
      (leads : n'.role = .leader → n.role = .leader)
  | waits (timers : n'.election.timerService = n.election.timerService.resetElectionTimer)
      (leads : n'.role = .leader → n.role = .leader)
  | beats (timers : n'.election.timerService = n.election.timerService.resetHeartbeatTimer)
      (role : n.role = .leader) (leads : n'.role = .leader)
  | takesOver (heartbeat : n'.heartbeatArmed)
      (election : n'.election.timerService.election = none) (leads : n'.role = .leader)

variable [Storage S P] [StateMachine SM P] {R : Realization} {ev : Event P}
  {n n' : RaftNode P S SM}

omit [Storage S P] [StateMachine SM P] in
/-- The election timer goes on from where it was, starts anew or stops. -/
theorem Timing.election_cases (h : Timing n n') {reset : Nat}
    (hreset : n'.election.timerService.election = some reset) :
    n.election.timerService.election = some reset ∨ reset = n.election.timerService.clock := by
  cases h with
  | idles timers =>
    rw [timers] at hreset
    exact Or.inl hreset
  | waits timers =>
    rw [timers] at hreset
    exact Or.inr (Option.some.inj hreset).symm
  | beats timers =>
    rw [timers] at hreset
    exact Or.inl hreset
  | takesOver _ election =>
    rw [election] at hreset
    cases hreset

/-- Leadership comes from an election or a vote. -/
theorem leads_of_outcome (hout : Outcome R ev n n'.face) (hstarts : ¬ n.StartsElection R ev)
    (hvote : ∀ sender, ev ≠ .message sender (.requestVoteResponse n.currentTerm true))
    (h : n'.role = .leader) : n.role = .leader := by
  have hrole : n'.face.role = .leader := h
  generalize n'.face = f at hout hrole
  cases hout with
  | keeps => exact hrole
  | stepsDown => cases hrole
  | yields | hearsSnapshot | installs => exact (Face.follow_leader.mp hrole).1
  | learns => exact (Face.follow_leader.mp (Face.commit_leader.mp hrole).1).1
  | commits leader | commitsAlone leader => exact leader
  | campaigns cause | leadsAlone cause => exact absurd cause hstarts
  | wins candidate asked => exact absurd asked (hvote _)

omit [StateMachine SM P] in
theorem becomeLeader_takesOver : Timing n (n'.becomeLeader R) := by
  unfold becomeLeader
  rw [sendAppendEntriesToFollowers_eq]
  exact .takesOver rfl rfl rfl

omit [StateMachine SM P] in
/-- Standing for election arms the election timer; leading at once takes over. -/
theorem timing_startElection
    (h : n'.election.timerService.resetElectionTimer =
      n.election.timerService.resetElectionTimer) : Timing n (n'.startElection R) := by
  unfold startElection
  dsimp only
  rw [broadcast_eq]
  split
  · exact becomeLeader_takesOver
  · exact .waits h fun hrole => (by cases hrole)

omit [StateMachine SM P] in
theorem timing_handleElectionTimer : Timing n (n.handleElectionTimer R) := by
  rw [handleElectionTimer_eq]
  split
  · have htimers : (n.startPreVote R).election.timerService =
        n.election.timerService.resetElectionTimer := by
      unfold startPreVote
      rw [broadcast_eq]
      rfl
    split
    · refine timing_startElection ?_
      rw [htimers]
      rfl
    · refine .waits htimers fun hrole => ?_
      unfold startPreVote at hrole
      rw [broadcast_eq] at hrole
      exact hrole
  · exact .idles rfl fun hrole => hrole

omit [StateMachine SM P] in
theorem timing_handleHeartbeatTimer : Timing n (n.handleHeartbeatTimer R) := by
  unfold handleHeartbeatTimer
  split
  · rename_i hrole
    unfold sendHeartbeats
    rw [sendAppendEntriesToFollowers_eq]
    exact .beats rfl hrole hrole
  · exact .idles rfl fun hrole => hrole

omit [StateMachine SM P] in
theorem timing_handlePreVoteResponse {sender : NodeId} {term : Nat} {granted : Bool} :
    Timing n (n.handlePreVoteResponse R sender term granted) := by
  unfold handlePreVoteResponse ElectionManager.handlePreVoteResponse
  dsimp only
  split
  · exact .idles rfl fun hrole => hrole
  · split
    · exact .idles rfl fun hrole => hrole
    · split
      · exact timing_startElection rfl
      · exact .idles rfl fun hrole => hrole

omit [StateMachine SM P] in
theorem timers_answerVoteRequest {n : RaftNode P S SM} {sender : NodeId} {term : Nat}
    {cand : NodeId} {li lt : Nat} (hterm : term ≤ n.currentTerm) :
    (n.answerVoteRequest sender term cand li lt).election.timerService =
        n.election.timerService ∨
      (n.answerVoteRequest sender term cand li lt).election.timerService =
        n.election.timerService.resetElectionTimer := by
  rw [answerVoteRequest_eq hterm]
  split
  · exact Or.inr rfl
  · exact Or.inl rfl

omit [StateMachine SM P] in
theorem timing_handleVoteRequest {sender : NodeId} {term : Nat} {cand : NodeId} {li lt : Nat} :
    Timing n (n.handleVoteRequest sender term cand li lt) := by
  unfold handleVoteRequest
  dsimp only
  split
  · have hterm : term ≤ (n.stepDown term).currentTerm := Nat.le_refl _
    rcases timers_answerVoteRequest hterm with h | h
    · exact .waits h fun hrole => (by cases hrole)
    · exact .waits h fun hrole => (by cases hrole)
  · rename_i hgt
    rcases timers_answerVoteRequest (Nat.not_lt.mp hgt) with h | h
    · exact .idles h fun hrole => hrole
    · exact .waits h fun hrole => hrole

omit [StateMachine SM P] in
theorem timing_handleVoteResponse {sender : NodeId} {term : Nat} {granted : Bool} :
    Timing n (n.handleVoteResponse R sender term granted) := by
  unfold handleVoteResponse ElectionManager.handleVoteResponse
  split
  · exact .waits rfl fun hrole => (by cases hrole)
  · dsimp only
    split
    · exact .idles rfl fun hrole => hrole
    · split
      · exact becomeLeader_takesOver
      · exact .idles rfl fun hrole => hrole

theorem timing_handleAppendEntries {sender : NodeId} {term prev pt : Nat} {es : List (LogEntry P)}
    {lc : Nat} : Timing n (n.handleAppendEntries R sender term prev pt es lc) := by
  have hleads : (n.handleAppendEntries R sender term prev pt es lc).role = .leader →
      n.role = .leader :=
    leads_of_outcome (outcome_handleAppendEntries rfl) (fun h => h) fun _ h => (by cases h)
  unfold handleAppendEntries at hleads ⊢
  split
  · exact .waits rfl fun hrole => (by cases hrole)
  · rename_i hterm
    rw [if_neg hterm] at hleads
    by_cases hge : term ≥ n.currentTerm
    · refine .waits ?_ hleads
      unfold acceptAppendEntries resetElectionTimerIfValidTerm
      rw [if_pos hge]
      rfl
    · refine .idles ?_ hleads
      unfold acceptAppendEntries resetElectionTimerIfValidTerm
      rw [if_neg hge]
      rfl

theorem timing_handleAppendEntriesResponse {sender : NodeId} {term : Nat} {success : Bool}
    {m : Nat} : Timing n (n.handleAppendEntriesResponse R sender term success m) := by
  unfold handleAppendEntriesResponse
  split
  · exact .waits rfl fun hrole => (by cases hrole)
  · split
    · rename_i hleader
      refine .idles ?_ fun _ => hleader.1
      unfold recordAppendEntriesResponse
      dsimp only
      split
      · split <;> rfl
      · rfl
    · exact .idles rfl fun hrole => hrole

theorem timing_handleInstallSnapshot {sender : NodeId} {T index term offset : Nat}
    {data : List UInt8} {done : Bool} :
    Timing n (n.handleInstallSnapshot sender T index term offset data done) := by
  have hleads : (n.handleInstallSnapshot sender T index term offset data done).role = .leader →
      n.role = .leader :=
    leads_of_outcome (R := .testUtils)
      (outcome_handleInstallSnapshot (rfl : _ = Event.message sender
        (.installSnapshot T sender index term offset data done))) (fun h => h)
      fun _ h => (by cases h)
  rcases Nat.lt_or_ge T n.currentTerm with hlt | hle
  · refine .idles ?_ hleads
    rw [handleInstallSnapshot_of_lt hlt]
    rfl
  · refine .waits ?_ hleads
    rw [handleInstallSnapshot_of_le hle]
    split <;> rfl

omit [StateMachine SM P] in
theorem timing_handleInstallSnapshotResponse {sender : NodeId} {term : Nat} {success : Bool} :
    Timing n (n.handleInstallSnapshotResponse R sender term success) := by
  unfold handleInstallSnapshotResponse
  split
  · exact .waits rfl fun hrole => (by cases hrole)
  · split
    · split <;> exact .idles rfl fun hrole => hrole
    · exact .idles rfl fun hrole => hrole

theorem timing_submitEntry {entryType : EntryType P} :
    Timing n (n.submitEntry R entryType).1 := by
  unfold submitEntry
  split
  · exact .idles rfl fun hrole => hrole
  · rename_i hrole
    refine .idles ?_ fun _ => not_ne_iff.mp hrole
    dsimp only
    rw [sendAppendEntriesToFollowers_eq]
    dsimp only
    split <;> rfl

/-- **What handling an event does to the timers.** -/
theorem onEvent_timing (R : Realization) (n : RaftNode P S SM) (ev : Event P) :
    Timing n (n.onEvent R ev) := by
  cases ev with
  | timerFired kind =>
    cases kind with
    | election => exact timing_handleElectionTimer
    | heartbeat => exact timing_handleHeartbeatTimer
  | clientCommand payload => exact timing_submitEntry
  | configChange change => exact timing_submitEntry
  | message sender msg =>
    cases msg with
    | requestVote => exact timing_handleVoteRequest
    | requestVoteResponse => exact timing_handleVoteResponse
    | preVoteRequest => exact .idles rfl fun hrole => hrole
    | preVoteResponse => exact timing_handlePreVoteResponse
    | appendEntries => exact timing_handleAppendEntries
    | appendEntriesResponse => exact timing_handleAppendEntriesResponse
    | installSnapshot => exact timing_handleInstallSnapshot
    | installSnapshotResponse => exact timing_handleInstallSnapshotResponse

omit [Storage S P] [StateMachine SM P] in
/-- Only a leader resets the heartbeat timer. -/
theorem Timing.heartbeat_eq (h : Timing n n') (hleft : n'.role ≠ .leader) :
    n'.election.timerService.heartbeat = n.election.timerService.heartbeat := by
  cases h with
  | idles timers => rw [timers]
  | waits timers =>
    rw [timers]
    rfl
  | beats _ _ leads => exact absurd leads hleft
  | takesOver _ _ leads => exact absurd leads hleft

omit [Storage S P] [StateMachine SM P] in
theorem Timing.armed (h : Timing n n') (harmed : n.role = .leader → n.heartbeatArmed)
    (hlead : n'.role = .leader) : n'.heartbeatArmed := by
  unfold heartbeatArmed at harmed ⊢
  cases h with
  | idles timers leads =>
    rw [timers]
    exact harmed (leads hlead)
  | waits timers leads =>
    rw [timers]
    exact harmed (leads hlead)
  | beats timers =>
    rw [timers]
    rfl
  | takesOver heartbeat => exact heartbeat

/-! ## Ends of a leadership -/

/-- Messages whose term a node takes over where it is later than its own. -/
def ForcesTerm : RaftMsg P → Prop
  | .preVoteRequest .. | .preVoteResponse .. => False
  | _ => True

/-- A leader is told of a later term, commits its own removal, or completes a pre-vote that it
began before it was elected. -/
def Resigns (R : Realization) (n : RaftNode P S SM) (ev : Event P) : Prop :=
  n.role = .leader ∧
    ((∃ sender msg, ev = .message sender msg ∧ ForcesTerm msg ∧ n.currentTerm < msg.term) ∨
      .removeServer n.id ∈ (Face.collected R (n.newlyCommitted R ev)).map (·.2) ∨
      (n.StartsElection R ev ∧ 1 < n.config.members.length))

omit [Storage S P] [StateMachine SM P] in
theorem follow_of_later {T : Nat} (h : n.currentTerm < T) : (n.face.follow T).role = .follower :=
  if_pos (Or.inl h)

theorem role_of_laterTerm {sender : NodeId} {msg : RaftMsg P} (hmsg : ForcesTerm msg)
    (h : n.currentTerm < msg.term) : (n.onEvent R (.message sender msg)).role = .follower := by
  have hsteps : ∀ {T : Nat} {n' : RaftNode P S SM}, n.currentTerm < T →
      (if T > n.currentTerm then n.stepDown T else n').role = .follower := by
    intro T n' hT
    rw [if_pos hT]
    rfl
  cases msg with
  | preVoteRequest | preVoteResponse => exact hmsg.elim
  | requestVote term cand li lt =>
    show (if term > n.currentTerm then n.stepDown term else n).role = .follower
    exact hsteps h
  | requestVoteResponse | appendEntries | appendEntriesResponse | installSnapshotResponse =>
    exact hsteps h
  | installSnapshot T leaderId index term offset data done =>
    have hout := onEvent_outcome R n
      (.message sender (.installSnapshot T leaderId index term offset data done))
    have hT : n.currentTerm < T := h
    generalize hf : (n.onEvent R _).face = f at hout
    have hrole : ∀ {r : NodeState}, f.role = r → (n.onEvent R _).role = r :=
      fun hr => (congrArg Face.role hf).trans hr
    cases hout with
    | keeps calm => exact absurd (Nat.le_of_lt hT) calm
    | stepsDown => exact hrole rfl
    | yields asked | learns asked | commits _ asked | wins _ asked => cases asked
    | commitsAlone _ asked => cases asked
    | hearsSnapshot asked | installs asked =>
      cases asked
      exact hrole (follow_of_later hT)
    | campaigns cause | leadsAlone cause => exact cause.elim

/-- A pre-vote of a later term changes nothing. -/
theorem role_of_laterPreVote {sender : NodeId} {msg : RaftMsg P} (hmsg : ¬ ForcesTerm msg)
    (h : n.currentTerm < msg.term) : (n.onEvent R (.message sender msg)).role = n.role := by
  cases msg with
  | preVoteRequest => rfl
  | preVoteResponse term granted =>
    show (n.handlePreVoteResponse R sender term granted).role = _
    unfold handlePreVoteResponse
    exact congrArg RaftNode.role (if_pos h)
  | _ => exact absurd trivial hmsg

/-- Where nothing is committed, a leader falls to a later term or to a late pre-vote. -/
theorem resigns_of_observer (hrole : n.role = .leader) (hleft : (n.onEvent R ev).role ≠ .leader)
    (h : (n.onEvent R ev).observer = n.observer) : n.Resigns R ev := by
  refine ⟨hrole, ?_⟩
  by_cases hlate : n.LatePreVote R ev
  · exact Or.inr (Or.inr hlate.2)
  · rcases deposedRightly_iff.mpr hlate hrole hleft with ⟨sender, msg, rfl, hterm⟩ | ⟨x, hx, _⟩
    · by_cases hmsg : ForcesTerm msg
      · exact Or.inl ⟨sender, msg, rfl, hmsg, hterm⟩
      · exact absurd ((role_of_laterPreVote hmsg hterm).trans hrole) hleft
    · rw [h, List.drop_length] at hx
      cases hx

/-- **The ends of a leadership.** -/
theorem resigns_iff (hrole : n.role = .leader) :
    (n.onEvent R ev).role ≠ .leader ↔ n.Resigns R ev := by
  have hcommits := onEvent_commits R n ev
  constructor
  · intro hleft
    cases hcommits with
    | nothing _ _ observer => exact resigns_of_observer hrole hleft observer
    | installs _ _ _ _ _ _ _ observer => exact resigns_of_observer hrole hleft observer
    | upTo _ leads _ _ _ _ face =>
      refine ⟨hrole, Or.inr (Or.inl ?_)⟩
      by_contra hnot
      refine hleft ((congrArg Face.role face).trans ?_)
      exact Face.commit_leader.mpr ⟨leads.mpr hrole, hnot⟩
  · rintro ⟨-, ⟨sender, msg, rfl, hmsg, hterm⟩ | hremoved | ⟨hcause, hpeers⟩⟩ hkept
    · rw [role_of_laterTerm hmsg hterm] at hkept
      cases hkept
    · have hnone : n.commitPoint R ev ≠ none := by
        intro hnone
        rw [newlyCommitted_of_none hnone] at hremoved
        cases hremoved
      cases hcommits with
      | nothing point => exact hnone point
      | installs asked =>
        rw [asked] at hnone
        exact hnone rfl
      | upTo _ _ _ _ _ _ face =>
        exact (Face.commit_leader.mp ((congrArg Face.role face).symm.trans hkept)).2 hremoved
    · have hface := congrArg Face.role (face_of_startsElection hcause)
      rw [if_neg (Nat.not_le.mpr hpeers)] at hface
      cases hface.symm.trans hkept

/-! ## One event -/

/-- Besides the heartbeat timer of the leader, everyone else has the election timer armed. -/
structure Armed (n : RaftNode P S SM) : Prop where
  heartbeat : n.heartbeatArmed ↔ n.role = .leader
  election : n.role ≠ .leader → n.electionArmed

omit [Storage S P] [StateMachine SM P] in
theorem Armed.timersMatch (h : n.Armed) : n.TimersMatch := ⟨h.heartbeat, fun _ => h.election⟩

omit [Storage S P] [StateMachine SM P] in
theorem armed_of_timing (h : n.Armed) (htiming : Timing n n')
    (hkept : n.role = .leader → n'.role = .leader) : n'.Armed := by
  cases htiming with
  | idles timers leads =>
    refine ⟨?_, fun hrole => ?_⟩
    · unfold heartbeatArmed
      rw [timers]
      exact h.heartbeat.trans ⟨hkept, leads⟩
    · unfold electionArmed
      rw [timers]
      exact h.election fun hlead => hrole (hkept hlead)
  | waits timers leads =>
    refine ⟨?_, fun _ => ?_⟩
    · unfold heartbeatArmed
      rw [timers]
      exact h.heartbeat.trans ⟨hkept, leads⟩
    · unfold electionArmed
      rw [timers]
      rfl
  | beats timers role leads =>
    refine ⟨⟨fun _ => leads, fun _ => ?_⟩, fun hrole => absurd leads hrole⟩
    unfold heartbeatArmed
    rw [timers]
    rfl
  | takesOver heartbeat _ leads =>
    exact ⟨⟨fun _ => leads, fun _ => heartbeat⟩, fun hrole => absurd leads hrole⟩

omit [Storage S P] [StateMachine SM P] in
/-- A leader that resigns leaves its heartbeat timer armed. -/
theorem not_timersMatch_of_timing (h : n.Armed) (htiming : Timing n n') (hrole : n.role = .leader)
    (hleft : n'.role ≠ .leader) : ¬ n'.TimersMatch := by
  intro hmatch
  have hbeat : n.heartbeatArmed := h.heartbeat.mpr hrole
  refine hleft (hmatch.heartbeat.mp ?_)
  unfold heartbeatArmed at hbeat ⊢
  cases htiming with
  | idles timers | waits timers =>
    rw [timers]
    exact hbeat
  | beats _ _ leads => exact absurd leads hleft
  | takesOver heartbeat => exact heartbeat

/-- Timers that match the role go on matching it exactly if the leader does not resign. -/
theorem timersMatch_event (h : n.Armed) :
    (n.onEvent R ev).TimersMatch ↔ ¬ n.Resigns R ev := by
  constructor
  · intro hmatch hresigns
    exact not_timersMatch_of_timing h (onEvent_timing R n ev) hresigns.1
      ((resigns_iff hresigns.1).mpr hresigns) hmatch
  · intro hstays
    refine (armed_of_timing h (onEvent_timing R n ev) fun hrole => ?_).timersMatch
    by_contra hleft
    exact hstays ((resigns_iff hrole).mp hleft)

theorem armed_event (h : n.Armed) (hstays : ¬ n.Resigns R ev) : (n.onEvent R ev).Armed := by
  refine armed_of_timing h (onEvent_timing R n ev) fun hrole => ?_
  by_contra hleft
  exact hstays ((resigns_iff hrole).mp hleft)

/-! ## Lives -/

omit [Storage S P] [StateMachine SM P] in
/-- A new process begins without an armed heartbeat timer. -/
def StartsUnarmed (_ : RaftNode P S SM) : Turn P S SM → Prop
  | .restart _ boot => boot.timerService.heartbeat = none
  | _ => True

instance (n : RaftNode P S SM) : (t : Turn P S SM) → Decidable (StartsUnarmed n t)
  | .restart _ _ => inferInstanceAs (Decidable (_ = _))
  | .event _ | .addServer _ | .removeServer _ => isTrue trivial

/-- A leader resigns in this turn. -/
def ResignsIn (R : Realization) (n : RaftNode P S SM) (t : Turn P S SM) : Prop :=
  ∃ ev ∈ n.asEvent t, n.Resigns R ev

theorem armed_start {id : NodeId} {storage : S} {boot : Boot SM}
    (h : boot.timerService.heartbeat = none) : (start R id storage boot).Armed := by
  refine ⟨⟨fun hbeat => ?_, fun hrole => (by cases hrole)⟩, fun _ => rfl⟩
  have hnone : (start R id storage boot).election.timerService.heartbeat = none := h
  unfold heartbeatArmed at hbeat
  rw [hnone] at hbeat
  cases hbeat

omit [Storage S P] [StateMachine SM P] in
/-- What the node remembers of a pending change plays no part. -/
theorem timersMatch_pending {m : ConfigChangeManager} (hm : m.config = n.config) :
    ({ n with configManager := m } : RaftNode P S SM).TimersMatch ↔ n.TimersMatch := by
  have hconfig : ({ n with configManager := m } : RaftNode P S SM).config = n.config := hm
  constructor
  · rintro ⟨hbeat, helection⟩
    rw [hconfig] at helection
    exact ⟨hbeat, helection⟩
  · rintro ⟨hbeat, helection⟩
    rw [← hconfig] at helection
    exact ⟨hbeat, helection⟩

theorem timersMatch_turn {t : Turn P S SM} (h : n.Armed) (hok : StartsUnarmed n t) :
    (n.turn R t).TimersMatch ↔ ¬ n.ResignsIn R t := by
  unfold ResignsIn
  rcases turn_cases R n t with ⟨storage, boot, rfl⟩ | ⟨hev, heq⟩ | ⟨ev, m, hev, heq, hm⟩
  · exact iff_of_true (armed_start hok).timersMatch (fun ⟨ev, hev, _⟩ => (by cases hev))
  · rw [hev, heq]
    exact iff_of_true h.timersMatch (fun ⟨ev, hev, _⟩ => (by cases hev))
  · rw [heq, timersMatch_pending hm, timersMatch_event h, hev]
    simp

theorem armed_turn {t : Turn P S SM} (h : n.Armed) (hok : StartsUnarmed n t)
    (hstays : ¬ n.ResignsIn R t) : (n.turn R t).Armed := by
  rcases turn_cases R n t with ⟨storage, boot, rfl⟩ | ⟨_, heq⟩ | ⟨ev, m, hev, heq, _⟩
  · exact armed_start hok
  · rw [heq]
    exact h
  · rw [heq]
    have harmed := armed_event h fun hresigns => hstays ⟨ev, hev, hresigns⟩
    exact ⟨harmed.heartbeat, harmed.election⟩

/-- **Timers match roles exactly as long as no leader resigns**, over any storage and either
family of collections: the heartbeat timer is armed on leaders only, and the election timer on
every other member, in every state of a life if and only if no leader of it is told of a later
term, commits its own removal or completes a late pre-vote. -/
theorem timers_match_role_iff {id : NodeId} {storage : S} {boot : Boot SM}
    {turns : List (Turn P S SM)} (hboot : boot.timerService.heartbeat = none)
    (h : Admitted (turn R) StartsUnarmed (start R id storage boot) turns) :
    ((start R id storage boot).TimersMatch ∧
        Admitted (turn R) (fun n t => (n.turn R t).TimersMatch) (start R id storage boot) turns) ↔
      Admitted (turn R) (fun n t => ¬ n.ResignsIn R t) (start R id storage boot) turns := by
  have hstart : (start R id storage boot).Armed := armed_start hboot
  rw [Admitted.congr_of_invariant (I := Armed) (fun _ _ hn hok => timersMatch_turn hn hok)
    (fun _ _ hn hok hstays => armed_turn hn hok hstays) hstart h]
  exact and_iff_right hstart.timersMatch

/-- Node 1 of three is elected, and node 3 asks for votes in the next term. -/
def deposedTurns : List (Turn UInt8 (InMemoryStorage UInt8) Adder) :=
  [.event (.timerFired .election), .event (.message 2 (.preVoteResponse 0 true)),
    .event (.message 2 (.requestVoteResponse 1 true)), .event (.timerFired .heartbeat),
    .event (.message 3 (.requestVote 2 3 0 0))]

/-- Node 1 of three at its start. -/
def trioStart : TestNode UInt8 Adder := start .testUtils 1 .new trioBoot

/-- The timers match until node 3 asks for votes. -/
theorem timers_match_role_iff_deposed :
    ((trioStart.TimersMatch ∧
        Admitted (turn .testUtils) (fun n t => (n.turn .testUtils t).TimersMatch) trioStart
          deposedTurns) ↔
      Admitted (turn .testUtils) (fun n t => ¬ n.ResignsIn .testUtils t) trioStart deposedTurns) ∧
    (trioStart.TimersMatch ∧
        Admitted (turn .testUtils) (fun n t => (n.turn .testUtils t).TimersMatch) trioStart
          (deposedTurns.take 4)) ∧
      Admitted (turn .testUtils) (fun n t => ¬ n.ResignsIn .testUtils t) trioStart
        (deposedTurns.take 4) := by
  have hbefore : trioStart.TimersMatch ∧
      Admitted (turn .testUtils) (fun n t => (n.turn .testUtils t).TimersMatch) trioStart
        (deposedTurns.take 4) := ⟨by decide +kernel, by decide +kernel⟩
  exact ⟨timers_match_role_iff rfl (by decide +kernel), hbefore,
    (timers_match_role_iff rfl (by decide +kernel)).mp hbefore⟩

/-- A leader that grants its vote to a later candidate keeps its heartbeat timer armed. -/
theorem deposed_leader_keeps_beating :
    ¬ ∀ n : TestNode UInt8 Adder,
      Run (turn .testUtils) (fun n t => KeepsStorage n t ∧ StartsUnarmed n t) trioStart n →
        n.TimersMatch := by
  intro h
  have hmatch := h _ (Admitted.run deposedTurns ⟨⟨trivial, trivial⟩, ⟨trivial, trivial⟩,
    ⟨trivial, trivial⟩, ⟨trivial, trivial⟩, ⟨trivial, trivial⟩, trivial⟩)
  exact absurd (hmatch.heartbeat.mp (by unfold heartbeatArmed; decide +kernel)) (by decide +kernel)

end RaftNode

end MetalRaft
