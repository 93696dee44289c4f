import MetalRaft.AppendOnly
import MetalRaft.Outcome

/-!
# The election restriction

* `lastEntry` — term and index of the last log entry, in the order in which `is_log_up_to_date`
  compares them.
* `CastsVote`, `StandsFor` — the actions in which a vote is recorded and an election started.
* `Restricted` — what a candidate, a vote and a vote message say about the actions so far.
* `election_restriction` — a new leader was given the votes of a quorum, each by a member whose
  last entry was no later than the leader's, which has not changed since it stood.
-/

set_option autoImplicit false

namespace MetalRaft

open Transition Voting

variable {P SM : Type}

/-- Term and index of the last entry. -/
def lastEntry (s : InMemoryStorage P) : Nat × Nat := (s.lastLogTerm, s.lastLogIndex)

/-- Terms are compared first, then indexes. -/
def NoLater (p q : Nat × Nat) : Prop := Prod.Lex (· < ·) (· ≤ ·) p q

theorem NoLater.refl (p : Nat × Nat) : NoLater p p := Prod.lex_def.mpr (Or.inr ⟨rfl, Nat.le_refl _⟩)

theorem lastEntry_eq {s s' : InMemoryStorage P} (h : SameLog s s') :
    lastEntry s' = lastEntry s := by
  unfold lastEntry InMemoryStorage.lastLogTerm
  rw [h.lastLogIndex, h.log, h.snapshot]

theorem isLogUpToDate_iff {li lt : Nat} {s : InMemoryStorage P} :
    ElectionManager.isLogUpToDate li lt s = true ↔ NoLater (lastEntry s) (lt, li) := by
  unfold ElectionManager.isLogUpToDate lastEntry NoLater
  rw [Prod.lex_def]
  simp only [Bool.or_eq_true, Bool.and_eq_true, decide_eq_true_eq, InMemoryStorage.storage_lastLogTerm,
    InMemoryStorage.storage_lastLogIndex]
  omega

/-- The node's vote in term `T` is `w`. -/
def VotedFor (n : TestNode P SM) (T : Nat) (w : NodeId) : Prop :=
  n.currentTerm = T ∧ n.storage.votedFor = some w

instance (n : TestNode P SM) (T : Nat) (w : NodeId) : Decidable (VotedFor n T w) :=
  inferInstanceAs (Decidable (_ ∧ _))

namespace RaftNode

variable [StateMachine SM P] {d : Deployment SM} {ev : Event P} {n₀ n n' : TestNode P SM}

/-! ## Candidates -/

/-- What is true of a candidate that has not started an election in this event. -/
structure StillStanding (n₀ n : TestNode P SM) : Prop where
  candidate : n₀.role = .candidate
  currentTerm : n.currentTerm = n₀.currentTerm
  sameLog : SameLog n₀.storage n.storage
  commitIndex : n.replication.commitIndex = n₀.replication.commitIndex

/-- As long as no leader speaks, a candidate's log stays as it is. -/
theorem stillStanding_move (hcalm : ¬ n₀.LeaderSpeaks ev)
    (hcause : ¬ n₀.StartsElection .testUtils ev) (hle : n₀.currentTerm ≤ n.currentTerm)
    (hmove : Move .testUtils ev n₀ n n') (h : n.role = .candidate → StillStanding n₀ n)
    (hrole : n'.role = .candidate) : StillStanding n₀ n' := by
  have hself : n₀.role = .candidate → StillStanding n₀ n₀ := fun h => ⟨h, rfl, .refl _, rfl⟩
  have hleader : n₀.role = .leader → n₀.role ≠ .candidate := by
    intro h hc
    rw [h] at hc
    cases hc
  cases hmove with
  | inert hi =>
    rw [hi.role] at hrole
    obtain ⟨hc, hT, hlog, hcommit⟩ := h hrole
    exact ⟨hc, hi.currentTerm.trans hT, by rw [hi.storage]; exact hlog,
      by rw [hi.replication]; exact hcommit⟩
  | adoptTerm | rest | lead => cases hrole
  | campaign cause => exact absurd cause hcause
  | tally => exact ⟨hrole, rfl, .refl _, rfl⟩
  | grant | say | applyNone | applyEntry =>
    obtain ⟨hc, hT, hlog, hcommit⟩ := h hrole
    exact ⟨hc, hT, ⟨hlog.log, hlog.snapshot, hlog.firstIndex⟩, hcommit⟩
  | place asked | learnCommit asked =>
    rw [asked] at hcalm
    exact absurd rfl hcalm
  | applyChanges changes =>
    have hrole' : n.role = .candidate := by
      have hface := congrArg Face.role (face_applyConfigChanges (R := .testUtils) (n := n) changes)
      have hnew : (n.applyConfigChanges .testUtils changes).role = .candidate := hrole
      rw [show (n.applyConfigChanges .testUtils changes).role = _ from hface] at hnew
      split at hnew
      · cases hnew
      · exact hnew
    obtain ⟨hc, hT, hlog, hcommit⟩ := h hrole'
    exact ⟨hc, hT, hlog, (applyConfigChanges_counters changes).1.trans hcommit⟩
  | append leader | record _ leader | backOff _ leader | recordSnapshot _ leader =>
    exact absurd hrole (hleader leader)
  | commit leader =>
    have hrole' : n.role = .candidate := hrole
    rw [leader] at hrole'
    cases hrole'
  | compact _ _ raised =>
    have hcommit := (h hrole).commitIndex
    omega
  | storeChunk asked | install asked =>
    rw [asked] at hcalm
    exact absurd hle hcalm

theorem stillStanding_onEvent (hcause : ¬ n.StartsElection .testUtils ev)
    (hrole : (n.onEvent .testUtils ev).role = .candidate) :
    StillStanding n (n.onEvent .testUtils ev) := by
  have hcalm : ¬ n.LeaderSpeaks ev := by
    have hout := onEvent_outcome .testUtils n ev
    have hface : (n.onEvent .testUtils ev).face.role = .candidate := hrole
    generalize (n.onEvent .testUtils ev).face = f at hout hface
    cases hout with
    | keeps calm => exact calm
    | yields | hearsSnapshot | installs => exact absurd hface (Face.follow_ne_candidate _ _)
    | learns => exact absurd hface (Face.commit_ne_candidate (Face.follow_ne_candidate _ _))
    | commits leader | commitsAlone leader =>
      refine absurd hface (Face.commit_ne_candidate fun hr => ?_)
      have hr' : n.role = .candidate := hr
      rw [leader] at hr'
      cases hr'
    | campaigns cause | leadsAlone cause => exact absurd cause hcause
    | stepsDown | wins => cases hface
  have hmoves := onEvent_moves .testUtils n ev
  generalize n.onEvent .testUtils ev = n' at hmoves hrole
  suffices h : n'.role = .candidate → StillStanding n n' from h hrole
  clear hrole
  induction hmoves with
  | refl => exact fun h => ⟨h, rfl, .refl _, rfl⟩
  | tail hmoves hlast ih =>
    exact stillStanding_move hcalm hcause (Moves.currentTerm_le hmoves) hlast ih

/-! ## Votes -/

omit [StateMachine SM P] in
/-- A vote that is on record after a vote request was there before, or was asked for by it. -/
theorem votedFor_handleVoteRequest {sender : NodeId} {term : Nat} {cand w : NodeId} {li lt : Nat}
    (h : (n.handleVoteRequest sender term cand li lt).storage.votedFor = some w) :
    (n.handleVoteRequest sender term cand li lt).currentTerm = n.currentTerm ∧
        n.storage.votedFor = some w ∨
      w = cand ∧ (n.handleVoteRequest sender term cand li lt).currentTerm = term ∧
        NoLater (lastEntry n.storage) (lt, li) := by
  have hanswer : ∀ n₁ : TestNode P SM, term ≤ n₁.currentTerm →
      (n₁.answerVoteRequest sender term cand li lt).storage.votedFor = some w →
      (n₁.answerVoteRequest sender term cand li lt).currentTerm = n₁.currentTerm ∧
        (n₁.storage.votedFor = some w ∨
          w = cand ∧ n₁.currentTerm = term ∧ NoLater (lastEntry n₁.storage) (lt, li)) := by
    intro n₁ hle
    rw [answerVoteRequest_eq hle]
    split
    · rename_i hgrant
      obtain ⟨hge, _, hup⟩ := shouldGrantVote_iff.mp hgrant
      intro hw
      have hw' : some cand = some w := hw
      exact ⟨rfl, Or.inr ⟨(Option.some.inj hw').symm, Nat.le_antisymm hge hle,
        isLogUpToDate_iff.mp hup⟩⟩
    · exact fun hw => ⟨rfl, Or.inl hw⟩
  unfold handleVoteRequest at h ⊢
  dsimp only at h ⊢
  split at h
  · rename_i hgt
    rw [if_pos hgt]
    obtain ⟨hterm, hcases⟩ := hanswer _ (Nat.le_refl _) h
    rcases hcases with hnone | ⟨rfl, _, hlog⟩
    · cases hnone
    · exact Or.inr ⟨rfl, hterm, hlog⟩
  · rename_i hgt
    rw [if_neg hgt]
    obtain ⟨hterm, hcases⟩ := hanswer _ (Nat.not_lt.mp hgt) h
    rcases hcases with hold | ⟨rfl, heq, hlog⟩
    · exact Or.inl ⟨hterm, hold⟩
    · exact Or.inr ⟨rfl, hterm.trans heq, hlog⟩

theorem votedFor_move (hcause : ¬ n₀.StartsElection .testUtils ev)
    (hask : ∀ sender T cand li lt, ev ≠ .message sender (.requestVote T cand li lt))
    (hmove : Move .testUtils ev n₀ n n') {w : NodeId}
    (h : n.storage.votedFor = some w →
      n.currentTerm = n₀.currentTerm ∧ n₀.storage.votedFor = some w)
    (hw : n'.storage.votedFor = some w) :
    n'.currentTerm = n₀.currentTerm ∧ n₀.storage.votedFor = some w := by
  cases hmove with
  | inert hi =>
    rw [hi.storage] at hw
    rw [hi.currentTerm]
    exact h hw
  | adoptTerm => cases hw
  | campaign cause => exact absurd cause hcause
  | grant asked => exact absurd asked (hask _ _ _ _ _)
  | place =>
    rw [InMemoryStorage.placeEntries_eq] at hw
    exact h hw
  | compact =>
    obtain ⟨_, _, hvote⟩ := InMemoryStorage.create_log_subset n.storage n.stateMachine
      n.replication.commitIndex
    exact h (hvote.symm.trans hw)
  | @storeChunk _ _ _ index term offset data done =>
    have hvote := (LawfulStorage.cells_applySnapshotChunk n.storage offset data done index term).2
    exact h (hvote.symm.trans hw)
  | @install _ _ _ index term offset data =>
    have hvote := (LawfulStorage.cells_discardEntriesBefore
      (n.chunkResult index term offset data true).1 (index + 1)).2.trans
      (LawfulStorage.cells_applySnapshotChunk n.storage offset data true index term).2
    exact h (hvote.symm.trans hw)
  | _ => exact h hw

theorem votedFor_onEvent (hcause : ¬ n.StartsElection .testUtils ev) {w : NodeId}
    (hw : (n.onEvent .testUtils ev).storage.votedFor = some w) :
    (n.onEvent .testUtils ev).currentTerm = n.currentTerm ∧ n.storage.votedFor = some w ∨
      ∃ sender li lt,
        ev = .message sender (.requestVote (n.onEvent .testUtils ev).currentTerm w li lt) ∧
          NoLater (lastEntry n.storage) (lt, li) := by
  by_cases hask : ∃ sender T cand li lt, ev = .message sender (.requestVote T cand li lt)
  · obtain ⟨sender, T, cand, li, lt, rfl⟩ := hask
    rcases votedFor_handleVoteRequest hw with hold | ⟨rfl, hterm, hlog⟩
    · exact Or.inl hold
    · have hT : (n.onEvent .testUtils (.message sender (.requestVote T w li lt))).currentTerm = T :=
        hterm
      exact Or.inr ⟨sender, li, lt, by rw [hT], hlog⟩
  · have hask' : ∀ sender T cand li lt, ev ≠ .message sender (.requestVote T cand li lt) :=
      fun sender T cand li lt he => hask ⟨sender, T, cand, li, lt, he⟩
    have hmoves := onEvent_moves .testUtils n ev
    generalize n.onEvent .testUtils ev = n' at hmoves hw
    refine Or.inl ?_
    induction hmoves with
    | refl => exact ⟨rfl, hw⟩
    | tail _ hlast ih => exact votedFor_move hcause hask' hlast ih hw

/-! ## Requests and answers -/

/-- The message asks for a vote or grants one. -/
def IsBallot : RaftMsg P → Prop
  | .requestVote _ _ _ _ => True
  | .requestVoteResponse _ granted => granted = true
  | _ => False

omit [StateMachine SM P] in
theorem entries_notBallot (r : LogReplicationManager) (peer leaderId : NodeId)
    (s : InMemoryStorage P) : ¬ IsBallot (r.getAppendEntriesForPeer peer leaderId s) := by
  unfold LogReplicationManager.getAppendEntriesForPeer
    LogReplicationManager.getAppendEntriesForFollower
  dsimp only
  split
  · split <;> exact fun h => h
  · exact fun h => h

omit [StateMachine SM P] in
theorem Speaks.notBallot {target : NodeId} {msg : RaftMsg P}
    (h : Speaks .testUtils ev n₀ n target msg) : ¬ IsBallot msg := by
  cases h with
  | refusal => intro h; cases h
  | entries => exact entries_notBallot _ _ _ _
  | _ => exact fun h => h

/-- Only two kinds of events make a node send a request for votes or grant one. -/
theorem ballot_move (hmove : Move .testUtils ev n₀ n n') {p : Packet P} (hp : p ∈ n'.outbox)
    (hballot : IsBallot p.msg) (h : p ∈ n.outbox → n₀.StartsElection .testUtils ev ∨
      ∃ T cand li lt, ev = .message p.dst (.requestVote T cand li lt)) :
    n₀.StartsElection .testUtils ev ∨
      ∃ T cand li lt, ev = .message p.dst (.requestVote T cand li lt) := by
  cases hmove with
  | inert hi =>
    unfold RaftNode.outbox at hp
    rw [hi.transport, hi.id] at hp
    exact h hp
  | campaign cause => exact Or.inl cause
  | say outs spoken =>
    rw [outbox_append] at hp
    rcases List.mem_append.mp hp with hp | hp
    · exact h hp
    · obtain ⟨o, ho, rfl⟩ := List.mem_map.mp hp
      exact absurd hballot (spoken o ho).2.notBallot
  | @grant _ sender cand li lt asked =>
    have hout := outbox_append (n.withStorage (n.storage.setVotedFor (some cand)))
      [⟨sender, .requestVoteResponse n.currentTerm true, n.storage.setVotedFor (some cand)⟩]
    have hp' := hout ▸ hp
    rcases List.mem_append.mp hp' with hp | hp
    · exact h hp
    · rw [List.map_singleton, List.mem_singleton] at hp
      rw [hp]
      exact Or.inr ⟨_, _, _, _, asked⟩
  | _ => exact h hp

theorem ballot_onEvent (hsilent : n.transport = []) {p : Packet P}
    (hp : p ∈ (n.onEvent .testUtils ev).outbox) (hballot : IsBallot p.msg) :
    n.StartsElection .testUtils ev ∨
      ∃ T cand li lt, ev = .message p.dst (.requestVote T cand li lt) := by
  have hmoves := onEvent_moves .testUtils n ev
  generalize n.onEvent .testUtils ev = n' at hmoves hp
  induction hmoves with
  | refl =>
    unfold RaftNode.outbox at hp
    rw [hsilent] at hp
    cases hp
  | tail _ hlast ih => exact ballot_move hlast hp hballot ih

omit [StateMachine SM P] in
/-- What answers a vote request. -/
theorem sent_handleVoteRequest (hsilent : n.transport = []) {sender : NodeId} {term : Nat}
    {cand : NodeId} {li lt : Nat} {p : Packet P}
    (hp : p ∈ (n.handleVoteRequest sender term cand li lt).outbox) :
    p.src = n.id ∧ p.dst = sender ∧ ∃ granted, p.msg = .requestVoteResponse
        (n.handleVoteRequest sender term cand li lt).currentTerm granted ∧
      (granted = true → (n.handleVoteRequest sender term cand li lt).currentTerm = term ∧
        (n.handleVoteRequest sender term cand li lt).storage.votedFor = some cand) := by
  have hanswer : ∀ n₁ : TestNode P SM, n₁.transport = [] → n₁.id = n.id →
      term ≤ n₁.currentTerm → p ∈ (n₁.answerVoteRequest sender term cand li lt).outbox →
      p.src = n.id ∧ p.dst = sender ∧ ∃ granted, p.msg = .requestVoteResponse
          (n₁.answerVoteRequest sender term cand li lt).currentTerm granted ∧
        (granted = true → (n₁.answerVoteRequest sender term cand li lt).currentTerm = term ∧
          (n₁.answerVoteRequest sender term cand li lt).storage.votedFor = some cand) := by
    intro n₁ hnil hid hle
    rw [answerVoteRequest_eq hle]
    split
    · rename_i hgrant
      intro hp
      have hp' : p ∈ [(⟨n₁.id, sender, .requestVoteResponse n₁.currentTerm true⟩ : Packet P)] := by
        simpa [RaftNode.outbox, send, hnil] using hp
      rw [List.mem_singleton.mp hp']
      exact ⟨hid, rfl, true, rfl, fun _ =>
        ⟨Nat.le_antisymm (shouldGrantVote_iff.mp hgrant).1 hle, rfl⟩⟩
    · intro hp
      have hp' : p ∈ [(⟨n₁.id, sender, .requestVoteResponse n₁.currentTerm false⟩ : Packet P)] := by
        simpa [RaftNode.outbox, send, hnil] using hp
      rw [List.mem_singleton.mp hp']
      exact ⟨hid, rfl, false, rfl, fun h => by cases h⟩
  unfold handleVoteRequest at hp ⊢
  dsimp only at hp ⊢
  split at hp
  · rename_i hgt
    rw [if_pos hgt]
    exact hanswer _ hsilent rfl (Nat.le_refl _) hp
  · rename_i hgt
    rw [if_neg hgt]
    exact hanswer _ hsilent rfl (Nat.not_lt.mp hgt) hp

/-! ## Starting an election -/

omit [StateMachine SM P] in
theorem storage_startElection (n : TestNode P SM) : (n.startElection .testUtils).storage =
    (n.storage.setCurrentTerm (n.currentTerm + 1)).setVotedFor (some n.id) := by
  unfold startElection
  dsimp only
  rw [broadcast_eq]
  split
  · unfold becomeLeader
    rw [sendAppendEntriesToFollowers_eq]
    rfl
  · rfl

omit [StateMachine SM P] in
theorem sent_startElection {o : Outgoing P (InMemoryStorage P)}
    (h : o ∈ (n.startElection .testUtils).transport) : o ∈ n.transport ∨ ¬ IsBallot o.msg ∨
      o.msg = .requestVote (n.currentTerm + 1) n.id n.storage.lastLogIndex
        n.storage.lastLogTerm := by
  unfold startElection at h
  dsimp only at h
  rw [broadcast_eq] at h
  split at h
  · unfold becomeLeader at h
    rw [sendAppendEntriesToFollowers_eq] at h
    rcases List.mem_append.mp h with h | h
    · rcases List.mem_append.mp h with h | h
      · exact Or.inl h
      · obtain ⟨t, _, rfl⟩ := List.mem_map.mp h
        exact Or.inr (Or.inr rfl)
    · obtain ⟨t, _, rfl⟩ := List.mem_map.mp h
      exact Or.inr (Or.inl (entries_notBallot _ _ _ _))
  · rcases List.mem_append.mp h with h | h
    · exact Or.inl h
    · obtain ⟨t, _, rfl⟩ := List.mem_map.mp h
      exact Or.inr (Or.inr rfl)

/-- The node from which `start_election` starts. -/
theorem onEvent_of_startsElection (hsilent : n.transport = [])
    (hcause : n.StartsElection .testUtils ev) :
    ∃ n₁ : TestNode P SM, n.onEvent .testUtils ev = n₁.startElection .testUtils ∧
      n₁.storage = n.storage ∧ n₁.id = n.id ∧ n₁.currentTerm = n.currentTerm ∧
      ∀ o ∈ n₁.transport, ¬ IsBallot o.msg := by
  unfold StartsElection at hcause
  split at hcause
  · obtain ⟨hrole, halone⟩ := hcause
    refine ⟨n.startPreVote .testUtils, ?_, ?_⟩
    · show n.handleElectionTimer .testUtils = _
      rw [handleElectionTimer_eq, if_pos hrole, if_pos halone]
    · unfold startPreVote
      rw [broadcast_eq]
      refine ⟨rfl, rfl, rfl, fun o ho => ?_⟩
      rcases List.mem_append.mp ho with ho | ho
      · have ho' : o ∈ n.transport := ho
        rw [hsilent] at ho'
        cases ho'
      · obtain ⟨t, _, rfl⟩ := List.mem_map.mp ho
        exact fun h => h
  · obtain ⟨hterm, hpre, hgranted, hquorum⟩ := hcause
    rename_i sender term granted
    refine ⟨{ n with election := (n.election.handlePreVoteResponse .testUtils sender granted
      n.config).1 }, ?_, rfl, rfl, rfl, fun o ho => ?_⟩
    · show n.handlePreVoteResponse .testUtils sender term granted = _
      unfold handlePreVoteResponse
      rw [if_neg (Nat.not_lt.mpr hterm)]
      have hstart : (n.election.handlePreVoteResponse .testUtils sender granted n.config).2 =
          true := by
        simp only [ElectionManager.handlePreVoteResponse, hpre, hgranted, Bool.not_true,
          Bool.or_self, Bool.false_eq_true, if_false, hquorum, if_true]
      simp only [hstart, if_true]
    · have ho' : o ∈ n.transport := ho
      rw [hsilent] at ho'
      cases ho'
  · exact hcause.elim

omit [StateMachine SM P] in
theorem storage_handleVoteResponse {sender : NodeId} {term : Nat} {granted : Bool}
    (h : term ≤ n.currentTerm) :
    (n.handleVoteResponse .testUtils sender term granted).storage = n.storage := by
  unfold handleVoteResponse
  rw [if_neg (Nat.not_lt.mpr h)]
  dsimp only
  split
  · unfold becomeLeader
    rw [sendAppendEntriesToFollowers_eq]
  · rfl

end RaftNode

/-! ## Votes and elections in a cluster -/

variable [StateMachine SM P] {d : Deployment SM} {c : Cluster P SM} {a : Action P}
  {as : List (Action P)} {v u w : NodeId} {T : Nat}

/-- In action `a`, member `u` records its vote for `w` in term `T`, its last entry being no later
than `p`. -/
def CastsVote (d : Deployment SM) (u w : NodeId) (T : Nat) (p : Nat × Nat)
    (c : Cluster P SM) (a : Action P) : Prop :=
  ¬ VotedFor (c.nodes u) T w ∧ VotedFor ((c.step d a).nodes u) T w ∧
    NoLater (lastEntry (c.nodes u).storage) p

/-- In action `a`, member `v` starts its election in term `T`. -/
def StandsFor (d : Deployment SM) (v : NodeId) (T : Nat) (c : Cluster P SM) (a : Action P) :
    Prop :=
  (c.nodes v).currentTerm < T ∧ ((c.step d a).nodes v).currentTerm = T ∧
    ((c.step d a).nodes v).role ≠ .follower

/-- The vote of `u` for another member `w` was cast in one of the actions `as`, and `w` had asked
for it with a last entry that was no earlier. -/
def VoteEarned (d : Deployment SM) (as : List (Action P)) (c : Cluster P SM) (u w : NodeId)
    (T : Nat) : Prop :=
  ∃ li lt, ⟨w, u, .requestVote T w li lt⟩ ∈ c.messageLog ∧
    Happened (Cluster.step d) (CastsVote d u w T (lt, li)) (Cluster.init d) as

/-- Member `v` has stood for its term with the last entry it has now, and voted for itself. -/
def Stood (d : Deployment SM) (as : List (Action P)) (c : Cluster P SM) (v : NodeId) : Prop :=
  Since (Cluster.step d) (StandsFor d v (c.nodes v).currentTerm)
      (fun c' => lastEntry (c'.nodes v).storage = lastEntry (c.nodes v).storage)
      (Cluster.init d) as ∧
    Happened (Cluster.step d)
      (CastsVote d v v (c.nodes v).currentTerm (lastEntry (c.nodes v).storage))
      (Cluster.init d) as

structure Restricted (d : Deployment SM) (as : List (Action P)) (c : Cluster P SM) : Prop where
  stood : ∀ v ∈ d.members, (c.nodes v).role = .candidate → Stood d as c v
  bids : ∀ p ∈ c.messageLog, ∀ T cand li lt, p.msg = .requestVote T cand li lt →
    (c.nodes p.src).role = .candidate → (c.nodes p.src).currentTerm = T →
    (lt, li) = lastEntry (c.nodes p.src).storage
  votes : ∀ u ∈ d.members, ∀ w, w ≠ u → (c.nodes u).storage.votedFor = some w →
    VoteEarned d as c u w (c.nodes u).currentTerm
  answers : ∀ p ∈ c.messageLog, ∀ T, p.msg = .requestVoteResponse T true →
    VoteEarned d as c p.src p.dst T

theorem VoteEarned.mono (h : VoteEarned d as c u w T) :
    VoteEarned d (as ++ [a]) (c.step d a) u w T := by
  obtain ⟨li, lt, hmem, hcast⟩ := h
  exact ⟨li, lt, Cluster.messageLog_subset d c a hmem, Happened.snoc.mpr (Or.inl hcast)⟩

theorem Stood.keep (hc : as.foldl (Cluster.step d) (Cluster.init d) = c) (h : Stood d as c v)
    (hterm : ((c.step d a).nodes v).currentTerm = (c.nodes v).currentTerm)
    (hlast : lastEntry ((c.step d a).nodes v).storage = lastEntry (c.nodes v).storage) :
    Stood d (as ++ [a]) (c.step d a) v := by
  unfold Stood
  rw [hterm, hlast]
  exact ⟨h.1.keep (by rw [hc]; exact hlast), Happened.snoc.mpr (Or.inl h.2)⟩

section

open RaftNode

variable {b : Ballot NodeId}

/-- What starting an election leaves behind. -/
theorem started (hs : Settled c) {ev : Event P} (hev : c.handled d a = some (v, ev))
    (hcause : (c.nodes v).StartsElection .testUtils ev) :
    ((c.step d a).nodes v).currentTerm = (c.nodes v).currentTerm + 1 ∧
      ((c.step d a).nodes v).role ≠ .follower ∧
      ((c.step d a).nodes v).storage.votedFor = some v ∧
      lastEntry ((c.step d a).nodes v).storage = lastEntry (c.nodes v).storage := by
  have hface := face_of_startsElection hcause
  obtain ⟨n₁, heq, hstorage, hid, hterm, _⟩ := onEvent_of_startsElection (hs v).2 hcause
  have hstored := storage_startElection n₁
  rw [hstorage, hid, (hs v).1, ← heq] at hstored
  rw [Cluster.step_of_handled hev]
  dsimp only
  refine ⟨congrArg Face.currentTerm hface, ?_, by rw [hstored]; rfl, ?_⟩
  · rw [show ((c.nodes v).onEvent .testUtils ev).role = _ from congrArg Face.role hface]
    split <;> exact fun h => (by cases h)
  · rw [hstored]
    exact lastEntry_eq ⟨rfl, rfl, rfl⟩

theorem stood_start (hs : Settled c) (hc : as.foldl (Cluster.step d) (Cluster.init d) = c)
    {ev : Event P} (hev : c.handled d a = some (v, ev))
    (hcause : (c.nodes v).StartsElection .testUtils ev) :
    Stood d (as ++ [a]) (c.step d a) v := by
  obtain ⟨hterm, hstands, hvote, hlast⟩ := started hs hev hcause
  constructor
  · refine Since.start ?_ ?_
    · rw [hc]
      exact ⟨by omega, rfl, hstands⟩
    · rw [hc]
  · rw [Happened.snoc, hc]
    refine Or.inr ⟨fun hold => ?_, ⟨rfl, hvote⟩, hlast ▸ NoLater.refl _⟩
    have := hold.1
    omega

theorem stood_step (hs : Settled c) (hc : as.foldl (Cluster.step d) (Cluster.init d) = c)
    (h : Restricted d as c) (hv : v ∈ d.members)
    (hrole : ((c.step d a).nodes v).role = .candidate) : Stood d (as ++ [a]) (c.step d a) v := by
  have hn := Cluster.node_cases d c a v
  generalize hn' : (c.step d a).nodes v = n' at hn
  cases hn with
  | @handles ev hev =>
    by_cases hcause : (c.nodes v).StartsElection .testUtils ev
    · exact stood_start hs hc hev hcause
    · have hstill := stillStanding_onEvent hcause (by rw [hn'] at hrole; exact hrole)
      refine (h.stood v hv hstill.candidate).keep hc ?_ ?_
      · rw [hn']
        exact hstill.currentTerm
      · rw [hn']
        exact lastEntry_eq hstill.sameLog
  | restarts =>
    rw [hn'] at hrole
    cases hrole
  | stays | ages =>
    refine (h.stood v hv (by rw [hn'] at hrole; exact hrole)).keep hc ?_ ?_ <;> rw [hn'] <;> rfl

theorem votes_step (hg : Governed d c b) (hc : as.foldl (Cluster.step d) (Cluster.init d) = c)
    (h : Restricted d as c) (hu : u ∈ d.members) (hw : w ≠ u)
    (hvote : ((c.step d a).nodes u).storage.votedFor = some w) :
    VoteEarned d (as ++ [a]) (c.step d a) u w ((c.step d a).nodes u).currentTerm := by
  have hn := Cluster.node_cases d c a u
  generalize hn' : (c.step d a).nodes u = n' at hn
  cases hn with
  | @handles ev hev =>
    by_cases hcause : (c.nodes u).StartsElection .testUtils ev
    · rw [(started hg.settled hev hcause).2.2.1] at hvote
      exact absurd (Option.some.inj hvote).symm hw
    · have hvote' := hvote
      rw [hn'] at hvote'
      rcases votedFor_onEvent hcause hvote' with ⟨hterm, hold⟩ | ⟨sender, li, lt, hask, hlog⟩
      · have hearned := (h.votes u hu w hw hold).mono (a := a)
        rw [← hterm] at hearned
        exact hearned
      · by_cases hbefore : VotedFor (c.nodes u) ((c.nodes u).onEvent .testUtils ev).currentTerm w
        · have hearned := (h.votes u hu w hw hbefore.2).mono (a := a)
          rw [hbefore.1] at hearned
          exact hearned
        · obtain ⟨c₀, hh, _⟩ := Cluster.handles_of_handled hev
          rw [hask] at hh
          have hsent := hg.fixed.inFlight _ hh.delivered
          have hcand : w = sender := (hg.sim.elections.sent _ hsent).1
          subst hcand
          refine ⟨li, lt, Cluster.messageLog_subset d c a hsent, ?_⟩
          rw [Happened.snoc, hc]
          refine Or.inr ⟨hbefore, ⟨?_, hvote⟩, hlog⟩
          rw [hn']
  | restarts =>
    rw [hn'] at hvote
    have hnode := hg.sim.elections.node u hu
    have hearned := (h.votes u hu w hw hvote).mono (a := a)
    rw [hnode.currentTerm, ← hnode.stored] at hearned
    exact hearned
  | stays | ages =>
    rw [hn'] at hvote
    exact (h.votes u hu w hw hvote).mono

/-- A request or a grant among the messages of an event: the node stands, or it was asked. -/
theorem sent_ballot (hg : Governed d c b) {ev : Event P} (hev : c.handled d a = some (v, ev))
    {p : Packet P} (hp : p ∈ ((c.nodes v).onEvent .testUtils ev).outbox)
    (hballot : IsBallot p.msg) :
    p.src = v ∧
    ((c.nodes v).StartsElection .testUtils ev ∧
        p.msg = .requestVote ((c.nodes v).currentTerm + 1) v (c.nodes v).storage.lastLogIndex
          (c.nodes v).storage.lastLogTerm ∨
      p.dst ≠ v ∧ p.msg = .requestVoteResponse ((c.step d a).nodes v).currentTerm true ∧
        ((c.step d a).nodes v).storage.votedFor = some p.dst) := by
  obtain ⟨hid, hsilent⟩ := hg.settled v
  have hsrc : p.src = v := by
    obtain ⟨o, _, rfl⟩ := List.mem_map.mp hp
    exact (Moves.id_eq (onEvent_moves _ _ _)).trans hid
  refine ⟨hsrc, ?_⟩
  by_cases hcause : (c.nodes v).StartsElection .testUtils ev
  · obtain ⟨n₁, heq, hstorage, hid₁, hterm, hnone⟩ := onEvent_of_startsElection hsilent hcause
    rw [heq] at hp
    obtain ⟨o, ho, rfl⟩ := List.mem_map.mp hp
    rcases sent_startElection ho with hold | hnot | hmsg
    · exact absurd hballot (hnone o hold)
    · exact absurd hballot hnot
    · rw [hstorage, hid₁, hid, hterm] at hmsg
      exact Or.inl ⟨hcause, hmsg⟩
  · obtain ⟨T, cand, li, lt, rfl⟩ := (ballot_onEvent hsilent hp hballot).resolve_left hcause
    obtain ⟨c₀, hh, _⟩ := Cluster.handles_of_handled hev
    have hsent := hg.fixed.inFlight _ hh.delivered
    have hcand : cand = p.dst := (hg.sim.elections.sent _ hsent).1
    obtain ⟨_, _, granted, hmsg, hgrant⟩ := sent_handleVoteRequest hsilent hp
    have hgranted : granted = true := by
      rw [hmsg] at hballot
      exact hballot
    refine Or.inr ⟨(hg.fixed.sent _ hsent).ne.symm, ?_, ?_⟩
    · rw [Cluster.step_of_handled hev, hmsg, hgranted]
      rfl
    · rw [Cluster.step_of_handled hev, ← hcand]
      exact (hgrant hgranted).2

theorem bids_step (hg : Governed d c b) (h : Restricted d as c) {p : Packet P}
    (hp : p ∈ (c.step d a).messageLog) {cand : NodeId} {li lt : Nat}
    (hmsg : p.msg = .requestVote T cand li lt)
    (hrole : ((c.step d a).nodes p.src).role = .candidate)
    (hterm : ((c.step d a).nodes p.src).currentTerm = T) :
    (lt, li) = lastEntry ((c.step d a).nodes p.src).storage := by
  rcases Cluster.sent_cases hp with hold | ⟨v, ev, hev, hnew⟩
  · have hsrc := (hg.fixed.sent p hold).src
    have hle : T ≤ (c.nodes p.src).currentTerm := by
      have hb := hg.sim.elections.sent p hold
      unfold BallotPacket at hb
      rw [hmsg] at hb
      rw [(hg.sim.elections.node _ hsrc).currentTerm]
      exact hb.2
    have hn := Cluster.node_cases d c a p.src
    generalize hn' : (c.step d a).nodes p.src = n' at hn
    rw [hn'] at hrole hterm
    cases hn with
    | @handles ev hev =>
      by_cases hcause : (c.nodes p.src).StartsElection .testUtils ev
      · have hraised := (started hg.settled hev hcause).1
        rw [hn'] at hraised
        omega
      · have hstill := stillStanding_onEvent hcause hrole
        rw [h.bids p hold T cand li lt hmsg hstill.candidate
          (hstill.currentTerm.symm.trans hterm)]
        exact (lastEntry_eq hstill.sameLog).symm
    | restarts => cases hrole
    | stays | ages => exact h.bids p hold T cand li lt hmsg hrole hterm
  · obtain ⟨hsrc, ⟨hcause, hreq⟩ | ⟨_, hreq, _⟩⟩ := sent_ballot hg hev hnew (by rw [hmsg]; trivial)
    · rw [hmsg] at hreq
      cases hreq
      rw [hsrc]
      exact (started hg.settled hev hcause).2.2.2.symm
    · rw [hmsg] at hreq
      cases hreq

theorem answers_step (hg : Governed d c b)
    (hc : as.foldl (Cluster.step d) (Cluster.init d) = c) (h : Restricted d as c) {p : Packet P}
    (hp : p ∈ (c.step d a).messageLog) (hmsg : p.msg = .requestVoteResponse T true) :
    VoteEarned d (as ++ [a]) (c.step d a) p.src p.dst T := by
  rcases Cluster.sent_cases hp with hold | ⟨v, ev, hev, hnew⟩
  · exact (h.answers p hold T hmsg).mono
  · obtain ⟨hsrc, ⟨_, hreq⟩ | ⟨hne, hgrant, hvote⟩⟩ :=
      sent_ballot hg hev hnew (by rw [hmsg]; rfl)
    · rw [hmsg] at hreq
      cases hreq
    · rw [hmsg] at hgrant
      cases hgrant
      obtain ⟨c₀, hh, _⟩ := Cluster.handles_of_handled hev
      rw [hsrc]
      exact votes_step hg hc h hh.member hne hvote

theorem restricted_step (hg : Governed d c b)
    (hc : as.foldl (Cluster.step d) (Cluster.init d) = c) (h : Restricted d as c) :
    Restricted d (as ++ [a]) (c.step d a) :=
  ⟨fun _ hv hrole => stood_step hg.settled hc h hv hrole,
    fun _ hp _ _ _ _ hmsg hrole hterm => bids_step hg h hp hmsg hrole hterm,
    fun _ hu _ hw hvote => votes_step hg hc h hu hw hvote,
    fun _ hp _ hmsg => answers_step hg hc h hp hmsg⟩

theorem restricted_init (d : Deployment SM) :
    Restricted d [] (Cluster.init d : Cluster P SM) :=
  ⟨fun _ _ hrole => (by cases hrole), fun _ hp => (by cases hp),
    fun _ _ _ _ hvote => (by cases hvote), fun _ hp => (by cases hp)⟩

/-- Everything known after a list of actions. -/
theorem restricted_play
    (h : Admitted (Cluster.step d) SingleDelivery (Cluster.init d : Cluster P SM) as) :
    Restricted d as (Cluster.play d as) ∧ ∃ b, Governed d (Cluster.play d as) b := by
  refine Admitted.history (I := fun as c => Restricted d as c ∧ ∃ b, Governed d c b)
    ⟨restricted_init d, _, governed_init d⟩ ?_ as h
  rintro as a ⟨hr, b, hg⟩ hok
  obtain ⟨b', _, hg'⟩ := hg.step hok
  exact ⟨restricted_step hg rfl hr, b', hg'⟩

/-! ## New leaders -/

/-- How a node may turn leader of a term: it counts the vote that completes a quorum, or stands
where it takes itself to be alone. -/
theorem leads_cases (hbefore : ¬ Leads c v T)
    (hafter : Leads (c.step d a) v T) :
    ∃ ev, c.handled d a = some (v, ev) ∧
      ((c.nodes v).StartsElection .testUtils ev ∧ (c.nodes v).config.members.length ≤ 1 ∨
        (c.nodes v).role = .candidate ∧ (c.nodes v).currentTerm = T ∧
          ∃ sender, ev = .message sender (.requestVoteResponse T true)) := by
  obtain ⟨hrole, hterm⟩ := hafter
  have hn := Cluster.node_cases d c a v
  generalize (c.step d a).nodes v = n' at hn hrole hterm
  cases hn with
  | @handles ev hev =>
    refine ⟨ev, hev, ?_⟩
    have hout := onEvent_outcome .testUtils (c.nodes v) ev
    have hface : ((c.nodes v).onEvent .testUtils ev).face.role = .leader := hrole
    have hT : ((c.nodes v).onEvent .testUtils ev).face.currentTerm = T := hterm
    have hsame : (c.nodes v).role = .leader → (c.nodes v).currentTerm ≠ T :=
      fun hr ht => hbefore ⟨hr, ht⟩
    generalize ((c.nodes v).onEvent .testUtils ev).face = f at hout hface hT
    cases hout with
    | keeps => exact absurd hT (hsame hface)
    | stepsDown => cases hface
    | yields => exact absurd hT (hsame (Face.follow_leader.mp hface).1)
    | learns =>
      exact absurd hT (hsame (Face.follow_leader.mp (Face.commit_leader.mp hface).1).1)
    | commits leader | commitsAlone leader => exact absurd hT (hsame leader)
    | hearsSnapshot _ reached | installs _ reached =>
      obtain ⟨hled, hnot⟩ := Face.follow_leader.mp hface
      refine absurd ?_ (hsame hled)
      exact (Nat.le_antisymm (Nat.not_lt.mp hnot) reached).symm.trans hT
    | campaigns => cases hface
    | leadsAlone cause alone => exact Or.inl ⟨cause, alone⟩
    | wins candidate asked => exact Or.inr ⟨candidate, hT, _, by rw [← hT]; exact asked⟩
  | stays => exact absurd ⟨hrole, hterm⟩ hbefore
  | restarts => cases hrole
  | ages => exact absurd ⟨hrole, hterm⟩ hbefore

end

/-- Whoever a candidate has counted has voted for it, with a last entry no later than its own. -/
theorem counted_earned (hs : Settled c) (ht : Tallied d c) (h : Restricted d as c)
    (hv : v ∈ d.members) (hrole : (c.nodes v).role = .candidate)
    (hu : u ∈ (c.nodes v).election.votesReceived ∨
      ⟨u, v, .requestVoteResponse (c.nodes v).currentTerm true⟩ ∈ c.messageLog) :
    Happened (Cluster.step d)
      (CastsVote d u v (c.nodes v).currentTerm (lastEntry (c.nodes v).storage))
      (Cluster.init d) as := by
  have hid := (hs v).1
  have hanswered : u = v ∨
      ⟨u, v, .requestVoteResponse (c.nodes v).currentTerm true⟩ ∈ c.messageLog := by
    rcases hu with hu | hu
    · have hgranted := (ht v hv).granted hrole u hu
      rw [hid] at hgranted
      exact hgranted
    · exact Or.inr hu
  rcases hanswered with rfl | hmem
  · exact (h.stood u hv hrole).2
  · obtain ⟨li, lt, hask, hcast⟩ := h.answers _ hmem _ rfl
    rw [h.bids _ hask _ _ _ _ rfl hrole rfl] at hcast
    exact hcast

/-- **The election restriction.**  A member that turns leader of term `T` in the last of the actions
has been given the votes of a quorum of distinct members, each in an action before which the
voter's last entry was no later than the leader's is now; and that entry has been the leader's last
one ever since it stood for the term. -/
theorem election_restriction
    (h : Admitted (Cluster.step d) SingleDelivery (Cluster.init d : Cluster P SM) (as ++ [a]))
    (hbefore : ¬ Leads (Cluster.play d as) v T) (hafter : Leads (Cluster.play d (as ++ [a])) v T) :
    let p := lastEntry ((Cluster.play d (as ++ [a])).nodes v).storage
    (∃ Q : List NodeId, Q.Nodup ∧ (∀ u ∈ Q, u ∈ d.members) ∧
        ((Cluster.play d (as ++ [a])).nodes v).config.quorumSize ≤ Q.length ∧
        ∀ u ∈ Q, Happened (Cluster.step d) (CastsVote d u v T p) (Cluster.init d) (as ++ [a])) ∧
      Since (Cluster.step d) (StandsFor d v T)
        (fun c => lastEntry (c.nodes v).storage = p) (Cluster.init d) (as ++ [a]) := by
  obtain ⟨_, b', hg'⟩ := restricted_play h
  obtain ⟨hr, b, hg⟩ := restricted_play (Admitted.snoc.mp h).1
  have hplay : Cluster.play d (as ++ [a]) = (Cluster.play d as).step d a := by
    unfold Cluster.play
    rw [List.foldl_append]
    rfl
  rw [hplay] at hafter hg' ⊢
  generalize hc : Cluster.play d as = c at *
  obtain ⟨ev, hev, hways⟩ := leads_cases hbefore hafter
  obtain ⟨c₀, hh, _⟩ := Cluster.handles_of_handled hev
  have hv := hh.member
  obtain ⟨hleader, rfl⟩ := hafter
  rcases hways with ⟨hcause, halone⟩ | ⟨hrole, hterm, sender, rfl⟩
  · -- alone: the vote for itself is a quorum
    have hstood := stood_start hg.settled hc hev hcause
    refine ⟨⟨[v], List.nodup_singleton v, by simpa using hv, ?_, ?_⟩, hstood.1⟩
    · have hsize := ((hg.fixed.node v hv).config.trans
        (hg'.fixed.node v hv).config.symm).length_eq
      unfold Configuration.quorumSize Configuration.size
      dsimp only
      rw [← hsize]
      split <;> simp
      omega
    · intro u hu
      rw [List.mem_singleton.mp hu]
      exact hstood.2
  · have hnode := Cluster.step_of_handled hev
    have hlast : lastEntry ((c.step d a).nodes v).storage = lastEntry (c.nodes v).storage := by
      rw [hnode]
      exact congrArg lastEntry (RaftNode.storage_handleVoteResponse (Nat.le_of_eq hterm.symm))
    have hstood := (hr.stood v hv hrole).keep hc hterm.symm hlast
    have hnot : (c.nodes v).role ≠ .leader := by
      rw [hrole]
      exact fun h => (by cases h)
    have hwon := hleader
    rw [hnode] at hwon
    obtain ⟨_, _, _, hquorum, hvotes, _, hconfig⟩ := RaftNode.handleVoteResponse_leader hnot hwon
    have hvotes' : ((c.step d a).nodes v).election.votesReceived =
        (c.nodes v).election.votesReceived ++ [sender] := by
      rw [hnode]
      exact hvotes
    have hconfig' : ((c.step d a).nodes v).config = (c.nodes v).config := by
      rw [hnode]
      exact hconfig
    have htally := hg'.tallied v hv
    refine ⟨⟨_, htally.nodup, htally.member, ?_, fun u hu => ?_⟩, hstood.1⟩
    · rw [hvotes', hconfig']
      exact of_decide_eq_true hquorum
    · rw [hvotes'] at hu
      rw [Happened.snoc, hlast, ← hterm]
      refine Or.inl (counted_earned hg.settled hg.tallied hr hv hrole ?_)
      rcases List.mem_append.mp hu with hu | hu
      · exact Or.inl hu
      · rw [List.mem_singleton.mp hu]
        have hsent := hg.fixed.inFlight _ hh.delivered
        rw [← hterm] at hsent
        exact Or.inr hsent

/-- Node 1 of three is elected by node 2. -/
theorem election_restriction_trio :
    let before : List (Action UInt8) := [.timer 1 .election, .deliver 0, .deliver 1, .deliver 1]
    let c := Cluster.play trio (before ++ [.deliver 2])
    let p := lastEntry (c.nodes 1).storage
    (c.nodes 1).role = .leader ∧
      (∃ Q : List NodeId, Q.Nodup ∧ (∀ u ∈ Q, u ∈ trio.members) ∧
        (c.nodes 1).config.quorumSize ≤ Q.length ∧
        ∀ u ∈ Q, Happened (Cluster.step trio) (CastsVote trio u 1 1 p) (Cluster.init trio)
          (before ++ [.deliver 2])) ∧
      Since (Cluster.step trio) (StandsFor trio 1 1) (fun c => lastEntry (c.nodes 1).storage = p)
        (Cluster.init trio) (before ++ [.deliver 2]) := by
  intro before c p
  exact ⟨by decide +kernel, election_restriction (by decide +kernel) (by decide +kernel)
    (by decide +kernel)⟩

end MetalRaft
