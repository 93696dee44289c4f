import MetalRaft.Clocks
import MetalRaft.Frontier
import MetalRaft.Restriction

/-!
# Reads under a lease

A lease runs from the moment a commit is processed, however long the answer that led to it was on
its way, and a voter grants its vote however recently it has heard of a leader.  So a later leader
can be elected, and commit, while the lease of an earlier one is valid.  Where leaders commit on
fresh answers and voters wait, it cannot.

* `Listening` — a cluster, and when each node last heard of a leader.
* `CommitsPromptly`, `VotesPatiently` — the conditions on commits and on votes.
* `Guarded` — what bars everybody else from leading a later term while a lease is valid.
* `lease_reads_linearizable` — reads in such runs; `stale_read` — a read under a lease that misses
  what a later leader has committed.
-/

set_option autoImplicit false

namespace MetalRaft

open Transition Voting LogReplicationManager RaftNode

variable {P SM : Type}

/-! ## Who has heard of a leader, and when -/

instance (msg : RaftMsg P) (N : Nat) : Decidable (msg.Leads N) :=
  match msg with
  | .appendEntries _ _ _ _ _ | .installSnapshot _ _ _ _ _ _ _ => inferInstanceAs (Decidable (_ = _))
  | .requestVote _ _ _ _ | .requestVoteResponse _ _ | .preVoteRequest _ _ _ _
  | .preVoteResponse _ _ | .appendEntriesResponse _ _ _ | .installSnapshotResponse _ _ =>
    isFalse id

/-- A cluster, followed by an observer who notes when each node last heard of a leader of its term,
until the election timer of the node runs out. -/
structure Listening (P SM : Type) where
  cluster : Cluster P SM
  heard : NodeId → Option Nat

namespace Listening

/-- The note on node `v` after it has handled an event in state `n`. -/
def note (last : Option Nat) (n : TestNode P SM) : Event P → Option Nat
  | .message _ msg => if msg.Leads n.currentTerm then some n.election.timerService.clock else last
  | .timerFired .election => none
  | _ => last

variable [StateMachine SM P]

def init (d : Deployment SM) : Listening P SM := ⟨Cluster.init d, fun _ => none⟩

def step (d : Deployment SM) (w : Listening P SM) (a : Action P) : Listening P SM :=
  ⟨w.cluster.step d a, match w.cluster.handled d a with
    | some (v, ev) => Function.update w.heard v (note (w.heard v) (w.cluster.nodes v) ev)
    | none => w.heard⟩

end Listening

/-- The event is a request for a vote that the node has not given yet and grants now. -/
def RaftNode.GrantsVote (n : TestNode P SM) : Event P → Prop
  | .message _ (.requestVote term _ lastLogIndex lastLogTerm) =>
    (n.currentTerm < term ∨ term = n.currentTerm ∧ n.storage.votedFor = none) ∧
      ElectionManager.isLogUpToDate lastLogIndex lastLogTerm n.storage = true
  | _ => False

/-- The event makes the node vote, for a candidate or for itself. -/
def RaftNode.GivesVote (n : TestNode P SM) (ev : Event P) : Prop :=
  n.StartsElection .testUtils ev ∨ n.GrantsVote ev

/-- Nobody votes within `E` of having heard of a leader. -/
def VotesPatiently (E : Nat) (heard : NodeId → Option Nat) (c : Cluster P SM) (v : NodeId)
    (ev : Event P) : Prop :=
  (c.nodes v).GivesVote ev → ∀ s ∈ heard v, s + E ≤ (c.nodes v).election.timerService.clock

/-- Where a leader commits on its own account, a majority is in its term, and each other node of
the majority has heard of a leader so recently that the lease ends within `E` of it. -/
def CommitsPromptly (d : Deployment SM) (E : Nat) (heard : NodeId → Option Nat) (c : Cluster P SM)
    (v : NodeId) (ev : Event P) : Prop :=
  (c.nodes v).role = .leader → ((c.nodes v).commitPoint .testUtils ev).isSome = true →
    d.members.length < 2 * d.members.countP fun u =>
      decide ((c.nodes u).currentTerm = (c.nodes v).currentTerm ∧ (u = v ∨ ∃ s ∈ heard u,
        (c.nodes v).leaderLease.clock + (c.nodes v).leaderLease.leaseDurationMillis ≤ s + E))

/-- Acknowledgements are true, no snapshot is installed behind what has been applied, election
timers wait for `E`, voters are patient and leaders prompt. -/
structure Timely [StateMachine SM P] (d : Deployment SM) (E : Nat) (w : Listening P SM)
    (a : Action P) : Prop where
  delaying : Delaying d w.cluster a
  installsAhead : OnEvents d (fun c v => InstallsAhead (c.nodes v)) w.cluster a
  timersWait : TimersWait E w.cluster a
  patient : OnEvents d (VotesPatiently E w.heard) w.cluster a
  prompt : OnEvents d (CommitsPromptly d E w.heard) w.cluster a

instance (n : TestNode P SM) : (ev : Event P) → Decidable (n.GrantsVote ev)
  | .message _ (.requestVote _ _ _ _) => inferInstanceAs (Decidable (_ ∧ _))
  | .timerFired _ | .clientCommand _ | .configChange _
  | .message _ (.preVoteResponse _ _) | .message _ (.requestVoteResponse _ _)
  | .message _ (.preVoteRequest _ _ _ _) | .message _ (.appendEntries _ _ _ _ _)
  | .message _ (.appendEntriesResponse _ _ _) | .message _ (.installSnapshot _ _ _ _ _ _ _)
  | .message _ (.installSnapshotResponse _ _) => isFalse id

instance (n : TestNode P SM) (ev : Event P) : Decidable (n.GivesVote ev) :=
  inferInstanceAs (Decidable (_ ∨ _))

instance (E : Nat) (heard : NodeId → Option Nat) (c : Cluster P SM) (v : NodeId) (ev : Event P) :
    Decidable (VotesPatiently E heard c v ev) := inferInstanceAs (Decidable (_ → ∀ _ ∈ _, _))

instance (d : Deployment SM) (E : Nat) (heard : NodeId → Option Nat) (c : Cluster P SM)
    (v : NodeId) (ev : Event P) : Decidable (CommitsPromptly d E heard c v ev) :=
  inferInstanceAs (Decidable (_ → _ → _))

instance [StateMachine SM P] (d : Deployment SM) (E : Nat) (w : Listening P SM) (a : Action P) :
    Decidable (Timely d E w a) :=
  decidable_of_iff (Delaying d w.cluster a ∧
      OnEvents d (fun c v => InstallsAhead (c.nodes v)) w.cluster a ∧ TimersWait E w.cluster a ∧
      OnEvents d (VotesPatiently E w.heard) w.cluster a ∧
      OnEvents d (CommitsPromptly d E w.heard) w.cluster a)
    ⟨fun h => ⟨h.1, h.2.1, h.2.2.1, h.2.2.2.1, h.2.2.2.2⟩,
      fun h => ⟨h.delaying, h.installsAhead, h.timersWait, h.patient, h.prompt⟩⟩

/-! ## Votes -/

section

variable [StateMachine SM P] {d : Deployment SM} {c : Cluster P SM} {a : Action P}
  {b b' : Ballot NodeId} {v u y : NodeId} {ev : Event P} {T : Nat}

theorem currentTerm_of_request {n : TestNode P SM} {sender : NodeId} {li lt : Nat}
    (h : n.currentTerm ≤ T) :
    (n.onEvent .testUtils (.message sender (.requestVote T y li lt))).currentTerm ≤ T := by
  have hout := onEvent_outcome .testUtils n (.message sender (.requestVote T y li lt))
  suffices hface : ∀ f, Outcome .testUtils (.message sender (.requestVote T y li lt)) n f →
      f.currentTerm ≤ T from hface _ hout
  intro f hf
  cases hf with
  | keeps => exact h
  | stepsDown asked =>
    cases asked
    exact Nat.le_refl T
  | commitsAlone _ asked => cases asked
  | campaigns cause | leadsAlone cause => exact cause.elim
  | yields asked | learns asked | commits _ asked | hearsSnapshot asked | installs asked
  | wins _ asked => cases asked

/-- A vote that is new is given in the event. -/
theorem givesVote_of_new (hg : Governed d c b) (hg' : Governed d (c.step d a) b')
    (hle : Ballot.Le b b') (hev : c.handled d a = some (u, ev)) (hvotes : (c.nodes u).Votes u ev T y)
    (hvote : b'.voted u T = some y) (hnew : b.voted u T ≠ some y) : (c.nodes u).GivesVote ev := by
  refine hvotes.imp And.left ?_
  rintro ⟨sender, li, lt, rfl, hreached⟩
  obtain ⟨c₀, hh, _⟩ := Cluster.handles_of_handled hev
  have hnode := hg.sim.elections.node u hh.member
  have hnode' := hg'.sim.elections.node u hh.member
  rw [Cluster.step_of_handled hev] at hnode'
  have hcause : ¬ (c.nodes u).StartsElection .testUtils
      (.message sender (.requestVote T y li lt)) := id
  -- the node is in the term of the request afterwards
  have hterm : ((c.nodes u).onEvent .testUtils
      (.message sender (.requestVote T y li lt))).currentTerm = T := by
    refine Nat.le_antisymm ?_ ((hg'.sim.elections.inv.voted_le u T y hvote).trans
      (Nat.le_of_eq hnode'.currentTerm.symm))
    exact currentTerm_of_request hreached
  have hvoted : ((c.nodes u).onEvent .testUtils
      (.message sender (.requestVote T y li lt))).storage.votedFor = some y := by
    refine hnode'.votedFor.trans ?_
    rw [← hnode'.currentTerm]
    exact (congrArg (b'.voted u) hterm).trans hvote
  have hlog : ElectionManager.isLogUpToDate li lt (c.nodes u).storage = true := by
    rcases votedFor_onEvent hcause hvoted with ⟨hsame, hold⟩ | ⟨_, _, _, heq, hlog⟩
    · refine absurd ?_ hnew
      rw [hterm] at hsame
      rw [hsame, hnode.currentTerm, ← hnode.votedFor]
      exact hold
    · rw [hterm] at heq
      cases heq
      exact isLogUpToDate_iff.mpr hlog
  refine ⟨?_, hlog⟩
  rcases Nat.lt_or_eq_of_le hreached with hlt | heq
  · exact Or.inl hlt
  · refine Or.inr ⟨heq.symm, ?_⟩
    cases hold : (c.nodes u).storage.votedFor with
    | none => rfl
    | some z =>
      rw [hnode.votedFor, ← hnode.currentTerm, heq] at hold
      have hsame := hle.voted u T z hold
      rw [hvote] at hsame
      exact absurd (hold.trans hsame.symm) hnew

end

/-! ## The guard of a lease -/

/-- Node `v` has led a term, and a majority has voted for nobody else in a later one; each other node
of it has heard of a leader so recently that a lease until `x` ends within `E` of it. -/
def Guarded (d : Deployment SM) (E : Nat) (heard : NodeId → Option Nat) (b : Ballot NodeId)
    (v : NodeId) (x : Nat) : Prop :=
  ∃ T Q, IsMajority d.members.toFinset Q ∧ b.leader T = some v ∧
    (∀ u ∈ Q, ∀ T' y, T < T' → b.voted u T' = some y → y = v) ∧
    ∀ u ∈ Q, u ≠ v → ∃ s ∈ heard u, x ≤ s + E

/-- What is known at time `now`: what has been noted is past and no later than the last reset of the
election timer; whoever holds a lease that has not run out has voted for itself in its term, and the
lease is guarded. -/
structure Secure [StateMachine SM P] (d : Deployment SM) (E now : Nat) (w : Listening P SM)
    (b : Ballot NodeId) : Prop where
  heard : ∀ v ∈ d.members, ∀ s ∈ w.heard v, s ≤ now ∧
    ∀ reset, (w.cluster.nodes v).election.timerService.election = some reset → s ≤ reset
  lease : ∀ v ∈ d.members, ∀ x, (w.cluster.nodes v).leaderLease.expiration = some x → now < x →
    b.voted v (b.term v) = some v ∧ Guarded d E w.heard b v x

section

variable {d : Deployment SM} {E x : Nat} {heard : NodeId → Option Nat} {b : Ballot NodeId}
  {v u : NodeId} {T : Nat}

/-- Whoever else has led a term has led an earlier one. -/
theorem Guarded.later (h : Guarded d E heard b v x) (hi : b.Inv d.members.toFinset)
    (hlead : b.leader T = some u) (hne : u ≠ v) : ∃ T' > T, b.leader T' = some v := by
  obtain ⟨T', Q, hQ, hled, hvotes, _⟩ := h
  refine ⟨T', ?_, hled⟩
  rcases Nat.lt_trichotomy T T' with hlt | rfl | hlt
  · exact hlt
  · exact absurd (Option.some.inj (hlead.symm.trans hled)) hne
  · -- a majority has voted for `u`, and one of them for nobody but `v`
    obtain ⟨Q', hQ', hvoted⟩ := hi.elected T u hlead
    obtain ⟨z, hz, hz'⟩ := hQ.inter hQ'
    exact absurd (hvotes z hz T u hlt (hvoted z hz')) hne

end

section

variable [StateMachine SM P] {d : Deployment SM} {E now now' x : Nat} {w : Listening P SM}
  {b b' : Ballot NodeId} {a : Action P} {v u : NodeId} {ev : Event P}

theorem Listening.heard_of_handled (h : w.cluster.handled d a = some (v, ev)) :
    (w.step d a).heard = Function.update w.heard v (note (w.heard v) (w.cluster.nodes v) ev) := by
  unfold Listening.step
  rw [h]

theorem Listening.heard_of_not_handled (h : ∀ ev, w.cluster.handled d a ≠ some (v, ev)) :
    (w.step d a).heard v = w.heard v := by
  unfold Listening.step
  cases hh : w.cluster.handled d a with
  | none => rfl
  | some p =>
    obtain ⟨u, ev⟩ := p
    refine Function.update_of_ne ?_ _ _
    rintro rfl
    exact h ev hh

/-- Time goes on, and not while an event is handled. -/
theorem shows_next (h : w.cluster.Shows now) (d : Deployment SM) (a : Action P) :
    ∃ now', now ≤ now' ∧ (w.step d a).cluster.Shows now' ∧
      ∀ v ev, w.cluster.handled d a = some (v, ev) → now' = now := by
  by_cases ha : ∃ millis, a = .advance millis
  · obtain ⟨millis, rfl⟩ := ha
    exact ⟨_, Nat.le_add_right _ _, shows_advance (d := d) h millis, fun _ _ h => (by cases h)⟩
  · exact ⟨now, Nat.le_refl _, shows_step h fun millis heq => ha ⟨millis, heq⟩, fun _ _ _ => rfl⟩

theorem TimersWait.of_handled {c : Cluster P SM} (h : TimersWait E c a)
    (hev : c.handled d a = some (v, .timerFired .election)) :
    ∃ reset, (c.nodes v).election.timerService.election = some reset ∧
      reset + E ≤ (c.nodes v).election.timerService.clock := by
  obtain ⟨c₀, hh, _⟩ := Cluster.handles_of_handled hev
  cases hh with
  | timer => exact h

/-! ### Notes -/

omit [StateMachine SM P] in
/-- Whoever is noted after an event has been noted at this time, or before. -/
theorem note_cases {last : Option Nat} {n : TestNode P SM} {s : Nat}
    (h : Listening.note last n ev = some s) :
    (∃ sender msg, ev = .message sender msg ∧ msg.Leads n.currentTerm ∧
      s = n.election.timerService.clock) ∨ last = some s := by
  unfold Listening.note at h
  split at h
  · split at h
    · rename_i hleads
      exact Or.inl ⟨_, _, rfl, hleads, (Option.some.inj h).symm⟩
    · exact Or.inr h
  · cases h
  · exact Or.inr h

theorem Secure.heard_step (h : Secure d E now w b) (hnow : w.cluster.Shows now)
    (hle : now ≤ now') (hv : v ∈ d.members) {s : Nat} (hs : (w.step d a).heard v = some s) :
    s ≤ now' ∧ ∀ reset,
      ((w.step d a).cluster.nodes v).election.timerService.election = some reset → s ≤ reset := by
  have htimers : (w.cluster.nodes v).election.timerService.clock = now := congrArg Prod.fst (hnow v)
  have hlease : (w.cluster.nodes v).leaderLease.clock = now := congrArg Prod.snd (hnow v)
  by_cases hhandled : ∃ ev, w.cluster.handled d a = some (v, ev)
  · obtain ⟨ev, hev⟩ := hhandled
    rw [Listening.heard_of_handled hev, Function.update_self] at hs
    show s ≤ now' ∧ ∀ reset,
      ((w.cluster.step d a).nodes v).election.timerService.election = some reset → s ≤ reset
    rw [Cluster.step_of_handled hev]
    rcases note_cases hs with ⟨sender, msg, rfl, hleads, rfl⟩ | hold
    · refine ⟨htimers.trans_le hle, fun reset hreset => ?_⟩
      have hwaits : ((w.cluster.nodes v).onEvent .testUtils
          (.message sender msg)).election.timerService.election = some _ :=
        congrArg TimerService.election (timers_lead hleads)
      exact (Option.some.inj (hwaits.symm.trans hreset)).le
    · obtain ⟨hpast, hbefore⟩ := h.heard v hv s hold
      refine ⟨hpast.trans hle, fun reset hreset => ?_⟩
      rcases (onEvent_timing .testUtils _ _).election_cases hreset with hreset | rfl
      · exact hbefore reset hreset
      · exact hpast.trans htimers.ge
  · rw [Listening.heard_of_not_handled fun ev hev => hhandled ⟨ev, hev⟩] at hs
    obtain ⟨hpast, hbefore⟩ := h.heard v hv s hs
    refine ⟨hpast.trans hle, ?_⟩
    have hn := Cluster.node_cases d w.cluster a v
    change ∀ reset, ((w.cluster.step d a).nodes v).election.timerService.election = some reset → _
    generalize (w.cluster.step d a).nodes v = n at hn
    cases hn with
    | handles hev => exact absurd ⟨_, hev⟩ hhandled
    | stays | ages => exact hbefore
    | restarts =>
      intro reset hreset
      have hclock : (w.cluster.nodes v).leaderLease.clock = reset := Option.some.inj hreset
      omega

/-- A guard lasts until the lease runs out, whatever `v` itself does. -/
theorem Guarded.step (h : Guarded d E w.heard b v x) (hsecure : Secure d E now w b)
    (hnow : w.cluster.Shows now) (hx : now < x) (hok : Timely d E w a)
    (hg : Governed d w.cluster b) (hg' : Governed d (w.cluster.step d a) b') (hle : Ballot.Le b b')
    (hnew : Ballot.NewVotes (VotesIn d w.cluster a) b b')
    (hself : ∀ T y, b'.voted v T = some y → b.voted v T = some y ∨ y = v) :
    Guarded d E (w.step d a).heard b' v x := by
  obtain ⟨T, Q, hQ, hled, hvotes, hheard⟩ := h
  have hmember : ∀ u ∈ Q, u ∈ d.members := fun u hu => List.mem_toFinset.mp (hQ.1 hu)
  have htimers : ∀ u, (w.cluster.nodes u).election.timerService.clock = now :=
    fun u => congrArg Prod.fst (hnow u)
  refine ⟨T, Q, hQ, hle.leader T v hled, fun u hu T' y hlt hvote => ?_, fun u hu hne => ?_⟩
  · by_cases huv : u = v
    · subst huv
      exact (hself T' y hvote).elim (hvotes u hu T' y hlt) id
    · by_contra hother
      have hold : b.voted u T' ≠ some y := fun hold => hother (hvotes u hu T' y hlt hold)
      obtain ⟨ev, hev, hcause⟩ := (hnew u T' y hvote).resolve_left hold
      -- whoever votes has not heard of a leader for `E`
      obtain ⟨s, hs, hlate⟩ := hheard u hu huv
      have hpatient := hok.patient u ev hev
        (givesVote_of_new hg hg' hle hev hcause hvote hold) s hs
      rw [htimers] at hpatient
      omega
  · obtain ⟨s, hs, hlate⟩ := hheard u hu hne
    obtain ⟨hpast, hbefore⟩ := hsecure.heard u (hmember u hu) s hs
    by_cases hhandled : ∃ ev, w.cluster.handled d a = some (u, ev)
    · obtain ⟨ev, hev⟩ := hhandled
      rw [Listening.heard_of_handled hev, Function.update_self]
      unfold Listening.note
      split
      · split
        · exact ⟨_, rfl, by rw [htimers]; omega⟩
        · exact ⟨s, hs, hlate⟩
      · -- the election timer has run for `E` since the node heard of a leader
        obtain ⟨reset, hreset, hwaits⟩ := hok.timersWait.of_handled hev
        have := hbefore reset hreset
        rw [htimers] at hwaits
        omega
      · exact ⟨s, hs, hlate⟩
    · rw [Listening.heard_of_not_handled fun ev hev => hhandled ⟨ev, hev⟩]
      exact ⟨s, hs, hlate⟩

end

/-! ### Commits -/

section

variable [StateMachine SM P] {d : Deployment SM} {E now now' : Nat} {w : Listening P SM}
  {c : Cluster P SM} {heard : NodeId → Option Nat} {g : Replicated NodeId (LogEntry P)}
  {b b' : Ballot NodeId} {a : Action P} {v u : NodeId} {ev : Event P}

omit [StateMachine SM P] in
theorem CommitsPromptly.majority (h : CommitsPromptly d E heard c v ev)
    (hleader : (c.nodes v).role = .leader)
    (hpoint : ((c.nodes v).commitPoint .testUtils ev).isSome = true) :
    ∃ Q, IsMajority d.members.toFinset Q ∧ ∀ u ∈ Q,
      (c.nodes u).currentTerm = (c.nodes v).currentTerm ∧ (u = v ∨ ∃ s ∈ heard u,
        (c.nodes v).leaderLease.clock + (c.nodes v).leaderLease.leaseDurationMillis ≤ s + E) := by
  have hmany := h hleader hpoint
  generalize hp : (fun u => decide ((c.nodes u).currentTerm = (c.nodes v).currentTerm ∧
    (u = v ∨ ∃ s ∈ heard u, (c.nodes v).leaderLease.clock +
      (c.nodes v).leaderLease.leaseDurationMillis ≤ s + E))) = p at hmany
  refine ⟨(d.members.filter p).toFinset, ⟨?_, ?_⟩, fun u hu => ?_⟩
  · exact fun u hu => List.mem_toFinset.mpr (List.mem_of_mem_filter (List.mem_toFinset.mp hu))
  · rw [List.toFinset_card_of_nodup d.nodup, List.toFinset_card_of_nodup (d.nodup.filter p),
      ← List.countP_eq_length_filter]
    exact hmany
  · have hu' := (List.mem_filter.mp (List.mem_toFinset.mp hu)).2
    rw [← hp] at hu'
    exact of_decide_eq_true hu'

omit [StateMachine SM P] in
/-- No term has been led beyond the one that a majority is in. -/
theorem led_le_of_majority (hi : b.Inv d.members.toFinset)
    (hnodes : ∀ v ∈ d.members, BallotNode b v (c.nodes v)) {Q : Finset NodeId} {T T' : Nat}
    (hQ : IsMajority d.members.toFinset Q) (hterm : ∀ u ∈ Q, (c.nodes u).currentTerm = T)
    (hled : b.leader T' = some u) : T' ≤ T := by
  obtain ⟨Q', hQ', hvoted⟩ := hi.elected T' u hled
  obtain ⟨z, hz, hz'⟩ := hQ.inter hQ'
  calc T' ≤ b.term z := hi.voted_le z T' u (hvoted z hz')
    _ = (c.nodes z).currentTerm := (hnodes z (List.mem_toFinset.mp (hQ.1 hz))).currentTerm.symm
    _ = T := hterm z hz

omit [StateMachine SM P] in
/-- Somebody has led the term of every entry that has been applied. -/
theorem Decided.led_of_applied (h : Decided d c g) (hv : v ∈ d.members) {x : Nat × LogEntry P}
    (hx : x ∈ (c.nodes v).observer.applied) : ∃ y, g.ballot.leader x.2.term = some y := by
  have hi := h.following.logs.inv
  obtain ⟨T, l, hknown, hpos, hget⟩ := (h.decided.node v hv).applied x hx
  rcases hknown with hzero | ⟨S, _, m, hkm, hchosen, hagree⟩
  · omega
  · refine hi.exists_leader fun hnil => ?_
    rw [hagree.getElem? (Nat.sub_lt hpos Nat.one_pos)] at hget
    rw [(hi.ledger S (x.1 - 1) x.2 hget).getElem? (Nat.lt_succ_self _), stamp_eq, hnil] at hget
    cases hget

/-- Leaders that commit promptly do not commit while another member holds a lease. -/
theorem Secure.leasesApart (h : Secure d E now w b) (hnow : w.cluster.Shows now)
    (hok : Timely d E w a) (hg : Governed d w.cluster b) (hdec : Decided d w.cluster g) :
    OnEvents d (LeasesApart d) w.cluster a := by
  intro v ev hev hleader hpoint u hu
  obtain ⟨Q, hQ, hprompt⟩ := (hok.prompt v ev hev).majority hleader hpoint
  have hterm : ∀ z ∈ Q, (w.cluster.nodes z).currentTerm = (w.cluster.nodes v).currentTerm :=
    fun z hz => (hprompt z hz).1
  obtain ⟨c₀, hh, _⟩ := Cluster.handles_of_handled hev
  have hi := hg.sim.elections.inv
  have hlead := hg.sim.elections.leader hh.member hleader
  refine ⟨?_, fun x hx => ?_⟩
  · by_contra hboth
    obtain ⟨hne, hvalid⟩ := not_or.mp hboth
    obtain ⟨x, hx, hlate⟩ := LeaderLease.isValid_iff.mp (Bool.not_eq_false _ ▸ hvalid)
    rw [show (w.cluster.nodes u).leaderLease.clock = now from congrArg Prod.snd (hnow u)] at hlate
    obtain ⟨_, hguard⟩ := h.lease u hu x hx hlate
    obtain ⟨T', hlater, hled⟩ := hguard.later hi hlead (Ne.symm hne)
    exact absurd (led_le_of_majority hi hg.sim.elections.node hQ hterm hled) (Nat.not_le.mpr hlater)
  · obtain ⟨y, hled⟩ := hdec.led_of_applied hu hx
    exact led_le_of_majority hdec.following.logs.elections.inv
      hdec.following.logs.elections.node hQ hterm hled

/-- The guard that a leader finds when it commits. -/
theorem guarded_commit (hnow : w.cluster.Shows now) (hok : Timely d E w a)
    (hg : Governed d w.cluster b) (hle : Ballot.Le b b')
    (hnew : Ballot.NewVotes (VotesIn d w.cluster a) b b')
    (hev : w.cluster.handled d a = some (v, ev)) (hleader : (w.cluster.nodes v).role = .leader)
    (hpoint : ((w.cluster.nodes v).commitPoint .testUtils ev).isSome = true) :
    Guarded d E (w.step d a).heard b' v
      (now + (w.cluster.nodes v).leaderLease.leaseDurationMillis) := by
  obtain ⟨Q, hQ, hprompt⟩ := (hok.prompt v ev hev).majority hleader hpoint
  obtain ⟨c₀, hh, _⟩ := Cluster.handles_of_handled hev
  have hlead := hg.sim.elections.leader hh.member hleader
  refine ⟨_, Q, hQ, hle.leader _ v hlead, fun u hu T' y hlt hvote => ?_, fun u hu hne => ?_⟩
  · rcases hnew u T' y hvote with hold | ⟨ev', hev', hcause⟩
    · have hpast := hg.sim.elections.inv.voted_le u T' y hold
      rw [← (hg.sim.elections.node u (List.mem_toFinset.mp (hQ.1 hu))).currentTerm,
        (hprompt u hu).1] at hpast
      omega
    · obtain ⟨rfl, rfl⟩ := Prod.mk.inj (Option.some.inj (hev.symm.trans hev'))
      rcases hcause with ⟨_, rfl⟩ | ⟨sender, li, lt, rfl, _⟩
      · rfl
      · cases hpoint
  · rw [Listening.heard_of_handled hev, Function.update_of_ne hne]
    obtain ⟨s, hs, hlate⟩ := (hprompt u hu).2.resolve_left hne
    rw [show (w.cluster.nodes v).leaderLease.clock = now from congrArg Prod.snd (hnow v)] at hlate
    exact ⟨s, hs, hlate⟩

/-- What a lease rests on after an event of the node that holds it. -/
theorem Secure.lease_event (h : Secure d E now w b) (hnow : w.cluster.Shows now)
    (hok : Timely d E w a) (hg : Governed d w.cluster b)
    (hg' : Governed d (w.cluster.step d a) b') (hle : Ballot.Le b b')
    (hnew : Ballot.NewVotes (VotesIn d w.cluster a) b b')
    (hev : w.cluster.handled d a = some (v, ev)) {x : Nat}
    (hx : ((w.cluster.step d a).nodes v).leaderLease.expiration = some x) (hlate : now < x) :
    b'.voted v (b'.term v) = some v ∧ Guarded d E (w.step d a).heard b' v x := by
  obtain ⟨c₀, hh, _⟩ := Cluster.handles_of_handled hev
  have hv := hh.member
  have hnode := hg.sim.elections.node v hv
  have hnode' := hg'.sim.elections.node v hv
  rw [Cluster.step_of_handled hev] at hx hnode'
  have hterm' : ((w.cluster.nodes v).onEvent .testUtils ev).currentTerm = b'.term v :=
    hnode'.currentTerm
  -- a vote of the node for somebody else has been asked for by this event
  have hself : (∀ sender T y li lt, ev = .message sender (.requestVote T y li lt) →
      b'.term v = b.term v ∧ b.voted v (b.term v) = some v) →
      ∀ T y, b'.voted v T = some y → b.voted v T = some y ∨ y = v := by
    intro hstays T y hvote
    refine (hnew v T y hvote).imp_right ?_
    rintro ⟨ev', hev', hcause⟩
    obtain rfl : ev = ev' := (Prod.mk.inj (Option.some.inj (hev.symm.trans hev'))).2
    rcases hcause with ⟨_, heq⟩ | ⟨sender, li, lt, asked, hreached⟩
    · exact heq
    · obtain ⟨hsame, hown⟩ := hstays _ _ _ _ _ asked
      have hbelow := hg'.sim.elections.inv.voted_le v T y hvote
      rw [hnode.currentTerm] at hreached
      obtain rfl : T = b.term v := by omega
      exact Option.some.inj (hvote.symm.trans (hle.voted v _ v hown))
  cases (leaseStep_onEvent : LeaseStep ev (w.cluster.nodes v) _) with
  | gone expiration => exact absurd (expiration.symm.trans hx) (by simp)
  | keeps lease term =>
    have hold : (w.cluster.nodes v).leaderLease.expiration = some x :=
      (congrArg LeaderLease.expiration lease).symm.trans hx
    obtain ⟨hown, hguard⟩ := h.lease v hv x hold hlate
    have hsame : b'.term v = b.term v := by rw [← hterm', term, hnode.currentTerm]
    exact ⟨by rw [hsame]; exact hle.voted v _ v hown,
      hguard.step h hnow hlate hok hg hg' hle hnew (hself fun _ _ _ _ _ _ => ⟨hsame, hown⟩)⟩
  | stands cause lease role =>
    have hold : (w.cluster.nodes v).leaderLease.expiration = some x :=
      (congrArg LeaderLease.expiration lease).symm.trans hx
    obtain ⟨_, hguard⟩ := h.lease v hv x hold hlate
    refine ⟨hg'.sim.elections.inv.own_vote v ?_,
      hguard.step h hnow hlate hok hg hg' hle hnew (hself ?_)⟩
    · rw [← hnode'.role]
      intro hidle
      refine role ?_
      generalize hr : ((w.cluster.nodes v).onEvent .testUtils ev).role = r
      have hidle' : r.toRole = .idle := hr ▸ hidle
      cases r <;> first | rfl | cases hidle'
    · rintro sender T y li lt rfl
      exact cause.elim
  | hears asked later lease =>
    -- only the leader of a later term sends such a snapshot, and `v` would be that leader
    have hold : (w.cluster.nodes v).leaderLease.expiration = some x :=
      (congrArg LeaderLease.expiration lease).symm.trans hx
    obtain ⟨_, hguard⟩ := h.lease v hv x hold hlate
    subst asked
    have hsent := hg.fixed.inFlight _ hh.delivered
    obtain ⟨T', hlt, hled⟩ := hguard.later hg.sim.elections.inv (hg.sim.sent _ hsent)
      (hg.fixed.sent _ hsent).ne.symm
    have hpast := hg.sim.elections.inv.leader_le T' v hled
    rw [hnode.currentTerm] at later
    omega
  | granted leader point lease =>
    have hclock : (w.cluster.nodes v).leaderLease.clock = now := congrArg Prod.snd (hnow v)
    have hgrant : (w.cluster.nodes v).leaderLease.grant.expiration = some x :=
      (congrArg LeaderLease.expiration lease).symm.trans hx
    have hend : now + (w.cluster.nodes v).leaderLease.leaseDurationMillis = x := by
      rw [← hclock]
      exact Option.some.inj hgrant
    obtain ⟨y, hy⟩ := Option.isSome_iff_exists.mp point
    have hsame : b'.term v = b.term v := by
      rw [← hterm', currentTerm_of_point hy, hnode.currentTerm]
    refine ⟨?_, hend ▸ guarded_commit hnow hok hg hle hnew hev leader point⟩
    rw [hsame]
    refine hle.voted v _ v (hg.sim.elections.inv.own_vote v ?_)
    rw [← hnode.role, leader]
    exact fun h => (by cases h)

/-- **Leases stay guarded.** -/
theorem Secure.step (h : Secure d E now w b) (hnow : w.cluster.Shows now) (hok : Timely d E w a)
    (hg : Governed d w.cluster b) (hg' : Governed d (w.cluster.step d a) b') (hle : Ballot.Le b b')
    (hnew : Ballot.NewVotes (VotesIn d w.cluster a) b b') :
    ∃ now', (w.step d a).cluster.Shows now' ∧ Secure d E now' (w.step d a) b' := by
  obtain ⟨now', hpast, hnow', hstill⟩ := shows_next hnow d a
  refine ⟨now', hnow', fun v hv s hs => h.heard_step hnow hpast hv hs, fun v hv x hx hlate => ?_⟩
  have hlate' : now < x := Nat.lt_of_le_of_lt hpast hlate
  by_cases hhandled : ∃ ev, w.cluster.handled d a = some (v, ev)
  · obtain ⟨ev, hev⟩ := hhandled
    exact h.lease_event hnow hok hg hg' hle hnew hev hx hlate'
  · have hnode := hg.sim.elections.node v hv
    have hnode' := hg'.sim.elections.node v hv
    have hself : ∀ T y, b'.voted v T = some y → b.voted v T = some y ∨ y = v := by
      refine fun T y hvote => (hnew v T y hvote).imp_right ?_
      rintro ⟨ev, hev, _⟩
      exact absurd ⟨ev, hev⟩ hhandled
    have hsame : (w.cluster.nodes v).leaderLease.expiration = some x ∧
        ((w.cluster.step d a).nodes v).currentTerm = (w.cluster.nodes v).currentTerm := by
      have hn := Cluster.node_cases d w.cluster a v
      change ((w.cluster.step d a).nodes v).leaderLease.expiration = some x at hx
      generalize (w.cluster.step d a).nodes v = n at hn hx
      cases hn with
      | handles hev => exact absurd ⟨_, hev⟩ hhandled
      | stays | ages => exact ⟨hx, rfl⟩
      | restarts => cases hx
    obtain ⟨hown, hguard⟩ := h.lease v hv x hsame.1 hlate'
    refine ⟨?_, hguard.step h hnow hlate' hok hg hg' hle hnew hself⟩
    rw [← hnode'.currentTerm, hsame.2, hnode.currentTerm]
    exact hle.voted v _ v hown

end

/-! ## Runs -/

section

variable [StateMachine SM P] {d : Deployment SM} {E : Nat} {w : Listening P SM} {a : Action P}
  {v : NodeId}

/-- What is known of a cluster after a timely run. -/
def Secured (d : Deployment SM) (E : Nat) (w : Listening P SM) : Prop :=
  ∃ b g now, Governed d w.cluster b ∧ Decided d w.cluster g ∧ w.cluster.Shows now ∧
    Secure d E now w b

theorem secured_init (d : Deployment SM) (E : Nat) :
    Secured d E (Listening.init d : Listening P SM) :=
  ⟨_, _, 0, governed_init d, decided_init d, fun _ => rfl,
    fun _ _ _ hs => (by cases hs), fun _ _ _ hx => (by cases hx)⟩

theorem Secured.step (h : Secured d E w) (hok : Timely d E w a) :
    Leasing d w.cluster a ∧ Secured d E (w.step d a) := by
  obtain ⟨b, g, now, hg, hdec, hnow, hsecure⟩ := h
  obtain ⟨b', ⟨hle, hnew⟩, hg'⟩ := hg.step hok.delaying.1
  obtain ⟨g', _, hdec'⟩ := hdec.step hok.delaying
  obtain ⟨now', hnow', hsecure'⟩ := hsecure.step hnow hok hg hg' hle hnew
  exact ⟨⟨hok.delaying, hok.installsAhead, hsecure.leasesApart hnow hok hg hdec⟩,
    b', g', now', hg', hdec', hnow', hsecure'⟩

/-- In a timely run no leader commits while another member holds a lease. -/
theorem leasing_of_timely : ∀ (actions : List (Action P)) {w : Listening P SM}, Secured d E w →
    Admitted (Listening.step d) (Timely d E) w actions →
      Admitted (Cluster.step d) (Leasing d) w.cluster actions
  | [], _, _, _ => trivial
  | _ :: actions, _, hw, h => ⟨(hw.step h.1).1, leasing_of_timely actions (hw.step h.1).2 h.2⟩

/-- **Reads under a lease are linearizable** where election timers wait for `E`, nobody votes within
`E` of having heard of a leader, and leaders commit on answers so fresh that the lease ends within
`E` of them: what is read is the value after all that any member has committed so far. -/
theorem lease_reads_linearizable
    (law : ∀ s s' : SM, StateMachine.restoreFromSnapshot s (StateMachine.createSnapshot s') =
      (s', .ok ()))
    {actions : List (Action P)}
    (h : Admitted (Listening.step d) (Timely d E) (Listening.init d) actions)
    (hv : v ∈ d.members) {key : String} {value : Option String}
    (hread : ((Cluster.play d actions).nodes v).readLinearizable key = .ok value) :
    ∃ e N, CommittedSoFar d actions e N ∧
      value = StateMachine.get (prefixMachine d.freshMachine e N) key :=
  read_of_leasing law (leasing_of_timely actions (secured_init d E) h) hv hread

end

/-! ## Three runs -/

/-- Leader 1 commits an entry, compacts it and sends node 3 the snapshot.  When its lease and the
election timer of node 2 have run out, node 2 is elected, commits an entry of its own and reads. -/
def leaseHandoverRun : List (Action UInt8) :=
  [.advance 150, .timer 1 .election, .deliver 0, .deliver 1, .deliver 1, .deliver 2, .client 1 7,
    .deliver 2, .deliver 3, .deliver 5, .timer 1 .heartbeat, .deliver 6, .advance 150,
    .timer 2 .election, .deliver 8, .deliver 8, .deliver 9, .deliver 9, .client 2 8, .deliver 12,
    .deliver 12]

theorem lease_reads_linearizable_trio :
    ∃ e N, CommittedSoFar compactingTrio leaseHandoverRun e N ∧
      some "15" = StateMachine.get (prefixMachine compactingTrio.freshMachine e N) "" :=
  lease_reads_linearizable (E := 150) (v := 2) (fun _ _ => rfl) (by decide +kernel) (by decide)
    (by decide +kernel)

/-- Node 2 accepts the entry of leader 1, and its answer is delayed.  When its election timer has run
out, node 2 is elected and commits an entry of its own; then the answer reaches node 1. -/
def delayedAnswerRun : List (Action UInt8) :=
  [.advance 150, .timer 1 .election, .deliver 0, .deliver 1, .deliver 1, .deliver 2, .client 1 7,
    .deliver 2, .deliver 3, .advance 150, .timer 2 .election, .deliver 7, .deliver 7, .deliver 8,
    .deliver 8, .client 2 8, .deliver 9, .deliver 11, .timer 2 .heartbeat, .deliver 12,
    .deliver 12, .deliver 5]

/-- Node 1 commits, is granted a lease and reads, and what node 2 has committed before is missing. -/
theorem stale_read :
    ¬ ∀ (E : Nat) (actions : List (Action UInt8)), (∀ v, trio.leaseDurationMillis v < E) →
      Admitted (Cluster.step trio) (fun c a => SingleDelivery c a ∧ TimersWait E c a)
        (Cluster.init trio) actions →
      ∀ v ∈ trio.members, ∀ (key : String) (value : Option String),
        ((Cluster.play trio actions).nodes v).readLinearizable key = .ok value →
          ∃ e N, CommittedSoFar trio actions e N ∧
            value = StateMachine.get (prefixMachine trio.freshMachine e N) key := by
  intro h
  obtain ⟨e, N, hsofar, hvalue⟩ := h 150 delayedAnswerRun (fun _ => show 100 < 150 by decide)
    (by decide +kernel) 1 (by decide) "" (some "7") (by decide +kernel)
  have happlied : ((Cluster.play trio delayedAnswerRun).nodes 2).observer.applied =
      [(1, ⟨1, .command 7⟩), (2, ⟨2, .command 8⟩)] := by decide +kernel
  have hlow : 2 ≤ N :=
    calc 2 = ((Cluster.play trio delayedAnswerRun).nodes 2).replication.commitIndex := by
          decide +kernel
      _ ≤ N := hsofar.reached _ (List.prefix_refl _) 2 (by decide)
  have hhigh : N < 3 := by
    by_contra hge
    obtain ⟨v, hv, hmem⟩ := hsofar.covered 3 (by decide) (Nat.le_of_not_lt hge)
    have hnone : ∀ v ∈ trio.members,
        ∀ x ∈ ((Cluster.play trio delayedAnswerRun).nodes v).observer.applied, x.1 ≠ 3 := by
      decide +kernel
    exact hnone v hv _ hmem rfl
  obtain rfl : N = 2 := by omega
  have hentry := hsofar.applied 2 (by decide)
  rw [happlied] at hentry
  have hfirst : e 1 = ⟨1, .command 7⟩ := (hentry _ (List.mem_cons_self ..)).symm
  have hsecond : e 2 = ⟨2, .command 8⟩ :=
    (hentry _ (List.mem_cons_of_mem _ (List.mem_singleton_self _))).symm
  have hmachine : prefixMachine trio.freshMachine e 2 = ⟨15⟩ := by
    show (e 2).applyTo ((e 1).applyTo trio.freshMachine) = ⟨15⟩
    rw [hfirst, hsecond]
    rfl
  rw [hmachine] at hvalue
  exact absurd hvalue (by decide +kernel)

/-- Node 3 accepts the entry of leader 1, which commits it at once.  A moment later the election
timer of node 2 runs out, node 3 votes for it, and the two commit an entry of node 2. -/
def hastyVoteRun : List (Action UInt8) :=
  [.advance 150, .timer 1 .election, .deliver 0, .deliver 1, .deliver 1, .deliver 2, .client 1 7,
    .deliver 2, .deliver 3, .advance 140, .deliver 2, .deliver 2, .deliver 4, .advance 10,
    .timer 2 .election, .deliver 5, .deliver 5, .deliver 6, .deliver 6, .client 2 8, .deliver 7,
    .deliver 8, .deliver 8, .deliver 8]

-- Patient voters are not enough: here only the leader that commits is late.
example :
    Admitted (Listening.step trio) (fun w a => Delaying trio w.cluster a ∧
        TimersWait 150 w.cluster a ∧ OnEvents trio (VotesPatiently 150 w.heard) w.cluster a)
      (Listening.init trio) delayedAnswerRun ∧
    ((Cluster.play trio delayedAnswerRun).nodes 1).readLinearizable "" = .ok (some "7") ∧
    ((Cluster.play trio delayedAnswerRun).nodes 2).readLinearizable "" = .ok (some "15") := by
  decide +kernel

-- Prompt leaders are not enough either: here only the voter is hasty.
example :
    Admitted (Listening.step trio) (fun w a => Delaying trio w.cluster a ∧
        TimersWait 150 w.cluster a ∧ OnEvents trio (CommitsPromptly trio 150 w.heard) w.cluster a)
      (Listening.init trio) hastyVoteRun ∧
    ((Cluster.play trio hastyVoteRun).nodes 1).readLinearizable "" = .ok (some "7") ∧
    ((Cluster.play trio hastyVoteRun).nodes 2).readLinearizable "" = .ok (some "15") := by
  decide +kernel

end MetalRaft
