import MetalRaft.Lease
import MetalRaft.MatchIndex
import MetalRaft.Quorums

/-!
# What is committed and applied

Without snapshots, a leader commits what a majority has acknowledged to it.  As long as the answers
hold, that is chosen: no later leader lacks it, and no node applies anything else in its place.

* `chosen_of_median` — the median of the recorded indexes reaches what a majority has acknowledged.
* `Committing` — what nodes have committed and applied, and what messages tell them to commit, is
  known to be chosen; `committing_step` follows an action.
* `leader_completeness`, `state_machine_safety` — the statements about runs.
* `committed_entry_missing`, `false_match_applied` — a log that goes on beyond the entry checked is
  acknowledged as a whole, and the leader commits and applies what nobody else has.
-/

set_option autoImplicit false

namespace MetalRaft

open Transition Voting

variable {P SM : Type} [StateMachine SM P]

/-! ## Committing -/

namespace RaftNode

/-- Nobody is catching up: that is only ever recorded when a member is added. -/
def AllCaughtUp (n : TestNode P SM) : Prop := ∀ x, n.replication.catchingUpServers.get x = none

section

variable {d : Deployment SM} {g : Replicated NodeId (LogEntry P)} {v : NodeId} {i : Nat}
  {n : TestNode P SM}

omit [StateMachine SM P] in
theorem voters_perm (hid : n.id ∈ d.members) (hfixed : FixedNode d n) (hcaught : n.AllCaughtUp) :
    n.voters.Perm d.members := by
  have hnodup : n.config.members.Nodup := hfixed.config.nodup_iff.mpr d.nodup
  have hmem : n.id ∈ n.config.members := hfixed.config.mem_iff.mpr hid
  have hvoters : n.voters = n.id :: n.config.members.erase n.id := by
    unfold voters
    rw [hnodup.erase_eq_filter]
    simp [hcaught _]
  rw [hvoters]
  exact (List.perm_cons_erase hmem).symm.trans hfixed.config

omit [StateMachine SM P] in
/-- **The median reaches what a majority has acknowledged.** -/
theorem chosen_of_median (hid : n.id ∈ d.members) (hfixed : FixedNode d n)
    (hcaught : n.AllCaughtUp) (hmatched : ∀ u ∈ d.members, ∀ m,
      n.replication.matchIndex.get u = some m → i ≤ m → i ≤ g.acked u n.currentTerm)
    (median : n.replication.matchIndex.computeMedian .testUtils n.storage.lastLogIndex n.config
      n.replication.catchingUpServers n.id = some i) (hpos : 0 < i)
    (hself : n.storage.lastLogIndex ≤ g.acked n.id n.currentTerm) :
    ∃ Q, IsMajority d.members.toFinset Q ∧ ∀ u ∈ Q, i ≤ g.acked u n.currentTerm := by
  have hperm := voters_perm hid hfixed hcaught
  have hreach := (computeMedian_reaches _ _ i).mp ⟨i, median, Nat.le_refl i⟩
  set reached : NodeId → Bool := fun x => decide (i ≤ if x = n.id then n.storage.lastLogIndex
    else (n.replication.matchIndex.get x).getD 0) with hreached
  have hnodup : (n.voters.filter reached).Nodup := (hperm.nodup_iff.mpr d.nodup).filter _
  refine ⟨(n.voters.filter reached).toFinset, ⟨fun u hu => ?_, ?_⟩, fun u hu => ?_⟩
  · exact List.mem_toFinset.mpr
      (hperm.mem_iff.mp (List.mem_filter.mp (List.mem_toFinset.mp hu)).1)
  · rw [List.toFinset_card_of_nodup d.nodup, List.toFinset_card_of_nodup hnodup,
      ← hperm.length_eq, ← List.countP_eq_length_filter]
    omega
  · obtain ⟨hvoter, hindex⟩ := List.mem_filter.mp (List.mem_toFinset.mp hu)
    rw [hreached, decide_eq_true_eq] at hindex
    by_cases hun : u = n.id
    · rw [if_pos hun] at hindex
      rw [hun]
      exact hindex.trans hself
    · rw [if_neg hun] at hindex
      cases hget : n.replication.matchIndex.get u with
      | none => rw [hget] at hindex; exact absurd hindex (Nat.not_le.mpr hpos)
      | some m =>
        rw [hget] at hindex
        exact hmatched u (hperm.mem_iff.mp hvoter) m hget hindex

end

/-! ### Who is catching up -/

variable {d : Deployment SM} {ev : Event P} {n₀ n n' : TestNode P SM}

omit [StateMachine SM P] in
theorem catchingUp_recorded {R : Realization} (r : LogReplicationManager) (sender : NodeId)
    (m : Nat) (h : ∀ x, r.catchingUpServers.get x = none) (x : NodeId) :
    (r.recorded R sender m).catchingUpServers.get x = none := by
  unfold LogReplicationManager.recorded LogReplicationManager.checkAndPromoteCaughtUpServer
  rw [if_neg]
  · exact h x
  · simp [h]

theorem caughtUp_move (hmove : Move .testUtils ev n₀ n n') (hf : FixedNode d n)
    (h : n.AllCaughtUp) : n'.AllCaughtUp := by
  intro x
  cases hmove with
  | inert hi => rw [hi.replication]; exact h x
  | campaign =>
    rw [broadcast_eq]
    exact h x
  | lead =>
    have hsame := initializeLeaderState_counters (R := .testUtils) n.replication n.config.members
      n.storage
    show (n.replication.initializeLeaderState .testUtils n.config.members
      n.storage).catchingUpServers.get x = none
    rw [hsame.2.2]
    exact h x
  | applyChanges changes found => exact absurd found hf.no_applyChanges
  | learnCommit _ _ placed => rw [placed] at h; exact h x
  | record => exact catchingUp_recorded _ _ _ h x
  | @recordSnapshot _ success =>
    cases success with
    | false => exact h x
    | true => exact catchingUp_recorded _ _ _ h x
  | _ => exact h x

end RaftNode

/-! ## The invariant -/

/-- An AppendEntries tells how much of the ledger of its term is known to be chosen. -/
def CommitPacket (d : Deployment SM) (g : Replicated NodeId (LogEntry P)) (p : Packet P) : Prop :=
  match p.msg with
  | .appendEntries T _ _ _ lc => g.Known d.members.toFinset T (g.ledger T) lc
  | _ => True

/-- The applied entry is in a list which is known to be chosen up to there. -/
def AppliedChosen (d : Deployment SM) (g : Replicated NodeId (LogEntry P))
    (x : Nat × LogEntry P) : Prop :=
  ∃ T l, g.Known d.members.toFinset T l x.1 ∧ 0 < x.1 ∧ l[x.1 - 1]? = some x.2

/-- What node `v` has committed and applied is known to be chosen. -/
structure CommittedNode (d : Deployment SM) (g : Replicated NodeId (LogEntry P)) (v : NodeId)
    (n : TestNode P SM) : Prop where
  matched : Matched d False g n
  caughtUp : n.AllCaughtUp
  committed : g.Known d.members.toFinset (g.ballot.term v) (g.log v) n.replication.commitIndex
  applied : ∀ x ∈ n.observer.applied, AppliedChosen d g x

structure Committing (d : Deployment SM) (c : Cluster P SM)
    (g : Replicated NodeId (LogEntry P)) : Prop where
  node : ∀ v ∈ d.members, CommittedNode d g v (c.nodes v)
  sent : ∀ p ∈ c.messageLog, CommitPacket d g p

section

variable {d : Deployment SM} {c c₀ : Cluster P SM} {g g' : Replicated NodeId (LogEntry P)}
  {v : NodeId} {ev : Event P} {n₀ n n' : TestNode P SM} {p : Packet P} {x : Nat × LogEntry P}
  {front : List (Packet P)}

open RaftNode

omit [StateMachine SM P] in
theorem CommitPacket.mono (hle : Replicated.Le g g') (hi : g.Inv d.members.toFinset)
    (h : CommitPacket d g p) : CommitPacket d g' p := by
  unfold CommitPacket at h ⊢
  split
  · rename_i heq
    rw [heq] at h
    have hagree := agree_of_isPrefix (hle.ledger _) (h.le_length hi)
    exact (h.of_agree hagree.symm (Nat.le_refl _)).mono hle hi (Nat.le_refl _)
  · trivial

omit [StateMachine SM P] in
theorem AppliedChosen.mono (hle : Replicated.Le g g') (hi : g.Inv d.members.toFinset)
    (h : AppliedChosen d g x) : AppliedChosen d g' x := by
  obtain ⟨T, l, hknown, hpos, hget⟩ := h
  exact ⟨T, l, hknown.mono hle hi (Nat.le_refl _), hpos, hget⟩

omit [StateMachine SM P] in
theorem CommittedNode.advance (hadv : Replicated.Advances d.members.toFinset g g')
    (hi : g.Inv d.members.toFinset) (h : CommittedNode d g v n) : CommittedNode d g' v n :=
  ⟨h.matched.mono hadv.le, h.caughtUp, hadv.known _ _ h.committed,
    fun x hx => (h.applied x hx).mono hadv.le hi⟩

omit [StateMachine SM P] in
/-- What is chosen is applied in one way only. -/
theorem AppliedChosen.eq {i : Nat} {e e' : LogEntry P} (h : AppliedChosen d g (i, e))
    (h' : AppliedChosen d g (i, e')) (hi : g.Inv d.members.toFinset)
    (hs : g.Sound d.members.toFinset) : e = e' := by
  obtain ⟨T, l, hknown, hpos, hget⟩ := h
  obtain ⟨T', l', hknown', _, hget'⟩ := h'
  have hagree := hknown.agree hknown' hi hs
  rw [Nat.min_self] at hagree
  rw [hagree.getElem? (Nat.sub_lt hpos Nat.one_pos)] at hget
  exact Option.some.inj (hget.symm.trans hget')

/-! ### Messages -/

/-- What a node sends tells nothing but what it knows itself. -/
theorem sent_move (hv : v ∈ d.members) (hfixed : FixedNode d n)
    (hmove : Move .testUtils ev n₀ n n') (h : Streamed d front (c₀.withNode v n') g)
    (hk : g.Known d.members.toFinset (g.ballot.term v) (g.log v) n.replication.commitIndex)
    (hsent : ∀ p ∈ (c₀.withNode v n).messageLog, CommitPacket d g p) :
    ∀ p ∈ (c₀.withNode v n').messageLog, CommitPacket d g p := by
  suffices hout : ∃ outs, n'.outbox = n.outbox ++ outs ∧ ∀ p ∈ outs, CommitPacket d g p by
    obtain ⟨outs, heq, houts⟩ := hout
    rw [Cluster.withNode_messageLog, heq, ← List.append_assoc]
    intro p hp
    exact (List.mem_append.mp hp).elim (hsent p) (houts p)
  have hsilent : n'.outbox = n.outbox → ∃ outs, n'.outbox = n.outbox ++ outs ∧
      ∀ p ∈ outs, CommitPacket d g p := fun heq => ⟨[], by rw [heq, List.append_nil], by simp⟩
  obtain ⟨hb, hl⟩ := h.logs.self hv
  cases hmove.voteCases hfixed with
  | adoptTerm | rest | tally | lead => exact hsilent rfl
  | campaign =>
    refine ⟨_, outbox_append n.standing _, fun p hp => ?_⟩
    simp only [List.map_map, List.mem_map, Function.comp] at hp
    obtain ⟨t, _, rfl⟩ := hp
    trivial
  | grant =>
    refine ⟨_, outbox_append (n.withStorage _) _, fun p hp => ?_⟩
    simp only [List.map_cons, List.map_nil, List.mem_singleton] at hp
    rw [hp]
    trivial
  | quiet hq speaks =>
    obtain ⟨outs, heq, houts⟩ := speaks
    refine ⟨outs, heq, fun p hp => ?_⟩
    obtain ⟨src, dst, msg⟩ := p
    obtain ⟨_, hspeaks⟩ := houts _ hp
    dsimp only at hspeaks
    cases hspeaks with
    | entries peer leader =>
      have hrole : g.ballot.role v = .leading := by
        rw [← hb.role, hq.role, leader.resolve_right hfixed.holdsNoChange]
        rfl
      rcases getAppendEntriesForPeer_cases n.replication dst n.id n.storage with
        ⟨_, _, _, _, heq⟩ | heq <;> rw [heq]
      · trivial
      · show g.Known _ n.storage.currentTerm (g.ledger n.storage.currentTerm) _
        rw [← hq.stored, hb.stored, h.logs.inv.leading v hrole]
        exact hk
    | _ => trivial

/-! ### Moves -/

omit [StateMachine SM P] in
/-- **What a leader commits is chosen**: it holds its whole log itself. -/
theorem known_commit {entry : LogEntry P} {i : Nat} (hv : v ∈ d.members) (hid : n.id = v)
    (hfixed : FixedNode d n) (hcaught : n.AllCaughtUp) (hmatched : ∀ u ∈ d.members, ∀ m,
      n.replication.matchIndex.get u = some m → i ≤ m → i ≤ g.acked u n.currentTerm)
    (leader : n.role = .leader)
    (median : n.replication.matchIndex.computeMedian .testUtils n.storage.lastLogIndex n.config
      n.replication.catchingUpServers n.id = some i)
    (found : n.storage.getEntry i = some entry) (term : entry.term = n.storage.currentTerm)
    (hb : BallotNode g.ballot v n) (hl : FullLog n.storage (g.log v))
    (h : Streamed d front c g) :
    ∃ g', Replicated.Advances d.members.toFinset g g' ∧ Streamed d front c g' ∧
      g'.Known d.members.toFinset (g'.ballot.term v) (g'.log v) i := by
  have hrole : g.ballot.role v = .leading := by rw [← hb.role, leader]; rfl
  have hlead : g.ledger (g.ballot.term v) = g.log v := h.logs.inv.leading v hrole
  obtain ⟨hadv, hstr⟩ := h.ack (u := v) (m := (g.log v).length)
    (by rw [hlead]; exact Agree.refl _ _) (Nat.le_of_eq (by rw [hlead]))
  obtain ⟨hpos, _, hget⟩ := hl.of_getEntry found
  obtain ⟨Q, hQ, hacked⟩ := chosen_of_median (hid ▸ hv) hfixed hcaught
    (fun u hu m hm him => (hmatched u hu m hm him).trans (hadv.le.acked _ _)) median hpos (by
      rw [hl.lastLogIndex, hid, hb.currentTerm]
      simp [Replicated.ack])
  rw [hb.currentTerm] at hacked
  have hstart : (g.ack v (g.log v).length).start (g.ballot.term v) < i := by
    have hiff := hstr.sound.stamp_start (g.ballot.term v) (i - 1) entry
      (by rw [← hget]; exact congrArg (·[i - 1]?) hlead)
    rw [stamp_eq, term, hb.stored] at hiff
    omega
  refine ⟨_, hadv, hstr, Or.inr ⟨_, Nat.le_refl _, i, Nat.le_refl i, ⟨hstart, Q, hQ, hacked⟩, ?_⟩⟩
  show Agree i (g.log v) (g.ledger (g.ballot.term v))
  rw [hlead]
  exact Agree.refl _ _

omit [StateMachine SM P] in
/-- **What a node learns to be committed is chosen**: it has compared its whole log. -/
theorem known_learn (hi : g.Inv d.members.toFinset) (hl : FullLog n.storage (g.log v))
    (hb : BallotNode g.ballot v n) (hev : Delivered d g v ev) (hfits : FitsSnapshot n₀ ev)
    (hchecks : ChecksWhole n₀ ev) (h : Answers ev n₀ n) {lc : Nat}
    (hk : g.Known d.members.toFinset n.currentTerm (g.ledger n.currentTerm) lc) :
    g.Known d.members.toFinset (g.ballot.term v) (g.log v) (min lc n.storage.lastLogIndex) := by
  obtain ⟨hagree, _⟩ := agree_answered hi hl hb hev hfits hchecks h
  rw [hb.currentTerm] at hk
  rw [hl.lastLogIndex]
  exact hk.of_agree (hagree.mono (Nat.min_le_right _ _)) (Nat.min_le_left _ _)

omit [StateMachine SM P] in
/-- A consistent AppendEntries whose entries have been placed is answered. -/
theorem answers_of_placed {sender prev pt lc : Nat} {es : List (LogEntry P)}
    (asked : ev = .message sender (.appendEntries n₀.currentTerm prev pt es lc))
    (consistent : LogReplicationManager.checkLogConsistency prev pt n₀.storage = true)
    (placed : n = n₀.withStorage (n₀.storage.withLog (n₀.storage.placedLog prev es))) :
    Answers ev n₀ n := by
  have hterm : n.currentTerm = n₀.currentTerm := by rw [placed]; rfl
  refine ⟨sender, prev, pt, es, lc, by rw [hterm]; exact asked, hterm, consistent, ?_⟩
  rw [placed, InMemoryStorage.placeEntries_eq]
  rfl

omit [StateMachine SM P] in
/-- An entry of the part of a log that is known to be chosen. -/
theorem appliedChosen_of_getEntry {s : InMemoryStorage P} {l : List (LogEntry P)} {T k i : Nat}
    {entry : LogEntry P} (hl : FullLog s l) (hknown : g.Known d.members.toFinset T l k) (hle : i ≤ k)
    (hget : s.getEntry i = some entry) : AppliedChosen d g (i, entry) := by
  obtain ⟨hpos, _, hentry⟩ := hl.of_getEntry hget
  exact ⟨T, l, hknown.of_agree (Agree.refl i l) hle, hpos, hentry⟩

theorem committedNode_move {a : Action P} (hnone : (c.nodes v).storage.snapshot = none)
    (hafter : ((c.nodes v).onEvent .testUtils ev).storage.snapshot = none)
    (hh : Cluster.Handles d c a v ev c₀) (hn : Handling d c g v ev n)
    (hmove : Move .testUtils ev (c.nodes v) n n') (hs : n.storage.Shaped)
    (h : CommittedNode d g v n)
    (hpacket : ∀ sender msg, ev = .message sender msg → CommitPacket d g ⟨sender, v, msg⟩)
    (hi : g.Inv d.members.toFinset) (hadv : Replicated.Advances d.members.toFinset g g')
    (hstr : Streamed d front (c₀.withNode v n') g') :
    ∃ g'', Replicated.Advances d.members.toFinset g' g'' ∧
      Streamed d front (c₀.withNode v n') g'' ∧ CommittedNode d g'' v n' := by
  have hempty : ∀ m, n = c.nodes v → n.storage.snapshotMetadata ≠ some m := by
    intro m hsame
    simp [hsame, InMemoryStorage.snapshotMetadata, hnone]
  obtain ⟨g₁, hadv₁, hstr₁, hmatched⟩ :=
    matched_self (fun _ m _ hsame _ _ hstored _ => absurd hstored (hempty m hsame))
      (fun hne => hne hnone) hh hn hmove h.matched hadv hstr
  have hcaught := caughtUp_move hmove hn.fixed h.caughtUp
  have hold := h.advance (hadv.trans hadv₁) hi
  obtain ⟨hb, hl⟩ := hstr₁.logs.self hn.member
  have hsame : n'.replication.commitIndex = n.replication.commitIndex →
      n'.observer = n.observer → ∃ g'', Replicated.Advances d.members.toFinset g' g'' ∧
        Streamed d front (c₀.withNode v n') g'' ∧ CommittedNode d g'' v n' := by
    intro hcommit hobserver
    refine ⟨g₁, hadv₁, hstr₁, hmatched, hcaught, ?_, ?_⟩
    · rw [hcommit]
      exact hold.committed
    · rw [hobserver]
      exact hold.applied
  cases hmove.logCases hs with
  | quiet hq => exact hsame hq.commitIndex hq.observer
  | place | append | applyNone | compact => exact hsame rfl rfl
  | @learnCommit n sender prev pt es lc asked consistent placed =>
    have hterm : n.currentTerm = (c.nodes v).currentTerm := by rw [placed]; rfl
    have hanswers := answers_of_placed asked consistent placed
    have hle := hadv.le.trans hadv₁.le
    have hk := (hpacket _ _ asked).mono hle hi
    rw [← hterm] at hk
    exact ⟨g₁, hadv₁, hstr₁, hmatched, hcaught,
      known_learn hstr₁.logs.inv hl ⟨hb.1, hb.2, hb.3, hb.4⟩ (hn.delivered.mono hle) hn.fits
        hn.ends.checksWhole hanswers hk, hold.applied⟩
  | @applyEntry n entry below found =>
    refine ⟨g₁, hadv₁, hstr₁, hmatched, hcaught, hold.committed, fun x hx => ?_⟩
    rcases List.mem_append.mp hx with hx | hx
    · exact hold.applied x hx
    · rw [List.mem_singleton.mp hx]
      exact appliedChosen_of_getEntry hl hold.committed below found
  | @commit n entry newCommit leader median _ found term =>
    have hacked : ∀ u ∈ d.members, ∀ m, n.replication.matchIndex.get u = some m →
        newCommit ≤ m → newCommit ≤ g₁.acked u n.currentTerm := fun u hu m hm him =>
      him.trans ((hmatched leader u hu m hm).2.resolve_right fun hno => hno.1)
    obtain ⟨g₂, hadv₂, hstr₂, hk⟩ := known_commit hn.member hn.id hn.fixed h.caughtUp hacked
      leader median found term ⟨hb.1, hb.2, hb.3, hb.4⟩ hl hstr₁
    exact ⟨g₂, hadv₁.trans hadv₂, hstr₂, hmatched.mono hadv₂.le, hcaught, hk,
      fun x hx => (hold.applied x hx).mono hadv₂.le hstr₁.logs.inv⟩
  | @install n sender leaderId offset data x asked _ fits same fresh =>
    refine absurd hafter ?_
    rw [asked]
    exact installed_snapshot (completes_of_same hn.term same fits fresh).2

end

/-! ## Runs -/

/-- Fixed membership, no snapshot, links that keep the order of messages and deliver none twice. -/
def InOrderNoSnapshot (d : Deployment SM) (c : Cluster P SM) (a : Action P) : Prop :=
  SingleNoSnapshot d c a ∧ InOrder c a

instance (d : Deployment SM) (c : Cluster P SM) (a : Action P) :
    Decidable (InOrderNoSnapshot d c a) :=
  inferInstanceAs (Decidable (_ ∧ _))

/-- Moreover, a log that goes on beyond the entry checked accepts no AppendEntries without
entries. -/
def Comparing (d : Deployment SM) (c : Cluster P SM) (a : Action P) : Prop :=
  InOrderNoSnapshot d c a ∧ OnEvents d (fun c v => EndsAtChecked (c.nodes v)) c a

instance (d : Deployment SM) (c : Cluster P SM) (a : Action P) : Decidable (Comparing d c a) :=
  inferInstanceAs (Decidable (_ ∧ _))

/-- The state of a cluster without snapshots in which the answers hold. -/
structure Deciding (d : Deployment SM) (c : Cluster P SM) (g : Replicated NodeId (LogEntry P)) :
    Prop where
  streaming : Streaming d c g
  noSnapshot : ∀ v ∈ d.members, (c.nodes v).storage.snapshot = none
  committing : Committing d c g

section

variable {d : Deployment SM} {c c₀ c₁ c₂ : Cluster P SM} {g g' : Replicated NodeId (LogEntry P)}
  {a : Action P} {v w : NodeId} {n n' : TestNode P SM}

open RaftNode

theorem deciding_init (d : Deployment SM) :
    Deciding d (Cluster.init d : Cluster P SM) Replicated.init := by
  refine ⟨streaming_init d, fun _ _ => rfl, fun v _ => ⟨fun hr => (by cases hr), fun _ => rfl,
    Or.inl rfl, fun x hx => ?_⟩, fun p hp => ?_⟩
  · exact absurd hx List.not_mem_nil
  · exact absurd hp List.not_mem_nil

omit [StateMachine SM P] in
theorem committing_others (hadv : Replicated.Advances d.members.toFinset g g')
    (hi : g.Inv d.members.toFinset) (h : Committing d (c.withNode v n) g)
    (hv : CommittedNode d g' v n')
    (hsent : ∀ p ∈ (c.withNode v n').messageLog, CommitPacket d g' p) :
    Committing d (c.withNode v n') g' := by
  refine ⟨fun u hu => ?_, hsent⟩
  by_cases huv : u = v
  · subst huv
    rw [Cluster.withNode_nodes_self]
    exact ⟨hv.matched, hv.caughtUp, hv.committed, hv.applied⟩
  · have hold := (h.node u hu).advance hadv hi
    rw [Cluster.withNode_nodes_ne huv] at hold ⊢
    exact hold

theorem Committing.restart (h : Committing d c g) (hi : g.Inv d.members.toFinset) (v : NodeId) :
    Committing d { c with nodes := Function.update c.nodes v ((c.nodes v).restart d) }
      (g.rest v) := by
  have hle : Replicated.Le g (g.rest v) := Replicated.le_rest
  refine ⟨fun u hu => ?_, fun p hp => (h.sent p hp).mono hle hi⟩
  have hold := (h.node u hu).advance (Replicated.advances_of_log hle hi rfl) hi
  by_cases huv : u = v
  · subst huv
    simp only [Function.update_self]
    exact ⟨fun hr => (by cases hr), fun _ => rfl, Or.inl rfl, hold.applied⟩
  · simp only [Function.update_of_ne huv]
    exact hold

theorem Deciding.step (h : Deciding d c g) (hok : Comparing d c a) :
    ∃ g', Replicated.Advances d.members.toFinset g g' ∧ Deciding d (c.step d a) g' := by
  obtain ⟨⟨⟨hsingle, hnone⟩, horder⟩, hends⟩ := hok
  have hi := h.streaming.streamed.logs.inv
  have hplain : Plain d c g := ⟨h.streaming.replicating, h.streaming.unique, h.noSnapshot⟩
  suffices hstep : ∃ g', Replicated.Advances d.members.toFinset g g' ∧
      Streaming d (c.step d a) g' ∧ Committing d (c.step d a) g' by
    obtain ⟨g', hadv, hstr, hcom⟩ := hstep
    exact ⟨g', hadv, hstr, hnone, hcom⟩
  refine h.streaming.step ⟨⟨hsingle, horder⟩, hplain.fitsSnapshot hnone, hends⟩ h.committing
    (fun c₁ c₂ g hnodes hlog hX => ⟨fun u hu => ?_, fun p hp => ?_⟩) ?_ (h.committing.restart hi)
    fun millis => ⟨fun u hu => ?_, h.committing.sent⟩
  · rw [hnodes]
    exact hX.node u hu
  · rw [hlog] at hp
    exact hX.sent p hp
  · intro v ev c₀ n n' g₁ g₂ hh hn hmove hstr hX hadv hstr'
    have hself := hX.node v hn.member
    rw [Cluster.withNode_nodes_self] at hself
    have hi₁ := hstr.logs.inv
    have hpacket : ∀ sender msg, ev = .message sender msg →
        CommitPacket d g₁ ⟨sender, v, msg⟩ := by
      intro sender msg he
      refine hX.sent _ (List.mem_append_left _ ?_)
      rw [hh.messageLog]
      exact (hn.sent sender msg he).2
    obtain ⟨g₃, hadv', hstr₃, hv⟩ := committedNode_move (h.noSnapshot v hn.member)
      (hnone.onEvent hh.handled) hh hn hmove (hstr.logs.self hn.member).2.shaped
      ⟨hself.matched, hself.caughtUp, hself.committed, hself.applied⟩ hpacket hi₁ hadv hstr'
    have hall := hadv.trans hadv'
    have hknown := hall.known v _ hself.committed
    exact ⟨g₃, hadv', hstr₃, committing_others hall hi₁ hX hv
      (sent_move hn.member hn.fixed hmove hstr₃ hknown
        fun p hp => (hX.sent p hp).mono hall.le hi₁)⟩
  · have hold := h.committing.node u hu
    exact ⟨hold.matched, hold.caughtUp, hold.committed, hold.applied⟩

theorem Deciding.run (h : Run (Cluster.step d) (Comparing d) c₁ c₂) (h₁ : Deciding d c₁ g) :
    ∃ g', Replicated.Advances d.members.toFinset g g' ∧ Deciding d c₂ g' :=
  Run.simulate (Deciding d) (Replicated.Advances d.members.toFinset) Replicated.Advances.refl
    (fun _ _ _ => Replicated.Advances.trans) (fun _ _ _ hdec hok => hdec.step hok) h h₁

/-! ### Leaders and what was committed before or after them -/

/-- The leader `v` of a term commits further on an answer to an AppendEntries. -/
def CommitsOnAnswer (d : Deployment SM) (v : NodeId) (c : Cluster P SM) (a : Action P) : Prop :=
  (c.nodes v).role = .leader ∧
    (∃ x ∈ c.handled d a, x.1 = v ∧ x.2.isAppendEntriesResponse) ∧
    (c.nodes v).replication.commitIndex < ((c.step d a).nodes v).replication.commitIndex

omit [StateMachine SM P] in
/-- What a node has committed in its term is in the log of a leader of a later term, whichever of
the two moments comes first. -/
theorem Deciding.complete (h₁ : Deciding d c₁ g) (h₂ : Deciding d c₂ g') (hv : v ∈ d.members)
    (hw : w ∈ d.members) (hle : Replicated.Le g g' ∨ Replicated.Le g' g)
    (hlead : (c₂.nodes w).role = .leader)
    (hterm : (c₁.nodes v).currentTerm < (c₂.nodes w).currentTerm) :
    Agree (c₁.nodes v).replication.commitIndex (g'.log w) (g.log v) := by
  have hi := h₁.streaming.streamed.logs.inv
  have hi' := h₂.streaming.streamed.logs.inv
  have hknown := (h₁.committing.node v hv).committed
  rw [(h₁.streaming.streamed.logs.elections.node v hv).currentTerm] at hterm
  obtain ⟨hleader, hledger⟩ := h₂.streaming.streamed.logs.leads hw hlead
  rw [← hledger]
  rcases hle with hle | hle
  · exact ((hknown.mono hle hi (Nat.le_refl _)).later hi' h₂.streaming.streamed.sound hterm
      hleader).2
  · -- the ledger of the later term already had what was committed afterwards
    obtain ⟨hstart, hagree⟩ :=
      hknown.later hi h₁.streaming.streamed.sound hterm (hle.ballot.leader _ _ hleader)
    rw [hle.start _ _ hleader] at hstart
    exact (agree_of_isPrefix (hle.ledger _) (hstart.trans (hi'.start_le _))).trans hagree

/-- A leader that commits on an answer stays in its term. -/
theorem CommitsOnAnswer.currentTerm (h : CommitsOnAnswer d v c a) :
    v ∈ d.members ∧ ((c.step d a).nodes v).currentTerm = (c.nodes v).currentTerm := by
  obtain ⟨_, ⟨⟨u, ev⟩, hev, rfl, hanswer⟩, hraised⟩ := h
  obtain ⟨c₀, hh, hstep⟩ := Cluster.handles_of_handled hev
  rw [hstep, Cluster.dispatch, Cluster.withNode_nodes_self, hh.nodes] at hraised ⊢
  refine ⟨hh.member, ?_⟩
  obtain ⟨sender, term, success, m, rfl⟩ :
      ∃ sender term success m, ev = .message sender (.appendEntriesResponse term success m) := by
    cases ev with
    | message sender msg =>
      cases msg with
      | appendEntriesResponse term success m => exact ⟨sender, term, success, m, rfl⟩
      | _ => exact hanswer.elim
    | _ => exact hanswer.elim
  change (c.nodes u).replication.commitIndex <
    ((c.nodes u).handleAppendEntriesResponse .testUtils sender term success
      m).replication.commitIndex at hraised
  show ((c.nodes u).handleAppendEntriesResponse .testUtils sender term success m).currentTerm = _
  unfold handleAppendEntriesResponse at hraised ⊢
  split
  · rename_i hgt
    rw [if_pos hgt] at hraised
    exact absurd hraised (Nat.lt_irrefl _)
  · split
    · unfold recordAppendEntriesResponse
      dsimp only
      split
      · split <;> rfl
      · rfl
    · rfl

/-- **Leader completeness.**  Whenever in a run a leader commits on an answer, every node that
leads a later term, before or after that moment, holds the leader's entries up to the new commit
index, as long as no log that goes on beyond the entry checked accepts an AppendEntries without
entries. -/
theorem leader_completeness {actions before after now : List (Action P)}
    (h : Admitted (Cluster.step d) (Comparing d) (Cluster.init d) actions)
    (hsplit : actions = before ++ a :: after)
    (hcommit : CommitsOnAnswer d v (Cluster.play d before : Cluster P SM) a)
    (hnow : now <+: actions) (hw : w ∈ d.members)
    (hlead : ((Cluster.play d now : Cluster P SM).nodes w).role = .leader)
    (hterm : ((Cluster.play d before : Cluster P SM).nodes v).currentTerm <
      ((Cluster.play d now : Cluster P SM).nodes w).currentTerm) :
    let c := (Cluster.play d before : Cluster P SM).step d a
    ∀ i, 1 ≤ i → i ≤ (c.nodes v).replication.commitIndex →
      ∃ e, (c.nodes v).storage.getEntry i = some e ∧
        ((Cluster.play d now : Cluster P SM).nodes w).storage.getEntry i = some e := by
  intro c i hpos hi
  obtain ⟨hv, hsame⟩ := hcommit.currentTerm
  have hc : c = Cluster.play d (before ++ [a]) := by
    unfold Cluster.play
    rw [List.foldl_append]
    rfl
  have hhere : before ++ [a] <+: actions := ⟨after, by rw [hsplit, List.append_assoc]; rfl⟩
  -- the two moments, of which one comes first
  have hmoments : ∀ {xs ys : List (Action P)}, xs <+: ys → ys <+: actions →
      ∃ g g', Replicated.Le g g' ∧ Deciding d (Cluster.play d xs : Cluster P SM) g ∧
        Deciding d (Cluster.play d ys : Cluster P SM) g' := by
    rintro xs _ ⟨zs, rfl⟩ ⟨rest, rfl⟩
    obtain ⟨hxs, hzs⟩ := Admitted.append.mp (Admitted.append.mp h).1
    obtain ⟨g, _, hdec⟩ := Deciding.run (hxs.run xs) (deciding_init d)
    obtain ⟨g', hadv, hdec'⟩ := Deciding.run (hzs.run zs) hdec
    rw [← List.foldl_append] at hdec'
    exact ⟨g, g', hadv.le, hdec, hdec'⟩
  obtain ⟨g, g', hle, hdec, hdec'⟩ : ∃ g g', (Replicated.Le g g' ∨ Replicated.Le g' g) ∧
      Deciding d c g ∧ Deciding d (Cluster.play d now) g' := by
    rw [hc]
    rcases List.prefix_or_prefix_of_prefix hhere hnow with hle | hle
    · obtain ⟨g, g', hgg, hdec, hdec'⟩ := hmoments hle hnow
      exact ⟨g, g', Or.inl hgg, hdec, hdec'⟩
    · obtain ⟨g, g', hgg, hdec, hdec'⟩ := hmoments hle hhere
      exact ⟨g', g, Or.inr hgg, hdec', hdec⟩
  have hagree := hdec.complete hdec' hv hw hle hlead (by rw [hsame]; exact hterm)
  have hlen := (hdec.committing.node v hv).committed.le_length hdec.streaming.streamed.logs.inv
  have hlt : i - 1 < (g.log v).length := by omega
  refine ⟨(g.log v)[i - 1], ?_, ?_⟩
  · rw [(hdec.streaming.streamed.logs.node v hv).getEntry_eq (hdec.noSnapshot v hv),
      if_neg (by omega)]
    exact List.getElem?_eq_getElem hlt
  · rw [(hdec'.streaming.streamed.logs.node w hw).getEntry_eq (hdec'.noSnapshot w hw),
      if_neg (by omega), hagree.getElem? (by omega)]
    exact List.getElem?_eq_getElem hlt

end

/-- Leader 1 of three is about to learn that node 2 has its entry. -/
def agreedRun : List (Action UInt8) :=
  [.timer 1 .election, .deliver 0, .deliver 1, .deliver 1, .deliver 2, .client 1 10, .deliver 2,
    .deliver 3, .deliver 4]

/-- Leader 1 commits its entry, and node 2, which has acknowledged it, leads next. -/
theorem leader_completeness_trio :
    let c₁ : Cluster UInt8 Adder := (Cluster.play trio agreedRun).step trio (.deliver 4)
    let c₂ : Cluster UInt8 Adder := Cluster.play trio (agreedRun ++ [.deliver 4, .timer 2 .election,
      .deliver 5, .deliver 5, .deliver 6, .deliver 6])
    (c₁.nodes 1).replication.commitIndex = 1 ∧ (c₂.nodes 2).role = .leader ∧
      ∃ e, (c₁.nodes 1).storage.getEntry 1 = some e ∧ (c₂.nodes 2).storage.getEntry 1 = some e := by
  intro c₁ c₂
  have hlead : (c₂.nodes 2).role = .leader := by decide +kernel
  refine ⟨by decide +kernel, hlead, ?_⟩
  exact leader_completeness (d := trio) (v := 1) (w := 2) (by decide +kernel)
    (rfl : _ = agreedRun ++ .deliver 4 :: [.timer 2 .election, .deliver 5, .deliver 5, .deliver 6,
      .deliver 6])
    ⟨by decide +kernel, by decide +kernel, by decide +kernel⟩ (List.prefix_refl _) (by decide)
    hlead (by decide +kernel) 1 (Nat.le_refl 1) (by decide +kernel)

/-- Leader 2 of term 2, whose log was empty, is about to learn from node 1, which has an entry of
term 1, that their logs match as far as that entry reaches. -/
def falseMatchRun : List (Action UInt8) :=
  [.timer 1 .election, .deliver 0, .deliver 1, .deliver 1, .deliver 2, .client 1 10,
    .timer 2 .election, .lose 0, .lose 0, .lose 1, .lose 2, .deliver 3, .deliver 3, .deliver 4,
    .deliver 4, .lose 2, .lose 2, .deliver 2, .timer 2 .heartbeat, .deliver 3, .client 2 20,
    .lose 0, .lose 0]

/-- The leader commits its only entry, which nobody else has; node 1 leads next. -/
theorem committed_entry_missing :
    ¬ ∀ (actions before after now : List (Action UInt8)) (a : Action UInt8) (v w : NodeId),
      Admitted (Cluster.step trio) (InOrderNoSnapshot trio) (Cluster.init trio) actions →
      actions = before ++ a :: after →
      CommitsOnAnswer trio v (Cluster.play trio before : Cluster UInt8 Adder) a →
      now <+: actions → w ∈ trio.members →
      ((Cluster.play trio now : Cluster UInt8 Adder).nodes w).role = .leader →
      ((Cluster.play trio before : Cluster UInt8 Adder).nodes v).currentTerm <
        ((Cluster.play trio now : Cluster UInt8 Adder).nodes w).currentTerm →
      let c := (Cluster.play trio before : Cluster UInt8 Adder).step trio a
      ∀ i, 1 ≤ i → i ≤ (c.nodes v).replication.commitIndex →
        ∃ e, (c.nodes v).storage.getEntry i = some e ∧
          ((Cluster.play trio now : Cluster UInt8 Adder).nodes w).storage.getEntry i = some e := by
  intro h
  obtain ⟨e, he, he'⟩ := h (falseMatchRun ++ .deliver 2 :: [.timer 1 .election, .deliver 5,
    .deliver 5, .deliver 6, .deliver 6]) falseMatchRun _ _ _ 2 1 (by decide +kernel) rfl
    ⟨by decide +kernel, by decide +kernel, by decide +kernel⟩ (List.prefix_refl _) (by decide)
    (by decide +kernel) (by decide +kernel) 1 (Nat.le_refl 1) (by decide +kernel)
  have hne : (((Cluster.play trio falseMatchRun : Cluster UInt8 Adder).step trio
      (.deliver 2)).nodes 2).storage.getEntry 1 ≠
    ((Cluster.play trio (falseMatchRun ++ .deliver 2 :: [.timer 1 .election, .deliver 5, .deliver 5,
      .deliver 6, .deliver 6]) : Cluster UInt8 Adder).nodes 1).storage.getEntry 1 := by
    decide +kernel
  exact hne (he.trans he'.symm)

section

variable {d : Deployment SM} {c : Cluster P SM} {v w : NodeId}

/-- **Applied entries agree.**  Whatever two nodes have applied for an index since the start of
the run, restarts included, is the same entry, as long as no log that goes on beyond the entry
checked accepts an AppendEntries without entries. -/
theorem state_machine_safety (h : Reachable d (Comparing d) c) (hv : v ∈ d.members)
    (hw : w ∈ d.members) {i : Nat} {e e' : LogEntry P} (he : (i, e) ∈ (c.nodes v).observer.applied)
    (he' : (i, e') ∈ (c.nodes w).observer.applied) : e = e' := by
  obtain ⟨g, _, hdec⟩ := Deciding.run h (deciding_init d)
  exact ((hdec.committing.node v hv).applied _ he).eq ((hdec.committing.node w hw).applied _ he')
    hdec.streaming.streamed.logs.inv hdec.streaming.streamed.sound

end

/-- Leader 1 and node 2 have both applied the first entry. -/
theorem state_machine_safety_trio :
    let c : Cluster UInt8 Adder :=
      Cluster.play trio (agreedRun ++ [.deliver 4, .timer 1 .heartbeat, .deliver 4])
    (1, ⟨1, .command 10⟩) ∈ (c.nodes 2).observer.applied ∧
      ∀ e, (1, e) ∈ (c.nodes 1).observer.applied → e = ⟨1, .command 10⟩ := by
  intro c
  have happlied : (1, ⟨1, .command 10⟩) ∈ (c.nodes 2).observer.applied := by decide +kernel
  exact ⟨happlied, fun e he => state_machine_safety (d := trio) (v := 1) (w := 2)
    (play_reachable _ (by decide +kernel)) (by decide) (by decide) he happlied⟩

/-- Node 2 has applied its own entry, and node 1, which leads next, another one. -/
theorem false_match_applied :
    ¬ ∀ c : Cluster UInt8 Adder, Reachable trio (InOrderNoSnapshot trio) c →
      ∀ v ∈ trio.members, ∀ w ∈ trio.members, ∀ (i : Nat) (e e' : LogEntry UInt8),
        (i, e) ∈ (c.nodes v).observer.applied → (i, e') ∈ (c.nodes w).observer.applied →
        e = e' := by
  intro h
  have heq := h _ (play_reachable (falseMatchRun ++ .deliver 2 :: [.timer 1 .election, .deliver 5,
    .deliver 5, .deliver 6, .deliver 6, .client 1 30, .deliver 7, .deliver 9, .timer 1 .heartbeat,
    .deliver 8, .deliver 9, .lose 9, .deliver 9]) (by decide +kernel)) 1 (by decide) 2 (by decide) 1
    ⟨1, .command 10⟩ ⟨2, .command 20⟩ (by decide +kernel) (by decide +kernel)
  cases heq

end MetalRaft
