import MetalRaft.Decided
import MetalRaft.Replay

/-!
# Answers to snapshots

An InstallSnapshotResponse does not say which snapshot it answers, and the leader records its
present one.  Whoever answers has installed the snapshot that it was sent, so what is recorded
holds where the leader's snapshot is still that one, or where the peer has come to reach it.

* `SnapshotStands` — the condition, on the messages sent and the state before the answer.
* `Reported` — a successful answer comes from a node whose snapshot reaches as far as one sent.
* `match_index_sound` — the statement about runs: what is recorded at one moment holds at every
  later one of the same leadership.
* `match_index_beyond_log` — what goes wrong when a heartbeat meets a log that is longer than the
  leader's.
-/

set_option autoImplicit false

namespace MetalRaft

open Transition Voting

variable {P SM : Type} [StateMachine SM P]

/-! ## The condition -/

/-- The packet, if it is a snapshot sent by `v` to `u` in term `T`, ends at index `k` or beyond. -/
def Packet.EndsBeyond (v u : NodeId) (T k : Nat) (p : Packet P) : Prop :=
  match p.msg with
  | .installSnapshot T' _ i _ _ _ _ => p.src = v → p.dst = u → T' = T → k ≤ i
  | _ => True

instance (v u : NodeId) (T k : Nat) (p : Packet P) : Decidable (p.EndsBeyond v u T k) := by
  unfold Packet.EndsBeyond
  split <;> infer_instance

/-- The peer's own snapshot reaches as far as `m`, or its log (or the end of its snapshot) has the
entry at which `m` ends. -/
def Reaches (s : InMemoryStorage P) (m : SnapshotMetadata) : Prop :=
  m.lastIncludedIndex ≤ s.snapIndex ∨
    LogReplicationManager.checkLogConsistency m.lastIncludedIndex m.lastIncludedTerm s = true

instance (s : InMemoryStorage P) (m : SnapshotMetadata) : Decidable (Reaches s m) :=
  inferInstanceAs (Decidable (_ ∨ _))

/-- If the event is an answer to a snapshot that the leader takes up, from a member which is still
in the leader's term, then `A` holds of the member and the leader's snapshot. -/
def OnSnapshotAnswer (A : Cluster P SM → NodeId → NodeId → SnapshotMetadata → Prop)
    (c : Cluster P SM) (v : NodeId) : Event P → Prop
  | .message sender (.installSnapshotResponse T success) =>
    success = true → T = (c.nodes v).currentTerm → (c.nodes v).role = .leader →
      (c.nodes sender).currentTerm = T → ∀ m ∈ (c.nodes v).storage.snapshotMetadata, A c v sender m
  | _ => True

instance (A : Cluster P SM → NodeId → NodeId → SnapshotMetadata → Prop)
    [∀ c v u m, Decidable (A c v u m)] (c : Cluster P SM) (v : NodeId) :
    (ev : Event P) → Decidable (OnSnapshotAnswer A c v ev)
  | .message sender (.installSnapshotResponse T success) => inferInstanceAs (Decidable
      (success = true → T = (c.nodes v).currentTerm → (c.nodes v).role = .leader →
        (c.nodes sender).currentTerm = T →
        ∀ m ∈ (c.nodes v).storage.snapshotMetadata, A c v sender m))
  | .message _ (.requestVote _ _ _ _) | .message _ (.requestVoteResponse _ _)
  | .message _ (.preVoteRequest _ _ _ _) | .message _ (.preVoteResponse _ _)
  | .message _ (.appendEntries _ _ _ _ _) | .message _ (.appendEntriesResponse _ _ _)
  | .message _ (.installSnapshot _ _ _ _ _ _ _)
  | .timerFired _ | .clientCommand _ | .configChange _ => isTrue trivial

/-- The leader's snapshot is no further than those it has sent the member in its term, or the member
reaches it all the same. -/
def SnapshotStands : Cluster P SM → NodeId → Event P → Prop :=
  OnSnapshotAnswer fun c v u m =>
    (∀ p ∈ c.messageLog, p.EndsBeyond v u (c.nodes v).currentTerm m.lastIncludedIndex) ∨
      Reaches (c.nodes u).storage m

instance (c : Cluster P SM) (v : NodeId) (ev : Event P) : Decidable (SnapshotStands c v ev) :=
  inferInstanceAs (Decidable (OnSnapshotAnswer _ c v ev))

/-- The member reaches the leader's snapshot. -/
def SnapshotReached : Cluster P SM → NodeId → Event P → Prop :=
  OnSnapshotAnswer fun c _ u m => Reaches (c.nodes u).storage m

/-- An orderly run in which the answers to snapshots are recorded only where the leader's snapshot
has not moved on, or the member reaches it. -/
def SoundAnswers (d : Deployment SM) (c : Cluster P SM) (a : Action P) : Prop :=
  Orderly d c a ∧ OnEvents d SnapshotStands c a

instance (d : Deployment SM) (c : Cluster P SM) (a : Action P) : Decidable (SoundAnswers d c a) :=
  inferInstanceAs (Decidable (_ ∧ _))

/-! ## What an answer tells -/

/-- The bytes fit into one chunk. -/
def OneChunk (_ : Nat) (data : List UInt8) : Prop := data.length ≤ usizeMax

structure StoresSmall (n : TestNode P SM) : Prop where
  shaped : n.storage.Shaped
  small : ∀ x, n.storage.snapshot = some x → OneChunk x.metadata.lastIncludedIndex x.data

/-- Every snapshot, stored or sent, is one chunk. -/
def SmallSnapshots (d : Deployment SM) : Cluster P SM → Prop :=
  LocalInv d (fun _ => StoresSmall) (Brings OneChunk)

/-- A successful answer comes from a node whose own snapshot reaches as far as one that it was sent
in the term of the answer. -/
def Reported (c : Cluster P SM) : Prop :=
  ∀ p ∈ c.messageLog, ∀ T, p.msg = .installSnapshotResponse T true →
    ∃ leaderId i t offset data done,
      ⟨p.dst, p.src, .installSnapshot T leaderId i t offset data done⟩ ∈ c.messageLog ∧
        i ≤ (c.nodes p.src).storage.snapIndex

section

open RaftNode

variable {d : Deployment SM} {c : Cluster P SM} {a : Action P} {v : NodeId} {ev : Event P}
  {n₀ n n' : TestNode P SM}

theorem storesSmall_move
    (hev : ∀ sender msg, ev = .message sender msg → Brings OneChunk ⟨sender, v, msg⟩)
    (hmove : Move .testUtils ev n₀ n n') (h : StoresSmall n) : StoresSmall n' := by
  refine ⟨shaped_move hmove h.shaped, fun x hx => ?_⟩
  cases hmove.logCases h.shaped with
  | quiet hq => exact h.small x (hq.sameLog.snapshot ▸ hx)
  | place | append | applyNone | applyEntry | commit | learnCommit => exact h.small x hx
  | compact =>
    cases hx
    exact StateMachine.createSnapshot_length _
  | install asked data =>
    obtain ⟨rfl, _, hsmall⟩ := hev _ _ asked
    cases hx
    unfold OneChunk
    rw [data]
    exact hsmall

theorem brings_move (hmove : Move .testUtils ev n₀ n n') (h : StoresSmall n)
    (hout : ∀ p ∈ n.outbox, Brings OneChunk p) : ∀ p ∈ n'.outbox, Brings OneChunk p := by
  obtain ⟨outs, heq, hall⟩ := hmove.outbox
  rw [heq]
  intro p hp
  rcases List.mem_append.mp hp with hp | hp
  · exact hout p hp
  · obtain ⟨src, dst, msg⟩ := p
    obtain ⟨_, hcases⟩ := hall _ hp
    dsimp only at hcases
    rcases hcases with hspeaks | ⟨_, _, _, rfl⟩ | ⟨_, _, _, _, rfl⟩
    · cases hspeaks with
      | entries => exact brings_entries (fun _ _ => id) n.replication src dst n.id h.small
      | _ => trivial
    · trivial
    · trivial

theorem smallSnapshots_step (hs : Settled c) (h : SmallSnapshots d c) :
    SmallSnapshots d (c.step d a) := by
  refine LocalInv.step h hs ?_ (fun _ _ hn => ⟨hn.shaped, hn.small⟩)
    (fun _ _ _ hn => ⟨hn.shaped, hn.small⟩) fun _ _ _ hn => ⟨hn.shaped, hn.small⟩
  intro v _ ev _ hlog n n' _ _ hmove hn hout
  exact ⟨storesSmall_move (fun sender msg he => h.sent _ (hlog sender msg he)) hmove hn,
    brings_move hmove hn hout⟩

/-- A node never loses its snapshot, nor goes back to an earlier one. -/
theorem snapIndex_onEvent (hs : n.storage.Shaped) (ev : Event P) :
    n.storage.snapIndex ≤ (n.onEvent .testUtils ev).storage.snapIndex := by
  have hmoves := onEvent_moves .testUtils n ev
  generalize n.onEvent .testUtils ev = n' at hmoves
  suffices hall : n'.storage.Shaped ∧ n.storage.snapIndex ≤ n'.storage.snapIndex from hall.2
  induction hmoves with
  | refl => exact ⟨hs, Nat.le_refl _⟩
  | tail _ hlast ih => exact ⟨shaped_move hlast ih.1, ih.2.trans (snapIndex_move hlast ih.1)⟩

theorem snapIndex_step (h : SmallSnapshots d c) (u : NodeId) :
    (c.nodes u).storage.snapIndex ≤ ((c.step d a).nodes u).storage.snapIndex := by
  have hnode := Cluster.node_cases d c a u
  generalize (c.step d a).nodes u = n at hnode ⊢
  cases hnode with
  | handles handled =>
    obtain ⟨_, hh, _⟩ := Cluster.handles_of_handled handled
    exact snapIndex_onEvent (h.node u hh.member).shaped _
  | stays | restarts | ages => exact Nat.le_refl _

omit [StateMachine SM P] in
theorem entries_ne_answer (r : LogReplicationManager) (peer leaderId : NodeId)
    (s : InMemoryStorage P) (T : Nat) (success : Bool) :
    r.getAppendEntriesForPeer peer leaderId s ≠ .installSnapshotResponse T success := by
  rcases getAppendEntriesForPeer_cases r peer leaderId s with ⟨_, _, _, _, heq⟩ | heq <;> rw [heq]
  · exact fun h => nomatch h
  · unfold LogReplicationManager.getAppendEntriesForFollower
    exact fun h => nomatch h

/-- Only an InstallSnapshot is answered with an InstallSnapshotResponse. -/
theorem asked_of_answer {p : Packet P} {T : Nat} {success : Bool} (hsilent : n.transport = [])
    (hp : p ∈ (n.onEvent .testUtils ev).outbox)
    (hmsg : p.msg = .installSnapshotResponse T success) :
    ∃ T leaderId i t offset data done,
      ev = .message p.dst (.installSnapshot T leaderId i t offset data done) := by
  have hmoves := onEvent_moves .testUtils n ev
  generalize n.onEvent .testUtils ev = n' at hmoves hp
  induction hmoves with
  | refl => simp [outbox, hsilent] at hp
  | @tail n₁ _ _ hlast ih =>
    obtain ⟨outs, heq, hall⟩ := hlast.outbox
    rw [heq] at hp
    rcases List.mem_append.mp hp with hp | hp
    · exact ih hp
    · obtain ⟨_, hcases⟩ := hall _ hp
      rw [hmsg] at hcases
      rcases hcases with hspeaks | ⟨_, _, _, heq⟩ | ⟨_, _, _, _, heq⟩
      · generalize hanswer : RaftMsg.installSnapshotResponse T success = msg at hspeaks
        cases hspeaks with
        | chunkResponse asked => exact ⟨_, _, _, _, _, _, _, asked⟩
        | entries => exact absurd hanswer.symm (entries_ne_answer _ _ _ _ _ _)
        | _ => cases hanswer
      · cases heq
      · cases heq

/-- **Whoever answers has installed what it was sent.** -/
theorem reported_step (hs : Settled c) (hsmall : SmallSnapshots d c) (h : Reported c) :
    Reported (c.step d a) := by
  intro p hp T hT
  rcases Cluster.sent_cases hp with hold | ⟨v, ev, hhandled, hnew⟩
  · obtain ⟨leaderId, i, t, offset, data, done, hsent, hle⟩ := h p hold T hT
    exact ⟨leaderId, i, t, offset, data, done, Cluster.messageLog_subset d c a hsent,
      hle.trans (snapIndex_step hsmall p.src)⟩
  · obtain ⟨_, hh, _⟩ := Cluster.handles_of_handled hhandled
    obtain ⟨T', leaderId, i, t, offset, data, done, rfl⟩ := asked_of_answer (hs v).2 hnew hT
    have hasked := hsmall.inFlight _ hh.delivered
    obtain ⟨rfl, rfl, -⟩ := hsmall.sent _ hasked
    have hsilent : (c.nodes v).outbox = [] := by simp [outbox, (hs v).2]
    rcases onEvent_installSnapshot p.dst leaderId T' i t data (hsmall.node v hh.member).shaped with
      ⟨⟨_, hout⟩, -⟩ | ⟨hout, -, -, -, hstored⟩ <;>
      rw [hout, hsilent, List.nil_append, List.mem_singleton] at hnew
    · rw [hnew] at hT
      cases hT
    · have hsrc : p.src = v := by
        rw [hnew]
        exact (hs v).1
      rw [hnew] at hT
      cases hT
      refine ⟨leaderId, i, t, 0, data, true, hsrc ▸ Cluster.messageLog_subset d c a hasked, ?_⟩
      rw [hsrc, Cluster.step_of_handled hhandled]
      unfold InMemoryStorage.snapIndex
      rw [hstored]
      exact Nat.le_refl _

/-- What is known of snapshots and of the answers to them. -/
structure Answering (d : Deployment SM) (c : Cluster P SM) : Prop where
  settled : Settled c
  small : SmallSnapshots d c
  reported : Reported c

theorem answering_init (d : Deployment SM) : Answering d (Cluster.init d : Cluster P SM) := by
  refine ⟨fun _ => ⟨rfl, rfl⟩, ⟨fun _ _ => ⟨rfl, fun _ h => by cases h⟩, ?_, ?_⟩, ?_⟩ <;>
    simp [Cluster.init, Reported]

theorem answering_step (h : Answering d c) (a : Action P) : Answering d (c.step d a) :=
  ⟨settled_step h.settled a, smallSnapshots_step h.settled h.small,
    reported_step h.settled h.small h.reported⟩

omit [StateMachine SM P] in
/-- **Where the leader's snapshot stands, the member that answers reaches it.** -/
theorem SnapshotStands.reached (h : Answering d c)
    (hsent : ∀ sender msg, ev = .message sender msg → ⟨sender, v, msg⟩ ∈ c.messageLog)
    (hstands : SnapshotStands c v ev) : SnapshotReached c v ev := by
  cases ev with
  | message sender msg =>
    cases msg with
    | installSnapshotResponse T success =>
      intro hsuccess hT hrole hterm m hm
      rcases hstands hsuccess hT hrole hterm m hm with hbeyond | hreaches
      · subst hsuccess hT
        obtain ⟨_, i, _, _, _, _, hasked, hle⟩ := h.reported _ (hsent _ _ rfl) _ rfl
        exact Or.inl ((hbeyond _ hasked rfl rfl rfl).trans hle)
      · exact hreaches
    | _ => trivial
  | _ => trivial

/-! ## Runs -/

variable {g g' : Replicated NodeId (LogEntry P)}

omit [StateMachine SM P] in
theorem agree_of_checked {u : NodeId} {m : SnapshotMetadata} (hi : g.Inv d.members.toFinset)
    {s s' : InMemoryStorage P} (hl : FullLog s (g.log v)) (hl' : FullLog s' (g.log u))
    (hstored : s.snapshotMetadata = some m)
    (hheld : LogReplicationManager.checkLogConsistency m.lastIncludedIndex m.lastIncludedTerm s' =
      true) : Agree m.lastIncludedIndex (g.log u) (g.log v) := by
  obtain ⟨hpos, e, he, hterm⟩ := hl.boundary m hstored
  obtain ⟨_, h0 | ⟨e', he', hterm'⟩⟩ := hl'.consistent hheld
  · omega
  · refine ((hi.log u).matching (hi.log v) he' he (hterm'.trans hterm.symm)).mono ?_
    omega

omit [StateMachine SM P] in
/-- A member that reaches the leader's snapshot holds what it covers: both snapshots are of chosen
entries. -/
theorem agree_of_reaches {u : NodeId} {m : SnapshotMetadata} (hi : g.Inv d.members.toFinset)
    (hsound : g.Sound d.members.toFinset) {s s' : InMemoryStorage P}
    (hl : FullLog s (g.log v)) (hl' : FullLog s' (g.log u))
    (hk : g.Known d.members.toFinset (g.ballot.term v) (g.log v) s.snapIndex)
    (hk' : g.Known d.members.toFinset (g.ballot.term u) (g.log u) s'.snapIndex)
    (hstored : s.snapshotMetadata = some m) (hreaches : Reaches s' m) :
    Agree m.lastIncludedIndex (g.log u) (g.log v) := by
  rcases hreaches with hle | hheld
  · refine (hk'.agree hk hi hsound).mono (Nat.le_min.mpr ⟨hle, ?_⟩)
    exact (FullLog.snapIndex_of_metadata hstored).ge
  · exact agree_of_checked hi hl hl' hstored hheld

/-- An orderly run in which whoever answers a snapshot reaches what is recorded of it. -/
def ReachedAnswers (d : Deployment SM) (c : Cluster P SM) (a : Action P) : Prop :=
  Orderly d c a ∧ OnEvents d SnapshotReached c a

/-- Soundly recorded, and decided. -/
structure Recorded (d : Deployment SM) (c : Cluster P SM) (g : Replicated NodeId (LogEntry P)) :
    Prop where
  matched : AllMatched d True c g
  decided : AllDecided d c g

theorem recorded_step (hok : ReachedAnswers d c a) (h : Streaming d c g) (hr : Recorded d c g) :
    ∃ g', Replicated.Advances d.members.toFinset g g' ∧ Streaming d (c.step d a) g' ∧
      Recorded d (c.step d a) g' := by
  have hi := h.streamed.logs.inv
  refine h.step hok.1 hr (fun c₁ c₂ g hnodes hlog hX => ⟨fun u hu => ?_,
    hX.decided.of_nodes hnodes hlog⟩) ?_ (fun v => ⟨hr.matched.restart v, hr.decided.restart hi v⟩)
    fun millis => ⟨fun u hu => hr.matched u hu, hr.decided.advance millis⟩
  · rw [hnodes]
    exact hX.matched u hu
  · intro v ev c₀ n n' g₁ g₂ hh hn hmove hstr hX hadv hstr'
    have hself := hX.matched v hn.member
    rw [Cluster.withNode_nodes_self] at hself
    have hheld : ∀ sender m, ev = .message sender (.installSnapshotResponse n.currentTerm true) →
        n = c.nodes v → n.role = .leader → (c.nodes sender).currentTerm = n.currentTerm →
        n.storage.snapshotMetadata = some m → FullLog n.storage (g₂.log v) →
        Agree m.lastIncludedIndex (g₂.log sender) (g₂.log v) := by
      intro sender m answer hfirst hrole hterm hstored hl
      have hsender := (hn.sent _ _ answer).1
      have hne : sender ≠ v := (hn.delivered.sound _ _ answer).1
      -- both snapshots are of chosen entries
      have hv := (hX.decided.node v hn.member).advance hadv hstr.logs.inv
      have hu := (hX.decided.node sender hsender).advance hadv hstr.logs.inv
      have hl' := hstr'.logs.node sender hsender
      rw [Cluster.withNode_nodes_self] at hv
      rw [Cluster.withNode_nodes_ne hne, hh.nodes] at hu hl'
      have hreaches := hok.2 v ev hh.handled
      rw [answer] at hreaches
      subst hfirst
      exact agree_of_reaches hstr'.logs.inv hstr'.sound hl hl' hv.compacted hu.compacted hstored
        (hreaches rfl rfl hrole hterm m hstored)
    obtain ⟨g₃, hadv₃, hstr₃, hv⟩ :=
      matched_self hheld (fun _ => trivial) hh hn hmove hself hadv hstr'
    have hlog : ∀ sender msg, ev = .message sender msg →
        ⟨sender, v, msg⟩ ∈ (c₀.withNode v n).messageLog := fun sender msg he => by
      rw [Cluster.withNode_messageLog, hh.messageLog]
      exact List.mem_append_left _ (hn.sent sender msg he).2
    obtain ⟨g₄, hadv₄, hstr₄, hdecided⟩ :=
      allDecided_move hn.attending hmove hstr hlog hX.decided (hadv.trans hadv₃) hstr₃
    have hall := (hadv.trans hadv₃).trans hadv₄
    exact ⟨g₄, hadv₃.trans hadv₄, hstr₄,
      matched_others hall.le hX.matched (hv.mono hadv₄.le), hdecided⟩

/-- Along a run the answers to snapshots come from members that reach what is recorded. -/
theorem reachedAnswers_of_run {c' : Cluster P SM} (hI : Answering d c)
    (h : Run (Cluster.step d) (SoundAnswers d) c c') :
    Run (Cluster.step d) (ReachedAnswers d) c c' ∧ Answering d c' := by
  refine h.strengthen (fun _ a hI _ => answering_step hI a) (fun s a hI hok => ⟨hok.1, ?_⟩) hI
  intro v ev hhandled
  obtain ⟨_, hh, _⟩ := Cluster.handles_of_handled hhandled
  refine (hok.2 v ev hhandled).reached hI fun sender msg he => ?_
  subst he
  exact hI.small.inFlight _ hh.delivered

theorem recorded_run {c' : Cluster P SM} (h : Run (Cluster.step d) (ReachedAnswers d) c c')
    (hstr : Streaming d c g) (hr : Recorded d c g) :
    ∃ g', Replicated.Advances d.members.toFinset g g' ∧ Streaming d c' g' ∧ Recorded d c' g' :=
  Run.simulate (fun c g => Streaming d c g ∧ Recorded d c g)
    (Replicated.Advances d.members.toFinset) Replicated.Advances.refl
    (fun _ _ _ => Replicated.Advances.trans)
    (fun _ _ _ hboth hok => recorded_step hok hboth.1 hboth.2) h ⟨hstr, hr⟩

omit [StateMachine SM P] in
/-- A leader's log is the ledger of its term. -/
theorem Streaming.ledger_eq (h : Streaming d c g) (hv : v ∈ d.members)
    (hrole : (c.nodes v).role = .leader) : g.ledger (c.nodes v).currentTerm = g.log v := by
  have hb := h.streamed.logs.elections.node v hv
  rw [hb.currentTerm]
  exact h.streamed.logs.inv.leading v (by rw [← hb.role, hrole]; rfl)

omit [StateMachine SM P] in
/-- What has been recorded earlier in the same leadership. -/
theorem agree_recorded {c' : Cluster P SM} {u : NodeId} {m : Nat} (hle : Replicated.Le g g')
    (hstr : Streaming d c' g') (hmatched : Matched d True g (c.nodes v)) (hv : v ∈ d.members)
    (hrole : (c.nodes v).role = .leader) (hstill : (c'.nodes v).role = .leader)
    (hsame : (c'.nodes v).currentTerm = (c.nodes v).currentTerm) (hu : u ∈ d.members)
    (hm : (c.nodes v).replication.matchIndex.get u = some m) :
    m ≤ (g'.log v).length ∧
      ((c'.nodes u).currentTerm = (c'.nodes v).currentTerm → Agree m (g'.log u) (g'.log v)) := by
  obtain ⟨hlen, hacked⟩ := hmatched.mono hle hrole u hu m hm
  rw [← hsame] at hlen hacked
  rw [← hstr.ledger_eq hv hstill]
  refine ⟨hlen, fun hterm => ?_⟩
  have hub := (hstr.streamed.logs.elections.node u hu).currentTerm
  have hack : m ≤ g'.acked u (g'.ballot.term u) := by
    rw [← hub, hterm]
    exact hacked.resolve_right fun hpast => by omega
  have hown := (hstr.streamed.sound.own u).mono hack
  rwa [← hub, hterm] at hown

/-- **`match_index` is sound.**  With `L v` the whole log of node `v`, compacted entries included:
what a leader has recorded of a peer does not go beyond its log, now and for as long as it leads
the term, and whenever the peer is in that term the two logs agree up to there. -/
theorem match_index_sound {c' : Cluster P SM} (h : Reachable d (SoundAnswers d) c)
    (hlater : Run (Cluster.step d) (SoundAnswers d) c c') :
    ∃ L : NodeId → List (LogEntry P), (∀ v ∈ d.members, FullLog (c'.nodes v).storage (L v)) ∧
      ∀ v ∈ d.members, (c.nodes v).role = .leader → (c'.nodes v).role = .leader →
        (c'.nodes v).currentTerm = (c.nodes v).currentTerm → ∀ u ∈ d.members, ∀ m,
        (c.nodes v).replication.matchIndex.get u = some m →
        m ≤ (c'.nodes v).storage.lastLogIndex ∧
          ((c'.nodes u).currentTerm = (c'.nodes v).currentTerm →
            (L u).take m = (L v).take m) := by
  obtain ⟨hrun, hanswering⟩ := reachedAnswers_of_run (answering_init d) h
  obtain ⟨hrun', -⟩ := reachedAnswers_of_run hanswering hlater
  obtain ⟨g, -, hstr, hr⟩ := recorded_run hrun (streaming_init d)
    ⟨fun _ _ hr => (by cases hr), (decided_init d).decided⟩
  obtain ⟨g', hadv, hstr', -⟩ := recorded_run hrun' hstr hr
  refine ⟨g'.log, hstr'.streamed.logs.node, fun v hv hrole hstill hsame u hu m hm => ?_⟩
  rw [(hstr'.streamed.logs.node v hv).lastLogIndex]
  exact agree_recorded hadv.le hstr' (hr.matched v hv) hv hrole hstill hsame hu hm

end

/-- Node 3 acknowledges two entries and then installs the snapshot that the leader has made of the
first; its late answer lowers what is recorded from 2 to 1.  Both entries are held all the same. -/
theorem match_index_sound_lowered :
    let d := Deployment.plain [1, 2, 3] (by decide) 1
    let c : Cluster UInt8 Adder := Cluster.play d
      [.timer 1 .election, .deliver 0, .deliver 1, .deliver 1, .deliver 2, .lose 0, .lose 0, .lose 0,
        .lose 0, .client 1 7, .client 1 8, .deliver 0, .deliver 3, .timer 1 .heartbeat, .deliver 0,
        .deliver 1, .deliver 2, .deliver 2]
    let c' := c.step d (.deliver 2)
    (c.nodes 1).replication.matchIndex.get 3 = some 2 ∧
      (c'.nodes 1).replication.matchIndex.get 3 = some 1 ∧ (c'.nodes 3).storage.snapIndex = 1 ∧
      ∃ L : NodeId → List (LogEntry UInt8), FullLog (c'.nodes 1).storage (L 1) ∧
        FullLog (c'.nodes 3).storage (L 3) ∧ 2 ≤ (c'.nodes 1).storage.lastLogIndex ∧
        (L 3).take 2 = (L 1).take 2 := by
  intro d c c'
  have hget : (c.nodes 1).replication.matchIndex.get 3 = some 2 := by decide +kernel
  have hreach : Reachable d (SoundAnswers d) c := play_reachable _ (by decide +kernel)
  have hlater : Run (Cluster.step d) (SoundAnswers d) c c' := Run.refl.step (by decide +kernel)
  obtain ⟨L, hfull, hsound⟩ := match_index_sound hreach hlater
  obtain ⟨hle, hagree⟩ := hsound 1 (by decide) (by decide +kernel) (by decide +kernel)
    (by decide +kernel) 3 (by decide) 2 hget
  exact ⟨hget, by decide +kernel, by decide +kernel, L, hfull 1 (by decide), hfull 3 (by decide),
    hle, hagree (by decide +kernel)⟩

/-- Node 1 has an entry of term 1 which nobody else has when node 2, whose log is empty, leads
term 2.  The heartbeat of node 2 checks nothing, and node 1 answers with its own last index. -/
theorem match_index_beyond_log :
    ¬ ∀ c : Cluster UInt8 Adder, Reachable trio (fun c a => SingleDelivery c a ∧ InOrder c a) c →
      ∀ v ∈ trio.members, (c.nodes v).role = .leader → ∀ u ∈ trio.members, ∀ m,
        (c.nodes v).replication.matchIndex.get u = some m →
        m ≤ (c.nodes v).storage.lastLogIndex := by
  intro h
  have hle := h (Cluster.play trio
    [.timer 1 .election, .deliver 0, .deliver 1, .deliver 1, .deliver 2, .client 1 10,
      .timer 2 .election, .lose 0, .lose 0, .lose 1, .lose 2, .deliver 3, .deliver 3, .deliver 4,
      .deliver 4, .lose 2, .lose 2, .deliver 2, .timer 2 .heartbeat, .deliver 3, .lose 0, .lose 0,
      .deliver 2]) (play_reachable _ (by decide +kernel)) 2 (by decide) (by decide +kernel) 1
    (by decide) 1 (by decide +kernel)
  exact absurd hle (by decide +kernel)

end MetalRaft
