import MetalRaft.DeviceNode
import MetalRaft.EmbassyStateMachine
import MetalRaft.LogMoves
import MetalRaft.PreVote

/-!
# Clusters that fit the device

In a cluster of fixed membership whose snapshots fit a chunk, what the collections of the device
have to hold stays small, however long the run: only the log can grow.

* `Stocked` — the maps name members only, and snapshots come in one chunk of the device.
* `Undecided` — whoever still counts votes has too few of them to win.
* `Reachable.fits` — hence every member fits the device as long as its log does.
-/

set_option autoImplicit false

namespace MetalRaft

open Transition

variable {P SM : Type} [StateMachine SM P]

/-- A snapshot comes in one chunk that the device can store. -/
def RaftMsg.Whole : RaftMsg P → Prop
  | .installSnapshot _ _ _ _ offset data done =>
    offset = 0 ∧ done = true ∧ data.length ≤ EmbassyStorage.snapshotCapacity
  | _ => True

/-- What the state machine saves fits the snapshot buffer of the device. -/
def SavesLittle (SM : Type) {P : Type} [StateMachine SM P] : Prop :=
  ∀ sm : SM, (StateMachine.createSnapshot sm).length ≤ EmbassyStorage.snapshotCapacity

theorem EmbassyStateMachine.savesLittle : SavesLittle EmbassyStateMachine :=
  EmbassyStateMachine.createSnapshot_length

structure StockedNode (d : Deployment SM) (n : TestNode P SM) : Prop where
  shaped : n.storage.Shaped
  maps : n.replication.Within d.members
  snapshot : ∀ x ∈ n.storage.snapshot, x.data.length ≤ EmbassyStorage.snapshotCapacity

/-- The maps of the members and the snapshots, in a cluster. -/
def Stocked (d : Deployment SM) : Cluster P SM → Prop :=
  LocalInv d (fun _ => StockedNode d) fun p => p.msg.Whole

/-- Whoever counts votes has less than a quorum. -/
structure UndecidedNode (d : Deployment SM) (n : TestNode P SM) : Prop where
  preVotes : n.election.inPreVote = true →
    n.election.preVotesReceived.length < Configuration.quorumSize ⟨d.members⟩
  votes : n.role = .candidate →
    n.election.votesReceived.length < Configuration.quorumSize ⟨d.members⟩

/-! ## Maps and snapshots -/

section

variable {d : Deployment SM} {n₀ n n' : TestNode P SM} {ev : Event P}

open RaftNode LogReplicationManager

omit [StateMachine SM P] in
theorem chunkAt_zero {data : List UInt8} (h : data.length ≤ EmbassyStorage.snapshotCapacity)
    {chunk : List UInt8} (hchunk : chunkAt data 0 usizeMax = some chunk) : chunk = data := by
  have hall : min (0 + usizeMax) data.length = data.length := by
    unfold EmbassyStorage.snapshotCapacity at h
    unfold usizeMax
    omega
  unfold chunkAt at hchunk
  split at hchunk
  · cases hchunk
  · rw [hall] at hchunk
    dsimp only at hchunk
    rw [List.take_length, List.drop_zero] at hchunk
    exact (Option.some.inj hchunk).symm

omit [StateMachine SM P] in
/-- A leader sends its snapshot whole. -/
theorem entries_whole (h : StockedNode d n) (peer : NodeId) :
    (n.replication.getAppendEntriesForPeer peer n.id n.storage).Whole := by
  rcases getAppendEntriesForPeer_cases n.replication peer n.id n.storage with
    ⟨m, data, -, ⟨x, hx, -, hdata⟩, heq⟩ | heq
  · have hsmall := h.snapshot x hx
    rw [heq, chunkAt_zero hsmall hdata, hx]
    exact ⟨rfl, decide_eq_true (Nat.le_refl _), hsmall⟩
  · rw [heq]
    trivial

omit [StateMachine SM P] in
theorem wholeChunk (s : InMemoryStorage P) (index term : Nat) (data : List UInt8) :
    (Storage.applySnapshotChunk s 0 data true index term).1.snapshot =
      some ⟨⟨index, term⟩, data⟩ := rfl

/-- Taking a snapshot leaves the old one, or what the state machine saved. -/
theorem snapshot_create (s : InMemoryStorage P) (sm : SM) (i : Nat) :
    (SnapshotManager.create s sm i).1.snapshot = s.snapshot ∨
      ∃ m, (SnapshotManager.create s sm i).1.snapshot =
        some ⟨m, StateMachine.createSnapshot sm⟩ := by
  unfold SnapshotManager.create
  split
  · exact Or.inl rfl
  · split
    · exact Or.inl rfl
    · rename_i entry _
      refine Or.inr ⟨⟨i, entry.term⟩, ?_⟩
      simp only [SnapshotManager.compact, InMemoryStorage.storage_saveSnapshot,
        InMemoryStorage.storage_discardEntriesBefore]
      rw [InMemoryStorage.discardEntriesBefore_eq]

theorem stockedNode_move (hlittle : SavesLittle SM)
    (hmsg : ∀ sender msg, ev = .message sender msg → sender ∈ d.members ∧ msg.Whole)
    (hmove : Move .testUtils ev n₀ n n') (hfixed : FixedNode d n) (h : StockedNode d n) :
    StockedNode d n' := by
  have hshaped := shaped_move hmove h.shaped
  cases hmove with
  | inert hi => exact ⟨hshaped, hi.replication ▸ h.maps, hi.storage ▸ h.snapshot⟩
  | campaign =>
    rw [broadcast_eq] at hshaped ⊢
    exact ⟨hshaped, h.maps, h.snapshot⟩
  | lead =>
    exact ⟨hshaped, h.maps.initialized n.storage n.config.members hfixed.config.subset, h.snapshot⟩
  | place =>
    refine ⟨hshaped, h.maps, fun x hx => h.snapshot x ?_⟩
    simpa only [withStorage, InMemoryStorage.placeEntries_eq] using hx
  | record answer =>
    exact ⟨hshaped, h.maps.recorded (hmsg _ _ answer).1 _, h.snapshot⟩
  | backOff answer leader next =>
    exact ⟨hshaped, ⟨h.maps.nextIndex.insert (hmsg _ _ answer).1 next, h.maps.matchIndex⟩, h.snapshot⟩
  | recordSnapshot answer =>
    refine ⟨hshaped, ?_, h.snapshot⟩
    show (LogReplicationManager.handleInstallSnapshotResponse .testUtils _ _ _ _).Within _
    unfold LogReplicationManager.handleInstallSnapshotResponse
    split
    · exact h.maps.recorded (hmsg _ _ answer).1 _
    · exact h.maps
  | applyChanges changes found => exact absurd found hfixed.no_applyChanges
  | learnCommit asked consistent placed higher =>
    subst placed
    exact ⟨hshaped, ⟨h.maps.nextIndex, h.maps.matchIndex⟩, h.snapshot⟩
  | compact =>
    refine ⟨hshaped, h.maps, fun x hx => ?_⟩
    rcases snapshot_create n.storage n.stateMachine n.replication.commitIndex with heq | ⟨m, heq⟩
    · exact h.snapshot x (heq ▸ hx)
    · cases heq.symm.trans hx
      exact hlittle n.stateMachine
  | storeChunk asked =>
    obtain ⟨rfl, rfl, hdata⟩ := (hmsg _ _ asked).2
    refine ⟨hshaped, h.maps, fun x hx => ?_⟩
    cases (wholeChunk n.storage _ _ _).symm.trans hx
    exact hdata
  | install asked =>
    obtain ⟨rfl, -, hdata⟩ := (hmsg _ _ asked).2
    refine ⟨hshaped, ⟨h.maps.nextIndex, h.maps.matchIndex⟩, fun x hx => ?_⟩
    simp only [InMemoryStorage.storage_discardEntriesBefore] at hx
    rw [InMemoryStorage.discardEntriesBefore_eq] at hx
    cases (wholeChunk n.storage _ _ _).symm.trans hx
    exact hdata
  | _ => exact ⟨hshaped, ⟨h.maps.nextIndex, h.maps.matchIndex⟩, h.snapshot⟩

theorem stockedPacket_move (hmove : Move .testUtils ev n₀ n n') (h : StockedNode d n)
    (hout : ∀ p ∈ n.outbox, p.msg.Whole) : ∀ p ∈ n'.outbox, p.msg.Whole := by
  obtain ⟨outs, heq, hall⟩ := hmove.outbox
  rw [heq]
  intro p hp
  rcases List.mem_append.mp hp with hp | hp
  · exact hout p hp
  · obtain ⟨-, hcases⟩ := hall p hp
    obtain ⟨src, dst, msg⟩ := p
    dsimp only at hcases ⊢
    rcases hcases with hspeak | ⟨-, li, lt, rfl⟩ | ⟨cand, li, lt, -, rfl⟩
    · cases hspeak with
      | entries => exact entries_whole h dst
      | _ => trivial
    · trivial
    · trivial

/-! ## Votes -/

theorem one_lt_quorumSize (h : 1 < d.members.length) :
    1 < Configuration.quorumSize ⟨d.members⟩ := by
  unfold Configuration.quorumSize Configuration.size
  dsimp only
  rw [if_neg (by omega)]
  omega

omit [StateMachine SM P] in
theorem FixedNode.hasQuorum (h : FixedNode d n) (count : Nat) :
    n.config.hasQuorum count = decide (Configuration.quorumSize ⟨d.members⟩ ≤ count) := by
  unfold Configuration.hasQuorum Configuration.quorumSize Configuration.size
  rw [h.config.length_eq]

/-- Only a vote response adds to the tally of a candidate; a new candidate has one vote. -/
theorem votes_moves (hmany : 1 < d.members.length)
    (hev : ∀ sender T granted, ev ≠ .message sender (.requestVoteResponse T granted))
    (hfixed : ∀ n, Moves .testUtils ev n₀ n₀ n → FixedNode d n) (h : UndecidedNode d n₀)
    (hmoves : Moves .testUtils ev n₀ n₀ n) (hrole : n.role = .candidate) :
    n.election.votesReceived.length < Configuration.quorumSize ⟨d.members⟩ := by
  induction hmoves with
  | refl => exact h.votes hrole
  | tail hmoves hlast ih =>
    have hhere := hfixed _ hmoves
    cases hlast with
    | inert hi =>
      rw [hi.votesReceived]
      exact ih (hi.role ▸ hrole)
    | adoptTerm => cases hrole
    | rest => cases hrole
    | lead => cases hrole
    | campaign =>
      rw [broadcast_eq]
      exact one_lt_quorumSize hmany
    | tally answer => exact absurd answer (hev _ _ _)
    | applyChanges changes found => exact absurd found hhere.no_applyChanges
    | _ => exact ih hrole

omit [StateMachine SM P] in
theorem undecidedNode_voteResponse (hfixed : FixedNode d n) (h : UndecidedNode d n)
    (sender : NodeId) (T : Nat) (granted : Bool)
    (hrole : (n.handleVoteResponse .testUtils sender T granted).role = .candidate) :
    (n.handleVoteResponse .testUtils sender T granted).election.votesReceived.length <
      Configuration.quorumSize ⟨d.members⟩ := by
  unfold handleVoteResponse ElectionManager.handleVoteResponse at hrole ⊢
  by_cases hlt : T > n.currentTerm
  · rw [if_pos hlt] at hrole
    cases hrole
  · rw [if_neg hlt, if_neg hlt] at hrole ⊢
    by_cases hskip : n.role ≠ .candidate ∨ T ≠ n.currentTerm ∨ granted = false
    · rw [if_pos hskip] at hrole ⊢
      exact h.votes hrole
    · rw [if_neg hskip] at hrole ⊢
      dsimp only at hrole ⊢
      rw [hfixed.hasQuorum] at hrole ⊢
      split at hrole
      · unfold becomeLeader at hrole
        rw [sendAppendEntriesToFollowers_eq] at hrole
        cases hrole
      · rename_i hfew
        rw [if_neg hfew]
        exact Nat.lt_of_not_le fun hle => hfew (decide_eq_true hle)

/-- **Who still counts votes has too few**, after every event. -/
theorem undecidedNode_onEvent (hmany : 1 < d.members.length) (hsilent : n.transport = [])
    (hfixed : ∀ n', Moves .testUtils ev n n n' → FixedNode d n') (h : UndecidedNode d n) :
    UndecidedNode d (n.onEvent .testUtils ev) := by
  have hhere := hfixed n .refl
  have hpeers : 1 < n.config.members.length := by
    rw [hhere.config.length_eq]
    exact hmany
  constructor
  · have hstep := preVoteStep_onEvent hsilent hpeers ev
    generalize n.onEvent .testUtils ev = n' at hstep
    intro hpre
    have hkept : ∀ {b : Bool} {votes : List NodeId} {talk : List (Packet P)},
        n'.preVotePart = (b, votes, talk) → n'.election.inPreVote = b ∧
          n'.election.preVotesReceived = votes :=
      fun heq => ⟨congrArg Prod.fst heq, congrArg (·.2.1) heq⟩
    cases hstep with
    | asks idle part =>
      rw [(hkept part).2]
      exact one_lt_quorumSize hmany
    | answers part | quiet calm part =>
      rw [(hkept part).2]
      exact h.preVotes ((hkept part).1 ▸ hpre)
    | counts awaited part =>
      rw [(hkept part).2]
      have hfew := (hkept part).1 ▸ hpre
      rw [hhere.hasQuorum, Bool.not_eq_true', decide_eq_false_iff_not] at hfew
      exact Nat.lt_of_not_le hfew
  · by_cases hresponse : ∃ sender T granted, ev = .message sender (.requestVoteResponse T granted)
    · obtain ⟨sender, T, granted, rfl⟩ := hresponse
      exact undecidedNode_voteResponse hhere h sender T granted
    · exact votes_moves hmany (fun sender T granted heq => hresponse ⟨sender, T, granted, heq⟩)
        hfixed h (onEvent_moves .testUtils n ev)

end

/-! ## Reachable clusters -/

section

variable {d : Deployment SM} {c : Cluster P SM} {a : Action P}

open RaftNode

theorem stocked_step (hlittle : SavesLittle SM) (hfix : FixedMembership c a) (hs : Settled c)
    (hf : Fixed d c) (h : Stocked d c) : Stocked d (c.step d a) := by
  refine LocalInv.step h hs ?_ (fun _ _ hn => ⟨hn.shaped, hn.maps, hn.snapshot⟩) ?_
    (fun _ _ _ hn => ⟨hn.shaped, hn.maps, hn.snapshot⟩)
  · intro v hv ev hev hlog n n' _ hmoves hmove hn hout
    refine ⟨stockedNode_move hlittle ?_ hmove (hf.between hfix hv hev hlog hmoves) hn,
      stockedPacket_move hmove hn hout⟩
    intro sender msg he
    exact ⟨(hf.sent _ (hlog sender msg he)).src, h.sent _ (hlog sender msg he)⟩
  · intro v _ _ hn
    exact ⟨hn.shaped, ⟨MapCollection.within_new, MapCollection.within_new⟩, hn.snapshot⟩

/-- Votes are counted within one event, so this is checked event by event. -/
def Undecided (d : Deployment SM) : Cluster P SM → Prop :=
  LocalInv d (fun _ => UndecidedNode d) fun _ => True

theorem undecided_step (hmany : 1 < d.members.length) (hfix : FixedMembership c a)
    (hs : Settled c) (hf : Fixed d c) (h : Undecided d c) : Undecided d (c.step d a) := by
  refine LocalInv.handle h ?_ (fun v _ _ _ => ?_) (fun _ _ _ hn => ⟨hn.preVotes, hn.votes⟩)
  · intro v hv ev hev hlog
    have hafter := undecidedNode_onEvent hmany (hs v).2
      (fun n' hmoves => hf.between hfix hv hev hlog hmoves) (h.node v hv)
    exact ⟨⟨hafter.preVotes, hafter.votes⟩, fun _ _ => trivial⟩
  · constructor
    · intro hpre
      cases hpre
    · intro hrole
      cases hrole

theorem stocked_init (d : Deployment SM) : Stocked d (Cluster.init d : Cluster P SM) := by
  refine ⟨fun v _ => ⟨rfl, ⟨MapCollection.within_new, MapCollection.within_new⟩, ?_⟩, ?_, ?_⟩
  · intro x hx
    cases hx
  · intro p hp
    cases hp
  · intro p hp
    cases hp

theorem undecided_init (d : Deployment SM) : Undecided d (Cluster.init d : Cluster P SM) :=
  ⟨fun _ _ => ⟨fun hpre => (by cases hpre), fun hrole => (by cases hrole)⟩, fun _ _ => trivial,
    fun p hp => (by cases hp)⟩

/-- Everything but the log of member `v` fits the device, and so does every message for it. -/
structure FitsDevice (d : Deployment SM) (c : Cluster P SM) (v : NodeId) : Prop where
  onDevice : (c.nodes v).storage.log.length ≤ EmbassyStorage.collectionCapacity →
    (c.nodes v).OnDevice
  room : (c.nodes v).RoomForVotes
  familiar : ∀ p ∈ c.network, p.dst = v → (c.nodes v).Familiar (.message p.src p.msg)

/-- **Every member of a reachable cluster fits the device**, as long as its log does. -/
theorem Reachable.fits {ok : Cluster P SM → Action P → Prop} (hlittle : SavesLittle SM)
    (hmany : 1 < d.members.length) (hfew : d.members.length ≤ 8)
    (hok : ∀ c a, ok c a → FixedMembership c a) (h : Reachable d ok c) {v : NodeId}
    (hv : v ∈ d.members) : FitsDevice d c v := by
  have hinv := Run.invariant
    (I := fun c => Settled c ∧ Fixed d c ∧ Stocked d c ∧ Undecided d c)
    (fun c a hc ha => ⟨settled_step hc.1 a, fixed_step (hok _ _ ha) hc.1 hc.2.1,
      stocked_step hlittle (hok _ _ ha) hc.1 hc.2.1 hc.2.2.1,
      undecided_step hmany (hok _ _ ha) hc.1 hc.2.1 hc.2.2.2⟩) h
    ⟨fun _ => ⟨rfl, rfl⟩, fixed_init d, stocked_init d, undecided_init d⟩
  obtain ⟨-, hf, hstocked, hundecided⟩ := hinv
  have hconfig := (hf.node v hv).config
  have hquorum : Configuration.quorumSize ⟨d.members⟩ ≤ 5 := by
    unfold Configuration.quorumSize Configuration.size
    dsimp only
    split
    · exact Nat.zero_le _
    · omega
  constructor
  · intro hheld
    have hmaps := (hstocked.node v hv).maps
    refine ⟨(hstocked.node v hv).shaped, hheld, hconfig.length_eq.trans_le hfew, ?_,
      (hf.node v hv).log⟩
    exact ⟨hmaps.nextIndex.mono hconfig.symm.subset, hmaps.matchIndex.mono hconfig.symm.subset⟩
  · constructor
    · intro hpre
      have := (hundecided.node v hv).preVotes hpre
      omega
    · intro hrole
      have := (hundecided.node v hv).votes hrole
      omega
  · rintro ⟨src, dst, msg⟩ hp rfl
    have hsent := hf.sent _ (hf.inFlight _ hp)
    have hwhole := hstocked.sent _ (hf.inFlight _ hp)
    refine ⟨hconfig.symm.subset hsent.src, ?_⟩
    cases msg with
    | appendEntries => exact hsent.msg
    | installSnapshot => exact hwhole
    | _ => trivial

end

end MetalRaft
