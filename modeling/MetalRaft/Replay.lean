import MetalRaft.ApplyOrder
import MetalRaft.LogSim

/-!
# The state machine as a replay of what is committed

Committed entries are applied one by one, a snapshot that is installed or found at a restart
replaces the state machine as a whole, and `last_applied` has to follow either way.

* `prefixMachine` — the state machine after the commands among the first entries of a sequence.
* `Replayed` — the state machine of a node, and the one its snapshot was made of, are such.
* `state_machine_replays` — this stays so while no snapshot is installed, or taken, behind what has
  been applied; `applied_command_rolled_back` — what becomes of it otherwise.
-/

set_option autoImplicit false

namespace MetalRaft

open Transition LogReplicationManager

variable {P SM : Type} [StateMachine SM P]

/-- The state machine after the commands among the first `k` entries. -/
def prefixMachine (initial : SM) (e : Nat → LogEntry P) : Nat → SM
  | 0 => initial
  | k + 1 => (e (k + 1)).applyTo (prefixMachine initial e k)

/-- Applying the next entries of the sequence. -/
theorem prefixMachine_batch {s : InMemoryStorage P} {initial : SM} {e : Nat → LogEntry P} :
    ∀ {fuel i : Nat}, (∀ j, i < j → j ≤ i + fuel → s.getEntry j = some (e j)) →
      (batch s i fuel).foldl (fun sm x => x.2.applyTo sm) (prefixMachine initial e i) =
        prefixMachine initial e (i + fuel)
  | 0, _, _ => rfl
  | fuel + 1, i, h => by
    rw [batch_of_some (h (i + 1) (by omega) (by omega)), List.foldl_cons]
    refine (prefixMachine_batch (i := i + 1) fun j hlt hle => h j (by omega) (by omega)).trans ?_
    rw [show i + 1 + fuel = i + (fuel + 1) by omega]

/-- A snapshot of the state machine after the entries up to the one that it ends at. -/
def SnapshotOf (initial : SM) (e : Nat → LogEntry P) (i : Nat) (data : List UInt8) : Prop :=
  data = StateMachine.createSnapshot (prefixMachine initial e i)

/-- The message, if it is an InstallSnapshot, brings in one chunk a snapshot that `D` holds of. -/
def Brings (D : Nat → List UInt8 → Prop) (p : Packet P) : Prop :=
  match p.msg with
  | .installSnapshot _ _ i _ offset data done => offset = 0 ∧ done = true ∧ D i data
  | _ => True

def BringsSnapshotOf (initial : SM) (e : Nat → LogEntry P) : Packet P → Prop :=
  Brings (SnapshotOf initial e)

namespace RaftNode

/-- State machine and snapshot of the node are those of the entries applied and compacted. -/
structure Replayed (initial : SM) (e : Nat → LogEntry P) (n : TestNode P SM) : Prop where
  grounded : n.Grounded
  machine : n.stateMachine = prefixMachine initial e n.replication.lastApplied
  stored : ∀ x, n.storage.snapshot = some x →
    SnapshotOf initial e x.metadata.lastIncludedIndex x.data

/-! ## What may be assumed about an event -/

omit [StateMachine SM P] in
/-- Wherever the event moves the commit index past an index, it finds the entry of the sequence. -/
def FollowsSequence (e : Nat → LogEntry P) (n : TestNode P SM) (ev : Event P) : Prop :=
  ∀ x ∈ n.commitPoint .testUtils ev, ∀ i ≤ x.2, n.replication.commitIndex < i →
    ∀ entry ∈ x.1.getEntry i, entry = e i

omit [StateMachine SM P] in
/-- What the event makes the node apply are the entries of the sequence. -/
def AppliesSequence (e : Nat → LogEntry P) (n : TestNode P SM) (ev : Event P) : Prop :=
  ∀ x ∈ n.newlyCommitted .testUtils ev, x.2 = e x.1

omit [StateMachine SM P] in
/-- A snapshot that the event completes ends no earlier than what the node has applied. -/
def InstallsAhead (n : TestNode P SM) : Event P → Prop
  | .message _ (.installSnapshot T _ i _ offset _ done) =>
    Completes n T i offset done → n.replication.lastApplied ≤ i
  | _ => True

omit [StateMachine SM P] in
/-- Nor does a snapshot that the event makes the node take. -/
def CompactsAhead (n : TestNode P SM) (ev : Event P) : Prop :=
  ∀ x ∈ n.commitPoint .testUtils ev, n.takesSnapshot x.2 ev = true → n.replication.lastApplied ≤ x.2

instance [DecidableEq P] (e : Nat → LogEntry P) (n : TestNode P SM) (ev : Event P) :
    Decidable (FollowsSequence e n ev) :=
  inferInstanceAs (Decidable (∀ x ∈ n.commitPoint .testUtils ev, ∀ i ≤ x.2,
    n.replication.commitIndex < i → ∀ entry ∈ x.1.getEntry i, entry = e i))

instance (n : TestNode P SM) : (ev : Event P) → Decidable (InstallsAhead n ev)
  | .message _ (.installSnapshot T _ i _ offset _ done) =>
    inferInstanceAs (Decidable (Completes n T i offset done → n.replication.lastApplied ≤ i))
  | .message _ (.requestVote _ _ _ _) | .message _ (.requestVoteResponse _ _)
  | .message _ (.preVoteRequest _ _ _ _) | .message _ (.preVoteResponse _ _)
  | .message _ (.appendEntries _ _ _ _ _) | .message _ (.appendEntriesResponse _ _ _)
  | .message _ (.installSnapshotResponse _ _)
  | .timerFired _ | .clientCommand _ | .configChange _ => isTrue trivial

instance (n : TestNode P SM) (ev : Event P) : Decidable (CompactsAhead n ev) :=
  inferInstanceAs (Decidable (∀ x ∈ n.commitPoint .testUtils ev,
    n.takesSnapshot x.2 ev = true → n.replication.lastApplied ≤ x.2))

/-! ## What one event does -/

section

variable {initial : SM} {e : Nat → LogEntry P} {ev : Event P} {n₀ n n' : TestNode P SM}

omit [StateMachine SM P] in
/-- Without a snapshot in the event, the snapshot of the node changes only with the commit index,
and what is sent before that is the snapshot of the beginning. -/
structure Carrying (initial : SM) (e : Nat → LogEntry P) (n₀ n : TestNode P SM) : Prop where
  shaped : n.storage.Shaped
  carries : n.storage.snapshot = n₀.storage.snapshot ∧
      (∀ p ∈ n.outbox, BringsSnapshotOf initial e p) ∨
    n₀.storage.snapIndex < n.storage.snapIndex ∧
      n₀.replication.commitIndex < n.replication.commitIndex

omit [StateMachine SM P] in
/-- A leader sends its snapshot whole. -/
theorem brings_entries {D : Nat → List UInt8 → Prop}
    (hsmall : ∀ i data, D i data → data.length ≤ usizeMax) (r : LogReplicationManager)
    (src peer leaderId : NodeId) {s : InMemoryStorage P}
    (hstored : ∀ x, s.snapshot = some x → D x.metadata.lastIncludedIndex x.data) :
    Brings D ⟨src, peer, r.getAppendEntriesForPeer peer leaderId s⟩ := by
  rcases getAppendEntriesForPeer_cases r peer leaderId s with
    ⟨_, data, hm, ⟨x, hx, rfl, hchunk⟩, heq⟩ | heq
  · rw [heq]
    have hof := hstored x hx
    have hlen := hsmall _ _ hof
    have hdata : data = x.data := by
      unfold chunkAt at hchunk
      split at hchunk
      · cases hchunk
      · simp only [Option.some.injEq, List.drop_zero, Nat.zero_add] at hchunk
        rw [← hchunk]
        exact List.take_of_length_le (by omega)
    refine ⟨rfl, ?_, hdata ▸ hof⟩
    rw [hdata, hx]
    exact decide_eq_true (Nat.le_refl _)
  · rw [heq]
    trivial

theorem SnapshotOf.small {i : Nat} {data : List UInt8} (h : SnapshotOf initial e i data) :
    data.length ≤ usizeMax := by
  rw [h]
  exact StateMachine.createSnapshot_length _

theorem carrying_move
    (hev : ∀ sender T leaderId i t offset data done,
      ev ≠ .message sender (.installSnapshot T leaderId i t offset data done))
    (hstored : ∀ x, n₀.storage.snapshot = some x →
      SnapshotOf initial e x.metadata.lastIncludedIndex x.data)
    (hmove : Move .testUtils ev n₀ n n') (h : Carrying initial e n₀ n) :
    Carrying initial e n₀ n' := by
  refine ⟨shaped_move hmove h.shaped, ?_⟩
  have hsays : n.storage.snapshot = n₀.storage.snapshot →
      (∀ p ∈ n.outbox, BringsSnapshotOf initial e p) →
      ∀ p ∈ n'.outbox, BringsSnapshotOf initial e p := by
    intro hsame hout p hp
    obtain ⟨outs, heq, hall⟩ := hmove.outbox
    rw [heq] at hp
    rcases List.mem_append.mp hp with hp | hp
    · exact hout p hp
    · obtain ⟨src, dst, msg⟩ := p
      obtain ⟨_, hcases⟩ := hall _ hp
      dsimp only at hcases
      rcases hcases with hspeaks | ⟨_, _, _, rfl⟩ | ⟨_, _, _, _, rfl⟩
      · cases hspeaks with
        | entries =>
          exact brings_entries (fun _ _ => SnapshotOf.small) n.replication src dst n.id
            (by rw [hsame]; exact hstored)
        | _ => trivial
      · trivial
      · trivial
  have hkeeps : n'.storage.snapshot = n.storage.snapshot →
      n.replication.commitIndex ≤ n'.replication.commitIndex →
      n'.storage.snapshot = n₀.storage.snapshot ∧
          (∀ p ∈ n'.outbox, BringsSnapshotOf initial e p) ∨
        n₀.storage.snapIndex < n'.storage.snapIndex ∧
          n₀.replication.commitIndex < n'.replication.commitIndex := by
    intro hsame hcommit
    rcases h.carries with ⟨hfirst, hout⟩ | ⟨hsnap, hraised⟩
    · exact Or.inl ⟨hsame.trans hfirst, hsays hfirst hout⟩
    · refine Or.inr ⟨?_, hraised.trans_le hcommit⟩
      unfold InMemoryStorage.snapIndex at hsnap ⊢
      rwa [hsame]
  cases hmove.logCases h.shaped with
  | quiet hq => exact hkeeps hq.sameLog.snapshot hq.commitIndex.ge
  | place | append | applyNone | applyEntry => exact hkeeps rfl (Nat.le_refl _)
  | commit _ _ higher => exact hkeeps rfl (Nat.le_of_lt higher)
  | learnCommit _ _ placed =>
    rcases h.carries with ⟨hfirst, hout⟩ | ⟨_, hraised⟩
    · exact Or.inl ⟨hfirst, hsays hfirst hout⟩
    · rw [placed] at hraised
      exact absurd hraised (Nat.lt_irrefl _)
  | compact raised found =>
    refine Or.inr ⟨?_, raised⟩
    have hbelow := (h.shaped.getEntry_bounds found).1
    refine lt_of_le_of_lt ?_ hbelow
    rcases h.carries with ⟨hfirst, _⟩ | ⟨hsnap, _⟩
    · unfold InMemoryStorage.snapIndex
      rw [hfirst]
    · exact Nat.le_of_lt hsnap
  | install asked => exact absurd asked (hev _ _ _ _ _ _ _ _)

/-- Without a snapshot in the event, the node keeps its own unless it commits something. -/
theorem carrying_onEvent
    (hev : ∀ sender T leaderId i t offset data done,
      ev ≠ .message sender (.installSnapshot T leaderId i t offset data done))
    (hsilent : n.transport = []) (hshaped : n.storage.Shaped)
    (hstored : ∀ x, n.storage.snapshot = some x →
      SnapshotOf initial e x.metadata.lastIncludedIndex x.data) :
    Carrying initial e n (n.onEvent .testUtils ev) := by
  have hmoves := onEvent_moves .testUtils n ev
  generalize n.onEvent .testUtils ev = n' at hmoves
  induction hmoves with
  | refl => exact ⟨hshaped, Or.inl ⟨rfl, by simp [outbox, hsilent]⟩⟩
  | tail _ hlast ih => exact carrying_move hev hstored hlast ih

/-- A snapshot in one chunk is answered: it is either refused or installed. -/
theorem onEvent_installSnapshot (sender leaderId : NodeId) (T i t : Nat) (data : List UInt8)
    (hs : n.storage.Shaped) :
    let n' := n.onEvent .testUtils (.message sender (.installSnapshot T leaderId i t 0 data true))
    (∃ T', n'.outbox = n.outbox ++ [⟨n.id, sender, .installSnapshotResponse T' false⟩]) ∧
        n'.stateMachine = n.stateMachine ∧ n'.replication.lastApplied = n.replication.lastApplied ∧
        n'.storage.snapshot = n.storage.snapshot ∨
      n'.outbox = n.outbox ++ [⟨n.id, sender, .installSnapshotResponse T true⟩] ∧
        Completes n T i 0 true ∧
        n'.stateMachine = (StateMachine.restoreFromSnapshot n.stateMachine data).1 ∧
        n'.replication.lastApplied = max n.replication.lastApplied i ∧
        n'.storage.snapshot = some ⟨⟨i, t⟩, data⟩ := by
  intro n'
  have hn' : n' = n.handleInstallSnapshot sender T i t 0 data true := rfl
  have houtbox : ∀ (m : TestNode P SM) msg, m.id = n.id → m.transport = n.transport →
      (m.send sender msg).outbox = n.outbox ++ [⟨n.id, sender, msg⟩] := by
    intro m msg hid htransport
    simp [outbox, send, hid, htransport]
  rw [hn']
  rcases Nat.lt_or_ge T n.currentTerm with hlt | hT
  · rw [handleInstallSnapshot_of_lt hlt]
    exact Or.inl ⟨⟨_, houtbox _ _ rfl rfl⟩, rfl, rfl, rfl⟩
  by_cases hcovered : alreadyCovered i n.storage = true
  · have hsame := SameLog.storageIn n T
    rw [handleInstallSnapshot_of_le hT, if_pos (by rw [hsame.alreadyCovered]; exact hcovered)]
    exact Or.inl ⟨⟨_, houtbox _ _ rfl rfl⟩, rfl, rfl, hsame.snapshot⟩
  · have hfresh : alreadyCovered i n.storage = false := Bool.eq_false_iff.mpr hcovered
    obtain ⟨s, hsame, hnode⟩ := handleInstallSnapshot_whole sender t data hT hs hfresh
    rw [hnode]
    exact Or.inr ⟨houtbox _ _ rfl rfl, ⟨hT, rfl, rfl, hfresh⟩, rfl, rfl, hsame.snapshot⟩

theorem transport_answer (sender : NodeId) (T : Nat) (success : Bool) (m : Nat) :
    (n.onEvent .testUtils (.message sender (.appendEntriesResponse T success m))).transport =
      n.transport := by
  show (n.handleAppendEntriesResponse .testUtils sender T success m).transport = _
  unfold handleAppendEntriesResponse recordAppendEntriesResponse
  dsimp only
  split
  · rfl
  · split
    · split
      · split <;> rfl
      · rfl
    · rfl

/-- Only a leader takes a snapshot, on an answer, and at an index whose entry it has. -/
theorem takesSnapshot_cases {s : InMemoryStorage P} {c : Nat} (h : n.takesSnapshot c ev = true)
    (hpoint : n.commitPoint .testUtils ev = some (s, c)) :
    (n.onEvent .testUtils ev).transport = n.transport ∧ ∃ entry, s.getEntry c = some entry := by
  unfold takesSnapshot at h
  split at h
  · refine ⟨transport_answer _ _ _ _, ?_⟩
    unfold commitPoint at hpoint
    dsimp only at hpoint
    split at hpoint
    · obtain ⟨c', hquorum, heq⟩ := Option.map_eq_some_iff.mp hpoint
      cases heq
      obtain ⟨_, entry, hentry, _⟩ := quorumIndex_eq_some hquorum
      exact ⟨entry, hentry⟩
    · cases hpoint
  · cases h

omit [StateMachine SM P] in
/-- Nothing is applied that the commit index does not move past. -/
theorem FollowsSequence.applies (h : n.replication.commitIndex ≤ n.replication.lastApplied)
    (hfollows : FollowsSequence e n ev) : AppliesSequence e n ev := by
  intro x hx
  cases hpoint : n.commitPoint .testUtils ev with
  | none =>
    rw [newlyCommitted_of_none hpoint] at hx
    cases hx
  | some p =>
    obtain ⟨hlt, hle, hget⟩ := bounds_of_newlyCommitted hpoint hx
    exact hfollows p hpoint x.1 hle (by omega) x.2 hget

/-- An event that commits hands the next entries of the sequence to the state machine. -/
theorem machine_commit {s : InMemoryStorage P} {c : Nat} (h : Replayed initial e n)
    (happlies : AppliesSequence e n ev) (hpoint : n.commitPoint .testUtils ev = some (s, c)) :
    (n.newlyCommitted .testUtils ev).foldl (fun sm x => x.2.applyTo sm) n.stateMachine =
      prefixMachine initial e (max n.replication.lastApplied c) := by
  have hfound : ∀ j, n.replication.lastApplied < j →
      j ≤ n.replication.lastApplied + (c - n.replication.lastApplied) →
      s.getEntry j = some (e j) := by
    intro j hlt hle
    obtain ⟨entry, hmem⟩ := exists_newlyCommitted h.grounded hpoint hlt (by omega)
    have hget : s.getEntry j = some entry := (bounds_of_newlyCommitted hpoint hmem).2.2
    rw [hget]
    exact congrArg some (happlies _ hmem)
  rw [newlyCommitted_of_some hpoint, h.machine]
  refine (prefixMachine_batch hfound).trans ?_
  rw [show n.replication.lastApplied + (c - n.replication.lastApplied) =
    max n.replication.lastApplied c by omega]

variable (law : ∀ s s' : SM, StateMachine.restoreFromSnapshot s (StateMachine.createSnapshot s') =
  (s', .ok ()))

include law in
theorem replayed_install {sender leaderId : NodeId} {T i t : Nat} {data : List UInt8}
    (hdata : SnapshotOf initial e i data)
    (hahead : InstallsAhead n (.message sender (.installSnapshot T leaderId i t 0 data true)))
    (h : Replayed initial e n) :
    Replayed initial e
      (n.onEvent .testUtils (.message sender (.installSnapshot T leaderId i t 0 data true))) := by
  rcases onEvent_installSnapshot sender leaderId T i t data h.grounded.formed with
    ⟨_, hmachine, happlied, hsnapshot⟩ | ⟨_, hcompletes, hmachine, happlied, hsnapshot⟩
  · refine ⟨grounded_onEvent h.grounded, ?_, ?_⟩
    · rw [hmachine, happlied]
      exact h.machine
    · rw [hsnapshot]
      exact h.stored
  · refine ⟨grounded_onEvent h.grounded, ?_, ?_⟩
    · rw [hmachine, happlied, hdata, law, Nat.max_eq_right (hahead hcompletes)]
    · intro x hx
      rw [hsnapshot] at hx
      cases hx
      exact hdata

theorem replayed_commit
    (hev : ∀ sender T leaderId i t offset data done,
      ev ≠ .message sender (.installSnapshot T leaderId i t offset data done))
    (hsilent : n.transport = []) (happlies : AppliesSequence e n ev) (hahead : CompactsAhead n ev)
    (h : Replayed initial e n) :
    Replayed initial e (n.onEvent .testUtils ev) ∧
      ∀ p ∈ (n.onEvent .testUtils ev).outbox, BringsSnapshotOf initial e p := by
  have hcarries := (carrying_onEvent hev hsilent h.grounded.formed h.stored).carries
  have hgrounded : (n.onEvent .testUtils ev).Grounded := grounded_onEvent h.grounded
  cases onEvent_commits .testUtils n ev with
  | installs asked => exact absurd asked (hev _ _ _ _ _ _ _ _)
  | nothing _ _ _ stateMachine commitIndex lastApplied =>
    rcases hcarries with ⟨hsnapshot, hout⟩ | ⟨_, hraised⟩
    · refine ⟨⟨hgrounded, ?_, by rw [hsnapshot]; exact h.stored⟩, hout⟩
      rw [stateMachine, lastApplied]
      exact h.machine
    · omega
  | @upTo s c f point _ _ _ stateMachine lastApplied face storage =>
    have happlied : (n.onEvent .testUtils ev).replication.lastApplied =
        max n.replication.lastApplied c := by
      rw [← lastApplied]
      exact congrArg Face.lastApplied face
    have hmachine : (n.onEvent .testUtils ev).stateMachine =
        prefixMachine initial e (n.onEvent .testUtils ev).replication.lastApplied := by
      rw [happlied, ← machine_commit h happlies point, ← stateMachine]
      exact congrArg Face.stateMachine face
    by_cases htakes : n.takesSnapshot c ev = true
    · obtain ⟨htransport, entry, hentry⟩ := takesSnapshot_cases htakes point
      have hshaped : s.Shaped := (reaches_of_commitPoint h.grounded.formed point).1
      have hc : (n.onEvent .testUtils ev).replication.lastApplied = c := by
        rw [happlied]
        exact Nat.max_eq_right (hahead _ point htakes)
      rw [if_pos htakes, hshaped.create_eq _ hentry] at storage
      refine ⟨⟨hgrounded, hmachine, fun x hx => ?_⟩, by simp [outbox, htransport, hsilent]⟩
      rw [storage] at hx
      cases hx
      exact congrArg StateMachine.createSnapshot (hc ▸ hmachine)
    · rw [if_neg htakes] at storage
      rcases hcarries with ⟨hsnapshot, hout⟩ | ⟨hsnap, _⟩
      · exact ⟨⟨hgrounded, hmachine, by rw [hsnapshot]; exact h.stored⟩, hout⟩
      · have hsame : s.snapIndex = n.storage.snapIndex :=
          (reaches_of_commitPoint h.grounded.formed point).2.1
        rw [storage, hsame] at hsnap
        exact absurd hsnap (Nat.lt_irrefl _)

end

end RaftNode

/-! ## Runs -/

section

open RaftNode

variable {d : Deployment SM} {e : Nat → LogEntry P} {c : Cluster P SM} {a : Action P}

/-- What is committed follows the sequence, and no snapshot falls behind what has been applied. -/
def FollowsAhead (d : Deployment SM) (e : Nat → LogEntry P) (c : Cluster P SM) (a : Action P) :
    Prop :=
  OnEvents d (fun c v => FollowsSequence e (c.nodes v)) c a ∧
    OnEvents d (fun c v => InstallsAhead (c.nodes v)) c a ∧
      OnEvents d (fun c v => CompactsAhead (c.nodes v)) c a

instance [DecidableEq P] (d : Deployment SM) (e : Nat → LogEntry P) (c : Cluster P SM)
    (a : Action P) : Decidable (FollowsAhead d e c a) :=
  inferInstanceAs (Decidable (_ ∧ _ ∧ _))

/-- Every member replays the sequence, and every snapshot under way is one of it. -/
def Replaying (d : Deployment SM) (e : Nat → LogEntry P) : Cluster P SM → Prop :=
  LocalInv d (fun _ => Replayed d.freshMachine e) (BringsSnapshotOf d.freshMachine e)

variable (law : ∀ s s' : SM, StateMachine.restoreFromSnapshot s (StateMachine.createSnapshot s') =
  (s', .ok ()))

include law in
/-- A node that starts has the state machine of its snapshot. -/
theorem replayed_boot {v : NodeId} {storage : InMemoryStorage P} {observer : Observer P}
    {clock : Nat} (hs : storage.Shaped) (hstored : ∀ x, storage.snapshot = some x →
      SnapshotOf d.freshMachine e x.metadata.lastIncludedIndex x.data) :
    Replayed d.freshMachine e (boot d v storage observer clock) := by
  have hboot : (boot d v storage observer clock).stateMachine =
        prefixMachine d.freshMachine e storage.snapIndex := by
    unfold boot newFromBuilder InMemoryStorage.snapIndex
    dsimp only [InMemoryStorage.storage_loadSnapshot]
    cases hx : storage.snapshot with
    | none => rfl
    | some x =>
      dsimp only
      rw [hstored x hx, law]
      rfl
  have happlied := lastApplied_boot d v storage observer clock
  refine ⟨⟨hs, happlied.ge, Nat.zero_le _⟩, ?_, hstored⟩
  rw [happlied]
  exact hboot

include law in
theorem replaying_init : Replaying d e (Cluster.init d) :=
  ⟨fun _ _ => replayed_boot law rfl fun _ h => (by cases h), by simp [Cluster.init],
    by simp [Cluster.init]⟩

include law in
theorem replaying_step (happlies : OnEvents d (fun c v => AppliesSequence e (c.nodes v)) c a)
    (hinstalls : OnEvents d (fun c v => InstallsAhead (c.nodes v)) c a)
    (hcompacts : OnEvents d (fun c v => CompactsAhead (c.nodes v)) c a) (hs : Settled c)
    (h : Replaying d e c) : Replaying d e (c.step d a) := by
  refine h.handle ?_ (fun v hv _ hn => replayed_boot law hn.grounded.formed hn.stored)
    fun v n millis hn => ⟨⟨hn.grounded.formed, hn.grounded.covered, hn.grounded.applied⟩,
      hn.machine, hn.stored⟩
  intro v hv ev hhandled hlog
  have hnode := h.node v hv
  have hquiet : ∀ n : TestNode P SM, Replayed d.freshMachine e n →
      Replayed d.freshMachine e { n with transport := [] } := fun n hn =>
    ⟨⟨hn.grounded.formed, hn.grounded.covered, hn.grounded.applied⟩, hn.machine, hn.stored⟩
  by_cases hev : ∃ sender T leaderId i t offset data done,
      ev = .message sender (.installSnapshot T leaderId i t offset data done)
  · obtain ⟨sender, T, leaderId, i, t, offset, data, done, rfl⟩ := hev
    obtain ⟨rfl, rfl, hdata⟩ := h.sent _ (hlog _ _ rfl)
    refine ⟨hquiet _ (replayed_install law hdata (hinstalls v _ hhandled) hnode), fun p hp => ?_⟩
    rcases onEvent_installSnapshot sender leaderId T i t data hnode.grounded.formed with
      ⟨⟨_, hout⟩, _⟩ | ⟨hout, _⟩ <;> rw [hout] at hp <;>
      simp only [outbox, (hs v).2, List.map_nil, List.nil_append, List.mem_singleton] at hp <;>
      rw [hp] <;> trivial
  · obtain ⟨hreplayed, hout⟩ := replayed_commit
      (fun sender T leaderId i t offset data done heq =>
        hev ⟨sender, T, leaderId, i, t, offset, data, done, heq⟩)
      (hs v).2 (happlies v _ hhandled) (hcompacts v _ hhandled) hnode
    exact ⟨hquiet _ hreplayed, hout⟩

/-- **The state machine is a replay of the committed prefix.**  Where the committed entries form one
sequence and no snapshot falls behind what has been applied, every node has the state machine of
the entries up to the last one it has applied. -/
theorem state_machine_replays
    (law : ∀ s s' : SM, StateMachine.restoreFromSnapshot s (StateMachine.createSnapshot s') =
      (s', .ok ()))
    (h : Reachable d (FollowsAhead d e) c) {v : NodeId} (hv : v ∈ d.members) :
    (c.nodes v).stateMachine =
      prefixMachine d.freshMachine e (c.nodes v).replication.lastApplied :=
  ((Run.invariant (I := fun c => Settled c ∧ Replaying d e c)
    (fun _ a hc ha => ⟨settled_step hc.1 a, replaying_step law (fun v ev hhandled =>
      (ha.1 v ev hhandled).applies
        (hc.2.node v (Cluster.handles_of_handled hhandled).choose_spec.1.member).grounded.applied)
      ha.2.1 ha.2.2 hc.1 hc.2⟩) h
    ⟨fun _ => ⟨rfl, rfl⟩, replaying_init law⟩).2.node v hv).machine

end

/-- Leader 1 commits and compacts an entry; node 3, which has missed it, installs the snapshot and
is restarted. -/
theorem state_machine_replays_trio :
    let e : Nat → LogEntry UInt8 := fun _ => ⟨1, .command 7⟩
    let c : Cluster UInt8 Adder := Cluster.play compactingTrio
      [.timer 1 .election, .deliver 0, .deliver 1, .deliver 1, .deliver 2, .client 1 7, .deliver 2,
        .lose 2, .deliver 2, .deliver 3, .deliver 3, .lose 0, .lose 0, .lose 0, .timer 1 .heartbeat,
        .deliver 1, .restart 3]
    (c.nodes 3).replication.lastApplied = 1 ∧
      (c.nodes 3).stateMachine = prefixMachine ⟨0⟩ e (c.nodes 3).replication.lastApplied := by
  intro e c
  exact ⟨by decide +kernel, state_machine_replays (d := compactingTrio) (e := e) (fun _ _ => rfl)
    (play_reachable _ (by decide +kernel)) (by decide)⟩

/-- Node 3 is sent a snapshot of the first entry, but gets both entries and applies them before that
arrives.  It takes the state machine back to the first entry; the second is not applied again. -/
theorem applied_command_rolled_back :
    ¬ ∀ (e : Nat → LogEntry UInt8) (c : Cluster UInt8 Adder),
      Reachable compactingTrio (fun c a => SingleDelivery c a ∧
        OnEvents compactingTrio (fun c v => RaftNode.FollowsSequence e (c.nodes v)) c a) c →
      ∀ v ∈ compactingTrio.members, (c.nodes v).stateMachine =
        prefixMachine compactingTrio.freshMachine e (c.nodes v).replication.lastApplied := by
  intro h
  have hsame := h (fun i => ⟨1, .command (if i = 1 then 7 else 8)⟩)
    (Cluster.play compactingTrio
      [.timer 1 .election, .deliver 0, .deliver 1, .deliver 1, .deliver 2, .client 1 7, .deliver 4,
        .deliver 5, .client 1 8, .deliver 3, .deliver 3, .deliver 5, .timer 1 .heartbeat,
        .deliver 6, .deliver 6, .timer 1 .heartbeat, .deliver 7, .deliver 4])
    (play_reachable _ (by decide +kernel)) 3 (by decide)
  revert hsame
  decide +kernel

end MetalRaft
