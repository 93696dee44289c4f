import MetalRaft.LogMoves
import MetalRaft.VoteTally

/-!
# Committed entries

An accepted AppendEntries with entries cuts the log off above `prev_log_index`, committed or not;
so a committed entry stays in a log only as long as every such message brings it again.

* `CarriesCommitted` — the message brings again what the node has committed.
* `Later` — what a node may have become in between; `later_move` follows a move.
* `committed_entries_stay` — committed entries stay, or are compacted, while a node runs.
* `committed_entry_removed` — an old message that arrives late removes a committed entry.
-/

set_option autoImplicit false

namespace MetalRaft

open Transition

variable {P SM : Type} [StateMachine SM P]

namespace RaftNode

/-- If the event is an AppendEntries that the node accepts and that has entries, then they are
the node's own from where they are placed up to the commit index. -/
def CarriesCommitted (n : TestNode P SM) : Event P → Prop
  | .message _ (.appendEntries term prev pt es _) =>
    term = n.currentTerm → es ≠ [] →
    LogReplicationManager.checkLogConsistency prev pt n.storage = true →
    ∀ i ≤ n.replication.commitIndex, max (prev + 1) n.storage.firstIndex ≤ i →
      es[i - max (prev + 1) n.storage.firstIndex]? = n.storage.getEntry i
  | _ => True

instance [DecidableEq P] (n : TestNode P SM) : (ev : Event P) → Decidable (n.CarriesCommitted ev)
  | .message _ (.appendEntries term prev pt es _) =>
    inferInstanceAs (Decidable (term = n.currentTerm → es ≠ [] →
      LogReplicationManager.checkLogConsistency prev pt n.storage = true →
      ∀ i ≤ n.replication.commitIndex, max (prev + 1) n.storage.firstIndex ≤ i →
        es[i - max (prev + 1) n.storage.firstIndex]? = n.storage.getEntry i))
  | .message _ (.requestVote _ _ _ _) | .message _ (.requestVoteResponse _ _)
  | .message _ (.preVoteRequest _ _ _ _) | .message _ (.preVoteResponse _ _)
  | .message _ (.appendEntriesResponse _ _ _) | .message _ (.installSnapshot _ _ _ _ _ _ _)
  | .message _ (.installSnapshotResponse _ _) | .timerFired _ | .clientCommand _
  | .configChange _ => isTrue trivial

/-- The log begins where the snapshot ends and reaches as far as the commit index. -/
structure Reaches (n : TestNode P SM) : Prop where
  shaped : n.storage.Shaped
  commitIndex : n.replication.commitIndex ≤ n.storage.lastLogIndex

/-- Everything committed is still there, or compacted. -/
structure Later (n n' : TestNode P SM) : Prop where
  commitIndex : n.replication.commitIndex ≤ n'.replication.commitIndex
  snapIndex : n.storage.snapIndex ≤ n'.storage.snapIndex
  entry : ∀ i ≤ n.replication.commitIndex, n'.storage.snapIndex < i →
    n'.storage.getEntry i = n.storage.getEntry i

variable {ev : Event P} {n₀ n n' n'' : TestNode P SM}

omit [StateMachine SM P] in
theorem Later.refl (n : TestNode P SM) : Later n n :=
  ⟨Nat.le_refl _, Nat.le_refl _, fun _ _ _ => rfl⟩

omit [StateMachine SM P] in
theorem Later.trans (h : Later n n') (h' : Later n' n'') : Later n n'' := by
  refine ⟨h.commitIndex.trans h'.commitIndex, h.snapIndex.trans h'.snapIndex, fun i hi hs => ?_⟩
  rw [h'.entry i (hi.trans h.commitIndex) hs]
  exact h.entry i hi (Nat.lt_of_le_of_lt h'.snapIndex hs)

/-- One move: only an AppendEntries could remove something committed. -/
theorem later_move (hok : n₀.CarriesCommitted ev) (hmove : Move .testUtils ev n₀ n n')
    (h : Reaches n) : Reaches n' ∧ Later n n' := by
  have hs := h.shaped
  have hc := h.commitIndex
  cases hmove.logCases hs with
  | quiet hq =>
    refine ⟨⟨hq.sameLog.shaped.mpr hs, ?_⟩, ?_, ?_, fun i _ _ => hq.sameLog.getEntry i⟩
    · rw [hq.commitIndex, hq.sameLog.lastLogIndex]; exact hc
    · rw [hq.commitIndex]
    · rw [hq.sameLog.snapIndex]
  | @place sender prev pt es lc asked consistent nonempty =>
    rw [asked] at hok
    have hprev := hs.prev_le consistent
    have hcarries := hok rfl nonempty consistent
    have hfirst : n₀.storage.firstIndex = n₀.storage.snapIndex + 1 := hs
    have hplaced : ∀ i ≤ n₀.replication.commitIndex, n₀.storage.snapIndex < i →
        (n₀.storage.withLog (n₀.storage.placedLog prev es)).getEntry i = n₀.storage.getEntry i := by
      intro i hi hsnap
      rw [hs.getEntry_place hprev nonempty]
      split
      · rfl
      · rw [if_neg (by omega), ← hcarries i hi (by omega)]
        congr 1
        omega
    refine ⟨⟨hs, ?_⟩, Nat.le_refl _, Nat.le_refl _, hplaced⟩
    -- were the commit index beyond the new log, its entry would be missing there
    show n₀.replication.commitIndex ≤
      (n₀.storage.withLog (n₀.storage.placedLog prev es)).lastLogIndex
    by_contra hgt
    have hsnap : n₀.storage.snapIndex < n₀.replication.commitIndex := by
      rw [hs.lastLogIndex_place hprev nonempty] at hgt
      omega
    obtain ⟨e, he⟩ := hs.exists_getEntry hsnap hc
    have := (hs.withLog _).getEntry_bounds ((hplaced _ (Nat.le_refl _) hsnap).trans he)
    omega
  | @append entryType leader submits =>
    refine ⟨⟨hs, ?_⟩, Nat.le_refl _, Nat.le_refl _,
      fun i hi _ => hs.getEntry_append (hi.trans hc)⟩
    show n₀.replication.commitIndex ≤
      (n₀.storage.withLog (n₀.storage.log ++ [⟨n₀.currentTerm, entryType⟩])).lastLogIndex
    rw [hs.lastLogIndex_withLog, List.length_append]
    rw [hs.lastLogIndex_eq] at hc
    omega
  | @learnCommit n sender prev pt es lc asked consistent placed higher =>
    have hsame : n.replication.commitIndex = n₀.replication.commitIndex := by rw [placed]; rfl
    refine ⟨⟨hs, Nat.min_le_right _ _⟩, ?_, Nat.le_refl _, fun _ _ _ => rfl⟩
    show n.replication.commitIndex ≤ min lc n.storage.lastLogIndex
    omega
  | applyNone => exact ⟨⟨hs, hc⟩, Nat.le_refl _, Nat.le_refl _, fun _ _ _ => rfl⟩
  | applyEntry => exact ⟨⟨hs, hc⟩, Nat.le_refl _, Nat.le_refl _, fun _ _ _ => rfl⟩
  | commit leader median higher found term =>
    exact ⟨⟨hs, (hs.getEntry_bounds found).2⟩, Nat.le_of_lt higher, Nat.le_refl _,
      fun _ _ _ => rfl⟩
  | @compact n entry raised found =>
    have hle : n.storage.snapIndex ≤ (n.ownSnapshot entry.term).metadata.lastIncludedIndex :=
      Nat.le_of_lt (hs.getEntry_bounds found).1
    refine ⟨⟨InMemoryStorage.shaped_compactedTo _, ?_⟩, Nat.le_refl _, hle, fun i _ hi => ?_⟩
    · rw [withStorage_storage, hs.lastLogIndex_compactedTo hle]
      exact hc.trans (Nat.le_max_left _ _)
    · rw [withStorage_storage, hs.getEntry_compactedTo hle]
      exact if_neg (Nat.not_le.mpr hi)
  | @install n sender leaderId offset data x asked _ fits same fresh below =>
    have hsame := installed_sameLog n x
    refine ⟨⟨rfl, ?_⟩, Nat.le_max_left _ _, below, fun i _ hi => ?_⟩
    · rw [hsame.lastLogIndex, hs.lastLogIndex_compactedTo below]
      exact max_le_max hc (Nat.le_refl _)
    · rw [hsame.getEntry, hs.getEntry_compactedTo below]
      exact if_neg (Nat.not_le.mpr hi)

theorem later_moves (hok : n₀.CarriesCommitted ev) (hmoves : Moves .testUtils ev n₀ n₀ n)
    (h : Reaches n₀) : Reaches n ∧ Later n₀ n := by
  induction hmoves with
  | refl => exact ⟨h, Later.refl _⟩
  | tail _ hlast ih =>
    obtain ⟨hreach, hlater⟩ := later_move hok hlast ih.1
    exact ⟨hreach, ih.2.trans hlater⟩

end RaftNode

/-! ## Runs -/

/-- Every AppendEntries that a node accepts brings again what the node has committed. -/
def CommittedCarried (d : Deployment SM) : Cluster P SM → Action P → Prop :=
  OnEvents d fun c v ev => (c.nodes v).CarriesCommitted ev

instance [DecidableEq P] (d : Deployment SM) (c : Cluster P SM) (a : Action P) :
    Decidable (CommittedCarried d c a) :=
  inferInstanceAs (Decidable (OnEvents d (fun c v ev => (c.nodes v).CarriesCommitted ev) c a))

section

variable {d : Deployment SM} {c c₁ c₂ : Cluster P SM} {a : Action P} {v : NodeId}

open RaftNode

/-- A step of the cluster, as node `v` sees it. -/
theorem later_step (hok : CommittedCarried d c a) (h : Reaches (c.nodes v)) :
    Reaches ((c.step d a).nodes v) ∧
      (a ≠ .restart v → Later (c.nodes v) ((c.step d a).nodes v)) := by
  rcases Cluster.step_cases d c a with ⟨u, ev, c₀, hh, hs⟩ | ⟨net, _, hs⟩ | ⟨k, p, _, _, hs⟩ |
    ⟨u, ha, hs⟩ | ⟨ms, _, hs⟩ <;> rw [hs]
  · unfold Cluster.dispatch
    by_cases hvu : v = u
    · subst hvu
      have hcarries := hok _ _ hh.handled
      rw [Cluster.withNode_nodes_self, hh.nodes]
      obtain ⟨hreach, hlater⟩ :=
        later_moves hcarries (onEvent_moves .testUtils (c.nodes v) ev) h
      exact ⟨⟨hreach.1, hreach.2⟩, fun _ => ⟨hlater.1, hlater.2, hlater.3⟩⟩
    · rw [Cluster.withNode_nodes_ne hvu, hh.nodes]
      exact ⟨h, fun _ => Later.refl _⟩
  · exact ⟨h, fun _ => Later.refl _⟩
  · exact ⟨h, fun _ => Later.refl _⟩
  · by_cases hvu : v = u
    · subst hvu
      simp only [Function.update_self]
      exact ⟨⟨h.shaped, Nat.zero_le _⟩, fun hne => absurd ha hne⟩
    · simp only [Function.update_of_ne hvu]
      exact ⟨h, fun _ => Later.refl _⟩
  · exact ⟨⟨h.1, h.2⟩, fun _ => ⟨Nat.le_refl _, Nat.le_refl _, fun _ _ _ => rfl⟩⟩

theorem Reachable.reaches (h : Reachable d (CommittedCarried d) c) (v : NodeId) :
    Reaches (c.nodes v) := by
  have hinit : Reaches ((Cluster.init d : Cluster P SM).nodes v) := ⟨rfl, Nat.zero_le _⟩
  exact Run.invariant (I := fun c => Reaches (c.nodes v))
    (fun _ _ hr hok => (later_step hok hr).1) h hinit

/-- **Committed entries are never rolled back** where every accepted AppendEntries brings again
what is committed: as long as a node is not restarted, an entry at or below its commit index stays
in its log as it is or is covered by its snapshot. -/
theorem committed_entries_stay (h₁ : Reachable d (CommittedCarried d) c₁)
    (h₂ : Run (Cluster.step d) (fun c a => CommittedCarried d c a ∧ a ≠ .restart v) c₁ c₂) :
    (∀ i, 1 ≤ i → i ≤ (c₁.nodes v).replication.commitIndex →
      (∃ x ∈ (c₂.nodes v).storage.snapshot, i ≤ x.metadata.lastIncludedIndex) ∨
      ∃ e, (c₁.nodes v).storage.getEntry i = some e ∧ (c₂.nodes v).storage.getEntry i = some e) ∧
    (c₂.nodes v).replication.commitIndex ≤ (c₂.nodes v).storage.lastLogIndex := by
  have hreach := h₁.reaches v
  obtain ⟨hreach', hlater⟩ : Reaches (c₂.nodes v) ∧ Later (c₁.nodes v) (c₂.nodes v) := by
    refine Run.invariant (I := fun c => Reaches (c.nodes v) ∧ Later (c₁.nodes v) (c.nodes v))
      ?_ h₂ ⟨hreach, Later.refl _⟩
    rintro c a ⟨hr, hl⟩ ⟨hok, hne⟩
    obtain ⟨hr', hl'⟩ := later_step hok hr
    exact ⟨hr', hl.trans (hl' hne)⟩
  refine ⟨fun i hpos hi => ?_, hreach'.commitIndex⟩
  by_cases hsnap : i ≤ (c₂.nodes v).storage.snapIndex
  · left
    unfold InMemoryStorage.snapIndex at hsnap
    cases hx : (c₂.nodes v).storage.snapshot with
    | none => rw [hx] at hsnap; simp at hsnap; omega
    | some x => rw [hx] at hsnap; exact ⟨x, rfl, hsnap⟩
  · right
    obtain ⟨e, he⟩ := hreach.shaped.exists_getEntry (i := i)
      (Nat.lt_of_le_of_lt hlater.snapIndex (Nat.not_le.mp hsnap)) (hi.trans hreach.commitIndex)
    exact ⟨e, he, (hlater.entry i hi (Nat.not_le.mp hsnap)).trans he⟩

end

/-- Node 2 of three has committed one entry when the next ones arrive. -/
theorem committed_entries_stay_trio :
    let c₁ : Cluster UInt8 Adder := Cluster.play trio
      [.timer 1 .election, .deliver 0, .deliver 1, .deliver 1, .deliver 2, .client 1 10, .deliver 4,
        .deliver 5, .client 1 20, .deliver 5, .client 1 30]
    let c₂ := c₁.step trio (.deliver 7)
    (c₁.nodes 2).replication.commitIndex = 1 ∧
      (∃ e, (c₁.nodes 2).storage.getEntry 1 = some e ∧ (c₂.nodes 2).storage.getEntry 1 = some e) ∧
      (c₂.nodes 2).replication.commitIndex ≤ (c₂.nodes 2).storage.lastLogIndex := by
  intro c₁ c₂
  have hstay := committed_entries_stay (d := trio) (v := 2)
    (play_reachable _ (by decide +kernel) : Reachable trio _ c₁)
    (Run.step (a := Action.deliver 7) .refl (by decide +kernel) : Run _ _ c₁ c₂)
  refine ⟨by decide +kernel, (hstay.1 1 (Nat.le_refl 1) (by decide +kernel)).resolve_left ?_,
    hstay.2⟩
  have hnone : (c₂.nodes 2).storage.snapshot.isNone = true := by decide +kernel
  rintro ⟨x, hx, _⟩
  rw [Option.mem_def.mp hx] at hnone
  cases hnone

/-- The AppendEntries that carries the first entry only arrives after the one that carries both,
and removes the second entry, which node 2 has committed. -/
theorem committed_entry_removed :
    ¬ ∀ (v : NodeId) (c₁ c₂ : Cluster UInt8 Adder), Reachable trio FixedMembership c₁ →
      Run (Cluster.step trio) (fun c a => FixedMembership c a ∧ a ≠ .restart v) c₁ c₂ →
      (∀ i, 1 ≤ i → i ≤ (c₁.nodes v).replication.commitIndex →
        (∃ x ∈ (c₂.nodes v).storage.snapshot, i ≤ x.metadata.lastIncludedIndex) ∨
        ∃ e, (c₁.nodes v).storage.getEntry i = some e ∧
          (c₂.nodes v).storage.getEntry i = some e) ∧
      (c₂.nodes v).replication.commitIndex ≤ (c₂.nodes v).storage.lastLogIndex := by
  intro h
  have hrun := h 2 _ _ (play_reachable [.timer 1 .election, .deliver 0, .deliver 1,
    .deliver 1, .deliver 2, .client 1 10, .client 1 20, .deliver 6, .deliver 7,
    .timer 1 .heartbeat, .deliver 7] (by decide +kernel))
    (Run.step (a := Action.deliver 4) .refl ⟨trivial, nofun⟩)
  exact absurd hrun.2 (by decide +kernel)

end MetalRaft
