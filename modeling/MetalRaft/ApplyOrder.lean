import MetalRaft.CommitPoint
import MetalRaft.Lifetime

/-!
# The order in which entries are applied

Five things move `last_applied`, `commit_index` and the first index of the log: requests, the commit
rule, snapshots taken, snapshots installed and restarts.

* `Grounded` — whatever is not applied yet is still in the log, and whatever is committed is
  applied; `grounded_of_lived`.
* `newlyCommitted_indexes` — the apply loop finds an entry at every index that it comes to.
* `Chronicle` — a node with the indexes handed to the state machine or emitted as configuration
  changes since its last start, and the snapshots installed since.
* `applied_in_order_iff` — no index is passed over, except below an installed snapshot, in exactly
  the lives in which the changes applied at once fit their collection.
-/

set_option autoImplicit false

namespace MetalRaft

open Transition LogReplicationManager

/-! ## The log is where the apply loop looks -/

section

variable {P S : Type} [Storage S P] [LogStorage S P] {s : S}

/-- The batch of a log that reaches far enough has an entry for every index. -/
theorem indexes_batch (hs : LogStorage.Formed s) :
    ∀ {fuel i : Nat}, LogStorage.snapIndex s ≤ i → i + fuel ≤ Storage.lastLogIndex s →
      (batch s i fuel).map (·.1) = List.range' (i + 1) fuel
  | 0, _, _, _ => rfl
  | fuel + 1, i, hi, hle => by
    obtain ⟨e, he⟩ := LogStorage.exists_getEntry hs (i := i + 1) (by omega) (by omega)
    rw [batch_of_some he, List.map_cons, List.range'_succ,
      indexes_batch hs (i := i + 1) (by omega) (by omega)]

end

namespace RaftNode

variable {P S SM : Type} [Storage S P] [LogStorage S P] [StateMachine SM P] {R : Realization}
  {ev : Event P} {n₀ n n' : RaftNode P S SM}

/-- Nothing that is left to apply is compacted away, and nothing committed is left to apply. -/
structure Grounded (n : RaftNode P S SM) : Prop where
  formed : LogStorage.Formed n.storage
  covered : LogStorage.snapIndex n.storage ≤ n.replication.lastApplied
  applied : n.replication.commitIndex ≤ n.replication.lastApplied

omit [StateMachine SM P] in
theorem snapIndex_of_image {s s' : S}
    (h : LogStorage.image s' = LogStorage.image s) :
    LogStorage.snapIndex s' = LogStorage.snapIndex s := congrArg LogImage.snapIndex h

/-- What a move does to the snapshot's index, the commit index and the last applied index. -/
inductive IndexMove (n n' : RaftNode P S SM) : Prop
  | still (covered : LogStorage.snapIndex n'.storage = LogStorage.snapIndex n.storage)
      (committed : n'.replication.commitIndex = n.replication.commitIndex)
      (applied : n'.replication.lastApplied = n.replication.lastApplied)
  | commit (covered : LogStorage.snapIndex n'.storage = LogStorage.snapIndex n.storage)
      (committed : min (n.replication.commitIndex + 1) (Storage.lastLogIndex n.storage) ≤
        n'.replication.commitIndex)
      (applied : n'.replication.lastApplied = n.replication.lastApplied)
  | apply (covered : LogStorage.snapIndex n'.storage = LogStorage.snapIndex n.storage)
      (committed : n'.replication.commitIndex = n.replication.commitIndex)
      (applied : n'.replication.lastApplied = n.replication.lastApplied + 1)
  | compact (covered : LogStorage.snapIndex n'.storage = n.replication.commitIndex)
      (committed : n'.replication.commitIndex = n.replication.commitIndex)
      (applied : n'.replication.lastApplied = n.replication.lastApplied)
      (reached : n.replication.commitIndex ≤ n.replication.lastApplied)
  | install (committed : n'.replication.commitIndex =
        max n.replication.commitIndex (LogStorage.snapIndex n'.storage))
      (applied : n'.replication.lastApplied =
        max n.replication.lastApplied (LogStorage.snapIndex n'.storage))

theorem indexMove_of_move (hmove : Move R ev n₀ n n') (h : LogStorage.Formed n.storage) :
    IndexMove n n' := by
  cases hmove with
  | inert hi => exact .still (by rw [hi.storage]) (by rw [hi.replication]) (by rw [hi.replication])
  | adoptTerm => exact .still (snapIndex_of_image (LogStorage.image_cells _ _ _)) rfl rfl
  | campaign =>
    rw [broadcast_eq]
    exact .still (snapIndex_of_image (LogStorage.image_cells _ _ _)) rfl rfl
  | lead =>
    obtain ⟨hcommit, happlied, _⟩ := initializeLeaderState_counters (R := R) n.replication
      n.config.members n.storage
    exact .still rfl hcommit happlied
  | grant => exact .still (snapIndex_of_image (LogStorage.image_setVotedFor _ _)) rfl rfl
  | place => exact .still (LogStorage.snapIndex_placeEntries _ _ _) rfl rfl
  | learnCommit _ _ placed higher =>
    have hcommit : n.replication.commitIndex = n₀.replication.commitIndex := by rw [placed]; rfl
    have happlied : n.replication.lastApplied = n₀.replication.lastApplied := by rw [placed]; rfl
    refine .commit rfl ?_ happlied.symm
    show _ ≤ min _ (Storage.lastLogIndex n.storage)
    omega
  | applyNone | applyEntry => exact .apply rfl rfl rfl
  | applyChanges changes =>
    obtain ⟨hcommit, happlied⟩ := applyConfigChanges_counters (R := R) (n := n) changes
    exact .still rfl hcommit happlied
  | append => exact .still (LogStorage.snapIndex_appendEntries _ _) rfl rfl
  | record =>
    obtain ⟨hcommit, happlied⟩ := recorded_counters (R := R) n₀.replication _ _
    exact .still rfl hcommit happlied
  | recordSnapshot =>
    obtain ⟨hcommit, happlied⟩ := installResponse_counters (R := R) n₀.replication _ _ _
    exact .still rfl hcommit happlied
  | commit _ _ higher => exact .commit rfl ((Nat.min_le_left _ _).trans higher) rfl
  | compact _ _ _ found _ applied =>
    refine .compact ?_ rfl rfl (by omega)
    unfold createSnapshotInternal LogStorage.snapIndex
    rw [LogStorage.image_create h n.stateMachine found]
    rfl
  | storeChunk _ _ _ partly => exact .still (snapIndex_of_image (image_storeChunk partly)) rfl rfl
  | @install _ _ _ index term offset data _ _ _ _ ok =>
    obtain ⟨bytes, himage⟩ := image_install ok
    have hcovered := congrArg LogImage.snapIndex himage
    exact .install (congrArg (max _) hcovered.symm) (congrArg (max _) hcovered.symm)
  | _ => exact .still rfl rfl rfl

theorem covered_move (hmove : Move R ev n₀ n n') (h : LogStorage.Formed n.storage)
    (hcovered : LogStorage.snapIndex n.storage ≤ n.replication.lastApplied) :
    LogStorage.snapIndex n'.storage ≤ n'.replication.lastApplied := by
  cases indexMove_of_move hmove h <;> omega

/-- Whatever is not applied yet stays above the snapshot. -/
theorem covered_onEvent (R : Realization) (ev : Event P) (h : LogStorage.Formed n.storage)
    (hcovered : LogStorage.snapIndex n.storage ≤ n.replication.lastApplied) :
    LogStorage.Formed (n.onEvent R ev).storage ∧
      LogStorage.snapIndex (n.onEvent R ev).storage ≤ (n.onEvent R ev).replication.lastApplied := by
  have hmoves := onEvent_moves R n ev
  generalize n.onEvent R ev = n' at hmoves ⊢
  induction hmoves with
  | refl => exact ⟨h, hcovered⟩
  | tail _ hlast ih => exact ⟨formed_move hlast ih.1, covered_move hlast ih.1 ih.2⟩

theorem grounded_onEvent (h : n.Grounded) : (n.onEvent R ev).Grounded := by
  have hboth := covered_onEvent R ev h.formed h.covered
  refine ⟨hboth.1, hboth.2, ?_⟩
  have happlied := h.applied
  cases onEvent_commits R n ev with
  | nothing _ _ _ _ commitIndex lastApplied =>
    rw [commitIndex, lastApplied]
    exact happlied
  | installs _ _ _ _ _ _ _ _ commitIndex lastApplied =>
    rw [commitIndex, lastApplied]
    omega
  | @upTo _ c f _ _ _ _ _ lastApplied face =>
    have hcommit : (n.onEvent R ev).replication.commitIndex = c := congrArg Face.commitIndex face
    have hlast : (n.onEvent R ev).replication.lastApplied = max f.lastApplied c :=
      congrArg Face.lastApplied face
    omega

/-- A node that has just been started has applied what its snapshot covers. -/
theorem lastApplied_start (id : NodeId) (storage : S) (boot : Boot SM) :
    (start R id storage boot).replication.lastApplied = LogStorage.snapIndex storage := by
  unfold start newFromBuilder LogStorage.snapIndex LogImage.snapIndex
  dsimp only
  rw [LogStorage.loadSnapshot_eq]
  cases (LogStorage.image storage).snapshot <;> rfl

theorem grounded_start {id : NodeId} {storage : S} {boot : Boot SM}
    (h : LogStorage.Formed storage) : (start R id storage boot).Grounded :=
  ⟨h, (lastApplied_start id storage boot).ge, Nat.zero_le _⟩

/-- **Nothing left to apply is compacted away**, in every state of every life. -/
theorem grounded_of_lived [Restartable S] [FormedRestarts S] (h : n.Lived R) : n.Grounded :=
  h.invariant (I := Grounded)
    (fun _ storage _ hfresh => grounded_start (FormedRestarts.fresh storage hfresh))
    (fun _ _ hn => grounded_onEvent hn) (fun _ _ hn _ => ⟨hn.formed, hn.covered, hn.applied⟩)
    (fun _ _ _ hn hreopens => grounded_start (FormedRestarts.reopens _ _ hn.formed hreopens))

/-! ## What one event hands out -/

omit [StateMachine SM P] in
/-- The log that an event commits in begins where the old one does, and reaches as far as the event
commits. -/
theorem reaches_of_commitPoint (h : LogStorage.Formed n.storage) {s : S} {c : Nat}
    (hpoint : n.commitPoint R ev = some (s, c)) :
    LogStorage.Formed s ∧ LogStorage.snapIndex s = LogStorage.snapIndex n.storage ∧
      c ≤ Storage.lastLogIndex s := by
  have hsubmit : ∀ entryType, n.submitPoint R entryType = some (s, c) →
      LogStorage.Formed s ∧ LogStorage.snapIndex s = LogStorage.snapIndex n.storage ∧
        c ≤ Storage.lastLogIndex s := by
    intro entryType hsome
    unfold submitPoint at hsome
    dsimp only at hsome
    split at hsome
    · obtain ⟨c', hquorum, heq⟩ := Option.map_eq_some_iff.mp hsome
      cases heq
      have hformed := LogStorage.formed_appendEntries h [⟨n.currentTerm, entryType⟩]
      obtain ⟨_, e, he, _⟩ := quorumIndex_eq_some hquorum
      exact ⟨hformed, LogStorage.snapIndex_appendEntries _ _,
        (LogStorage.bounds_of_getEntry hformed he).2⟩
    · cases hsome
  unfold commitPoint at hpoint
  split at hpoint
  · dsimp only at hpoint
    split at hpoint
    · cases hpoint
      exact ⟨LogStorage.formed_placeEntries h _ _, LogStorage.snapIndex_placeEntries _ _ _,
        Nat.min_le_right _ _⟩
    · cases hpoint
  · split at hpoint
    · obtain ⟨c', hquorum, heq⟩ := Option.map_eq_some_iff.mp hpoint
      cases heq
      obtain ⟨_, e, he, _⟩ := quorumIndex_eq_some hquorum
      exact ⟨h, rfl, (LogStorage.bounds_of_getEntry h he).2⟩
    · cases hpoint
  · exact hsubmit _ hpoint
  · exact hsubmit _ hpoint
  · cases hpoint

omit [StateMachine SM P] in
/-- **Every lookup of the apply loop finds its entry.** -/
theorem lookups_succeed (h : n.Grounded) {s : S} {c i : Nat}
    (hpoint : n.commitPoint R ev = some (s, c)) (hi : n.replication.lastApplied < i) (hc : i ≤ c) :
    (Storage.getEntry s i).isSome := by
  obtain ⟨hformed, hsnap, hreach⟩ := reaches_of_commitPoint h.formed hpoint
  have hcovered := h.covered
  obtain ⟨e, he⟩ := LogStorage.exists_getEntry hformed (i := i) (by omega) (by omega)
  rw [he]
  rfl

omit [StateMachine SM P] in
/-- The entries that an event makes the node apply are those at the indexes above the last applied
one. -/
theorem newlyCommitted_indexes (h : n.Grounded) :
    (n.newlyCommitted R ev).map (·.1) =
      (n.commitPoint R ev).elim [] fun x =>
        List.range' (n.replication.lastApplied + 1) (x.2 - n.replication.lastApplied) := by
  cases hpoint : n.commitPoint R ev with
  | none =>
    rw [newlyCommitted_of_none hpoint]
    rfl
  | some x =>
    rw [newlyCommitted_of_some hpoint]
    obtain ⟨hformed, hsnap, hreach⟩ := reaches_of_commitPoint h.formed hpoint
    have hcovered := h.covered
    rcases Nat.lt_or_ge n.replication.lastApplied x.2 with hlt | hge
    · exact indexes_batch hformed (by omega) (by omega)
    · simp only [Option.elim_some, Nat.sub_eq_zero_of_le hge]
      rfl

omit [StateMachine SM P] [LogStorage S P] in
theorem bounds_of_newlyCommitted {s : S} {c : Nat} {x : Nat × LogEntry P}
    (hpoint : n.commitPoint R ev = some (s, c)) (hx : x ∈ n.newlyCommitted R ev) :
    n.replication.lastApplied < x.1 ∧ x.1 ≤ c ∧ Storage.getEntry s x.1 = some x.2 := by
  rw [newlyCommitted_of_some hpoint] at hx
  obtain ⟨hlt, hle, hget⟩ := mem_batch hx
  exact ⟨hlt, by omega, hget⟩

omit [StateMachine SM P] in
/-- Everything between the last applied index and the commit index is applied. -/
theorem exists_newlyCommitted (h : n.Grounded) {s : S} {c j : Nat}
    (hpoint : n.commitPoint R ev = some (s, c)) (hlt : n.replication.lastApplied < j)
    (hle : j ≤ c) : ∃ entry, (j, entry) ∈ n.newlyCommitted R ev := by
  have hindex : j ∈ (n.newlyCommitted R ev).map (·.1) := by
    rw [newlyCommitted_indexes h, hpoint]
    exact List.mem_range'_1.mpr (by simp only; omega)
  obtain ⟨x, hx, rfl⟩ := List.mem_map.mp hindex
  exact ⟨x.2, hx⟩

omit [StateMachine SM P] in
theorem sorted_newlyCommitted (h : n.Grounded) :
    ((n.newlyCommitted R ev).map (·.1)).Pairwise (· < ·) := by
  rw [newlyCommitted_indexes h]
  cases n.commitPoint R ev with
  | none => exact List.Pairwise.nil
  | some x => exact List.pairwise_lt_range'

omit [StateMachine SM P] in
theorem nodup_newlyCommitted (h : n.Grounded) : ((n.newlyCommitted R ev).map (·.1)).Nodup :=
  (sorted_newlyCommitted h).imp Nat.ne_of_lt

/-- The configuration changes that a leader without peers gets for an entry that it appends. -/
def emittedAlone (R : Realization) (n : RaftNode P S SM) (entryType : EntryType P) :
    ConfigChangeCollection :=
  if n.role = .leader ∧ n.config.members.length ≤ 1 then
    (n.replication.advanceCommitIndex R
      (Storage.appendEntries n.storage [⟨n.currentTerm, entryType⟩]) n.stateMachine n.config n.id
      n.observer).configChanges
  else []

/-- The configuration changes that the handler of an event gets from the replication manager. -/
def emitted (R : Realization) (n : RaftNode P S SM) : Event P → ConfigChangeCollection
  | .message _ (.appendEntries term prev pt es lc) =>
    if n.currentTerm < term then []
    else (n.replication.handleAppendEntries R term prev pt es lc n.currentTerm n.storage
      n.stateMachine n.role n.observer).configChanges
  | .message sender (.appendEntriesResponse term success m) =>
    if n.role = .leader ∧ term = n.currentTerm then
      (n.replication.handleAppendEntriesResponse R sender success m n.storage n.stateMachine
        n.config n.id n.observer).configChanges
    else []
  | .clientCommand payload => n.emittedAlone R (.command payload)
  | .configChange change => n.emittedAlone R (.configChange change)
  | _ => []

omit [LogStorage S P] in
theorem emitted_of_advance {r : LogReplicationManager} {s : S} :
    (r.advanceCommitIndex R s n.stateMachine n.config n.id n.observer).configChanges =
      Face.collected R (((r.quorumIndex R s n.config n.id).map (s, ·)).elim [] fun x =>
        batch x.1 r.lastApplied (x.2 - r.lastApplied)) := by
  rw [advanceCommitIndex_eq]
  cases r.quorumIndex R s n.config n.id with
  | none => rfl
  | some c =>
    dsimp only
    rw [applyCommittedEntries_eq]
    rfl

omit [LogStorage S P] in
theorem emittedAlone_eq (entryType : EntryType P) :
    n.emittedAlone R entryType =
      Face.collected R ((n.submitPoint R entryType).elim [] fun x =>
        batch x.1 n.replication.lastApplied (x.2 - n.replication.lastApplied)) := by
  unfold emittedAlone submitPoint
  dsimp only
  split
  · exact emitted_of_advance
  · rfl

omit [LogStorage S P] in
theorem emitted_appendEntries {sender : NodeId} {term prev pt : Nat} {es : List (LogEntry P)}
    {lc : Nat} :
    n.emitted R (.message sender (.appendEntries term prev pt es lc)) =
      Face.collected R
        (n.newlyCommitted R (.message sender (.appendEntries term prev pt es lc))) := by
  by_cases hpoint : term = n.currentTerm ∧ checkLogConsistency prev pt n.storage = true ∧
      n.replication.commitIndex < lc
  · have hsome : n.commitPoint R (.message sender (.appendEntries term prev pt es lc)) =
        some (placeEntries prev es n.storage,
          min lc (Storage.lastLogIndex (placeEntries prev es n.storage))) := if_pos hpoint
    obtain ⟨rfl, hc, hlc⟩ := hpoint
    have hcheck : ¬ checkLogConsistency prev pt n.storage = false := by simp [hc]
    unfold emitted newlyCommitted
    dsimp only
    rw [if_neg (Nat.lt_irrefl _), handleAppendEntries_of_eq, hsome]
    unfold tryAppendEntries
    dsimp only
    rw [if_neg hcheck, if_pos hlc, applyCommittedEntries_eq]
    rfl
  · have hnone : n.commitPoint R (.message sender (.appendEntries term prev pt es lc)) = none :=
      if_neg hpoint
    unfold emitted newlyCommitted
    rw [hnone]
    dsimp only
    split
    · rfl
    · rename_i hle
      rcases Nat.lt_or_eq_of_le (Nat.not_lt.mp hle) with hlt | rfl
      · rw [handleAppendEntries_of_lt hlt]
        rfl
      · rw [handleAppendEntries_of_eq]
        unfold tryAppendEntries
        dsimp only
        split
        · rfl
        · rename_i hcheck
          rw [if_neg fun hlc => hpoint ⟨rfl, by simpa using hcheck, hlc⟩]
          rfl

omit [LogStorage S P] in
theorem emitted_appendEntriesResponse {sender : NodeId} {term : Nat} {success : Bool} {m : Nat} :
    n.emitted R (.message sender (.appendEntriesResponse term success m)) =
      Face.collected R
        (n.newlyCommitted R (.message sender (.appendEntriesResponse term success m))) := by
  unfold emitted newlyCommitted commitPoint
  dsimp only
  by_cases hleader : n.role = .leader ∧ term = n.currentTerm
  · rw [if_pos hleader]
    unfold LogReplicationManager.handleAppendEntriesResponse
    cases success with
    | false =>
      simp only [Bool.false_eq_true, false_and, and_false, if_false]
      split <;> rfl
    | true =>
      rw [if_pos rfl]
      dsimp only
      by_cases hmatch : (n.replication.matchIndex.get sender).getD 0 < m
      · rw [if_pos hmatch, if_pos ⟨hleader.1, hleader.2, rfl, hmatch⟩]
        have hcounters := recorded_counters (R := R) n.replication sender m
        refine (emitted_of_advance (r := n.replication.recorded R sender m)).trans ?_
        rw [hcounters.2]
      · rw [if_neg hmatch, if_neg fun h => hmatch h.2.2.2]
        rfl
  · rw [if_neg hleader, if_neg fun h => hleader ⟨h.1, h.2.1⟩]
    rfl

omit [LogStorage S P] in
/-- The changes that come out of the apply loop are those it found, as far as they fit. -/
theorem emitted_eq (R : Realization) (n : RaftNode P S SM) (ev : Event P) :
    n.emitted R ev = Face.collected R (n.newlyCommitted R ev) := by
  cases ev with
  | timerFired => rfl
  | clientCommand payload => exact emittedAlone_eq _
  | configChange change => exact emittedAlone_eq _
  | message sender msg =>
    cases msg with
    | appendEntries => exact emitted_appendEntries
    | appendEntriesResponse => exact emitted_appendEntriesResponse
    | _ => rfl

/-- The indexes of the commands that an event hands to the state machine and of the configuration
changes that it emits, in the order of the apply loop. -/
def handsOut (R : Realization) (n : RaftNode P S SM) (ev : Event P) : List Nat :=
  (((n.onEvent R ev).observer.applied.drop n.observer.applied.length).filter fun x =>
    x.2.change.isNone || ((n.emitted R ev).map (·.1)).contains x.1).map (·.1)

omit [LogStorage S P] [StateMachine SM P] in
/-- The last index of the snapshot that an event installs. -/
def installsUpTo (n : RaftNode P S SM) : Event P → Option Nat
  | .message _ (.installSnapshot T _ index term offset data true) =>
    if n.currentTerm ≤ T ∧ alreadyCovered index (n.storageIn T) = false ∧
        (Storage.applySnapshotChunk (n.storageIn T) offset data true index term).2.isOk then
      some index
    else none
  | _ => none

omit [LogStorage S P] in
theorem applied_since (R : Realization) (n : RaftNode P S SM) (ev : Event P) :
    (n.onEvent R ev).observer.applied.drop n.observer.applied.length = n.newlyCommitted R ev := by
  have hquiet : n.commitPoint R ev = none → (n.onEvent R ev).observer = n.observer →
      (n.onEvent R ev).observer.applied.drop n.observer.applied.length =
        n.newlyCommitted R ev := by
    intro hpoint hobserver
    rw [newlyCommitted_of_none hpoint, hobserver, List.drop_length]
  cases onEvent_commits R n ev with
  | nothing point _ observer => exact hquiet point observer
  | installs asked _ _ _ _ _ _ observer => exact hquiet (by rw [asked]; rfl) observer
  | upTo _ _ _ observer _ _ face =>
    have happlied : (n.onEvent R ev).observer.applied = _ :=
      congrArg (fun f => f.observer.applied) face
    rw [happlied]
    unfold Face.commit
    dsimp only
    rw [observer, List.drop_left]

omit [Storage S P] [LogStorage S P] [StateMachine SM P] in
theorem changesIn_sublist (b : List (Nat × LogEntry P)) :
    ((changesIn b).map (·.1)).Sublist (b.map (·.1)) := by
  induction b with
  | nil => exact .slnil
  | cons x b ih =>
    have hcons : changesIn (x :: b) = (x.2.change.map (x.1, ·)).toList ++ changesIn b := by
      unfold changesIn
      rw [List.filterMap_cons]
      cases x.2.change <;> rfl
    rw [hcons]
    cases x.2.change with
    | none => exact ih.cons _
    | some change => exact ih.cons_cons _

/-- The changes that an event makes the node apply fit their collection. -/
def ChangesFit (R : Realization) (n : RaftNode P S SM) (ev : Event P) : Prop :=
  ∀ cap ∈ R.configChanges, (changesIn (n.newlyCommitted R ev)).length ≤ cap

omit [LogStorage S P] in
theorem mem_handsOut {i : Nat} : i ∈ n.handsOut R ev ↔
    ∃ e, (i, e) ∈ n.newlyCommitted R ev ∧ (e.change = none ∨
      i ∈ (Face.collected R (n.newlyCommitted R ev)).map (·.1)) := by
  unfold handsOut
  rw [applied_since, emitted_eq]
  simp only [List.mem_map, List.mem_filter, Bool.or_eq_true, Option.isNone_iff_eq_none,
    List.contains_iff_mem]
  constructor
  · rintro ⟨⟨j, e⟩, ⟨hmem, hout⟩, rfl⟩
    exact ⟨e, hmem, hout⟩
  · rintro ⟨e, hmem, hout⟩
    exact ⟨(i, e), ⟨hmem, hout⟩, rfl⟩

omit [LogStorage S P] in
theorem handsOut_sublist : (n.handsOut R ev).Sublist ((n.newlyCommitted R ev).map (·.1)) := by
  unfold handsOut
  rw [applied_since]
  exact (List.filter_sublist).map _

omit [LogStorage S P] in
/-- Where the changes fit, everything that is applied is handed out. -/
theorem mem_handsOut_of_fit (h : n.ChangesFit R ev) {i : Nat}
    (hi : i ∈ (n.newlyCommitted R ev).map (·.1)) : i ∈ n.handsOut R ev := by
  obtain ⟨⟨j, e⟩, hmem, rfl⟩ := List.mem_map.mp hi
  refine mem_handsOut.mpr ⟨e, hmem, ?_⟩
  have hall : Face.collected R (n.newlyCommitted R ev) = changesIn (n.newlyCommitted R ev) := by
    unfold Face.collected
    rw [foldl_pushWithin_eq, List.nil_append]
    refine fitting_eq_self fun cap hcap => ?_
    have := h cap hcap
    simpa using this
  cases hchange : e.change with
  | none => exact Or.inl rfl
  | some change =>
    refine Or.inr (List.mem_map.mpr ⟨(j, change), ?_, rfl⟩)
    rw [hall]
    exact mem_changesIn.mpr ⟨e, hmem, hchange⟩

/-- Where they do not, an index that is applied is not handed out. -/
theorem not_mem_handsOut_of_overflow (hground : n.Grounded) (h : ¬ n.ChangesFit R ev) :
    ∃ i ∈ (n.newlyCommitted R ev).map (·.1), i ∉ n.handsOut R ev := by
  unfold ChangesFit at h
  push Not at h
  obtain ⟨cap, hcap, hlt⟩ := h
  have hnodup : ((n.newlyCommitted R ev).map (·.1)).Nodup := nodup_newlyCommitted hground
  generalize hb : n.newlyCommitted R ev = b at hlt hnodup ⊢
  have hcollected : Face.collected R b = (changesIn b).take cap := by
    unfold Face.collected
    rw [foldl_pushWithin_eq, List.nil_append, Option.mem_def.mp hcap]
    rfl
  -- the first change that finds the collection full
  obtain ⟨x, hx⟩ : ∃ x, x ∈ (changesIn b).drop cap :=
    List.exists_mem_of_ne_nil _ (by simpa using hlt)
  obtain ⟨e, hmem, hchange⟩ := mem_changesIn.mp (List.mem_of_mem_drop hx)
  refine ⟨x.1, List.mem_map.mpr ⟨_, hmem, rfl⟩, fun hout => ?_⟩
  obtain ⟨e', hmem', hout⟩ := mem_handsOut.mp hout
  rw [hb] at hmem' hout
  rcases hout with hnone | hin
  · have heq := List.inj_on_of_nodup_map hnodup hmem' hmem rfl
    rw [Prod.mk.injEq] at heq
    rw [heq.2, hchange] at hnone
    cases hnone
  · have hkeys := hnodup.sublist (changesIn_sublist b)
    rw [← List.take_append_drop cap (changesIn b), List.map_append] at hkeys
    rw [hcollected] at hin
    exact (List.nodup_append.mp hkeys).2.2 _ hin _ (List.mem_map_of_mem hx) rfl

/-- Every index between the last applied one and that after the event is handed out, or it lies
below a snapshot that the event installs. -/
theorem passesOver_iff (h : n.Grounded) :
    (∀ i, n.replication.lastApplied < i → i ≤ (n.onEvent R ev).replication.lastApplied →
        i ∈ n.handsOut R ev ∨ ∃ index ∈ n.installsUpTo ev, i ≤ index) ↔ n.ChangesFit R ev := by
  have hquiet : n.commitPoint R ev = none → n.ChangesFit R ev := by
    intro hpoint cap _
    rw [newlyCommitted_of_none hpoint]
    exact Nat.zero_le _
  cases onEvent_commits R n ev with
  | nothing point _ _ _ _ lastApplied =>
    rw [lastApplied]
    exact iff_of_true (fun i hlt hle => by omega) (hquiet point)
  | @installs _ _ T index term offset data result asked reached fresh stored ok _ _ _ _ lastApplied =>
    refine iff_of_true (fun i hlt hle => Or.inr ⟨index, ?_, ?_⟩) (hquiet (by rw [asked]; rfl))
    · rw [asked]
      rw [stored] at ok
      exact if_pos ⟨reached, fresh, by rw [ok]; rfl⟩
    · rw [lastApplied] at hle
      omega
  | @upTo s c f point _ _ _ _ lastApplied face =>
    have hlast : (n.onEvent R ev).replication.lastApplied = max f.lastApplied c :=
      congrArg Face.lastApplied face
    have hindexes : (n.newlyCommitted R ev).map (·.1) = _ := newlyCommitted_indexes h
    rw [point] at hindexes
    dsimp only [Option.elim_some] at hindexes
    have hinstalls : n.installsUpTo ev = none := by
      cases ev with
      | message sender msg =>
        cases msg with
        | installSnapshot => cases point
        | _ => rfl
      | _ => rfl
    rw [hinstalls, hlast, lastApplied]
    constructor
    · intro hall
      by_contra hoverflow
      obtain ⟨i, hi, hnot⟩ := not_mem_handsOut_of_overflow h hoverflow
      rw [hindexes, List.mem_range'_1] at hi
      rcases hall i (by omega) (by omega) with hout | ⟨_, hnone, _⟩
      · exact hnot hout
      · cases hnone
    · intro hfit i hlt hle
      refine Or.inl (mem_handsOut_of_fit hfit ?_)
      rw [hindexes, List.mem_range'_1]
      omega

end RaftNode

/-! ## Lives -/

open RaftNode

/-- A node, and the indexes that it has handed out since its last start. -/
structure Chronicle (P S SM : Type) where
  node : RaftNode P S SM
  handed : List Nat

namespace Chronicle

variable {P S SM : Type} [Storage S P] [LogStorage S P] [StateMachine SM P] {R : Realization}
  {w : Chronicle P S SM} {t : RaftNode.Turn P S SM}

def start (R : Realization) (id : NodeId) (storage : S) (boot : Boot SM) : Chronicle P S SM :=
  ⟨RaftNode.start R id storage boot, []⟩

def turn (R : Realization) (w : Chronicle P S SM) (t : RaftNode.Turn P S SM) :
    Chronicle P S SM where
  node := w.node.turn R t
  handed :=
    match t with
    | .restart _ _ => []
    | _ => w.handed ++ ((w.node.asEvent t).map (w.node.handsOut R)).getD []

/-- What a turn must not break. -/
structure InOrder (R : Realization) (w : Chronicle P S SM) (t : RaftNode.Turn P S SM) : Prop where
  increasing : (w.turn R t).handed.Pairwise (· < ·)
  passes : ∀ ev ∈ w.node.asEvent t, ∀ i, w.node.replication.lastApplied < i →
    i ≤ (w.turn R t).node.replication.lastApplied →
    i ∈ w.node.handsOut R ev ∨ ∃ index ∈ w.node.installsUpTo ev, i ≤ index
  lookups : ∀ ev ∈ w.node.asEvent t, ∀ s c, w.node.commitPoint R ev = some (s, c) →
    ∀ i, w.node.replication.lastApplied < i → i ≤ c → (Storage.getEntry s i).isSome
  first : Storage.firstLogIndex (w.turn R t).node.storage ≤
    (w.turn R t).node.replication.lastApplied + 1
  committed : (w.turn R t).node.replication.commitIndex ≤
    (w.turn R t).node.replication.lastApplied
  restarted : ∀ storage boot, t = .restart storage boot →
    (w.turn R t).node.replication.lastApplied = LogStorage.snapIndex storage

/-- Whatever was handed out lies at or below the last applied index, in increasing order. -/
structure Ordered (w : Chronicle P S SM) : Prop where
  grounded : w.node.Grounded
  increasing : w.handed.Pairwise (· < ·)
  below : ∀ i ∈ w.handed, i ≤ w.node.replication.lastApplied

theorem ordered_start {id : NodeId} {storage : S} {boot : Boot SM}
    (h : LogStorage.Formed storage) : (start R id storage boot).Ordered :=
  ⟨grounded_start h, .nil, fun _ hi => (by cases hi)⟩

omit [LogStorage S P] in
/-- A turn is a restart, or nothing happens, or an event is handled and its indexes are added. -/
theorem chronicle_cases (R : Realization) (w : Chronicle P S SM) (t : RaftNode.Turn P S SM) :
    (∃ storage boot, t = .restart storage boot) ∨
      (w.node.asEvent t = none ∧ (∀ storage boot, t ≠ .restart storage boot) ∧ w.turn R t = w) ∨
      ∃ ev m, w.node.asEvent t = some ev ∧
        w.turn R t = ⟨{ w.node.onEvent R ev with configManager := m },
          w.handed ++ w.node.handsOut R ev⟩ := by
  rcases turn_cases R w.node t with hrestart | ⟨hnone, heq⟩ | ⟨ev, m, hsome, heq, _⟩
  · exact Or.inl hrestart
  · cases t with
    | restart storage boot => exact Or.inl ⟨storage, boot, rfl⟩
    | _ =>
      refine Or.inr (Or.inl ⟨hnone, fun _ _ h => (by cases h), ?_⟩)
      unfold turn
      rw [heq, hnone]
      simp
  · cases t with
    | restart storage boot => exact Or.inl ⟨storage, boot, rfl⟩
    | _ =>
      refine Or.inr (Or.inr ⟨ev, m, hsome, ?_⟩)
      unfold turn
      rw [heq, hsome]
      rfl

omit [LogStorage S P] in
theorem lastApplied_le_onEvent (R : Realization) (n : RaftNode P S SM) (ev : Event P) :
    n.replication.lastApplied ≤ (n.onEvent R ev).replication.lastApplied := by
  cases onEvent_commits R n ev with
  | nothing _ _ _ _ _ lastApplied => exact lastApplied.ge
  | installs _ _ _ _ _ _ _ _ _ lastApplied => exact (Nat.le_max_left _ _).trans_eq lastApplied.symm
  | @upTo _ c f _ _ _ _ _ lastApplied face =>
    have hlast : (n.onEvent R ev).replication.lastApplied = max f.lastApplied c :=
      congrArg Face.lastApplied face
    omega

/-- What is handed out lies above what was applied before and not above what is applied then. -/
theorem bounds_of_handsOut {n : RaftNode P S SM} {ev : Event P} {i : Nat} (h : n.Grounded)
    (hi : i ∈ n.handsOut R ev) : n.replication.lastApplied < i ∧
      i ≤ (n.onEvent R ev).replication.lastApplied := by
  have hmem := handsOut_sublist.subset hi
  rw [newlyCommitted_indexes h] at hmem
  cases onEvent_commits R n ev with
  | nothing point =>
    rw [point] at hmem
    cases hmem
  | installs asked =>
    have hnone : n.commitPoint R ev = none := by rw [asked]; rfl
    rw [hnone] at hmem
    cases hmem
  | @upTo s c f point _ _ _ _ lastApplied face =>
    have hlast : (n.onEvent R ev).replication.lastApplied = max f.lastApplied c :=
      congrArg Face.lastApplied face
    rw [point] at hmem
    dsimp only [Option.elim_some] at hmem
    rw [List.mem_range'_1] at hmem
    omega

theorem ordered_turn [Restartable S] [FormedRestarts S] (h : w.Ordered)
    (hok : KeepsStorage w.node t) : (w.turn R t).Ordered := by
  rcases chronicle_cases R w t with ⟨storage, boot, rfl⟩ | ⟨_, _, heq⟩ | ⟨ev, m, _, heq⟩
  · exact ordered_start (FormedRestarts.reopens _ _ h.grounded.formed hok)
  · rw [heq]
    exact h
  · rw [heq]
    have hground : (w.node.onEvent R ev).Grounded := grounded_onEvent h.grounded
    refine ⟨⟨hground.formed, hground.covered, hground.applied⟩, ?_, fun i hi => ?_⟩
    · refine List.pairwise_append.mpr ⟨h.increasing, ?_, fun i hi j hj => ?_⟩
      · exact (sorted_newlyCommitted h.grounded).sublist handsOut_sublist
      · exact Nat.lt_of_le_of_lt (h.below i hi) (bounds_of_handsOut h.grounded hj).1
    · rcases List.mem_append.mp hi with hi | hi
      · exact (h.below i hi).trans (lastApplied_le_onEvent R w.node ev)
      · exact (bounds_of_handsOut h.grounded hi).2

/-- The changes that a turn makes the node apply fit their collection. -/
def ChangesFitIn (R : Realization) (w : Chronicle P S SM) (t : RaftNode.Turn P S SM) : Prop :=
  ∀ ev ∈ w.node.asEvent t, w.node.ChangesFit R ev

theorem inOrder_iff [Restartable S] [FormedRestarts S] (h : w.Ordered)
    (hok : KeepsStorage w.node t) : w.InOrder R t ↔ w.ChangesFitIn R t := by
  have hnext := ordered_turn (R := R) h hok
  have hfirst : Storage.firstLogIndex (w.turn R t).node.storage ≤
      (w.turn R t).node.replication.lastApplied + 1 := by
    rw [LogStorage.firstLogIndex_of_formed hnext.grounded.formed]
    exact Nat.succ_le_succ hnext.grounded.covered
  have hlookups : ∀ ev ∈ w.node.asEvent t, ∀ s c, w.node.commitPoint R ev = some (s, c) →
      ∀ i, w.node.replication.lastApplied < i → i ≤ c → (Storage.getEntry s i).isSome :=
    fun _ _ _ _ hpoint _ hi hc => lookups_succeed h.grounded hpoint hi hc
  have hrestarted : ∀ storage boot, t = .restart storage boot →
      (w.turn R t).node.replication.lastApplied = LogStorage.snapIndex storage := by
    rintro storage boot rfl
    exact lastApplied_start _ storage boot
  have hpasses : (∀ ev ∈ w.node.asEvent t, ∀ i, w.node.replication.lastApplied < i →
      i ≤ (w.turn R t).node.replication.lastApplied →
      i ∈ w.node.handsOut R ev ∨ ∃ index ∈ w.node.installsUpTo ev, i ≤ index) ↔
      w.ChangesFitIn R t := by
    unfold ChangesFitIn
    rcases chronicle_cases R w t with ⟨storage, boot, rfl⟩ | ⟨hnone, _, _⟩ | ⟨ev, m, hsome, heq⟩
    · exact iff_of_true (fun _ hev => (by cases hev)) fun _ hev => (by cases hev)
    · rw [hnone]
      exact iff_of_true (fun _ hev => (by cases hev)) fun _ hev => (by cases hev)
    · rw [hsome, heq]
      constructor
      · rintro hall _ ⟨⟩
        exact (passesOver_iff h.grounded).mp (hall ev rfl)
      · rintro hfit _ ⟨⟩
        exact (passesOver_iff h.grounded).mpr (hfit ev rfl)
  constructor
  · exact fun horder => hpasses.mp horder.passes
  · exact fun hfit => ⟨hnext.increasing, hpasses.mpr hfit, hlookups, hfirst,
      hnext.grounded.applied, hrestarted⟩

/-- **No index is skipped or applied twice**, over every storage and either family of collections:
in every turn of a life the indexes handed out since the last start increase, those passed over lie
below an installed snapshot, the apply loop finds every entry, and log and counters stay together,
if and only if in every turn the configuration changes applied at once fit their collection. -/
theorem applied_in_order_iff [Restartable S] [FormedRestarts S] {id : NodeId} {storage : S}
    {boot : Boot SM} {turns : List (RaftNode.Turn P S SM)} (hfresh : Restartable.Fresh storage)
    (h : Admitted (turn R) (fun w t => KeepsStorage w.node t) (start R id storage boot) turns) :
    Admitted (turn R) (fun w t => w.InOrder R t) (start R id storage boot) turns ↔
      Admitted (turn R) (fun w t => w.ChangesFitIn R t) (start R id storage boot) turns :=
  Admitted.congr_of_invariant (I := Ordered) (fun _ _ hw hok => inOrder_iff hw hok)
    (fun _ _ hw hok _ => ordered_turn hw hok)
    (ordered_start (FormedRestarts.fresh storage hfresh)) h

/-- A follower that is started again applies two entries, installs a snapshot of five and goes on
behind it. -/
def followerTurns : List (RaftNode.Turn UInt8 (InMemoryStorage UInt8) Adder) :=
  [.restart .new trioBoot, .event (.message 2 (.requestVote 1 2 0 0)),
    .event (.message 2
      (.appendEntries 1 0 0 [⟨1, .command 7⟩, ⟨1, .configChange (.addServer 4)⟩] 2)),
    .event (.message 2 (.installSnapshot 1 2 5 1 0 [9] true)),
    .event (.message 2 (.appendEntries 1 5 1 [⟨1, .command 8⟩] 6))]

theorem applied_in_order_iff_follower :
    Admitted (turn .testUtils) (fun w t => w.InOrder .testUtils t)
        (start .testUtils 1 (InMemoryStorage.new (P := UInt8)) trioBoot) followerTurns ↔
      Admitted (turn .testUtils) (fun w t => w.ChangesFitIn .testUtils t)
        (start .testUtils 1 (InMemoryStorage.new (P := UInt8)) trioBoot) followerTurns :=
  applied_in_order_iff rfl ⟨rfl, trivial, trivial, trivial, trivial, trivial⟩

/-- Eleven changes that a device commits at once. -/
def elevenChanges : Event UInt8 :=
  .message 2 (.appendEntries 1 0 0
    ((List.range 11).map fun k => ⟨1, .configChange (.addServer (k + 4))⟩) 11)

/-- The eleventh change is neither applied nor emitted. -/
theorem eleventh_change_skipped :
    ¬ ∀ turns : List (RaftNode.Turn UInt8 (EmbassyStorage UInt8) Adder),
      Admitted (turn .embassy) (fun w t => KeepsStorage w.node t)
        (start .embassy 1 EmbassyStorage.new trioBoot) turns →
      Admitted (turn .embassy) (fun w t => w.InOrder .embassy t)
        (start .embassy 1 EmbassyStorage.new trioBoot) turns := by
  intro h
  obtain ⟨_, horder, _⟩ := h [.event (.message 2 (.requestVote 1 2 0 0)), .event elevenChanges]
    ⟨trivial, trivial, trivial⟩
  rcases horder.passes elevenChanges rfl 11 (by decide +kernel) (by decide +kernel) with
    hout | ⟨index, hindex, _⟩
  · revert hout
    decide +kernel
  · cases hindex

end Chronicle

end MetalRaft
