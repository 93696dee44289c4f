import MetalRaft.ApplyOrder
import MetalRaft.Install
import MetalRaft.Placement

/-!
# Requests that overlap, and requests in parts

* `AppendRule` — a request that brings nothing new changes nothing, and entries go only from a
  conflict on; `append_rule_iff` says which requests are treated so.
* `split_request_same` — a request handled in two parts comes to the same as in one.
-/

set_option autoImplicit false

namespace MetalRaft

open LogReplicationManager

variable {P S SM : Type} [Storage S P] [LogStorage S P]

/-! ## Entries that stay -/

section

variable {s : S} {prev pt i j : Nat} {es : List (LogEntry P)} {e : LogEntry P}

/-- Log and request have entries of different terms at an index. -/
def Conflict (s : S) (prev : Nat) (es : List (LogEntry P)) (i : Nat) : Prop :=
  ∃ k x e, i = prev + 1 + k ∧ es[k]? = some x ∧ Storage.getEntry s i = some e ∧ e.term ≠ x.term

/-- The log has entries of the same terms for all those of the request. -/
def HoldsTerms (s : S) (prev : Nat) (es : List (LogEntry P)) : Prop :=
  ∀ k x, es[k]? = some x → (Storage.getEntry s (prev + 1 + k)).map (·.term) = some x.term

/-- A request whose terms the log holds changes nothing, and any other removes entries only from
the first conflict on. -/
structure AppendRule (s s' : S) (prev : Nat) (es : List (LogEntry P)) : Prop where
  idempotent : HoldsTerms s prev es → ∀ j, Storage.getEntry s' j = Storage.getEntry s j
  kept : ∀ j e, Storage.getEntry s j = some e → (∀ i ≤ j, ¬ Conflict s prev es i) →
    Storage.getEntry s' j = some e

/-- The request brings this very entry for an index: its entries count from `prev`, or from the
snapshot where that reaches further, as far as the log has room for them. -/
def Carries (s : S) (prev : Nat) (es : List (LogEntry P)) (j : Nat) (e : LogEntry P) : Prop :=
  (fitting (LogStorage.capacity S) (prev - LogStorage.snapIndex s) es)[
    j - (max prev (LogStorage.snapIndex s) + 1)]? = some e

omit [LogStorage S P] in
theorem not_conflict_of_holdsTerms (h : HoldsTerms s prev es) (i : Nat) :
    ¬ Conflict s prev es i := by
  rintro ⟨k, x, e, rfl, hx, he, hne⟩
  have hterm := h k x hx
  rw [he] at hterm
  simp at hterm
  exact hne hterm

/-- A log that holds the terms of a request reaches as far as the request. -/
theorem bounds_of_holdsTerms (hs : LogStorage.Formed s) (h : HoldsTerms s prev es) (hne : es ≠ []) :
    LogStorage.snapIndex s ≤ prev ∧ prev + es.length ≤ Storage.lastLogIndex s := by
  have hheld : ∀ k < es.length,
      LogStorage.snapIndex s < prev + 1 + k ∧ prev + 1 + k ≤ Storage.lastLogIndex s := by
    intro k hk
    obtain ⟨e, he, _⟩ := Option.map_eq_some_iff.mp (h k _ (List.getElem?_eq_getElem hk))
    exact LogStorage.bounds_of_getEntry hs he
  have hpos := List.length_pos_of_ne_nil hne
  have hfirst := hheld 0 hpos
  have hlast := hheld (es.length - 1) (by omega)
  omega

/-- The log part of an accepted request follows the rule exactly if the request is empty or brings
everything that it must not remove. -/
theorem appendRule_iff (hs : LogStorage.Formed s) (hprev : prev ≤ Storage.lastLogIndex s) :
    AppendRule s (placeEntries prev es s) prev es ↔
      es = [] ∨ ∀ j e, prev < j → Storage.getEntry s j = some e →
        (∀ i ≤ j, ¬ Conflict s prev es i) → Carries s prev es j e := by
  rcases eq_or_ne es [] with rfl | hne
  · exact iff_of_true ⟨fun _ _ => rfl, fun _ _ he _ => he⟩ (Or.inl rfl)
  have hget := LogStorage.getEntry_placeEntries hs hprev hne
  have habove : ∀ j e, prev < j → Storage.getEntry s j = some e →
      (Storage.getEntry (placeEntries prev es s) j = some e ↔ Carries s prev es j e) := by
    intro j e hj he
    have hb := LogStorage.bounds_of_getEntry hs he
    rw [hget, if_neg (by omega), if_neg (by omega)]
    rfl
  constructor
  · intro hrule
    exact Or.inr fun j e hj he hclear => (habove j e hj he).mp (hrule.kept j e he hclear)
  · rintro (rfl | hcarries)
    · exact absurd rfl hne
    have hkept : ∀ j e, Storage.getEntry s j = some e → (∀ i ≤ j, ¬ Conflict s prev es i) →
        Storage.getEntry (placeEntries prev es s) j = some e := by
      intro j e he hclear
      rcases Nat.lt_or_ge prev j with hj | hj
      · exact (habove j e hj he).mpr (hcarries j e hj he hclear)
      · rw [hget, if_pos hj]
        exact he
    refine ⟨fun hholds j => ?_, hkept⟩
    cases he : Storage.getEntry s j with
    | some e => exact hkept j e he fun i _ => not_conflict_of_holdsTerms hholds i
    | none =>
      rw [hget]
      split
      · exact he
      · split
        · rfl
        · -- an entry there would be one that the log holds
          have hb := bounds_of_holdsTerms hs hholds hne
          rw [List.getElem?_eq_none_iff]
          by_contra hlt
          have hlen : (fitting (LogStorage.capacity S) (prev - LogStorage.snapIndex s) es).length ≤
              es.length := by
            unfold fitting
            split
            · exact Nat.le_refl _
            · simp
          obtain ⟨e, hsome⟩ := LogStorage.exists_getEntry hs (i := j) (by omega) (by omega)
          rw [he] at hsome
          cases hsome

end

variable [StateMachine SM P]

namespace RaftNode

/-- **An accepted request changes nothing that it need not** if and only if it is empty or brings,
as they are, all the entries above `prev` that the log holds before the first conflict.  On every
storage, in every state of every life of a node. -/
theorem append_rule_iff [Restartable S] [FormedRestarts S] {R : Realization} {n : RaftNode P S SM}
    {prev pt lc : Nat} {es : List (LogEntry P)} (h : n.Lived R)
    (haccepted : (n.replication.tryAppendEntries R prev pt es lc n.storage n.stateMachine
      n.observer).configChanges.isSome) :
    AppendRule n.storage (n.replication.tryAppendEntries R prev pt es lc n.storage n.stateMachine
        n.observer).storage prev es ↔
      es = [] ∨ ∀ j e, prev < j → Storage.getEntry n.storage j = some e →
        (∀ i ≤ j, ¬ Conflict n.storage prev es i) → Carries n.storage prev es j e := by
  obtain ⟨hc, hstorage⟩ := storage_of_accepted haccepted
  rw [hstorage]
  exact appendRule_iff (formed_of_lived h) (LogStorage.prev_le (formed_of_lived h) hc)

theorem append_rule_iff_again :
    AppendRule twoEntryFollower.storage (twoEntryFollower.replication.tryAppendEntries .testUtils 1 1
        [⟨1, .command 6⟩] 0 twoEntryFollower.storage twoEntryFollower.stateMachine
        twoEntryFollower.observer).storage 1 [⟨1, .command 6⟩] ↔
      [⟨1, .command (6 : UInt8)⟩] = ([] : List (LogEntry UInt8)) ∨
        ∀ j e, 1 < j → Storage.getEntry twoEntryFollower.storage j = some e →
          (∀ i ≤ j, ¬ Conflict twoEntryFollower.storage 1 [⟨1, .command 6⟩] i) →
            Carries twoEntryFollower.storage 1 [⟨1, .command 6⟩] j e :=
  append_rule_iff ((lived_start 1 trioBoot rfl).events _) (by decide +kernel)

/-- The leader's first request, which brought one entry, comes again after its second. -/
theorem late_request_removes_entry :
    twoEntryFollower.Lived .testUtils ∧
      (twoEntryFollower.replication.tryAppendEntries .testUtils 0 0 [⟨1, .command 5⟩] 0
        twoEntryFollower.storage twoEntryFollower.stateMachine
        twoEntryFollower.observer).configChanges.isSome ∧
      HoldsTerms twoEntryFollower.storage 0 [⟨1, .command 5⟩] ∧
      ¬ AppendRule twoEntryFollower.storage (twoEntryFollower.replication.tryAppendEntries .testUtils
        0 0 [⟨1, .command 5⟩] 0 twoEntryFollower.storage twoEntryFollower.stateMachine
        twoEntryFollower.observer).storage 0 [⟨1, .command 5⟩] := by
  have hholds : HoldsTerms twoEntryFollower.storage 0 [⟨1, .command 5⟩] := by
    intro k x hx
    obtain ⟨rfl, rfl⟩ : k = 0 ∧ ⟨1, .command 5⟩ = x := by
      cases k with
      | zero => simpa using hx
      | succ k => simp at hx
    decide +kernel
  refine ⟨(lived_start 1 trioBoot rfl).events _, by decide +kernel, hholds, fun hrule => ?_⟩
  have hsecond := hrule.idempotent hholds 2
  revert hsecond
  decide +kernel

end RaftNode

/-! ## Requests in parts -/

section

variable {R : Realization} {r : LogReplicationManager} {prev pt i lc c₁ c : Nat} {s : S} {sm : SM}
  {observer : Observer P} {es e₁ e₂ : List (LogEntry P)}

/-- The commit index after an accepted request. -/
def commitTarget (r : LogReplicationManager) (lc lastLogIndex : Nat) : Nat :=
  if r.commitIndex < lc then min lc lastLogIndex else r.commitIndex

omit [LogStorage S P] in
/-- What an accepted request comes to, on a node that has applied what it has committed. -/
theorem tryAppendEntries_accepted (happlied : r.commitIndex ≤ r.lastApplied)
    (hc : checkLogConsistency prev pt s = true) :
    r.tryAppendEntries R prev pt es lc s sm observer =
      let s' := placeEntries prev es s
      let target := commitTarget r lc (Storage.lastLogIndex s')
      let b := batch s' r.lastApplied (target - r.lastApplied)
      ⟨{ r with commitIndex := target, lastApplied := max r.lastApplied target }, s',
        b.foldl (fun sm x => x.2.applyTo sm) sm, ⟨observer.applied ++ b⟩,
        some ((changesIn b).foldl (pushWithin R.configChanges) [])⟩ := by
  unfold tryAppendEntries commitTarget
  rw [if_neg (by simp [hc])]
  dsimp only
  split
  · rw [applyCommittedEntries_eq]
  · rw [Nat.max_eq_left happlied, Nat.sub_eq_zero_of_le happlied]
    simp [batch, changesIn]

/-- The first part commits no more than the whole, and with the second part it is as much. -/
theorem commitTarget_split {last₁ last : Nat} (hreach : r.commitIndex ≤ last₁) (hlast : last₁ ≤ last)
    (hle : c₁ ≤ c) :
    commitTarget r c₁ last₁ ≤ last₁ ∧ commitTarget r c₁ last₁ ≤ commitTarget r c last ∧
      ∀ r' : LogReplicationManager, r'.commitIndex = commitTarget r c₁ last₁ →
        commitTarget r' c last = commitTarget r c last := by
  unfold commitTarget
  refine ⟨?_, ?_, fun r' hr' => ?_⟩
  · split <;> omega
  · split <;> split <;> omega
  · rw [hr']
    split_ifs <;> omega

/-- The last index after an accepted request on an unbounded log. -/
theorem lastLogIndex_placeEntries (hs : LogStorage.Formed s) (hlog : LogStorage.capacity S = none)
    (hsnap : LogStorage.snapIndex s ≤ prev) (hprev : prev ≤ Storage.lastLogIndex s) (hne : es ≠ []) :
    Storage.lastLogIndex (placeEntries prev es s) = prev + es.length := by
  have hlast := LogStorage.lastLogIndex_add_one hs
  have hlast' := LogStorage.lastLogIndex_add_one (LogStorage.formed_placeEntries hs prev es)
  have hfirst : (LogStorage.image s).log.first = LogStorage.snapIndex s + 1 := hs
  rw [LogStorage.image_placeEntries hs hprev hne, Window.stop_place, hlog, fitting] at hlast'
  omega

/-- On an unbounded log the entries of an accepted request stand right behind `prev`. -/
theorem getEntry_placed (hs : LogStorage.Formed s) (hlog : LogStorage.capacity S = none)
    (hsnap : LogStorage.snapIndex s ≤ prev) (hprev : prev ≤ Storage.lastLogIndex s) (hne : es ≠ [])
    (hi : prev < i) : Storage.getEntry (placeEntries prev es s) i = es[i - (prev + 1)]? := by
  rw [LogStorage.getEntry_placeEntries hs hprev hne, if_neg (by omega), if_neg (by omega),
    Nat.max_eq_left hsnap, hlog, fitting]

variable (e₂) in
/-- The two parts of a request leave the log that the whole would leave. -/
theorem image_split (hs : LogStorage.Formed s) (hlog : LogStorage.capacity S = none)
    (hsnap : LogStorage.snapIndex s ≤ prev) (hprev : prev ≤ Storage.lastLogIndex s)
    (hne : e₁ ≠ []) :
    LogStorage.image (placeEntries (prev + e₁.length) e₂ (placeEntries prev e₁ s)) =
      LogStorage.image (placeEntries prev (e₁ ++ e₂) s) := by
  have hlast := LogStorage.lastLogIndex_add_one hs
  have hfirst : (LogStorage.image s).log.first = LogStorage.snapIndex s + 1 := hs
  have hlast₁ := lastLogIndex_placeEntries hs hlog hsnap hprev hne
  rcases eq_or_ne e₂ [] with rfl | hne₂
  · simp [placeEntries]
  · rw [LogStorage.image_placeEntries (LogStorage.formed_placeEntries hs prev e₁) hlast₁.ge hne₂,
      LogStorage.image_placeEntries hs hprev hne,
      LogStorage.image_placeEntries hs hprev (by simp [hne])]
    simp only [hlog, fitting]
    rw [Window.place_place (by omega) (by omega)]

/-- The second part finds the last entry of the first where it expects it. -/
theorem second_consistent (hs : LogStorage.Formed s) (hlog : LogStorage.capacity S = none)
    (hsnap : LogStorage.snapIndex s ≤ prev) (hprev : prev ≤ Storage.lastLogIndex s)
    (hne : e₁ ≠ []) :
    checkLogConsistency (prev + e₁.length) (e₁.getLast hne).term (placeEntries prev e₁ s) = true := by
  have hpos := List.length_pos_of_ne_nil hne
  unfold checkLogConsistency
  rw [if_neg (by omega), getEntry_placed hs hlog hsnap hprev hne (by omega),
    show prev + e₁.length - (prev + 1) = e₁.length - 1 by omega, ← List.getLast?_eq_getElem?,
    List.getLast?_eq_some_getLast hne]
  simp

/-- Nothing but the storage may differ, and that only in what it does not show. -/
structure SameResult (a a' : AppendResult P S SM) : Prop where
  image : LogStorage.image a.storage = LogStorage.image a'.storage
  replication : a.replication = a'.replication
  stateMachine : a.stateMachine = a'.stateMachine
  observer : a.observer = a'.observer

variable (sm observer e₂) in
/-- A request in two parts, on a node that has applied what it has committed. -/
theorem tryAppendEntries_split (hs : LogStorage.Formed s) (hlog : LogStorage.capacity S = none)
    (hchanges : R.configChanges = none) (happlied : r.commitIndex ≤ r.lastApplied)
    (hc : checkLogConsistency prev pt s = true) (hsnap : LogStorage.snapIndex s ≤ prev)
    (hne : e₁ ≠ []) (hreach : r.commitIndex ≤ prev + e₁.length) (hle : c₁ ≤ c)
    {a a' : AppendResult P S SM}
    (ha : a = r.tryAppendEntries R prev pt e₁ c₁ s sm observer)
    (ha' : a' = a.replication.tryAppendEntries R (prev + e₁.length) (e₁.getLast hne).term e₂ c
      a.storage a.stateMachine a.observer) :
    SameResult a' (r.tryAppendEntries R prev pt (e₁ ++ e₂) c s sm observer) ∧
      a.configChanges.getD [] ++ a'.configChanges.getD [] =
        (r.tryAppendEntries R prev pt (e₁ ++ e₂) c s sm observer).configChanges.getD [] := by
  have hprev := LogStorage.prev_le hs hc
  have himage := image_split e₂ hs hlog hsnap hprev hne
  have hlast₁ := lastLogIndex_placeEntries hs hlog hsnap hprev hne
  have hne₂ : e₁ ++ e₂ ≠ [] := by simp [hne]
  have hlast := lastLogIndex_placeEntries hs hlog hsnap hprev hne₂
  have hlast₂ : Storage.lastLogIndex (placeEntries (prev + e₁.length) e₂ (placeEntries prev e₁ s)) =
      prev + (e₁ ++ e₂).length := by
    have hformed₂ := LogStorage.formed_placeEntries (LogStorage.formed_placeEntries hs prev e₁)
      (prev + e₁.length) e₂
    rw [LogStorage.lastLogIndex_eq _ hformed₂, himage, ← hlast,
      LogStorage.lastLogIndex_eq _ (LogStorage.formed_placeEntries hs _ _)]
  have hlen : prev + e₁.length ≤ prev + (e₁ ++ e₂).length := by simp
  obtain ⟨hreach₁, hmono, htarget⟩ := commitTarget_split (r := r) hreach hlen hle
  rw [tryAppendEntries_accepted happlied hc] at ha
  dsimp only at ha
  rw [hlast₁] at ha
  subst ha
  rw [tryAppendEntries_accepted (Nat.le_max_right _ _)
    (second_consistent hs hlog hsnap hprev hne)] at ha'
  dsimp only at ha'
  rw [hlast₂, htarget _ rfl] at ha'
  subst ha'
  rw [tryAppendEntries_accepted happlied hc]
  dsimp only
  rw [hlast]
  generalize commitTarget r c₁ (prev + e₁.length) = k₁ at hreach₁ hmono ⊢
  generalize commitTarget r c (prev + (e₁ ++ e₂).length) = k at hmono ⊢
  -- what is applied at first is the beginning of what the whole request applies
  have hfirst : batch (placeEntries prev e₁ s) r.lastApplied (k₁ - r.lastApplied) =
      batch (placeEntries prev (e₁ ++ e₂) s) r.lastApplied (k₁ - r.lastApplied) := by
    apply batch_congr
    intro j hlt hjle
    rcases Nat.lt_or_ge prev j with hj | hj
    · rw [getEntry_placed hs hlog hsnap hprev hne hj, getEntry_placed hs hlog hsnap hprev hne₂ hj,
        List.getElem?_append_left (by omega)]
    · rw [LogStorage.getEntry_placeEntries hs hprev hne, if_pos hj,
        LogStorage.getEntry_placeEntries hs hprev hne₂, if_pos hj]
  have hsecond : batch (placeEntries (prev + e₁.length) e₂ (placeEntries prev e₁ s))
        (max r.lastApplied k₁) (k - max r.lastApplied k₁) =
      batch (placeEntries prev (e₁ ++ e₂) s) (max r.lastApplied k₁) (k - max r.lastApplied k₁) := by
    apply batch_congr
    intro j _ _
    rw [LogStorage.getEntry_eq, LogStorage.getEntry_eq, himage]
  rw [hfirst, hsecond, batch_split (placeEntries prev (e₁ ++ e₂) s) r.lastApplied hmono]
  refine ⟨⟨himage, ?_, ?_, ?_⟩, ?_⟩
  · rw [Nat.max_assoc, Nat.max_eq_right hmono]
  · rw [List.foldl_append]
  · rw [List.append_assoc]
  · simp [hchanges, changesIn_append]

omit [StateMachine SM P] in
theorem checkLogConsistency_of_image {s' : S} (h : LogStorage.image s' = LogStorage.image s)
    (prev pt : Nat) : checkLogConsistency prev pt s' = checkLogConsistency prev pt s := by
  simp only [checkLogConsistency, LogStorage.getEntry_eq, LogStorage.snapshotMetadata_eq, h]

omit [LogStorage S P] in
/-- A request of a later term is handled as in that term. -/
theorem handleAppendEntries_of_gt {term currentTerm : Nat} (h : currentTerm < term)
    (role : NodeState) :
    r.handleAppendEntries R term prev pt es lc currentTerm s sm role observer =
      r.handleAppendEntries R term prev pt es lc term
        (Storage.setVotedFor (Storage.setCurrentTerm s term) none) sm .follower observer := by
  simp [handleAppendEntries, h]

end

/-- The next request, handled on what one has left behind. -/
def AppendEntriesResult.request (R : Realization) (a : AppendEntriesResult P S SM)
    (term prev pt : Nat) (es : List (LogEntry P)) (lc : Nat) : AppendEntriesResult P S SM :=
  a.replication.handleAppendEntries R term prev pt es lc a.currentTerm a.storage a.stateMachine
    a.role a.observer

/-- The same log, counters and state machine. -/
structure SameFollower (a a' : AppendEntriesResult P S SM) : Prop where
  image : LogStorage.image a.storage = LogStorage.image a'.storage
  commitIndex : a.replication.commitIndex = a'.replication.commitIndex
  lastApplied : a.replication.lastApplied = a'.replication.lastApplied
  stateMachine : a.stateMachine = a'.stateMachine

namespace RaftNode

/-- A request handled by the replication manager of a node. -/
def request (R : Realization) (n : RaftNode P S SM) (term prev pt : Nat) (es : List (LogEntry P))
    (lc : Nat) : AppendEntriesResult P S SM :=
  n.replication.handleAppendEntries R term prev pt es lc n.currentTerm n.storage n.stateMachine
    n.role n.observer

/-- **A request in two parts comes to the same as in one**: the same log, counters and state machine,
and the same configuration changes in the same order.  In every state of every life of a node whose
collections are unbounded. -/
theorem split_request_same [Restartable S] [FormedRestarts S] {R : Realization}
    {n : RaftNode P S SM} {term prev pt c₁ c : Nat} {e₁ e₂ : List (LogEntry P)} (h : n.Lived R)
    (hlog : LogStorage.capacity S = none) (hchanges : R.configChanges = none)
    (hc : checkLogConsistency prev pt n.storage = true)
    (hfirst : Storage.firstLogIndex n.storage ≤ prev + 1) (hne : e₁ ≠ [])
    (hreach : n.replication.commitIndex ≤ prev + e₁.length) (hle : c₁ ≤ c) :
    SameFollower ((n.request R term prev pt e₁ c₁).request R term (prev + e₁.length)
        (e₁.getLast hne).term e₂ c) (n.request R term prev pt (e₁ ++ e₂) c) ∧
      (n.request R term prev pt e₁ c₁).configChanges ++
          ((n.request R term prev pt e₁ c₁).request R term (prev + e₁.length)
            (e₁.getLast hne).term e₂ c).configChanges =
        (n.request R term prev pt (e₁ ++ e₂) c).configChanges := by
  have hgrounded := grounded_of_lived h
  rw [LogStorage.firstLogIndex_of_formed hgrounded.formed] at hfirst
  rcases Nat.lt_or_ge term n.currentTerm with hlt | hge
  · -- all of it is refused
    simp only [request, AppendEntriesResult.request, handleAppendEntries_of_lt hlt]
    exact ⟨⟨rfl, rfl, rfl, rfl⟩, rfl⟩
  obtain ⟨s, role, himage, hrequest⟩ : ∃ (s : S) (role : NodeState),
      LogStorage.image s = LogStorage.image n.storage ∧ ∀ es lc,
        n.request R term prev pt es lc = n.replication.handleAppendEntries R term prev pt es lc term
          s n.stateMachine role n.observer := by
    rcases Nat.eq_or_lt_of_le hge with rfl | hgt
    · exact ⟨n.storage, n.role, rfl, fun _ _ => rfl⟩
    · exact ⟨_, .follower, LogStorage.image_cells n.storage term none,
        fun _ _ => handleAppendEntries_of_gt hgt n.role⟩
  obtain ⟨hsame, hemitted⟩ := tryAppendEntries_split (R := R) (c := c) n.stateMachine
    n.observer e₂ (LogStorage.formed_of_image hgrounded.formed himage) hlog hchanges hgrounded.applied
    ((checkLogConsistency_of_image himage prev pt).trans hc)
    ((snapIndex_of_image himage).trans_le (by omega)) hne hreach hle rfl rfl
  simp only [AppendEntriesResult.request, hrequest, handleAppendEntries_of_eq]
  exact ⟨⟨hsame.image, congrArg (·.commitIndex) hsame.replication,
    congrArg (·.lastApplied) hsame.replication, hsame.stateMachine⟩, hemitted⟩

/-- Above a snapshot of two entries: three entries at once, or one and then two. -/
theorem split_request_same_compacted :
    SameFollower ((compactedFollower.request .testUtils 1 2 1 [⟨1, .command 5⟩] 3).request .testUtils 1
        3 1 [⟨1, .command 6⟩, ⟨1, .command 7⟩] 4)
      (compactedFollower.request .testUtils 1 2 1
        [⟨1, .command 5⟩, ⟨1, .command 6⟩, ⟨1, .command 7⟩] 4) ∧
      (compactedFollower.request .testUtils 1 2 1 [⟨1, .command 5⟩] 3).configChanges ++
          ((compactedFollower.request .testUtils 1 2 1 [⟨1, .command 5⟩] 3).request .testUtils 1 3 1
            [⟨1, .command 6⟩, ⟨1, .command 7⟩] 4).configChanges =
        (compactedFollower.request .testUtils 1 2 1
          [⟨1, .command 5⟩, ⟨1, .command 6⟩, ⟨1, .command 7⟩] 4).configChanges :=
  split_request_same ((lived_start 1 trioBoot rfl).events _) rfl rfl (by decide +kernel)
    (by decide +kernel) (show [⟨1, .command 5⟩] ≠ [] by simp) (by decide +kernel) (by decide)

end RaftNode

end MetalRaft
