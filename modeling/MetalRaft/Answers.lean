import MetalRaft.CommitPoint
import MetalRaft.Lifetime
import MetalRaft.Median

/-!
# Answers of different followers

A leader notes an answer in its maps and may then move the commit index and apply entries.

* `noted`, `commitRule` — the two halves of handling an answer; `respond_eq` puts them together.
* `commitRule_absorbs` — where terms do not decrease, what a smaller median commits a greater one
  commits as well.
* `answers_commute` — so the order in which two followers are heard makes no difference.
-/

set_option autoImplicit false

namespace MetalRaft

open LogReplicationManager

variable {P S SM : Type}

/-! ## Logs without gaps -/

/-- A log with entries in it ends at the last index. -/
class EndsWithLog (S : Type) {P : outParam Type} [Storage S P] [LogStorage S P] : Prop where
  lastLogIndex_of_held : ∀ s : S, (LogStorage.image s).log.items ≠ [] →
    Storage.lastLogIndex s = (LogStorage.image s).log.stop - 1

instance : EndsWithLog (InMemoryStorage P) where
  lastLogIndex_of_held s h := by
    have hlog : s.log ≠ [] := h
    show s.lastLogIndex = s.firstIndex + s.log.length - 1
    simp [InMemoryStorage.lastLogIndex, hlog]

instance : EndsWithLog (EmbassyStorage P) where
  lastLogIndex_of_held s h := by
    have hlog : s.log ≠ [] := h
    show s.lastLogIndex = s.firstLogIndex + s.log.length - 1
    simp [EmbassyStorage.lastLogIndex, hlog]

instance : EndsWithLog SemihostingStorage where
  lastLogIndex_of_held s h := by
    have hlog : s.log ≠ [] := h
    show s.lastLogIndex = s.firstLogIndex + s.log.length - 1
    simp [SemihostingStorage.lastLogIndex, hlog]

variable [Storage S P] {s : S} {c la c₁ c₂ i j m m' : Nat} {e : LogEntry P}

/-- From an entry up to the last index every index has one. -/
theorem exists_entry_above [LogStorage S P] [EndsWithLog S] (he : Storage.getEntry s i = some e)
    (hij : i ≤ j) (hj : j ≤ Storage.lastLogIndex s) : ∃ e', Storage.getEntry s j = some e' := by
  rw [LogStorage.getEntry_eq] at he
  have hb := Window.bounds_of_get? he
  have hheld : (LogStorage.image s).log.items ≠ [] := by
    intro hnil
    simp [Window.get?, hnil] at he
  rw [EndsWithLog.lastLogIndex_of_held s hheld] at hj
  simp only [LogStorage.getEntry_eq]
  exact Window.exists_get? (by omega) (by omega)

/-! ## The commit rule -/

/-- The entry at an index is of the current term. -/
def OfCurrentTerm (s : S) (i : Nat) : Prop :=
  (Storage.getEntry s i).map (·.term) = some (Storage.currentTerm s)

instance (s : S) (i : Nat) : Decidable (OfCurrentTerm s i) := inferInstanceAs (Decidable (_ = _))

/-- The commit index once the median is `m`. -/
def commitRule (s : S) (c m : Nat) : Nat := if c < m ∧ OfCurrentTerm s m then m else c

/-- Terms do not decrease along the log, and none exceeds the current one. -/
structure TermsAscend (s : S) : Prop where
  ascend : ∀ i j e e', i ≤ j → Storage.getEntry s i = some e → Storage.getEntry s j = some e' →
    e.term ≤ e'.term
  current : ∀ i e, Storage.getEntry s i = some e → e.term ≤ Storage.currentTerm s

theorem le_commitRule : c ≤ commitRule s c m := by
  unfold commitRule
  split <;> omega

/-- Above an entry of the current term all entries are. -/
theorem ofCurrentTerm_of_le [LogStorage S P] [EndsWithLog S] (hs : TermsAscend s)
    (h : OfCurrentTerm s i) (hij : i ≤ j) (hj : j ≤ Storage.lastLogIndex s) :
    OfCurrentTerm s j := by
  obtain ⟨e, he, hterm⟩ := Option.map_eq_some_iff.mp h
  obtain ⟨e', he'⟩ := exists_entry_above he hij hj
  have hascend := hs.ascend i j e e' hij he he'
  have hcurrent := hs.current j e' he'
  unfold OfCurrentTerm
  rw [he', Option.map_some, Option.some.injEq]
  omega

/-- A median that another one follows, no smaller, might as well not have been. -/
theorem commitRule_absorbs [LogStorage S P] [EndsWithLog S] (hs : TermsAscend s) (hle : m ≤ m')
    (hlast : m' ≤ Storage.lastLogIndex s) :
    commitRule s (commitRule s c m) m' = commitRule s c m' := by
  by_cases hm : c < m ∧ OfCurrentTerm s m
  · have hm' : OfCurrentTerm s m' := ofCurrentTerm_of_le hs hm.2 hle hlast
    have hfirst : commitRule s c m = m := if_pos hm
    have hboth : commitRule s c m' = m' := if_pos ⟨by omega, hm'⟩
    rw [hfirst, hboth]
    unfold commitRule
    split
    · rfl
    · rename_i hnot
      have : ¬ m < m' := fun hlt => hnot ⟨hlt, hm'⟩
      omega
  · have hfirst : commitRule s c m = c := if_neg hm
    rw [hfirst]

/-! ## What committing brings with it -/

/-- The last applied index once the commit index has moved from `c` to `c₁`. -/
def appliedTo (c la c₁ : Nat) : Nat := if c < c₁ then max la c₁ else la

/-- The entries applied when the commit index moves from `c` to `c₁`. -/
def span (s : S) (c la c₁ : Nat) : List (Nat × LogEntry P) :=
  if c < c₁ then batch s la (c₁ - la) else []

theorem appliedTo_trans (h : c ≤ c₁) (h' : c₁ ≤ c₂) :
    appliedTo c₁ (appliedTo c la c₁) c₂ = appliedTo c la c₂ := by
  unfold appliedTo
  split_ifs <;> omega

/-- Two moves of the commit index apply what one applies. -/
theorem span_trans (h : c ≤ c₁) (h' : c₁ ≤ c₂) :
    span s c la c₁ ++ span s c₁ (appliedTo c la c₁) c₂ = span s c la c₂ := by
  unfold span appliedTo
  rcases Nat.eq_or_lt_of_le h with rfl | hlt
  · simp
  · rw [if_pos hlt, if_pos hlt, if_pos (Nat.lt_of_lt_of_le hlt h')]
    rcases Nat.eq_or_lt_of_le h' with rfl | hlt'
    · simp
    · rw [if_pos hlt', batch_split s la h']

variable [StateMachine SM P]

/-- The commit index moves to `c₁`, if that is further on, and what lies between is applied. -/
def raised (R : Realization) (r : LogReplicationManager) (s : S) (sm : SM) (observer : Observer P)
    (c₁ : Nat) : ApplyResult P SM :=
  if r.commitIndex < c₁ then
    applyCommittedEntries R { r with commitIndex := c₁ } s sm observer
  else ⟨r, sm, observer, []⟩

/-- What that comes to, where all configuration changes are collected. -/
theorem raised_eq {R : Realization} (hR : R.configChanges = none) (r : LogReplicationManager) (s : S)
    (sm : SM) (observer : Observer P) (h : r.commitIndex ≤ c₁) :
    raised R r s sm observer c₁ =
      let b := span s r.commitIndex r.lastApplied c₁
      ⟨{ r with commitIndex := c₁, lastApplied := appliedTo r.commitIndex r.lastApplied c₁ },
        b.foldl (fun sm x => x.2.applyTo sm) sm, ⟨observer.applied ++ b⟩, changesIn b⟩ := by
  unfold raised span appliedTo
  split
  · rw [applyCommittedEntries_eq]
    simp [hR]
  · have heq : c₁ = r.commitIndex := by omega
    simp [heq, changesIn]

/-! ## Handling an answer -/

/-- An AppendEntriesResponse of the leader's term. -/
structure Answer where
  sender : NodeId
  success : Bool
  matchIndex : Nat

namespace Answer

/-- The answer acknowledges more than the leader knew of. -/
def News (r : LogReplicationManager) (x : Answer) : Prop :=
  x.success = true ∧ (r.matchIndex.get x.sender).getD 0 < x.matchIndex

instance (r : LogReplicationManager) (x : Answer) : Decidable (x.News r) :=
  inferInstanceAs (Decidable (_ ∧ _))

end Answer

/-- The leader's maps after an answer. -/
def noted (R : Realization) (r : LogReplicationManager) (x : Answer) : LogReplicationManager :=
  if x.News r then
    { r with
      matchIndex := r.matchIndex.insert R x.sender x.matchIndex
      nextIndex := r.nextIndex.insert R x.sender (x.matchIndex + 1) }
  else if x.success = false ∧ 1 < (r.nextIndex.get x.sender).getD 1 then
    { r with nextIndex := r.nextIndex.insert R x.sender ((r.nextIndex.get x.sender).getD 1 - 1) }
  else r

/-- No member is marked as catching up. -/
def NoneCatchingUp (r : LogReplicationManager) : Prop := ∀ x, r.catchingUpServers.get x = none

section

variable {R : Realization} {r : LogReplicationManager} {x y : Answer} {config : Configuration}
  {leaderId v : NodeId} {sm : SM} {observer : Observer P}

omit [Storage S P] [StateMachine SM P] in
theorem noted_counters : (noted R r x).commitIndex = r.commitIndex ∧
    (noted R r x).lastApplied = r.lastApplied ∧
    (noted R r x).catchingUpServers = r.catchingUpServers := by
  unfold noted
  split_ifs <;> exact ⟨rfl, rfl, rfl⟩

theorem advanceCommitIndex_raised
    (hm : r.matchIndex.computeMedian R (Storage.lastLogIndex s) config r.catchingUpServers leaderId =
      some m) :
    r.advanceCommitIndex R s sm config leaderId observer =
      raised R r s sm observer (commitRule s r.commitIndex m) := by
  rw [advanceCommitIndex_eq, quorumIndex, hm]
  unfold raised commitRule OfCurrentTerm
  by_cases hc : r.commitIndex < m ∧
      (Storage.getEntry s m).map (·.term) = some (Storage.currentTerm s)
  · simp [hc, Option.filter_some]
  · rw [if_neg hc, if_neg (Nat.lt_irrefl _), Option.filter_some, if_neg (by simpa using hc)]

/-- **An answer is noted, and if it brings news the commit rule applies.** -/
theorem respond_eq (hcalm : NoneCatchingUp r)
    (hm : (noted R r x).matchIndex.computeMedian R (Storage.lastLogIndex s) config
      r.catchingUpServers leaderId = some m) :
    r.handleAppendEntriesResponse R x.sender x.success x.matchIndex s sm config leaderId observer =
      raised R (noted R r x) s sm observer
        (if x.News r then commitRule s r.commitIndex m else r.commitIndex) := by
  have hquiet : ∀ r' : LogReplicationManager,
      raised R r' s sm observer r'.commitIndex = ⟨r', sm, observer, []⟩ :=
    fun r' => if_neg (Nat.lt_irrefl _)
  unfold handleAppendEntriesResponse
  by_cases hnews : x.News r
  · have hnoted : noted R r x =
        { r with
          matchIndex := r.matchIndex.insert R x.sender x.matchIndex
          nextIndex := r.nextIndex.insert R x.sender (x.matchIndex + 1) } := if_pos hnews
    have hpromote : (noted R r x).checkAndPromoteCaughtUpServer x.sender = noted R r x := by
      unfold checkAndPromoteCaughtUpServer
      rw [noted_counters.2.2, hcalm]
      rfl
    rw [if_pos hnews.1, if_pos hnews.2, if_pos hnews, ← hnoted]
    dsimp only
    rw [hpromote, advanceCommitIndex_raised (noted_counters.2.2 ▸ hm), noted_counters.1]
  · have hcommit : r.commitIndex = (noted R r x).commitIndex := noted_counters.1.symm
    rw [if_neg hnews, hcommit, hquiet]
    unfold noted
    rw [if_neg hnews]
    cases hsuccess : x.success with
    | true =>
      have hold : ¬ x.matchIndex > (r.matchIndex.get x.sender).getD 0 :=
        fun hlt => hnews ⟨hsuccess, hlt⟩
      simp [hold]
    | false =>
      simp only [Bool.false_eq_true, if_false, true_and, gt_iff_lt]
      split <;> rfl

/-! ## The maps, key by key -/

omit [Storage S P] [StateMachine SM P] in
theorem get_matchIndex_noted (hR : R.maps = none) : (noted R r x).matchIndex.get v =
    if v = x.sender ∧ x.News r then some x.matchIndex else r.matchIndex.get v := by
  unfold noted
  by_cases hnews : x.News r
  · simp [hnews, MapCollection.get_insert hR]
  · have hother : ¬ (v = x.sender ∧ x.News r) := fun h => hnews h.2
    rw [if_neg hnews, if_neg hother]
    split <;> rfl

omit [Storage S P] [StateMachine SM P] in
/-- What is noted of a node depends on what is known of that node. -/
theorem get_nextIndex_noted (hR : R.maps = none) : (noted R r x).nextIndex.get v =
    if v = x.sender then
      if x.News r then some (x.matchIndex + 1)
      else if x.success = false ∧ 1 < (r.nextIndex.get x.sender).getD 1 then
        some ((r.nextIndex.get x.sender).getD 1 - 1)
      else r.nextIndex.get x.sender
    else r.nextIndex.get v := by
  unfold noted
  split_ifs <;> simp_all [MapCollection.get_insert]

omit [Storage S P] [StateMachine SM P] in
theorem news_noted (hR : R.maps = none) (hne : y.sender ≠ x.sender) :
    y.News (noted R r x) ↔ y.News r := by
  unfold Answer.News
  rw [get_matchIndex_noted hR, if_neg fun h => hne h.1]

omit [Storage S P] [StateMachine SM P] in
/-- Answers of different senders are noted in either order. -/
theorem noted_comm (hR : R.maps = none) (hne : y.sender ≠ x.sender) (v : NodeId) :
    (noted R (noted R r x) y).matchIndex.get v = (noted R (noted R r y) x).matchIndex.get v ∧
      (noted R (noted R r x) y).nextIndex.get v = (noted R (noted R r y) x).nextIndex.get v := by
  simp only [get_matchIndex_noted hR, get_nextIndex_noted hR, news_noted hR hne,
    news_noted hR (Ne.symm hne), if_neg hne, if_neg (Ne.symm hne)]
  by_cases hx : v = x.sender
  · have hy : v ≠ y.sender := hx ▸ Ne.symm hne
    simp [hx, Ne.symm hne]
  · simp [hx]

omit [Storage S P] [StateMachine SM P] in
/-- The counters have no part in it. -/
theorem noted_withCounters (c la : Nat) :
    noted R { r with commitIndex := c, lastApplied := la } x =
      { noted R r x with commitIndex := c, lastApplied := la } := by
  have hnews : Answer.News { r with commitIndex := c, lastApplied := la } x ↔ x.News r := Iff.rfl
  unfold noted
  by_cases h : x.News r
  · rw [if_pos (hnews.mpr h), if_pos h]
  · rw [if_neg (mt hnews.mp h), if_neg h]
    by_cases hback : x.success = false ∧ 1 < (r.nextIndex.get x.sender).getD 1
    · rw [if_pos hback, if_pos hback]
    · rw [if_neg hback, if_neg hback]

omit [Storage S P] [StateMachine SM P] in
theorem noted_le (hR : R.maps = none) {last : Nat} (hx : x.matchIndex ≤ last)
    (h : ∀ v, (r.matchIndex.get v).getD 0 ≤ last) (v : NodeId) :
    ((noted R r x).matchIndex.get v).getD 0 ≤ last := by
  rw [get_matchIndex_noted hR]
  split
  · exact hx
  · exact h v

omit [Storage S P] [StateMachine SM P] in
theorem le_noted (hR : R.maps = none) (v : NodeId) :
    (r.matchIndex.get v).getD 0 ≤ ((noted R r x).matchIndex.get v).getD 0 := by
  rw [get_matchIndex_noted hR]
  split
  · rename_i hv
    rw [hv.1]
    exact hv.2.2.le
  · exact Nat.le_refl _

omit [Storage S P] [StateMachine SM P] in
/-- An answer without news leaves the match indexes. -/
theorem get_matchIndex_noted_old (hR : R.maps = none) (hold : ¬ x.News r) (v : NodeId) :
    (noted R r x).matchIndex.get v = r.matchIndex.get v := by
  rw [get_matchIndex_noted hR, if_neg fun h => hold h.2]

end

/-! ## Two answers -/

/-- The leader handles an answer, and the configuration changes pile up. -/
def Answer.on (R : Realization) (s : S) (config : Configuration) (leaderId : NodeId)
    (a : ApplyResult P SM) (x : Answer) : ApplyResult P SM :=
  let b := a.replication.handleAppendEntriesResponse R x.sender x.success x.matchIndex s
    a.stateMachine config leaderId a.observer
  { b with configChanges := a.configChanges ++ b.configChanges }

/-- The same counters, maps, state machine and configuration changes. -/
structure SameLeader (a a' : ApplyResult P SM) : Prop where
  commitIndex : a.replication.commitIndex = a'.replication.commitIndex
  lastApplied : a.replication.lastApplied = a'.replication.lastApplied
  matchIndex : ∀ x, a.replication.matchIndex.get x = a'.replication.matchIndex.get x
  nextIndex : ∀ x, a.replication.nextIndex.get x = a'.replication.nextIndex.get x
  stateMachine : a.stateMachine = a'.stateMachine
  configChanges : a.configChanges = a'.configChanges

/-- What is left of a leader that moves its commit index from that of `r` to `c` and has the maps of
`r'` then. -/
def committedTo (r r' : LogReplicationManager) (s : S) (sm : SM) (observer : Observer P) (c : Nat) :
    ApplyResult P SM :=
  let b := span s r.commitIndex r.lastApplied c
  ⟨{ r' with commitIndex := c, lastApplied := appliedTo r.commitIndex r.lastApplied c },
    b.foldl (fun sm x => x.2.applyTo sm) sm, ⟨observer.applied ++ b⟩, changesIn b⟩

section

variable {r : LogReplicationManager} {x y : Answer} {config : Configuration} {leaderId : NodeId}
  {sm : SM} {observer : Observer P}

/-- One answer on unbounded collections. -/
theorem respond_committedTo (hcalm : NoneCatchingUp r)
    (hm : (noted .testUtils r x).matchIndex.computeMedian .testUtils (Storage.lastLogIndex s) config
      r.catchingUpServers leaderId = some m) :
    r.handleAppendEntriesResponse .testUtils x.sender x.success x.matchIndex s sm config leaderId
        observer =
      committedTo r (noted .testUtils r x) s sm observer
        (if x.News r then commitRule s r.commitIndex m else r.commitIndex) := by
  have hle : (noted .testUtils r x).commitIndex ≤
      if x.News r then commitRule s r.commitIndex m else r.commitIndex := by
    rw [noted_counters.1]
    split
    · exact le_commitRule
    · exact Nat.le_refl _
  rw [respond_eq hcalm hm, raised_eq rfl _ _ _ _ hle, noted_counters.1, noted_counters.2.1]
  rfl

theorem committedTo_self :
    committedTo r r s sm observer r.commitIndex = ⟨r, sm, observer, []⟩ := by
  simp [committedTo, span, appliedTo, changesIn]

/-- Committing in two steps is committing. -/
theorem committedTo_trans (r r' r'' : LogReplicationManager) (sm : SM) (observer : Observer P)
    (h : r.commitIndex ≤ c₁) (h' : c₁ ≤ c₂) :
    let a := committedTo r r' s sm observer c₁
    let b := committedTo a.replication r'' s a.stateMachine a.observer c₂
    { b with configChanges := a.configChanges ++ b.configChanges } =
      committedTo r r'' s sm observer c₂ := by
  simp only [committedTo, appliedTo_trans h h', ← changesIn_append, ← List.foldl_append,
    List.append_assoc, span_trans h h']

theorem le_ite_commitRule (p : Prop) [Decidable p] : c ≤ if p then commitRule s c m else c := by
  split
  · exact le_commitRule
  · exact Nat.le_refl _

/-- The next answer is noted, and the leader commits as far as it allows. -/
theorem on_committedTo {r' : LogReplicationManager} (hcalm : NoneCatchingUp r')
    (h : r.commitIndex ≤ c)
    (hm : (noted .testUtils r' y).matchIndex.computeMedian .testUtils (Storage.lastLogIndex s) config
      r'.catchingUpServers leaderId = some m) :
    y.on .testUtils s config leaderId (committedTo r r' s sm observer c) =
      committedTo r (noted .testUtils r' y) s sm observer
        (if y.News r' then commitRule s c m else c) := by
  let a := committedTo r r' s sm observer c
  let c' := if y.News r' then commitRule s c m else c
  have hnoted : noted .testUtils a.replication y = { noted .testUtils r' y with
      commitIndex := c, lastApplied := appliedTo r.commitIndex r.lastApplied c } :=
    noted_withCounters _ _
  have hanswer : a.replication.handleAppendEntriesResponse .testUtils y.sender y.success y.matchIndex
      s a.stateMachine config leaderId a.observer =
      committedTo a.replication (noted .testUtils a.replication y) s a.stateMachine a.observer c' :=
    respond_committedTo hcalm (hnoted ▸ hm)
  have hboth := committedTo_trans (s := s) r r' (noted .testUtils r' y) sm observer h
    (le_ite_commitRule (s := s) (m := m) (y.News r'))
  rw [← hboth]
  unfold Answer.on
  dsimp only
  rw [hanswer, hnoted]
  rfl

variable [LogStorage S P] [EndsWithLog S]

/-- **Two answers of different senders**: what is noted of both decides how far the leader commits. -/
theorem two_answers (hcalm : NoneCatchingUp r) (hne : y.sender ≠ x.sender) (hs : TermsAscend s)
    (hstored : ∀ v i, r.matchIndex.get v = some i → i ≤ Storage.lastLogIndex s)
    (hx : x.matchIndex ≤ Storage.lastLogIndex s) (hy : y.matchIndex ≤ Storage.lastLogIndex s)
    (hm : (noted .testUtils (noted .testUtils r x) y).matchIndex.computeMedian .testUtils
      (Storage.lastLogIndex s) config r.catchingUpServers leaderId = some m) :
    y.on .testUtils s config leaderId (x.on .testUtils s config leaderId ⟨r, sm, observer, []⟩) =
      committedTo r (noted .testUtils (noted .testUtils r x) y) s sm observer
        (if x.News r ∨ y.News r then commitRule s r.commitIndex m else r.commitIndex) := by
  have hfits : MapCollection.VotersFit .testUtils config r.catchingUpServers leaderId :=
    fun _ hcap => (by cases hcap)
  have hcatching : (noted .testUtils r x).catchingUpServers = r.catchingUpServers :=
    noted_counters.2.2
  have hcalm' : NoneCatchingUp (noted .testUtils r x) := by
    unfold NoneCatchingUp
    rwa [hcatching]
  have hnews : y.News (noted .testUtils r x) ↔ y.News r := news_noted rfl hne
  obtain ⟨m₁, hm₁, _⟩ := MapCollection.computeMedian_spec (noted .testUtils r x).matchIndex
    (Storage.lastLogIndex s) hfits
  have hheld : ∀ v, (r.matchIndex.get v).getD 0 ≤ Storage.lastLogIndex s := by
    intro v
    cases hget : r.matchIndex.get v with
    | none => exact Nat.zero_le _
    | some i => exact hstored v i hget
  have hlast : m ≤ Storage.lastLogIndex s :=
    MapCollection.computeMedian_le hfits (noted_le rfl hy (noted_le rfl hx hheld)) hm
  have hmono : m₁ ≤ m := MapCollection.computeMedian_mono hfits (le_noted rfl) hm₁ hm
  -- without news from `y` the medians are the same
  have hsame : ¬ y.News r → m₁ = m := by
    intro hold
    have hcongr : MapCollection.computeMedian .testUtils _ (Storage.lastLogIndex s) config
        r.catchingUpServers leaderId = _ :=
      MapCollection.computeMedian_congr hfits hfits
        (get_matchIndex_noted_old (R := .testUtils) rfl (mt hnews.mp hold)) fun _ => rfl
    rw [hm, hm₁] at hcongr
    exact (Option.some.inj hcongr).symm
  have hstart : ⟨r, sm, observer, []⟩ = committedTo r r s sm observer r.commitIndex :=
    committedTo_self.symm
  rw [hstart, on_committedTo hcalm (Nat.le_refl _) hm₁,
    on_committedTo hcalm' (le_ite_commitRule _) (hcatching ▸ hm)]
  congr 1
  by_cases hnewsX : x.News r
  · by_cases hnewsY : y.News r
    · simp only [hnews, hnewsX, hnewsY, if_true, true_or]
      exact commitRule_absorbs hs hmono hlast
    · simp [hnews, hnewsX, hnewsY, hsame hnewsY]
  · simp [hnews, hnewsX]

/-- **Acknowledgements of different followers commute**: in either order the leader ends with the
same counters, maps and state machine, and emits the same configuration changes. -/
theorem answers_commute (hcalm : NoneCatchingUp r) (hne : x.sender ≠ y.sender) (hs : TermsAscend s)
    (hstored : ∀ v i, r.matchIndex.get v = some i → i ≤ Storage.lastLogIndex s)
    (hx : x.matchIndex ≤ Storage.lastLogIndex s) (hy : y.matchIndex ≤ Storage.lastLogIndex s) :
    SameLeader
      (y.on .testUtils s config leaderId (x.on .testUtils s config leaderId ⟨r, sm, observer, []⟩))
      (x.on .testUtils s config leaderId
        (y.on .testUtils s config leaderId ⟨r, sm, observer, []⟩)) := by
  have hfits : MapCollection.VotersFit .testUtils config r.catchingUpServers leaderId :=
    fun _ hcap => (by cases hcap)
  have hcomm := noted_comm (r := r) (R := .testUtils) rfl hne.symm
  obtain ⟨m, hm, _⟩ := MapCollection.computeMedian_spec
    (noted .testUtils (noted .testUtils r x) y).matchIndex (Storage.lastLogIndex s) hfits
  have hm' : (noted .testUtils (noted .testUtils r y) x).matchIndex.computeMedian .testUtils
      (Storage.lastLogIndex s) config r.catchingUpServers leaderId = some m := by
    rw [← hm]
    exact MapCollection.computeMedian_congr hfits hfits (fun v => (hcomm v).1.symm) fun _ => rfl
  rw [two_answers hcalm hne.symm hs hstored hx hy hm, two_answers hcalm hne hs hstored hy hx hm']
  simp only [or_comm (a := y.News r)]
  exact ⟨rfl, rfl, fun v => (hcomm v).1, fun v => (hcomm v).2, rfl, rfl⟩

end

/-- The log of a leader of term 2, with an entry of an older term in it. -/
def mixedLog : InMemoryStorage UInt8 :=
  ⟨2, none, [⟨1, .command 5⟩, ⟨2, .command 6⟩, ⟨2, .configChange (.addServer 4)⟩], none, [], 1⟩

theorem termsAscend_mixedLog : TermsAscend mixedLog := by
  have hget : ∀ i e, Storage.getEntry mixedLog i = some e →
      i = 1 ∧ e.term = 1 ∨ 1 < i ∧ e.term = 2 := by
    intro i e he
    match i with
    | 0 => cases he
    | 1 => cases he; exact Or.inl ⟨rfl, rfl⟩
    | 2 => cases he; exact Or.inr ⟨by omega, rfl⟩
    | 3 => cases he; exact Or.inr ⟨by omega, rfl⟩
    | i + 4 => cases he
  refine ⟨fun i j e e' hij he he' => ?_, fun i e he => ?_⟩
  · have hi := hget i e he
    have hj := hget j e' he'
    omega
  · have hi := hget i e he
    show e.term ≤ 2
    omega

/-- One answer falls on the older entry, the other brings all three. -/
theorem answers_commute_mixedLog :
    SameLeader
      (Answer.on .testUtils mixedLog ⟨[1, 2, 3]⟩ 1
        (Answer.on .testUtils mixedLog ⟨[1, 2, 3]⟩ 1 ⟨.new, (⟨0⟩ : Adder), ⟨[]⟩, []⟩ ⟨2, true, 1⟩)
        ⟨3, true, 3⟩)
      (Answer.on .testUtils mixedLog ⟨[1, 2, 3]⟩ 1
        (Answer.on .testUtils mixedLog ⟨[1, 2, 3]⟩ 1 ⟨.new, (⟨0⟩ : Adder), ⟨[]⟩, []⟩ ⟨3, true, 3⟩)
        ⟨2, true, 1⟩) :=
  answers_commute (r := .new) (x := ⟨2, true, 1⟩) (y := ⟨3, true, 3⟩) (fun _ => rfl) (by decide)
    termsAscend_mixedLog (fun v i h => by cases h) (by decide) (by decide)

end MetalRaft
