import MetalRaft.Collections
import MetalRaft.Selection
import Mathlib.Data.Finset.Card
import Mathlib.Order.Bounds.Basic

/-!
# The median of the match indexes

* `voterList`, `indexOf` — who is counted by the commit rule, and with which index.
* `computeMedian_spec` — the median reaches exactly the indexes that a majority of them reaches, on
  either family of collections, as long as the voters fit.
* `computeMedian_greatest` — so it is the greatest index that a majority of the voters has.
-/

set_option autoImplicit false

namespace MetalRaft

open Selection

namespace MapCollection

/-- The leader, then the other members that are not catching up. -/
def voterList (config : Configuration) (catchingUpServers : MapCollection) (leaderId : NodeId) :
    List NodeId :=
  leaderId :: config.members.filter fun x =>
    x != leaderId && !(catchingUpServers.get x).isSome

/-- The index that a voter is counted with: the leader's is the end of its log, and a member that
has not answered yet has 0. -/
def indexOf (matchIndex : MapCollection) (leaderLastIndex : Nat) (leaderId x : NodeId) : Nat :=
  if x = leaderId then leaderLastIndex else (matchIndex.get x).getD 0

variable {R : Realization} {config : Configuration} {matchIndex matchIndex' : MapCollection}
  {catchingUpServers catchingUpServers' : MapCollection} {leaderLastIndex : Nat} {leaderId : NodeId}

/-- The voters fit the vector that `compute_median` sorts. -/
def VotersFit (R : Realization) (config : Configuration) (catchingUpServers : MapCollection)
    (leaderId : NodeId) : Prop :=
  ∀ cap, R.medians = some cap → (voterList config catchingUpServers leaderId).length ≤ cap

/-- What `compute_median` sorts. -/
theorem voterIndices_eq (hfits : VotersFit R config catchingUpServers leaderId) :
    matchIndex.voterIndices R leaderLastIndex config catchingUpServers leaderId =
      (voterList config catchingUpServers leaderId).map
        (matchIndex.indexOf leaderLastIndex leaderId) := by
  have hfold : ∀ (members : List NodeId) (indices : List Nat),
      members.foldl (fun indices member =>
        if member == leaderId then indices
        else if (catchingUpServers.get member).isSome then indices
        else pushWithin R.medians indices ((matchIndex.get member).getD 0)) indices =
      ((members.filter fun x => x != leaderId && !(catchingUpServers.get x).isSome).map
        (matchIndex.indexOf leaderLastIndex leaderId)).foldl (pushWithin R.medians) indices := by
    intro members
    induction members with
    | nil => simp
    | cons x members ih =>
      intro indices
      rw [List.foldl_cons, ih, List.filter_cons]
      by_cases hx : x = leaderId
      · simp [hx]
      · cases hc : catchingUpServers.get x <;> simp [hx, indexOf]
  have hpush : ((voterList config catchingUpServers leaderId).map
        (matchIndex.indexOf leaderLastIndex leaderId)).foldl (pushWithin R.medians) [] =
      [] ++ (voterList config catchingUpServers leaderId).map
        (matchIndex.indexOf leaderLastIndex leaderId) :=
    foldl_pushWithin_of_fits _ _ (by simpa [VotersFit] using hfits)
  rw [List.nil_append] at hpush
  rw [voterIndices, hfold, ← hpush]
  simp [voterList, indexOf]

variable (matchIndex leaderLastIndex) in
/-- **The median reaches an index exactly when a majority of the voters does.** -/
theorem computeMedian_spec (hfits : VotersFit R config catchingUpServers leaderId) :
    ∃ m, matchIndex.computeMedian R leaderLastIndex config catchingUpServers leaderId = some m ∧
      ∀ i, i ≤ m ↔ (voterList config catchingUpServers leaderId).length / 2 + 1 ≤
        (voterList config catchingUpServers leaderId).countP fun x =>
          decide (i ≤ matchIndex.indexOf leaderLastIndex leaderId x) := by
  have hpos : 0 < (voterList config catchingUpServers leaderId).length := Nat.succ_pos _
  unfold computeMedian
  rw [voterIndices_eq hfits]
  generalize voterList config catchingUpServers leaderId = voters at hpos ⊢
  have hlen : (voters.map (matchIndex.indexOf leaderLastIndex leaderId)).length = voters.length :=
    List.length_map ..
  have hk : ((voters.map (matchIndex.indexOf leaderLastIndex leaderId)).length - 1) / 2 <
      ((voters.map (matchIndex.indexOf leaderLastIndex leaderId)).insertionSort (· ≤ ·)).length := by
    rw [List.length_insertionSort]
    omega
  have hempty : (voters.map (matchIndex.indexOf leaderLastIndex leaderId)).isEmpty = false := by
    rw [List.isEmpty_eq_false_iff_exists_mem]
    exact List.exists_mem_of_length_pos (by omega)
  simp only [hempty, Bool.false_eq_true, if_false, List.getElem?_eq_getElem hk]
  refine ⟨_, rfl, fun i => ?_⟩
  have hhalf : voters.length - (voters.length - 1) / 2 = voters.length / 2 + 1 := by omega
  rw [le_getElem_insertionSort hk, List.countP_map, hlen, hhalf]
  rfl

/-- The median depends on the contents of the maps. -/
theorem computeMedian_congr {R' : Realization}
    (hfits : VotersFit R config catchingUpServers leaderId)
    (hfits' : VotersFit R' config catchingUpServers leaderId)
    (hmatch : ∀ x, matchIndex'.get x = matchIndex.get x)
    (hcatching : ∀ x, catchingUpServers'.get x = catchingUpServers.get x) :
    matchIndex'.computeMedian R' leaderLastIndex config catchingUpServers' leaderId =
      matchIndex.computeMedian R leaderLastIndex config catchingUpServers leaderId := by
  have hvoters : voterList config catchingUpServers' leaderId =
      voterList config catchingUpServers leaderId := by
    simp only [voterList, hcatching]
  have hfits'' : VotersFit R' config catchingUpServers' leaderId := by
    unfold VotersFit
    rw [hvoters]
    exact hfits'
  have hindex : matchIndex'.indexOf leaderLastIndex leaderId =
      matchIndex.indexOf leaderLastIndex leaderId := by
    funext x
    simp only [indexOf, hmatch]
  unfold computeMedian
  rw [voterIndices_eq hfits, voterIndices_eq hfits'', hvoters, hindex]

/-- The median grows with the match indexes. -/
theorem computeMedian_mono (hfits : VotersFit R config catchingUpServers leaderId)
    (hle : ∀ x, (matchIndex.get x).getD 0 ≤ (matchIndex'.get x).getD 0) {m m' : Nat}
    (hm : matchIndex.computeMedian R leaderLastIndex config catchingUpServers leaderId = some m)
    (hm' : matchIndex'.computeMedian R leaderLastIndex config catchingUpServers leaderId =
      some m') : m ≤ m' := by
  obtain ⟨_, heq, hreach⟩ := computeMedian_spec matchIndex leaderLastIndex hfits
  obtain ⟨_, heq', hreach'⟩ := computeMedian_spec matchIndex' leaderLastIndex hfits
  rw [hm] at heq
  rw [hm'] at heq'
  cases heq
  cases heq'
  rw [hreach']
  refine ((hreach m).mp (Nat.le_refl m)).trans (List.countP_mono_left fun x _ hx => ?_)
  simp only [decide_eq_true_eq] at hx ⊢
  refine hx.trans ?_
  unfold indexOf
  split
  · exact Nat.le_refl _
  · exact hle x

/-- The median does not exceed what all the indexes stay below. -/
theorem computeMedian_le (hfits : VotersFit R config catchingUpServers leaderId)
    (hle : ∀ x, (matchIndex.get x).getD 0 ≤ leaderLastIndex) {m : Nat}
    (hm : matchIndex.computeMedian R leaderLastIndex config catchingUpServers leaderId = some m) :
    m ≤ leaderLastIndex := by
  obtain ⟨_, heq, hreach⟩ := computeMedian_spec matchIndex leaderLastIndex hfits
  rw [hm] at heq
  cases heq
  have hmajority := (hreach m).mp (Nat.le_refl m)
  obtain ⟨x, _, hx⟩ := List.countP_pos_iff.mp (Nat.lt_of_lt_of_le (Nat.succ_pos _) hmajority)
  simp only [decide_eq_true_eq] at hx
  refine hx.trans ?_
  unfold indexOf
  split
  · exact Nat.le_refl _
  · exact hle x

/-! ## Distinct members -/

/-- The voters as a set: the leader and every other member that is not marked as catching up. -/
def voterSet (config : Configuration) (catchingUpServers : MapCollection) (leaderId : NodeId) :
    Finset NodeId :=
  {leaderId} ∪ config.members.toFinset.filter fun x => catchingUpServers.get x = none

theorem nodup_voterList (h : config.members.Nodup) :
    (voterList config catchingUpServers leaderId).Nodup := by
  refine List.nodup_cons.mpr ⟨fun hmem => ?_, h.filter _⟩
  simp at hmem

theorem toFinset_voterList :
    (voterList config catchingUpServers leaderId).toFinset =
      voterSet config catchingUpServers leaderId := by
  ext x
  by_cases hx : x = leaderId <;> simp [voterList, voterSet, hx]

theorem card_voterSet (h : config.members.Nodup) :
    (voterSet config catchingUpServers leaderId).card =
      (voterList config catchingUpServers leaderId).length := by
  rw [← toFinset_voterList, List.toFinset_card_of_nodup (nodup_voterList h)]

theorem card_filter_voterSet (h : config.members.Nodup) (p : NodeId → Prop) [DecidablePred p] :
    ((voterSet config catchingUpServers leaderId).filter p).card =
      (voterList config catchingUpServers leaderId).countP fun x => decide (p x) := by
  rw [← toFinset_voterList, List.countP_eq_length_filter,
    ← List.toFinset_card_of_nodup ((nodup_voterList h).filter _)]
  congr 1
  ext x
  simp

/-- The indexes that a majority of the voters has reached. -/
def majorityReached (matchIndex : MapCollection) (leaderLastIndex : Nat) (config : Configuration)
    (catchingUpServers : MapCollection) (leaderId : NodeId) : Set Nat :=
  {i | (voterSet config catchingUpServers leaderId).card / 2 + 1 ≤
    ((voterSet config catchingUpServers leaderId).filter fun x =>
      i ≤ matchIndex.indexOf leaderLastIndex leaderId x).card}

/-- **The median is the greatest index that a majority of the voters has reached**, and for up to ten
voters the embassy collections compute the same one from the same contents. -/
theorem computeMedian_greatest (h : config.members.Nodup) :
    ∃ m, matchIndex.computeMedian .testUtils leaderLastIndex config catchingUpServers leaderId =
        some m ∧
      IsGreatest (matchIndex.majorityReached leaderLastIndex config catchingUpServers leaderId) m ∧
      ∀ matchIndex' catchingUpServers' : MapCollection,
        (∀ x, matchIndex'.get x = matchIndex.get x) →
        (∀ x, catchingUpServers'.get x = catchingUpServers.get x) →
        (voterSet config catchingUpServers leaderId).card ≤ 10 →
          matchIndex'.computeMedian .embassy leaderLastIndex config catchingUpServers' leaderId =
            some m := by
  have hfits : VotersFit .testUtils config catchingUpServers leaderId := fun _ hcap => (by cases hcap)
  obtain ⟨m, hm, hreach⟩ := computeMedian_spec matchIndex leaderLastIndex hfits
  refine ⟨m, hm, ⟨?_, fun i hi => ?_⟩, fun matchIndex' catchingUpServers' hmatch hcatching hten => ?_⟩
  · rw [majorityReached, Set.mem_ofPred_eq, card_voterSet h, card_filter_voterSet h]
    exact (hreach m).mp (Nat.le_refl m)
  · rw [majorityReached, Set.mem_ofPred_eq, card_voterSet h, card_filter_voterSet h] at hi
    exact (hreach i).mpr hi
  · rw [card_voterSet h] at hten
    rw [← hm]
    refine computeMedian_congr hfits (fun cap hcap => ?_) hmatch hcatching
    cases hcap
    exact hten

/-- Four distinct members, one of which is catching up, and a leader among them. -/
theorem computeMedian_greatest_four :
    ∃ m, (⟨[(2, 7), (3, 4), (4, 9)]⟩ : MapCollection).computeMedian .testUtils 8 ⟨[1, 2, 3, 4]⟩
        ⟨[(4, 1)]⟩ 1 = some m ∧
      IsGreatest ((⟨[(2, 7), (3, 4), (4, 9)]⟩ : MapCollection).majorityReached 8 ⟨[1, 2, 3, 4]⟩
        ⟨[(4, 1)]⟩ 1) m ∧
      ∀ matchIndex' catchingUpServers' : MapCollection,
        (∀ x, matchIndex'.get x = (⟨[(2, 7), (3, 4), (4, 9)]⟩ : MapCollection).get x) →
        (∀ x, catchingUpServers'.get x = (⟨[(4, 1)]⟩ : MapCollection).get x) →
        (voterSet ⟨[1, 2, 3, 4]⟩ ⟨[(4, 1)]⟩ 1).card ≤ 10 →
          matchIndex'.computeMedian .embassy 8 ⟨[1, 2, 3, 4]⟩ catchingUpServers' 1 = some m :=
  computeMedian_greatest (by decide)

end MapCollection

end MetalRaft
