import Mathlib.Algebra.Order.BigOperators.Group.List
import Mathlib.Algebra.Order.Ring.Nat
import Mathlib.Data.List.Sort
import Mathlib.Data.List.Dedup

/-!
# Medians and smallest elements

Two facts about sorted lists of natural numbers, for rules that count votes.

* `le_getElem_insertionSort` — the element at position `k` of the sorted list reaches `i` exactly
  when at least `length - k` elements do.
* `smallestSum` — the sum of the `q` smallest elements; `smallestSum_le` bounds it by every choice
  of `q` elements and `exists_smallestSum` gives a choice that attains it.
* `countP_mem` — counting the occurrences of several elements, one element at a time.
-/

set_option autoImplicit false

namespace Selection

/-! ## Positions in a sorted list -/

theorem le_getElem_sorted {i : ℕ} : ∀ {l : List ℕ} {k : ℕ}, l.Pairwise (· ≤ ·) →
    (hk : k < l.length) → (i ≤ l[k] ↔ l.length - k ≤ l.countP (fun x => decide (i ≤ x)))
  | x :: l, 0, h, _ => by
    have hall : ∀ y ∈ l, x ≤ y := (List.pairwise_cons.mp h).1
    constructor
    · intro hx
      have hle : ∀ y ∈ x :: l, decide (i ≤ y) = true := by
        intro y hy
        rcases List.mem_cons.mp hy with rfl | hy
        · exact decide_eq_true hx
        · exact decide_eq_true (Nat.le_trans hx (hall y hy))
      rw [List.countP_eq_length.mpr hle]
      exact Nat.sub_le _ _
    · intro hcount
      by_contra hx
      have hx' : decide (i ≤ x) = false := decide_eq_false hx
      have := l.countP_le_length (p := fun x => decide (i ≤ x))
      rw [List.countP_cons, hx'] at hcount
      simp only [List.length_cons, Bool.false_eq_true, if_false] at hcount
      omega
  | x :: l, k + 1, h, hk => by
    have hk' : k < l.length := Nat.lt_of_succ_lt_succ hk
    have hall := (List.pairwise_cons.mp h).1
    have ih := le_getElem_sorted (i := i) (List.pairwise_cons.mp h).2 hk'
    rw [List.getElem_cons_succ, ih, List.countP_cons, List.length_cons, Nat.add_sub_add_right]
    constructor
    · intro hle
      exact Nat.le_trans hle (Nat.le_add_right _ _)
    · intro hle
      by_cases hx : i ≤ x
      · -- everything reaches `i` if the least element does
        have hl : ∀ y ∈ l, decide (i ≤ y) = true := fun y hy =>
          decide_eq_true (Nat.le_trans hx (hall y hy))
        rw [List.countP_eq_length.mpr hl]
        exact Nat.sub_le _ _
      · simpa [hx] using hle

theorem le_getElem_insertionSort {i k : ℕ} {l : List ℕ}
    (hk : k < (l.insertionSort (· ≤ ·)).length) :
    i ≤ (l.insertionSort (· ≤ ·))[k] ↔
      l.length - k ≤ l.countP (fun x => decide (i ≤ x)) := by
  rw [le_getElem_sorted (List.pairwise_insertionSort _ l) hk,
    (List.perm_insertionSort _ l).countP_eq, List.length_insertionSort]

/-! ## The smallest elements -/

/-- The sum of the `q` smallest elements. -/
def smallestSum (q : ℕ) (l : List ℕ) : ℕ := ((l.insertionSort (· ≤ ·)).take q).sum

/-- Dropping the least element cannot make the first `q` smaller. -/
theorem sum_take_cons_le {x : ℕ} : ∀ {l : List ℕ} {q : ℕ}, (x :: l).Pairwise (· ≤ ·) →
    q ≤ l.length → ((x :: l).take q).sum ≤ (l.take q).sum
  | _, 0, _, _ => Nat.le_refl _
  | y :: l, q + 1, h, hq => by
    have hxy : x ≤ y := (List.pairwise_cons.mp h).1 y (List.mem_cons_self ..)
    have ih := sum_take_cons_le (List.pairwise_cons.mp h).2 (Nat.le_of_succ_le_succ hq)
    simp only [List.take_succ_cons, List.sum_cons] at ih ⊢
    omega

theorem sum_take_le_of_sublist {l l' : List ℕ} {q : ℕ} (hsub : l'.Sublist l)
    (h : l.Pairwise (· ≤ ·)) (hq : q ≤ l'.length) : (l.take q).sum ≤ l'.sum := by
  induction hsub generalizing q with
  | slnil => simp
  | @cons l' l x hsub ih =>
    have hlen : q ≤ l.length := Nat.le_trans hq hsub.length_le
    exact Nat.le_trans (sum_take_cons_le h hlen) (ih (List.pairwise_cons.mp h).2 hq)
  | @cons_cons l' l x hsub ih =>
    cases q with
    | zero => simp
    | succ q =>
      have := ih (List.pairwise_cons.mp h).2 (Nat.le_of_succ_le_succ hq)
      simp only [List.take_succ_cons, List.sum_cons]
      omega

variable {α : Type} {w : α → ℕ} {q : ℕ} {xs : List α}

/-- Every choice of `q` elements weighs at least as much as the `q` smallest. -/
theorem smallestSum_le {ys : List α} (hsub : ys.Subperm xs) (hq : q ≤ ys.length) :
    smallestSum q (xs.map w) ≤ (ys.map w).sum := by
  obtain ⟨zs, hperm, hzs⟩ := hsub
  have hweights : ((ys.map w).insertionSort (· ≤ ·)).Subperm (xs.map w) :=
    ((List.perm_insertionSort _ _).trans (hperm.symm.map w)).subperm.trans (hzs.map w).subperm
  have hsort : ((ys.map w).insertionSort (· ≤ ·)).Sublist ((xs.map w).insertionSort (· ≤ ·)) :=
    List.sublist_insertionSort' (List.pairwise_insertionSort _ _) hweights
  have hle := sum_take_le_of_sublist (q := q) hsort (List.pairwise_insertionSort _ _)
    (by rw [List.length_insertionSort, List.length_map]; exact hq)
  rwa [(List.perm_insertionSort _ (ys.map w)).sum_nat] at hle

/-- Some choice of `q` elements weighs exactly as much. -/
theorem exists_smallestSum (hq : q ≤ xs.length) :
    ∃ ys : List α, ys.Subperm xs ∧ ys.length = q ∧
      (ys.map w).sum = smallestSum q (xs.map w) := by
  let sorted := xs.insertionSort fun x y => w x ≤ w y
  have hperm : sorted.Perm xs := List.perm_insertionSort _ xs
  have hmap : sorted.map w = (xs.map w).insertionSort (· ≤ ·) :=
    List.map_insertionSort _ _ w xs fun _ _ _ _ => Iff.rfl
  refine ⟨sorted.take q, (List.take_sublist q sorted).subperm.trans hperm.subperm, ?_, ?_⟩
  · rw [List.length_take, hperm.length_eq]
    omega
  · unfold smallestSum
    rw [← hmap, List.map_take]

/-- Of zeros and ones the zeros come first. -/
theorem sum_take_of_le_one : ∀ {l : List ℕ} {q : ℕ}, l.Pairwise (· ≤ ·) → (∀ x ∈ l, x ≤ 1) →
    q ≤ l.length → (l.take q).sum = q - l.count 0
  | _, 0, _, _, _ => by simp
  | x :: l, q + 1, h, hle, hq => by
    have ih := sum_take_of_le_one (List.pairwise_cons.mp h).2
      (fun y hy => hle y (List.mem_cons_of_mem _ hy)) (Nat.le_of_succ_le_succ hq)
    have hx : x = 0 ∨ x = 1 := by have := hle x (List.mem_cons_self ..); omega
    rw [List.take_succ_cons, List.sum_cons, ih]
    rcases hx with rfl | rfl
    · rw [List.count_cons_self]
      omega
    · have hzero : l.count 0 = 0 := by
        refine List.count_eq_zero.mpr fun hmem => ?_
        have := (List.pairwise_cons.mp h).1 0 hmem
        omega
      rw [List.count_cons_of_ne (by decide), hzero]
      omega

theorem smallestSum_of_le_one {l : List ℕ} (h : ∀ x ∈ l, x ≤ 1) (hq : q ≤ l.length) :
    smallestSum q l = q - l.count 0 := by
  have hperm := List.perm_insertionSort (· ≤ ·) l
  unfold smallestSum
  rw [sum_take_of_le_one (List.pairwise_insertionSort _ l) (fun x hx => h x (hperm.mem_iff.mp hx))
    (by rw [List.length_insertionSort]; exact hq), hperm.count_eq]

/-! ## Counting -/

theorem countP_mem [DecidableEq α] (l : List α) : ∀ {ys : List α}, ys.Nodup →
    l.countP (fun x => decide (x ∈ ys)) = (ys.map l.count).sum
  | [], _ => by simp
  | y :: ys, h => by
    have hy : y ∉ ys := (List.nodup_cons.mp h).1
    rw [List.map_cons, List.sum_cons, ← countP_mem l (List.nodup_cons.mp h).2]
    clear h
    induction l with
    | nil => rfl
    | cons x l ih =>
      simp only [List.countP_cons, List.count_cons, ih]
      by_cases hxy : x = y
      · subst hxy; simp [hy]; omega
      · simp [hxy]; omega

end Selection
