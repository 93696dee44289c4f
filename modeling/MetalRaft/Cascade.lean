import Mathlib.Logic.Hydra
import Mathlib.Order.WellFounded

/-!
# Cascades

Items of work that are taken up one at a time, each leaving behind items of lower rank only.

* `Spends` — one list of items comes from another by taking up one item.
* `Spends.exists_stop` — nothing goes on spending for ever, however many items one leaves behind.
* `RankBelow` — all items rank below a bound, as when a round takes up every item there is.
-/

set_option autoImplicit false

namespace Cascade

open Relation

variable {ι σ : Type} {rank : ι → Nat}

/-- Some item of `before` is taken up, and what it leaves behind has lower rank. -/
def Spends (rank : ι → Nat) (after before : List ι) : Prop :=
  ∃ (k : Nat) (x : ι) (left : List ι), before[k]? = some x ∧ (∀ y ∈ left, rank y < rank x) ∧
    after = before.eraseIdx k ++ left

theorem Spends.cutExpand {after before : List ι} (h : Spends rank after before) :
    CutExpand (InvImage (· < ·) rank) (after : Multiset ι) (before : Multiset ι) := by
  obtain ⟨k, x, left, hx, hleft, rfl⟩ := h
  obtain ⟨hk, rfl⟩ := List.getElem?_eq_some_iff.mp hx
  refine ⟨(left : Multiset ι), before[k], fun y hy => hleft y (by simpa using hy), ?_⟩
  have hperm : (before[k] :: before.eraseIdx k).Perm before := List.getElem_cons_eraseIdx_perm hk
  have hsplit : (before : Multiset ι) = (before.eraseIdx k : Multiset ι) + {before[k]} := by
    rw [← Multiset.coe_eq_coe.mpr hperm, ← Multiset.cons_coe, ← Multiset.singleton_add, add_comm]
  rw [hsplit, ← Multiset.coe_add]
  exact add_right_comm _ _ _

theorem wellFounded_spends (rank : ι → Nat) : WellFounded (Spends rank) := by
  have hrank : WellFounded (InvImage (· < ·) rank) := InvImage.wf rank Nat.lt_wfRel.wf
  exact Subrelation.wf Spends.cutExpand (InvImage.wf (fun l : List ι => (l : Multiset ι))
    hrank.cutExpand)

/-- **No cascade goes on for ever**: along every sequence of states there is one whose items are
not spent by what comes next. -/
theorem Spends.exists_stop (items : σ → List ι) (states : Nat → σ) :
    ∃ i, ¬ Spends rank (items (states (i + 1))) (items (states i)) := by
  have : IsWellFounded (List ι) (Spends rank) := ⟨wellFounded_spends rank⟩
  exact WellFounded.not_rel_apply_succ (fun i => items (states i))

/-! ## Rounds -/

/-- Every item ranks below `k`. -/
def RankBelow (rank : ι → Nat) (k : Nat) (l : List ι) : Prop := ∀ x ∈ l, rank x < k

theorem rankBelow_append {k : Nat} {l l' : List ι} :
    RankBelow rank k (l ++ l') ↔ RankBelow rank k l ∧ RankBelow rank k l' := by
  simp [RankBelow, or_imp, forall_and]

end Cascade
