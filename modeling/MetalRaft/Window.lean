import Mathlib.Data.List.Basic

/-!
# Lists that have lost a prefix

A sequence of which only a stretch is kept: the items from index `first` on.

* `Window.get?`, `Window.stop` — the item at an index, and the first index without one.
* `append`, `truncateAfter`, `discardBefore` — the three ways to change it, and what each leaves at
  an index.
-/

set_option autoImplicit false

structure Window (α : Type) where
  first : Nat
  items : List α

namespace Window

variable {α : Type} {w : Window α} {xs : List α} {i k : Nat} {x : α}

/-- The first index beyond the window. -/
def stop (w : Window α) : Nat := w.first + w.items.length

def get? (w : Window α) (i : Nat) : Option α :=
  if i < w.first then none else w.items[i - w.first]?

/-- The items from index `i` on, or none where the window does not reach back to `i`. -/
def itemsFrom (w : Window α) (i : Nat) : List α := if i < w.first then [] else w.items.drop (i - w.first)

def append (w : Window α) (xs : List α) : Window α := { w with items := w.items ++ xs }

/-- Everything behind index `k` goes; a window that begins behind it loses all its items. -/
def truncateAfter (w : Window α) (k : Nat) : Window α :=
  { w with items := w.items.take (k + 1 - w.first) }

/-- The window begins at `k` from now on, unless it begins later anyway. -/
def discardBefore (w : Window α) (k : Nat) : Window α :=
  ⟨max w.first k, w.items.drop (k - w.first)⟩

/-- Truncation as a storage writes it. -/
theorem truncateAfter_eq (w : Window α) (k : Nat) :
    w.truncateAfter k =
      { w with items := if k < w.first then [] else w.items.take (k - w.first + 1) } := by
  unfold truncateAfter
  split
  · rw [Nat.sub_eq_zero_of_le (by omega), List.take_zero]
  · rw [show k - w.first + 1 = k + 1 - w.first by omega]

/-- Discarding as a storage writes it. -/
theorem discardBefore_eq (w : Window α) (k : Nat) :
    w.discardBefore k =
      if k ≤ w.first then w
      else ⟨k, if k - w.first ≥ w.items.length then [] else w.items.drop (k - w.first)⟩ := by
  unfold discardBefore
  split
  · rename_i h
    rw [Nat.max_eq_left h, Nat.sub_eq_zero_of_le h, List.drop_zero]
  · rename_i h
    rw [Nat.max_eq_right (Nat.le_of_lt (Nat.not_le.mp h))]
    split
    · rename_i hall
      rw [List.drop_eq_nil_of_le hall]
    · rfl

theorem first_le_stop : w.first ≤ w.stop := Nat.le_add_right _ _

theorem bounds_of_get? (h : w.get? i = some x) : w.first ≤ i ∧ i < w.stop := by
  unfold get? at h
  split at h
  · cases h
  · have := (List.getElem?_eq_some_iff.mp h).1
    unfold stop
    omega

theorem exists_get? (hfirst : w.first ≤ i) (hstop : i < w.stop) : ∃ x, w.get? i = some x := by
  unfold stop at hstop
  unfold get?
  rw [if_neg (by omega)]
  exact ⟨_, List.getElem?_eq_getElem (by omega)⟩

/-! ## What a change leaves -/

@[simp] theorem stop_append : (w.append xs).stop = w.stop + xs.length := by
  simp [stop, append, Nat.add_assoc]

theorem get?_append : (w.append xs).get? i = if i < w.stop then w.get? i else xs[i - w.stop]? := by
  unfold append get? stop
  dsimp only
  split
  · rw [if_pos (by omega)]
  · split
    · rw [List.getElem?_append_left (by omega)]
    · rw [List.getElem?_append_right (by omega)]
      congr 1
      omega

theorem stop_truncateAfter :
    (w.truncateAfter k).stop = min w.stop (max w.first (k + 1)) := by
  simp only [stop, truncateAfter, List.length_take]
  omega

theorem get?_truncateAfter : (w.truncateAfter k).get? i = if i ≤ k then w.get? i else none := by
  unfold truncateAfter get?
  dsimp only
  split
  · split <;> rfl
  · rw [List.getElem?_take]
    split
    · rw [if_pos (by omega)]
    · rw [if_neg (by omega)]

theorem get?_discardBefore :
    (w.discardBefore k).get? i = if i < k then none else w.get? i := by
  unfold discardBefore get?
  dsimp only
  by_cases hi : i < k
  · rw [if_pos (by omega), if_pos hi]
  · by_cases hfirst : i < w.first
    · rw [if_pos (by omega), if_neg hi, if_pos hfirst]
    · rw [if_neg (by omega), if_neg hi, if_neg hfirst, List.getElem?_drop]
      congr 1
      omega

/-- Discarding items that are there does not move the end. -/
theorem stop_discardBefore (h : k ≤ w.stop) : (w.discardBefore k).stop = w.stop := by
  unfold stop at h
  simp only [stop, discardBefore, List.length_drop]
  omega

theorem itemsFrom_discardBefore (hk : k ≤ i) : (w.discardBefore k).itemsFrom i = w.itemsFrom i := by
  unfold itemsFrom discardBefore
  dsimp only
  by_cases hfirst : i < w.first
  · rw [if_pos (by omega), if_pos hfirst]
  · rw [if_neg (by omega), if_neg hfirst, List.drop_drop]
    congr 1
    omega

/-- A window that ends where the discarding does loses all its items. -/
theorem items_discardBefore (h : w.stop ≤ k) : (w.discardBefore k).items = [] := by
  unfold stop at h
  apply List.drop_eq_nil_of_le
  omega

/-- The last item stays unless all go. -/
theorem getLast?_discardBefore (h : k < w.stop) :
    (w.discardBefore k).items.getLast? = w.items.getLast? := by
  unfold stop at h
  simp only [discardBefore, List.getLast?_drop, ite_eq_right_iff]
  intro hall
  have : w.items = [] := List.eq_nil_of_length_eq_zero (by omega)
  simp [this]

/-! ## Replacing the end -/

/-- The items behind index `k` are replaced by others. -/
def place (w : Window α) (k : Nat) (xs : List α) : Window α := (w.truncateAfter k).append xs

theorem stop_place : (w.place k xs).stop = min w.stop (max w.first (k + 1)) + xs.length := by
  rw [place, stop_append, stop_truncateAfter]

/-- Where index `k` is inside the window, or just before it, the new items come right behind. -/
theorem get?_place (hk : k < w.stop) :
    (w.place k xs).get? i =
      if i ≤ k then w.get? i
      else if i < w.first then none else xs[i - max w.first (k + 1)]? := by
  have hstop : (w.truncateAfter k).stop = max w.first (k + 1) := by
    rw [stop_truncateAfter]
    have := w.first_le_stop
    omega
  rw [place, get?_append, get?_truncateAfter, hstop]
  by_cases hi : i ≤ k
  · rw [if_pos (by omega), if_pos hi, if_pos hi]
  · rw [if_neg hi, if_neg hi]
    by_cases hfirst : i < w.first
    · rw [if_pos (by omega), if_pos hfirst]
    · rw [if_neg (by omega), if_neg hfirst]

theorem truncateAfter_eq_self (h : w.stop ≤ k + 1) : w.truncateAfter k = w := by
  obtain ⟨first, items⟩ := w
  unfold stop at h
  unfold truncateAfter
  dsimp only at h ⊢
  rw [List.take_of_length_le (by omega)]

/-- Items may come in one after another. -/
theorem place_place {ys : List α} (hfirst : w.first ≤ k + 1) (hk : k < w.stop) :
    (w.place k xs).place (k + xs.length) ys = w.place k (xs ++ ys) := by
  have hstop : (w.place k xs).stop = k + 1 + xs.length := by
    rw [stop_place]
    omega
  rw [place, truncateAfter_eq_self (by omega)]
  simp [place, append]

end Window
