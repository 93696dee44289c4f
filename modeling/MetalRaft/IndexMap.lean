import Mathlib.Data.List.Perm.Basic
import Mathlib.Data.List.Nodup

/-!
# Maps that keep an order

A map as a list of entries with distinct keys, in an order that insertion and removal determine:
a new key goes to the end, a key that is there keeps its place, and a removed entry is replaced by
the last one.

* `IndexMap.mem_insert`, `IndexMap.mem_swapRemove` — the entries after an operation; lookups
  follow from them through `IndexMap.get_eq_some`.
* `IndexMap.keys_insert` — which keys there are, in their order.
-/

set_option autoImplicit false

/-- The list without the element at `i`, in whose place the last one is put. -/
def List.swapRemove {α : Type} (l : List α) (i : Nat) : List α :=
  match l.getLast? with
  | none => l
  | some x => (l.set i x).dropLast

theorem List.swapRemove_perm {α : Type} (l : List α) {i : Nat} (hi : i < l.length) :
    (l.swapRemove i).Perm (l.eraseIdx i) := by
  rcases List.eq_nil_or_concat l with rfl | ⟨init, x, rfl⟩
  · exact absurd hi (Nat.not_lt_zero i)
  · rw [List.concat_eq_append] at hi ⊢
    have hlast : (init ++ [x]).swapRemove i = ((init ++ [x]).set i x).dropLast := by
      simp [List.swapRemove]
    rw [List.length_append, List.length_singleton] at hi
    rcases Nat.lt_or_ge i init.length with hlt | hge
    · have hset : init.set i x = init.take i ++ x :: init.drop (i + 1) :=
        List.set_eq_take_append_cons_drop.trans (if_pos hlt)
      rw [hlast, List.set_append_left _ _ hlt, List.dropLast_concat, hset,
        List.eraseIdx_append_of_lt_length hlt, List.eraseIdx_eq_take_drop_succ, List.append_assoc]
      exact (List.perm_append_singleton x (init.drop (i + 1))).symm.append_left (init.take i)
    · obtain rfl : i = init.length := by omega
      rw [hlast, List.set_append_right _ _ (Nat.le_refl _),
        List.eraseIdx_append_of_length_le (Nat.le_refl _)]
      simp

structure IndexMap (κ α : Type) where
  entries : List (κ × α)
  nodup : (entries.map (·.1)).Nodup

namespace IndexMap

variable {κ α : Type} [DecidableEq κ] {m : IndexMap κ α} {k k' : κ} {x y : α}

def empty : IndexMap κ α := ⟨[], List.nodup_nil⟩

def keys (m : IndexMap κ α) : List κ := m.entries.map (·.1)

def get (m : IndexMap κ α) (k : κ) : Option α := (m.entries.find? (·.1 = k)).map (·.2)

theorem get_eq_some : m.get k = some x ↔ (k, x) ∈ m.entries := by
  obtain ⟨l, hl⟩ := m
  simp only [get, Option.map_eq_some_iff]
  induction l with
  | nil => simp
  | cons e l ih =>
    rw [List.map_cons, List.nodup_cons] at hl
    have ih := ih hl.2
    by_cases hk : e.1 = k
    · rw [List.find?_cons_of_pos (by simpa using hk), List.mem_cons]
      constructor
      · rintro ⟨e', he', rfl⟩
        cases he'
        exact Or.inl (by rw [← hk])
      · rintro (rfl | hmem)
        · exact ⟨_, rfl, rfl⟩
        · exact absurd (hk ▸ List.mem_map_of_mem (f := (·.1)) hmem) hl.1
    · rw [List.find?_cons_of_neg (by simpa using hk), List.mem_cons, ih]
      constructor
      · exact Or.inr
      · rintro (rfl | hmem)
        · exact absurd rfl hk
        · exact hmem

theorem mem_keys : k ∈ m.keys ↔ ∃ x, m.get k = some x := by
  simp only [keys, get_eq_some, List.mem_map, Prod.exists, exists_and_right, exists_eq_right]

theorem get_eq_none : m.get k = none ↔ k ∉ m.keys := by
  rw [mem_keys, ← Option.isNone_iff_eq_none, Option.isNone_iff_eq_none,
    Option.eq_none_iff_forall_not_mem]
  simp

/-! ## Insertion -/

/-- The entries once `k` is bound to `x`. -/
def inserted (l : List (κ × α)) (k : κ) (x : α) : List (κ × α) :=
  if k ∈ l.map (·.1) then l.map fun e => if e.1 = k then (k, x) else e else l ++ [(k, x)]

theorem map_inserted (l : List (κ × α)) (k : κ) (x : α) :
    (inserted l k x).map (·.1) =
      if k ∈ l.map (·.1) then l.map (·.1) else l.map (·.1) ++ [k] := by
  unfold inserted
  split
  · rw [List.map_map]
    apply List.map_congr_left
    intro e _
    simp only [Function.comp_apply]
    split
    · rename_i he
      exact he.symm
    · rfl
  · simp

def insert (m : IndexMap κ α) (k : κ) (x : α) : IndexMap κ α where
  entries := inserted m.entries k x
  nodup := by
    rw [map_inserted]
    split
    · exact m.nodup
    · rename_i hk
      apply List.Nodup.append m.nodup (List.nodup_singleton k)
      simpa using hk

theorem keys_insert (m : IndexMap κ α) (k : κ) (x : α) :
    (m.insert k x).keys = if k ∈ m.keys then m.keys else m.keys ++ [k] :=
  map_inserted m.entries k x

theorem keys_insert_of_mem (h : k ∈ m.keys) (x : α) : (m.insert k x).keys = m.keys := by
  rw [keys_insert, if_pos h]

theorem mem_insert :
    (k', y) ∈ (m.insert k x).entries ↔ k' = k ∧ y = x ∨ k' ≠ k ∧ (k', y) ∈ m.entries := by
  show (k', y) ∈ inserted m.entries k x ↔ _
  unfold inserted
  split
  · rename_i hk
    obtain ⟨e, he, rfl⟩ := List.mem_map.mp hk
    simp only [List.mem_map]
    constructor
    · rintro ⟨e', he', hy⟩
      split at hy
      · cases hy
        exact Or.inl ⟨rfl, rfl⟩
      · rename_i hne
        subst hy
        exact Or.inr ⟨hne, he'⟩
    · rintro (⟨rfl, rfl⟩ | ⟨hne, hmem⟩)
      · exact ⟨e, he, if_pos rfl⟩
      · exact ⟨(k', y), hmem, if_neg hne⟩
  · rename_i hk
    simp only [List.mem_append, List.mem_singleton, Prod.mk.injEq]
    constructor
    · rintro (hmem | hkx)
      · exact Or.inr ⟨fun h => hk (h ▸ List.mem_map_of_mem (f := (·.1)) hmem), hmem⟩
      · exact Or.inl hkx
    · rintro (hkx | ⟨-, hmem⟩)
      · exact Or.inr hkx
      · exact Or.inl hmem

@[simp] theorem get_insert_self (m : IndexMap κ α) (k : κ) (x : α) :
    (m.insert k x).get k = some x := by
  simp [get_eq_some, mem_insert]

@[simp] theorem get_insert_ne (m : IndexMap κ α) (h : k' ≠ k) (x : α) :
    (m.insert k x).get k' = m.get k' := by
  ext y
  simp [get_eq_some, mem_insert, h]

/-! ## Removal -/

def swapRemove (m : IndexMap κ α) (k : κ) : IndexMap κ α :=
  match h : m.entries.findIdx? (·.1 = k) with
  | none => m
  | some i => ⟨m.entries.swapRemove i, by
      have hi : i < m.entries.length := (List.findIdx?_eq_some_iff_getElem.mp h).1
      have hperm := (List.swapRemove_perm m.entries hi).map (·.1)
      rw [hperm.nodup_iff]
      exact m.nodup.sublist ((List.eraseIdx_sublist _ _).map _)⟩

theorem mem_swapRemove :
    (k', y) ∈ (m.swapRemove k).entries ↔ k' ≠ k ∧ (k', y) ∈ m.entries := by
  unfold swapRemove
  split
  · rename_i hnone
    rw [List.findIdx?_eq_none_iff] at hnone
    refine ⟨fun h => ⟨?_, h⟩, And.right⟩
    simpa using hnone _ h
  · rename_i i hfound
    obtain ⟨hi, hk, -⟩ := List.findIdx?_eq_some_iff_getElem.mp hfound
    have hk : m.entries[i].1 = k := by simpa using hk
    rw [(List.swapRemove_perm m.entries hi).mem_iff]
    have hperm := List.getElem_cons_eraseIdx_perm hi
    have hnodup : ((m.entries[i] :: m.entries.eraseIdx i).map (·.1)).Nodup :=
      (hperm.map _).nodup_iff.mpr m.nodup
    rw [List.map_cons, List.nodup_cons] at hnodup
    constructor
    · intro hmem
      refine ⟨fun heq => hnodup.1 ?_, hperm.mem_iff.mp (List.mem_cons_of_mem _ hmem)⟩
      rw [hk, ← heq]
      exact List.mem_map_of_mem (f := (·.1)) hmem
    · rintro ⟨hne, hmem⟩
      rcases List.mem_cons.mp (hperm.mem_iff.mpr hmem) with heq | hmem
      · exact absurd (by rw [← hk, ← heq]) hne
      · exact hmem

@[simp] theorem get_swapRemove_self (m : IndexMap κ α) (k : κ) :
    (m.swapRemove k).get k = none := by
  rw [Option.eq_none_iff_forall_not_mem]
  intro y hy
  exact (mem_swapRemove.mp (get_eq_some.mp hy)).1 rfl

@[simp] theorem get_swapRemove_ne (m : IndexMap κ α) (h : k' ≠ k) :
    (m.swapRemove k).get k' = m.get k' := by
  ext y
  simp [get_eq_some, mem_swapRemove, h]

/-! ## All entries -/

/-- Every value is replaced in its place. -/
def mapValues {β : Type} (m : IndexMap κ α) (f : α → β) : IndexMap κ β where
  entries := m.entries.map fun e => (e.1, f e.2)
  nodup := by
    rw [List.map_map]
    exact m.nodup

omit [DecidableEq κ] in
@[simp] theorem keys_mapValues {β : Type} (m : IndexMap κ α) (f : α → β) :
    (m.mapValues f).keys = m.keys := List.map_map

@[simp] theorem get_mapValues {β : Type} (m : IndexMap κ α) (f : α → β) (k : κ) :
    (m.mapValues f).get k = (m.get k).map f := by
  ext y
  simp only [get_eq_some, mapValues, List.mem_map, Prod.mk.injEq, Prod.exists, Option.map_eq_some_iff]
  constructor
  · rintro ⟨k', x, hmem, rfl, rfl⟩
    exact ⟨x, hmem, rfl⟩
  · rintro ⟨x, hmem, rfl⟩
    exact ⟨k, x, hmem, rfl, rfl⟩

/-- The entry of `k` is taken out, and comes back at the end with a new value. -/
def refresh (f : κ → α → α) (m : IndexMap κ α) (k : κ) : IndexMap κ α :=
  match m.get k with
  | none => m
  | some x => (m.swapRemove k).insert k (f k x)

theorem get_refresh (f : κ → α → α) (m : IndexMap κ α) (k k' : κ) :
    (m.refresh f k).get k' = if k' = k then (m.get k').map (f k') else m.get k' := by
  unfold refresh
  by_cases hk : k' = k
  · subst hk
    rw [if_pos rfl]
    cases h : m.get k' with
    | none => exact h
    | some x => exact get_insert_self _ _ _
  · rw [if_neg hk]
    cases h : m.get k with
    | none => rfl
    | some x => simp [hk]

/-- Walking over its own keys, a map is refreshed once at each of them. -/
theorem get_foldl_refresh (f : κ → α → α) {ks : List κ} (hks : ks.Nodup) (m : IndexMap κ α)
    (k : κ) : (ks.foldl (refresh f) m).get k =
      if k ∈ ks then (m.get k).map (f k) else m.get k := by
  induction ks generalizing m with
  | nil => simp
  | cons k' ks ih =>
    obtain ⟨hout, hks⟩ := List.nodup_cons.mp hks
    rw [List.foldl_cons, ih hks, get_refresh]
    by_cases hk : k = k'
    · subst hk
      rw [if_neg hout, if_pos rfl, if_pos List.mem_cons_self]
    · simp [hk]

theorem get_refreshAll (f : κ → α → α) (m : IndexMap κ α) (k : κ) :
    (m.keys.foldl (refresh f) m).get k = (m.get k).map (f k) := by
  rw [show (m.keys.foldl (refresh f) m).get k = _ from get_foldl_refresh f m.nodup m k]
  split
  · rfl
  · rename_i hk
    rw [get_eq_none.mpr hk]
    rfl

end IndexMap
