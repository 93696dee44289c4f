import MetalRaft.Types
import Mathlib.Data.List.Sort

/-!
# Collections and configurations

`collections/*.rs` with the two families that implement them: the `test-utils` collections
(`Vec`, `IndexMap`) and the embassy ones (`heapless`, of fixed capacity, whose overflow the
callers ignore).  The families differ in their capacities only, so every operation takes a
`Realization` that lists them.

* `MapCollection.computeMedian` — the commit rule; both families write it out the same way.
* `Configuration.quorumSize`, `Configuration.hasQuorum` — the election rule.
-/

set_option autoImplicit false

namespace MetalRaft

/-- The capacities of a family of collections; `none` is unbounded. -/
structure Realization where
  nodes : Option Nat
  configChanges : Option Nat
  maps : Option Nat
  medians : Option Nat

namespace Realization

def testUtils : Realization := ⟨none, none, none, none⟩

/-- `heapless::Vec<NodeId, 10>`, `Vec<(LogIndex, _), 10>`, `FnvIndexMap<_, _, 8>` and the
`Vec<LogIndex, 10>` local to `compute_median`. -/
def embassy : Realization := ⟨some 10, some 10, some 8, some 10⟩

end Realization

/-- `push(x).ok()`: an element that does not fit is dropped. -/
def pushWithin {α : Type} (cap : Option Nat) (xs : List α) (x : α) : List α :=
  match cap with
  | none => xs ++ [x]
  | some n => if xs.length < n then xs ++ [x] else xs

@[simp] theorem pushWithin_none {α : Type} (xs : List α) (x : α) :
    pushWithin none xs x = xs ++ [x] := rfl

@[simp] theorem foldl_pushWithin_none {α : Type} :
    ∀ (ys xs : List α), ys.foldl (pushWithin none) xs = xs ++ ys
  | [], xs => by simp
  | y :: ys, xs => by simp [foldl_pushWithin_none ys]

theorem mem_of_mem_pushWithin {α : Type} {cap : Option Nat} {xs : List α} {x y : α}
    (h : y ∈ pushWithin cap xs x) : y ∈ xs ∨ y = x := by
  unfold pushWithin at h
  split at h
  · simpa using h
  · split at h
    · simpa using h
    · exact Or.inl h

theorem mem_of_mem_foldl_pushWithin {α : Type} {cap : Option Nat} {y : α} :
    ∀ {ys xs : List α}, y ∈ ys.foldl (pushWithin cap) xs → y ∈ xs ∨ y ∈ ys
  | [], _, h => Or.inl h
  | z :: ys, xs, h => by
    rw [List.foldl_cons] at h
    rcases mem_of_mem_foldl_pushWithin h with h | h
    · rcases mem_of_mem_pushWithin h with h | rfl
      · exact Or.inl h
      · exact Or.inr (List.mem_cons_self ..)
    · exact Or.inr (List.mem_cons_of_mem _ h)

theorem pushWithin_length_le {α : Type} {cap : Nat} {xs : List α} (x : α) (h : xs.length ≤ cap) :
    (pushWithin (some cap) xs x).length ≤ cap := by
  unfold pushWithin
  dsimp only
  split
  · simp; omega
  · exact h

theorem foldl_pushWithin_length_le {α : Type} {cap : Nat} :
    ∀ (ys xs : List α), xs.length ≤ cap → (ys.foldl (pushWithin (some cap)) xs).length ≤ cap
  | [], _, h => h
  | y :: ys, _, h => foldl_pushWithin_length_le ys _ (pushWithin_length_le y h)

/-- Nothing is dropped as long as everything fits. -/
theorem foldl_pushWithin_of_fits {α : Type} {cap : Option Nat} :
    ∀ (ys xs : List α), (∀ k, cap = some k → xs.length + ys.length ≤ k) →
      ys.foldl (pushWithin cap) xs = xs ++ ys
  | [], _, _ => by simp
  | y :: ys, xs, h => by
    have hpush : pushWithin cap xs y = xs ++ [y] := by
      cases cap with
      | none => rfl
      | some k =>
        have := h k rfl
        simp only [List.length_cons] at this
        unfold pushWithin
        dsimp only
        rw [if_pos (by omega)]
    rw [List.foldl_cons, hpush, foldl_pushWithin_of_fits ys]
    · simp
    · intro k hk
      have := h k hk
      simp only [List.length_cons, List.length_append, List.length_nil] at this ⊢
      omega

/-! ## Configurations -/

/-- `Configuration`; its members are a node collection. -/
structure Configuration where
  members : List NodeId
  deriving DecidableEq

namespace Configuration

def contains (c : Configuration) (nodeId : NodeId) : Bool := c.members.any (· == nodeId)

def size (c : Configuration) : Nat := c.members.length

def quorumSize (c : Configuration) : Nat :=
  let size := c.size
  if size = 0 then 0 else size / 2 + 1

def hasQuorum (c : Configuration) (count : Nat) : Bool := decide (count ≥ c.quorumSize)

def peers (c : Configuration) (selfId : NodeId) : List NodeId := c.members.filter (· != selfId)

theorem contains_iff {c : Configuration} {v : NodeId} : c.contains v = true ↔ v ∈ c.members := by
  simp [contains]

theorem mem_peers {c : Configuration} {v w : NodeId} : w ∈ c.peers v ↔ w ∈ c.members ∧ w ≠ v := by
  simp [peers]

end Configuration

/-! ## Maps from nodes to indices -/

structure MapCollection where
  entries : List (NodeId × Nat)

namespace MapCollection

def new : MapCollection := ⟨[]⟩

/-- `insert`: an existing key gets the new value in place; a new key that does not fit is
dropped. -/
def insert (R : Realization) (m : MapCollection) (key : NodeId) (value : Nat) :
    MapCollection :=
  if m.entries.any (·.1 == key) then
    ⟨m.entries.map fun e => if e.1 == key then (key, value) else e⟩
  else ⟨pushWithin R.maps m.entries (key, value)⟩

def get (m : MapCollection) (key : NodeId) : Option Nat :=
  (m.entries.find? (·.1 == key)).map (·.2)

def remove (m : MapCollection) (key : NodeId) : MapCollection :=
  ⟨m.entries.filter (·.1 != key)⟩

/-- The index list `compute_median` sorts: the leader's last index, then one index for every
member that is neither the leader nor catching up. -/
def voterIndices (R : Realization) (matchIndex : MapCollection) (leaderLastIndex : Nat)
    (config : Configuration) (catchingUpServers : MapCollection) (leaderId : NodeId) :
    List Nat :=
  config.members.foldl
    (fun indices member =>
      if member == leaderId then indices
      else if (catchingUpServers.get member).isSome then indices
      else pushWithin R.medians indices ((matchIndex.get member).getD 0))
    (pushWithin R.medians [] leaderLastIndex)

def computeMedian (R : Realization) (matchIndex : MapCollection) (leaderLastIndex : Nat)
    (config : Configuration) (catchingUpServers : MapCollection) (leaderId : NodeId) :
    Option Nat :=
  let indices := matchIndex.voterIndices R leaderLastIndex config catchingUpServers leaderId
  if indices.isEmpty then none
  else (indices.insertionSort (· ≤ ·))[(indices.length - 1) / 2]?

theorem get_insert_self {R : Realization} (hR : R.maps = none) (m : MapCollection) (key : NodeId)
    (value : Nat) : (m.insert R key value).get key = some value := by
  obtain ⟨es⟩ := m
  unfold insert get
  split
  · rename_i h
    simp only at h ⊢
    induction es with
    | nil => simp at h
    | cons e es ih =>
      by_cases he : e.1 = key
      · simp [he]
      · have h' : (es.any fun x => x.1 == key) = true := by simpa [he] using h
        simpa [he] using ih h'
  · rename_i h
    have hnone : es.find? (fun x => x.1 == key) = none := by
      rw [List.find?_eq_none]
      intro x hx hk
      exact h (List.any_eq_true.mpr ⟨x, hx, hk⟩)
    simp [hR, List.find?_append, hnone]

theorem get_insert_ne {R : Realization} (hR : R.maps = none) (m : MapCollection)
    {key key' : NodeId} (hne : key' ≠ key) (value : Nat) :
    (m.insert R key value).get key' = m.get key' := by
  obtain ⟨es⟩ := m
  unfold insert get
  split
  · simp only
    clear * - hne
    induction es with
    | nil => rfl
    | cons e es ih =>
      by_cases he : e.1 = key
      · have hk : e.1 ≠ key' := fun h => hne (h.symm.trans he)
        simpa [he, Ne.symm hne, hk] using ih
      · by_cases hk : e.1 = key'
        · subst hk; simp [he]
        · simpa [he, hk] using ih
  · simp [hR, List.find?_append, Ne.symm hne]

/-- Looking up after an insertion, on an unbounded map. -/
theorem get_insert {R : Realization} (hR : R.maps = none) (m : MapCollection)
    (key key' : NodeId) (value : Nat) :
    (m.insert R key value).get key' = if key' = key then some value else m.get key' := by
  split
  · rename_i h; rw [h, get_insert_self hR]
  · rename_i h; rw [get_insert_ne hR m h]

end MapCollection

/-! ## Configuration changes found by the apply loop -/

/-- A config change collection; `push` beyond the capacity is ignored. -/
abbrev ConfigChangeCollection := List (Nat × ConfigurationChange)

end MetalRaft
