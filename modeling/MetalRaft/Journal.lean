import Mathlib.Data.List.Basic

/-!
# Journals

A durable object together with everything it has been: each write keeps the value it replaces.
A crash takes the object back to what it was after some number of writes.

* `Journal.write`, `Journal.history`, `Journal.rewind` — one write, all values so far, and the
  state a crash leaves.
* `Along` — a relation between any earlier and any later value; `along_write` extends it by a
  write, `along_rewind` survives a crash.
-/

set_option autoImplicit false

/-- The present value of a durable object, and the values it had before, oldest first. -/
structure Journal (D : Type) where
  past : List D
  disk : D

namespace Journal

variable {D : Type} {j : Journal D} {d : D} {r : D → D → Prop}

def history (j : Journal D) : List D := j.past ++ [j.disk]

/-- How many writes there have been. -/
def writes (j : Journal D) : Nat := j.past.length

def write (j : Journal D) (d : D) : Journal D := ⟨j.history, d⟩

/-- The object as it was after `m` writes. -/
def rewind (j : Journal D) (m : Nat) : Journal D :=
  match j.past[m]? with
  | some d => ⟨j.past.take m, d⟩
  | none => j

@[simp] theorem disk_write : (j.write d).disk = d := rfl

@[simp] theorem writes_write : (j.write d).writes = j.writes + 1 := by
  simp [writes, write, history]

@[simp] theorem history_write : (j.write d).history = j.history ++ [d] := rfl

theorem history_rewind (j : Journal D) (m : Nat) :
    (j.rewind m).history = j.history.take (m + 1) := by
  unfold rewind
  cases hm : j.past[m]? with
  | none =>
    have := List.getElem?_eq_none_iff.mp hm
    simp only
    rw [List.take_of_length_le]
    simp only [history, List.length_append, List.length_singleton]
    omega
  | some d =>
    have hlt := (List.getElem?_eq_some_iff.mp hm).1
    simp only [history]
    rw [List.take_append_of_le_length (by omega), List.take_add_one, hm]
    rfl

/-- A crash before the first of some writes. -/
theorem rewind_write_write (j : Journal D) (d d' : D) :
    ((j.write d).write d').rewind j.writes = j := by
  unfold rewind write writes history
  simp

/-- The relation holds between any value and any later one. -/
def Along (r : D → D → Prop) (j : Journal D) : Prop := j.history.Pairwise r

theorem along_write (htrans : ∀ a b c, r a b → r b c → r a c) (h : j.Along r)
    (hd : r j.disk d) : (j.write d).Along r := by
  unfold Along at h ⊢
  rw [history_write, List.pairwise_append]
  refine ⟨h, List.pairwise_singleton _ _, fun a ha b hb => ?_⟩
  rw [List.mem_singleton.mp hb]
  rcases List.mem_append.mp ha with ha' | ha'
  · exact htrans _ _ _ ((List.pairwise_append.mp h).2.2 a ha' j.disk (by simp)) hd
  · rw [List.mem_singleton.mp ha']; exact hd

/-- A write is still there after a crash that comes later. -/
theorem history_rewind_write (j : Journal D) (d d' : D) (k : Nat) :
    j.history ++ [d] <+: (((j.write d).write d').rewind (j.writes + (k + 1))).history := by
  rw [history_rewind, List.prefix_take_iff]
  refine ⟨⟨[d'], rfl⟩, ?_⟩
  simp only [history, writes, List.length_append, List.length_singleton]
  omega

/-- Where a write has broken the relation it stays broken. -/
theorem not_pairwise_of_write {l : List D} (hpre : j.history ++ [d] <+: l) (hd : ¬ r j.disk d) :
    ¬ l.Pairwise r := by
  intro h
  have hpair := h.sublist hpre.sublist
  exact hd ((List.pairwise_append.mp hpair).2.2 j.disk (by simp [history]) d (by simp))

theorem along_rewind (h : j.Along r) (m : Nat) : (j.rewind m).Along r := by
  unfold Along at h ⊢
  rw [history_rewind]
  exact h.sublist (List.take_sublist _ _)

end Journal
