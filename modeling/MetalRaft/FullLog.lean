import MetalRaft.Completeness
import MetalRaft.LogMoves

/-!
# Full logs

A storage that has compacted its log stands for the whole of it: the entries its snapshot covers
and those it still holds.

* `FullLog s l` — storage `s` stands for the list `l`, entry `i` of the log being `l[i - 1]`.
* `FullLog.consistent`, `FullLog.lastLogTerm` — what the storage tells about the list.
* `FullLog.place`, `FullLog.append`, `FullLog.compact`, `FullLog.install` — what the list becomes.
* `FullLog.request` — the AppendEntries that a leader makes from its log.
-/

set_option autoImplicit false

namespace MetalRaft

open Voting

variable {P SM : Type}

instance : Stamped (LogEntry P) := ⟨LogEntry.term⟩

theorem stamp_eq (e : LogEntry P) : Stamped.stamp e = e.term := rfl

/-- The storage holds the end of `l`, above its snapshot. -/
structure FullLog (s : InMemoryStorage P) (l : List (LogEntry P)) : Prop where
  shaped : s.Shaped
  le : s.snapIndex ≤ l.length
  log : s.log = l.drop s.snapIndex
  boundary : ∀ m, s.snapshotMetadata = some m →
    0 < m.lastIncludedIndex ∧ ∃ e, l[m.lastIncludedIndex - 1]? = some e ∧
      e.term = m.lastIncludedTerm

namespace FullLog

variable {s s' : InMemoryStorage P} {l : List (LogEntry P)} {prev pt i : Nat}
  {es : List (LogEntry P)} {e : LogEntry P}

theorem of_same (h : SameLog s s') (hl : FullLog s l) : FullLog s' l := by
  have hm : s'.snapshotMetadata = s.snapshotMetadata := by
    unfold InMemoryStorage.snapshotMetadata; rw [h.snapshot]
  refine ⟨h.shaped.mpr hl.shaped, by rw [h.snapIndex]; exact hl.le,
    by rw [h.log, h.snapIndex]; exact hl.log, by rw [hm]; exact hl.boundary⟩

theorem snapIndex_of_metadata {m : SnapshotMetadata} (h : s.snapshotMetadata = some m) :
    s.snapIndex = m.lastIncludedIndex := by
  unfold InMemoryStorage.snapshotMetadata at h
  unfold InMemoryStorage.snapIndex
  cases hx : s.snapshot with
  | none => rw [hx] at h; cases h
  | some x => rw [hx] at h; cases h; rfl

theorem lastLogIndex (h : FullLog s l) : s.lastLogIndex = l.length := by
  rw [h.shaped.lastLogIndex_eq, h.log, List.length_drop]
  have := h.le
  omega

theorem getEntry (h : FullLog s l) (hi : s.snapIndex < i) : s.getEntry i = l[i - 1]? := by
  rw [h.shaped.getEntry_eq, if_neg (Nat.not_le.mpr hi), h.log, List.getElem?_drop]
  congr 1
  omega

theorem of_getEntry (h : FullLog s l) (he : s.getEntry i = some e) :
    0 < i ∧ i ≤ l.length ∧ l[i - 1]? = some e := by
  have hb := h.shaped.getEntry_bounds he
  rw [h.getEntry hb.1] at he
  rw [h.lastLogIndex] at hb
  exact ⟨by omega, hb.2, he⟩

theorem lastLogTerm (h : FullLog s l) : s.lastLogTerm = Replicated.lastStamp l := by
  unfold InMemoryStorage.lastLogTerm Replicated.lastStamp
  rw [h.log]
  by_cases hlt : s.snapIndex < l.length
  · have hne : l.drop s.snapIndex ≠ [] := by
      intro hnil
      have := congrArg List.length hnil
      simp only [List.length_drop, List.length_nil] at this
      omega
    rw [List.getLast?_drop, if_neg (by omega)]
    cases hl : l.getLast? with
    | none => rw [List.getLast?_eq_none_iff.mp hl] at hlt; simp at hlt
    | some e => rfl
  · -- everything is compacted: the snapshot tells the term of the last entry
    have hlen : s.snapIndex = l.length := by have := h.le; omega
    rw [List.drop_eq_nil_of_le (Nat.le_of_eq hlen.symm)]
    simp only [List.getLast?_nil]
    cases hx : s.snapshot with
    | none =>
      have hnil : l = [] := by
        rw [← List.length_eq_zero_iff, ← hlen]
        simp [InMemoryStorage.snapIndex, hx]
      rw [hnil]
      rfl
    | some x =>
      have hm : s.snapshotMetadata = some x.metadata := by
        simp [InMemoryStorage.snapshotMetadata, hx]
      obtain ⟨_, e, he, hterm⟩ := h.boundary _ hm
      rw [← snapIndex_of_metadata hm, hlen] at he
      rw [List.getLast?_eq_getElem?, he]
      exact hterm.symm

/-! ### The consistency check -/

/-- A check that passes names an entry of the list and its term. -/
theorem consistent (h : FullLog s l)
    (hc : LogReplicationManager.checkLogConsistency prev pt s = true) :
    prev ≤ l.length ∧ (prev = 0 ∨ ∃ e, l[prev - 1]? = some e ∧ e.term = pt) := by
  have hle := h.shaped.prev_le hc
  rw [h.lastLogIndex] at hle
  refine ⟨hle, ?_⟩
  unfold LogReplicationManager.checkLogConsistency at hc
  simp only [InMemoryStorage.storage_getEntry, InMemoryStorage.storage_snapshotMetadata] at hc
  split at hc
  · rename_i h0; exact Or.inl h0
  · right
    split at hc
    · rename_i e he
      exact ⟨e, (h.of_getEntry he).2.2, of_decide_eq_true hc⟩
    · split at hc
      · rename_i m hm
        split at hc
        · rename_i heq
          obtain ⟨_, e, he, hterm⟩ := h.boundary m hm
          rw [heq]
          exact ⟨e, he, hterm.trans (of_decide_eq_true hc).symm⟩
        · cases hc
      · cases hc

/-! ### What the list becomes -/

theorem withLog_boundary (h : FullLog s l) {l' log : List (LogEntry P)}
    (hagree : Agree s.snapIndex l' l) : ∀ m, (s.withLog log).snapshotMetadata = some m →
      0 < m.lastIncludedIndex ∧ ∃ e, l'[m.lastIncludedIndex - 1]? = some e ∧
        e.term = m.lastIncludedTerm := by
  intro m hm
  obtain ⟨hpos, e, he, hterm⟩ := h.boundary m hm
  refine ⟨hpos, e, ?_, hterm⟩
  have hsnap : s.snapIndex = m.lastIncludedIndex := snapIndex_of_metadata hm
  rw [hagree.getElem? (by omega)]
  exact he

theorem place (h : FullLog s l) (hsnap : s.snapIndex ≤ prev) (hprev : prev ≤ l.length)
    (hne : es ≠ []) : FullLog (s.withLog (s.placedLog prev es)) (l.take prev ++ es) := by
  have hlen : (l.take prev).length = prev := by rw [List.length_take]; omega
  refine ⟨h.shaped.withLog _, ?_, ?_, h.withLog_boundary ?_⟩
  · show s.snapIndex ≤ _
    rw [List.length_append, hlen]
    omega
  · show s.placedLog prev es = List.drop s.snapIndex _
    rw [h.shaped.placedLog_eq hne, h.log, List.drop_append_of_le_length (by omega),
      List.drop_take]
  · exact (agree_append (by omega)).symm.trans (agree_take hsnap l)

theorem append (h : FullLog s l) (es : List (LogEntry P)) :
    FullLog (s.withLog (s.log ++ es)) (l ++ es) := by
  refine ⟨h.shaped.withLog _, ?_, ?_, h.withLog_boundary (agree_append h.le).symm⟩
  · show s.snapIndex ≤ _
    rw [List.length_append]
    exact h.le.trans (Nat.le_add_right _ _)
  · show s.log ++ es = List.drop s.snapIndex _
    rw [List.drop_append_of_le_length h.le, h.log]

/-- Compaction keeps the list. -/
theorem compact (h : FullLog s l) {x : Snapshot} (hx : s.snapIndex ≤ x.metadata.lastIncludedIndex)
    (hpos : 0 < x.metadata.lastIncludedIndex)
    (he : l[x.metadata.lastIncludedIndex - 1]? = some e)
    (hterm : e.term = x.metadata.lastIncludedTerm) : FullLog (s.compactedTo x) l := by
  refine ⟨rfl, ?_, ?_, fun m hm => ?_⟩
  · have := (List.getElem?_eq_some_iff.mp he).1
    rw [InMemoryStorage.snapIndex_compactedTo]
    omega
  · rw [InMemoryStorage.snapIndex_compactedTo]
    show s.log.drop _ = _
    rw [h.log, List.drop_drop]
    congr 1
    omega
  · cases hm
    exact ⟨hpos, e, he, hterm⟩

/-- A snapshot at or beyond the last index replaces the list. -/
theorem replace (h : FullLog s l) {x : Snapshot} {l' : List (LogEntry P)}
    (hx : s.lastLogIndex ≤ x.metadata.lastIncludedIndex)
    (hlen : l'.length = x.metadata.lastIncludedIndex) (hpos : 0 < x.metadata.lastIncludedIndex)
    (he : l'[x.metadata.lastIncludedIndex - 1]? = some e)
    (hterm : e.term = x.metadata.lastIncludedTerm) : FullLog (s.compactedTo x) l' := by
  refine ⟨rfl, Nat.le_of_eq hlen.symm, ?_, fun m hm => ?_⟩
  · rw [InMemoryStorage.snapIndex_compactedTo]
    show s.log.drop _ = _
    rw [h.shaped.lastLogIndex_eq] at hx
    rw [List.drop_eq_nil_of_le (by omega), List.drop_eq_nil_of_le (Nat.le_of_eq hlen)]
  · cases hm
    exact ⟨hpos, e, he, hterm⟩

/-! ### Requests -/

/-- A request tells the term of the entry before the ones it carries; when there is no such entry
to be found, it carries none. -/
theorem request (h : FullLog s l) (r : LogReplicationManager) (peer : NodeId) (T : Nat) :
    ∃ prev pt es, r.getAppendEntriesForFollower peer T s =
        .appendEntries T prev pt es r.commitIndex ∧ (es = [] ∨ es = l.drop prev) ∧
      (prev = 0 ∨ (pt = 0 ∧ es = []) ∨ ∃ e, l[prev - 1]? = some e ∧ e.term = pt) := by
  have hfirst : s.firstIndex = s.snapIndex + 1 := h.shaped
  have hlast := h.lastLogIndex
  have hlog : s.log.length = l.length - s.snapIndex := by rw [h.log, List.length_drop]
  have hle := h.le
  unfold LogReplicationManager.getAppendEntriesForFollower
  simp only [InMemoryStorage.storage_getEntry, InMemoryStorage.storage_loadSnapshot,
    InMemoryStorage.storage_getEntries, InMemoryStorage.storage_lastLogIndex]
  generalize (r.nextIndex.get peer).getD 1 = next
  refine ⟨_, _, _, rfl, ?_, ?_⟩
  · unfold InMemoryStorage.getEntries
    split
    · exact Or.inl rfl
    · rename_i hbounds
      right
      dsimp only
      rw [if_pos (by omega), List.take_of_length_le (by omega), h.log, List.drop_drop]
      congr 1
      omega
  · by_cases h0 : next - 1 = 0
    · exact Or.inl h0
    right
    rw [if_neg h0]
    by_cases hin : s.snapIndex < next - 1 ∧ next - 1 ≤ l.length
    · right
      obtain ⟨e, he⟩ := h.shaped.exists_getEntry hin.1 (by omega)
      rw [he]
      exact ⟨e, (h.of_getEntry he).2.2, rfl⟩
    · have hnone : s.getEntry (next - 1) = none := by
        cases he : s.getEntry (next - 1) with
        | none => rfl
        | some e =>
          have hb := h.shaped.getEntry_bounds he
          omega
      rw [hnone]
      by_cases hsnap : next - 1 = s.snapIndex
      · right
        cases hx : s.snapshot with
        | none => simp [InMemoryStorage.snapIndex, hx] at hsnap; omega
        | some x =>
          have hm : s.snapshotMetadata = some x.metadata := by
            simp [InMemoryStorage.snapshotMetadata, hx]
          obtain ⟨_, e, he, hterm⟩ := h.boundary _ hm
          rw [snapIndex_of_metadata hm] at hsnap
          simp only [hsnap, if_true]
          exact ⟨e, he, hterm⟩
      · left
        constructor
        · cases hx : s.snapshot with
          | none => rfl
          | some x =>
            have hidx : s.snapIndex = x.metadata.lastIncludedIndex := by
              simp [InMemoryStorage.snapIndex, hx]
            simp only
            rw [if_neg (by omega)]
        · unfold InMemoryStorage.getEntries
          rw [if_pos (by omega)]

end FullLog

end MetalRaft
