import MetalRaft.SemihostingStorage

/-!
# A snapshot in chunks

A snapshot is read with `get_snapshot_chunk` from one offset to the next and handed to
`apply_snapshot_chunk` of another storage.  Sender and receiver count on their own, and it is the
sender that says which chunk is the last one.

* `transferFrom` — the transfer, chunk after chunk; `Reassembles` — it comes to its end, and the
  receiver has the snapshot.
* `readChunk` — what all three storages read; `WholeOnly` — two of them accept nothing but a first
  chunk that is the last one as well.
* `chunks_reassemble_iff` — the test storage takes chunks of any size, the two of the embassy
  realization only a snapshot in one; `second_chunk_refused` — two chunks of one byte.
-/

set_option autoImplicit false

namespace MetalRaft

variable {S P : Type} [Storage S P]

/-! ## The transfer -/

/-- Chunks of at most `m` bytes are read from `src`, from `offset` on, and handed to `dst` up to the
last one; `none` if there is no chunk, if one is refused, or if the rounds do not suffice. -/
def transferFrom (src : S) (m n t : Nat) : Nat → Nat → S → Option S
  | 0, _, _ => none
  | rounds + 1, offset, dst =>
    match Storage.getSnapshotChunk src offset m with
    | none => none
    | some chunk =>
      match Storage.applySnapshotChunk dst chunk.offset chunk.data chunk.done n t with
      | (_, .error _) => none
      | (dst, .ok ()) =>
        if chunk.done then some dst
        else transferFrom src m n t rounds (offset + chunk.data.length) dst

/-- After finitely many chunks, none of which is refused, the receiver has the snapshot. -/
def Reassembles (src fresh : S) (m : Nat) (x : Snapshot) : Prop :=
  ∃ rounds dst, transferFrom src m x.metadata.lastIncludedIndex x.metadata.lastIncludedTerm rounds 0
    fresh = some dst ∧ Storage.loadSnapshot dst = some x

/-! ## What is read -/

/-- The chunk of at most `m` bytes at an offset; the last one ends where the data end. -/
def readChunk (data : List UInt8) (offset m : Nat) : Option SnapshotChunk :=
  if offset < data.length then
    some ⟨offset, (data.drop offset).take m, decide (data.length ≤ offset + m)⟩
  else none

/-- The storage reads its snapshot so. -/
def ReadsChunks (src : S) (data : List UInt8) : Prop :=
  ∀ offset m, Storage.getSnapshotChunk src offset m = readChunk data offset m

section

variable {data chunk : List UInt8} {offset m n t : Nat} {x : Snapshot}

theorem chunkAt_eq : chunkAt data offset m =
    if offset < data.length then some ((data.drop offset).take m) else none := by
  unfold chunkAt
  by_cases h : offset < data.length
  · rw [if_neg (Nat.not_le.mpr h), if_pos h]
    dsimp only
    rw [List.drop_take]
    refine congrArg some (List.take_eq_take_iff.mpr ?_)
    rw [List.length_drop]
    omega
  · rw [if_pos (Nat.not_lt.mp h), if_neg h]

/-- The sender compares what it has sent with the length of the data. -/
theorem readChunk_eq : readChunk data offset m =
    match chunkAt data offset m with
    | none => none
    | some chunk => some ⟨offset, chunk, decide (offset + chunk.length ≥ data.length)⟩ := by
  rw [chunkAt_eq]
  unfold readChunk
  by_cases h : offset < data.length
  · rw [if_pos h, if_pos h]
    have hdone : data.length ≤ offset + m ↔
        offset + ((data.drop offset).take m).length ≥ data.length := by
      rw [List.length_take, List.length_drop]
      omega
    simp only [hdone]
  · rw [if_neg h, if_neg h]

theorem InMemoryStorage.readsChunks {src : InMemoryStorage P} (h : src.snapshot = some x) :
    ReadsChunks src x.data := by
  intro offset m
  cases src
  cases h
  exact readChunk_eq.symm

theorem EmbassyStorage.readsChunks {src : EmbassyStorage P} (h : src.snapshot = some x) :
    ReadsChunks src x.data := by
  intro offset m
  cases src
  cases h
  exact readChunk_eq.symm

theorem SemihostingStorage.readsChunks {src : SemihostingStorage} (h : src.snapshot = some x) :
    ReadsChunks src x.data := by
  intro offset m
  cases src
  cases h
  exact readChunk_eq.symm

/-! ## A storage that gathers chunks -/

namespace InMemoryStorage

/-- What came before is pending; at offset 0 it is discarded. -/
theorem applySnapshotChunk_of_pending {dst : InMemoryStorage P} {done : Bool}
    (h : offset = 0 ∨ dst.pendingSnapshotData = data.take offset) (hle : offset ≤ data.length) :
    dst.applySnapshotChunk offset chunk done n t =
      if done then
        ({ dst with
            snapshot := some ⟨⟨n, t⟩, data.take offset ++ chunk⟩, pendingSnapshotData := [] },
          .ok ())
      else ({ dst with pendingSnapshotData := data.take offset ++ chunk }, .ok ()) := by
  have hlength : (data.take offset).length = offset := List.length_take_of_le hle
  unfold applySnapshotChunk
  dsimp only
  by_cases hzero : offset = 0
  · subst hzero
    simp [saveSnapshot]
  · have hpending := h.resolve_left hzero
    rw [if_neg hzero, hpending, hlength, if_neg (not_not.mpr rfl)]
    rfl

/-- **Chunks of any size are put together again.** -/
theorem transferFrom_complete {src : InMemoryStorage P} (hsrc : ReadsChunks src data) (hm : 1 ≤ m) :
    ∀ (rounds offset : Nat) (dst : InMemoryStorage P), data.length - offset ≤ rounds →
      offset < data.length → offset = 0 ∨ dst.pendingSnapshotData = data.take offset →
      ∃ dst', transferFrom src m n t rounds offset dst = some dst' ∧
        dst'.snapshot = some ⟨⟨n, t⟩, data⟩ := by
  intro rounds
  induction rounds with
  | zero => exact fun offset dst hrounds hoffset => by omega
  | succ rounds ih =>
    intro offset dst hrounds hoffset hpending
    have hgather : data.take offset ++ (data.drop offset).take m = data.take (offset + m) :=
      List.take_add.symm
    have happly : ∀ done, Storage.applySnapshotChunk dst offset ((data.drop offset).take m) done n t =
        _ := fun done => applySnapshotChunk_of_pending hpending (Nat.le_of_lt hoffset)
    unfold transferFrom
    rw [hsrc]
    unfold readChunk
    rw [if_pos hoffset]
    dsimp only
    rw [happly, hgather]
    by_cases hdone : data.length ≤ offset + m
    · rw [decide_eq_true hdone, if_pos rfl]
      dsimp only
      rw [if_pos rfl, List.take_of_length_le hdone]
      exact ⟨_, rfl, rfl⟩
    · -- the next offset is where the pending data end
      have hnext : offset + ((data.drop offset).take m).length = offset + m := by
        rw [List.length_take, List.length_drop]
        omega
      rw [decide_eq_false hdone, if_neg Bool.false_ne_true]
      dsimp only
      rw [if_neg Bool.false_ne_true, hnext]
      exact ih (offset + m) _ (by omega) (by omega) (Or.inr rfl)

end InMemoryStorage

/-! ## A storage that takes a snapshot as a whole -/

/-- Only a first chunk that is the last one as well is accepted, and stored. -/
structure WholeOnly (S : Type) {P : Type} [Storage S P] (capacity : Nat) : Prop where
  refuses : ∀ (dst : S) offset chunk done n t, ¬ (offset = 0 ∧ done = true) →
    ∃ e, (Storage.applySnapshotChunk dst offset chunk done n t).2 = .error e
  stores : ∀ (dst : S) chunk n t, chunk.length ≤ capacity → ∃ dst',
    Storage.applySnapshotChunk dst 0 chunk true n t = (dst', .ok ()) ∧
      Storage.loadSnapshot dst' = some ⟨⟨n, t⟩, chunk⟩

theorem EmbassyStorage.wholeOnly : WholeOnly (EmbassyStorage P) EmbassyStorage.snapshotCapacity where
  refuses dst offset chunk done n t h := ⟨.corruptData, by
    show (dst.applySnapshotChunk offset chunk done n t).2 = _
    unfold EmbassyStorage.applySnapshotChunk
    rw [if_neg h]⟩
  stores dst chunk n t h := ⟨dst.saveSnapshot ⟨⟨n, t⟩, chunk⟩, by
    show dst.applySnapshotChunk 0 chunk true n t = _
    unfold EmbassyStorage.applySnapshotChunk
    rw [if_pos ⟨rfl, rfl⟩, if_neg (Nat.not_lt.mpr h)], rfl⟩

theorem SemihostingStorage.wholeOnly :
    WholeOnly SemihostingStorage SemihostingStorage.snapshotCapacity where
  refuses dst offset chunk done n t h := ⟨.corruptData, by
    show (dst.applySnapshotChunk offset chunk done n t).2 = _
    unfold SemihostingStorage.applySnapshotChunk
    rw [if_neg h]⟩
  stores dst chunk n t h :=
    ⟨{ dst with snapshot := some ⟨⟨n, t⟩, chunk⟩ }.persistSnapshot, by
      show dst.applySnapshotChunk 0 chunk true n t = _
      unfold SemihostingStorage.applySnapshotChunk
      rw [if_pos ⟨rfl, rfl⟩, if_neg (Nat.not_lt.mpr h)], rfl⟩

/-- Such a storage gets a snapshot that one chunk has room for, and no other. -/
theorem WholeOnly.reassembles_iff {capacity : Nat} (hwhole : WholeOnly S capacity) {src : S}
    (hsrc : ReadsChunks src x.data) (hdata : x.data ≠ []) (hfits : x.data.length ≤ capacity)
    (fresh : S) : Reassembles src fresh m x ↔ x.data.length ≤ m := by
  have hpos : 0 < x.data.length := List.length_pos_iff.mpr hdata
  have hread : Storage.getSnapshotChunk src 0 m =
      some ⟨0, x.data.take m, decide (x.data.length ≤ m)⟩ := by
    rw [hsrc]
    unfold readChunk
    rw [if_pos hpos, List.drop_zero, Nat.zero_add]
  constructor
  · rintro ⟨rounds, dst, htransfer, _⟩
    by_contra hlong
    cases rounds with
    | zero => cases htransfer
    | succ rounds =>
      obtain ⟨e, he⟩ := hwhole.refuses fresh 0 (x.data.take m) (decide (x.data.length ≤ m))
        x.metadata.lastIncludedIndex x.metadata.lastIncludedTerm fun h => hlong (of_decide_eq_true h.2)
      unfold transferFrom at htransfer
      rw [hread] at htransfer
      dsimp only at htransfer
      split at htransfer
      · cases htransfer
      · rename_i heq
        rw [heq] at he
        cases he
  · intro hshort
    obtain ⟨dst, happly, hload⟩ := hwhole.stores fresh x.data x.metadata.lastIncludedIndex
      x.metadata.lastIncludedTerm hfits
    refine ⟨1, dst, ?_, hload⟩
    unfold transferFrom
    rw [hread, List.take_of_length_le hshort, decide_eq_true hshort]
    dsimp only
    rw [happly]
    rfl

end

/-! ## The three storages -/

/-- **A snapshot in chunks arrives as it was**, in chunks of any size where they are gathered, and
where they are not exactly if one chunk has room for it. -/
theorem chunks_reassemble_iff {x : Snapshot} {m : Nat} (hm : 1 ≤ m) (hdata : x.data ≠ []) :
    (∀ src : InMemoryStorage P, src.snapshot = some x → Reassembles src .new m x) ∧
      (∀ src : EmbassyStorage P, src.snapshot = some x →
        x.data.length ≤ EmbassyStorage.snapshotCapacity →
          (Reassembles src .new m x ↔ x.data.length ≤ m)) ∧
      ∀ (src : SemihostingStorage) (d : Disk), src.snapshot = some x →
        x.data.length ≤ SemihostingStorage.snapshotCapacity →
          (Reassembles src (.new d) m x ↔ x.data.length ≤ m) := by
  refine ⟨fun src hsrc => ?_, fun src hsrc hfits => ?_, fun src d hsrc hfits => ?_⟩
  · obtain ⟨dst, htransfer, hload⟩ := InMemoryStorage.transferFrom_complete
      (InMemoryStorage.readsChunks hsrc) hm x.data.length 0 .new (Nat.sub_le _ _)
      (List.length_pos_iff.mpr hdata) (Or.inl rfl)
    exact ⟨x.data.length, dst, htransfer, hload⟩
  · exact EmbassyStorage.wholeOnly.reassembles_iff (EmbassyStorage.readsChunks hsrc) hdata hfits _
  · exact SemihostingStorage.wholeOnly.reassembles_iff (SemihostingStorage.readsChunks hsrc) hdata
      hfits _

/-- A snapshot of two bytes. -/
def twoBytes : Snapshot := ⟨⟨3, 2⟩, [7, 8]⟩

/-- In chunks of one byte it arrives at the test storage only, in one chunk at all three. -/
theorem chunks_reassemble_two_bytes :
    let sim : InMemoryStorage UInt8 := InMemoryStorage.new.saveSnapshot twoBytes
    let embassy : EmbassyStorage UInt8 := EmbassyStorage.new.saveSnapshot twoBytes
    let files := (SemihostingStorage.new .empty).saveSnapshot twoBytes
    (Reassembles sim .new 1 twoBytes ∧ ¬ Reassembles embassy .new 1 twoBytes ∧
        ¬ Reassembles files (.new .empty) 1 twoBytes) ∧
      Reassembles sim .new 2 twoBytes ∧ Reassembles embassy .new 2 twoBytes ∧
        Reassembles files (.new .empty) 2 twoBytes := by
  intro sim embassy files
  obtain ⟨hsim, hembassy, hfiles⟩ :=
    chunks_reassemble_iff (P := UInt8) (x := twoBytes) (m := 1) (by decide) (by decide)
  obtain ⟨hsim', hembassy', hfiles'⟩ :=
    chunks_reassemble_iff (P := UInt8) (x := twoBytes) (m := 2) (by decide) (by decide)
  exact ⟨⟨hsim sim rfl, fun h => absurd ((hembassy embassy rfl (by decide)).mp h) (by decide),
      fun h => absurd ((hfiles files .empty rfl (by decide)).mp h) (by decide)⟩,
    hsim' sim rfl, (hembassy' embassy rfl (by decide)).mpr (by decide),
    (hfiles' files .empty rfl (by decide)).mpr (by decide)⟩

/-- The first of two chunks is refused by the storages of the embassy realization. -/
theorem second_chunk_refused :
    ¬ ∀ (x : Snapshot) (m : Nat), 1 ≤ m → x.data ≠ [] →
      (∀ src : InMemoryStorage String, src.snapshot = some x → Reassembles src .new m x) ∧
        (x.data.length ≤ EmbassyStorage.snapshotCapacity →
          ∀ src : EmbassyStorage String, src.snapshot = some x → Reassembles src .new m x) ∧
        (x.data.length ≤ SemihostingStorage.snapshotCapacity →
          ∀ src : SemihostingStorage, src.snapshot = some x →
            Reassembles src (.new .empty) m x) := by
  intro h
  obtain ⟨rounds, dst, htransfer, _⟩ := (h twoBytes 1 (by decide) (by decide)).2.1 (by decide)
    (EmbassyStorage.new.saveSnapshot twoBytes) rfl
  cases rounds <;> cases htransfer

end MetalRaft
