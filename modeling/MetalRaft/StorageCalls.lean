import MetalRaft.LogFacts
import MetalRaft.Run
import MetalRaft.SemihostingStorage

/-!
# The storages agree

* `StorageCall` — what the core asks of a storage; a snapshot is always followed by the discard of
  what it covers, so the two are one call.
* `StoreState`, `StorageCall.meaning` — what a storage is for: a term, a vote and a log above a
  snapshot, and what the calls do to them.
* `shows_on` — every storage follows this meaning, as long as its capacities last.
* `storages_agree` — so the three storages give the same answers after the same calls.
-/

set_option autoImplicit false

namespace MetalRaft

open Transition

variable {P S : Type}

inductive StorageCall (P : Type) where
  | setCurrentTerm (term : Nat)
  | setVotedFor (vote : Option NodeId)
  | appendEntries (entries : List (LogEntry P))
  | truncateAfter (index : Nat)
  | saveSnapshot (snapshot : Snapshot)
  | installSnapshot (data : List UInt8) (lastIncludedIndex lastIncludedTerm : Nat)

namespace StorageCall

/-- The storage after a call. -/
def on [Storage S P] (s : S) : StorageCall P → S
  | .setCurrentTerm term => Storage.setCurrentTerm s term
  | .setVotedFor vote => Storage.setVotedFor s vote
  | .appendEntries entries => Storage.appendEntries s entries
  | .truncateAfter index => Storage.truncateAfter s index
  | .saveSnapshot x =>
    Storage.discardEntriesBefore (Storage.saveSnapshot s x) (x.metadata.lastIncludedIndex + 1)
  | .installSnapshot data index term =>
    Storage.discardEntriesBefore (Storage.applySnapshotChunk s 0 data true index term).1
      (index + 1)

/-- The core takes a snapshot at an index the log holds, and installs one that reaches beyond the
one it has. -/
def Issued [Storage S P] (s : S) : StorageCall P → Prop
  | .saveSnapshot x => (Storage.getEntry s x.metadata.lastIncludedIndex).isSome
  | .installSnapshot _ index _ =>
    ∀ m ∈ Storage.snapshotMetadata s, m.lastIncludedIndex < index
  | _ => True

/-- At most so many entries are held, and so many bytes of snapshot data. -/
def Bounded [Storage S P] (entries bytes : Nat) (s : S) : StorageCall P → Prop
  | .appendEntries es =>
    Storage.lastLogIndex s + 1 - Storage.firstLogIndex s + es.length ≤ entries
  | .saveSnapshot x => x.data.length ≤ bytes
  | .installSnapshot data _ _ => data.length ≤ bytes
  | _ => True

instance [Storage S P] (s : S) : (call : StorageCall P) → Decidable (call.Issued s)
  | .saveSnapshot _ => inferInstanceAs (Decidable (Option.isSome _ = true))
  | .installSnapshot _ _ _ => inferInstanceAs (Decidable (∀ _ ∈ _, _ < _))
  | .setCurrentTerm _ | .setVotedFor _ | .appendEntries _ | .truncateAfter _ => isTrue trivial

instance [Storage S P] (entries bytes : Nat) (s : S) :
    (call : StorageCall P) → Decidable (call.Bounded entries bytes s)
  | .appendEntries _ | .saveSnapshot _ | .installSnapshot _ _ _ =>
    inferInstanceAs (Decidable (_ ≤ _))
  | .setCurrentTerm _ | .setVotedFor _ | .truncateAfter _ => isTrue trivial

end StorageCall

/-! ## What a storage is for -/

structure StoreState (P : Type) where
  currentTerm : Nat
  votedFor : Option NodeId
  image : LogImage P

/-- What the calls mean. -/
def StorageCall.meaning (σ : StoreState P) : StorageCall P → StoreState P
  | .setCurrentTerm term => { σ with currentTerm := term }
  | .setVotedFor vote => { σ with votedFor := vote }
  | .appendEntries entries =>
    { σ with image := { σ.image with log := σ.image.log.append entries } }
  | .truncateAfter index =>
    { σ with image := { σ.image with log := σ.image.log.truncateAfter index } }
  | .saveSnapshot x => { σ with image := σ.image.compactTo x }
  | .installSnapshot data index term =>
    { σ with image := σ.image.compactTo ⟨⟨index, term⟩, data⟩ }

/-- A storage shows an abstract state. -/
structure Shows [Storage S P] [LogStorage S P] (s : S) (σ : StoreState P) : Prop where
  currentTerm : Storage.currentTerm s = σ.currentTerm
  votedFor : Storage.votedFor s = σ.votedFor
  image : LogStorage.image s = σ.image
  formed : σ.image.Formed

/-- A storage has room for so many entries and so many bytes. -/
structure HoldsUpTo (S : Type) {P : Type} [Storage S P] [LogStorage S P] (entries bytes : Nat) :
    Prop where
  entries : ∀ cap ∈ LogStorage.capacity S, entries ≤ cap
  bytes : ∀ cap ∈ LogStorage.snapshotCapacity S, bytes ≤ cap

section

variable [Storage S P] [LogStorage S P] {s : S} {σ : StoreState P} {entries bytes : Nat}
  {call : StorageCall P}

theorem snapIndex_le_of_issued {data : List UInt8} {index term : Nat}
    (h : (StorageCall.installSnapshot (P := P) data index term).Issued s) :
    LogStorage.snapIndex s ≤ index := by
  have hbelow : ∀ m ∈ Storage.snapshotMetadata s, m.lastIncludedIndex < index := h
  rw [LogStorage.snapshotMetadata_eq] at hbelow
  unfold LogStorage.snapIndex LogImage.snapIndex
  cases hx : (LogStorage.image s).snapshot with
  | none => exact Nat.zero_le _
  | some x =>
    rw [hx] at hbelow
    exact Nat.le_of_lt (hbelow _ rfl)

/-- **Every storage follows the meaning of a call** that leaves it within its capacities. -/
theorem shows_on [LawfulStorage S P] (hroom : HoldsUpTo S entries bytes) (h : Shows s σ)
    (hissued : call.Issued s) (hbounded : call.Bounded entries bytes s) :
    Shows (call.on s) (call.meaning σ) := by
  obtain ⟨hterm, hvote, himage, hformed⟩ := h
  have hs : LogStorage.Formed s := by
    unfold LogStorage.Formed
    rw [himage]
    exact hformed
  cases call with
  | setCurrentTerm term =>
    exact ⟨LawfulStorage.currentTerm_setCurrentTerm s term,
      (LawfulStorage.votedFor_setCurrentTerm s term).trans hvote,
      (LogStorage.image_setCurrentTerm s term).trans himage, hformed⟩
  | setVotedFor vote =>
    exact ⟨(LawfulStorage.currentTerm_setVotedFor s vote).trans hterm,
      LawfulStorage.votedFor_setVotedFor s vote,
      (LogStorage.image_setVotedFor s vote).trans himage, hformed⟩
  | appendEntries es =>
    obtain ⟨hcell, hcell'⟩ := LawfulStorage.cells_appendEntries s es
    refine ⟨hcell.trans hterm, hcell'.trans hvote, ?_, hformed⟩
    have hfit : fitting (LogStorage.capacity S) σ.image.log.items.length es = es := by
      have hheld := LogStorage.held_eq hs
      have hle : Storage.lastLogIndex s + 1 - Storage.firstLogIndex s + es.length ≤ entries :=
        hbounded
      refine fitting_eq_self fun cap hcap => ?_
      have := hroom.entries cap hcap
      rw [himage] at hheld
      omega
    show LogStorage.image (Storage.appendEntries s es) = _
    rw [LogStorage.image_appendEntries, himage, LogImage.append, hfit]
    rfl
  | truncateAfter index =>
    obtain ⟨hcell, hcell'⟩ := LawfulStorage.cells_truncateAfter s index
    refine ⟨hcell.trans hterm, hcell'.trans hvote, ?_, hformed⟩
    show LogStorage.image (Storage.truncateAfter s index) = _
    rw [LogStorage.image_truncateAfter, himage]
    rfl
  | saveSnapshot x =>
    obtain ⟨e, he⟩ := Option.isSome_iff_exists.mp hissued
    have hsaved := LawfulStorage.cells_saveSnapshot s x
    have hdiscarded := LawfulStorage.cells_discardEntriesBefore (Storage.saveSnapshot s x)
      (x.metadata.lastIncludedIndex + 1)
    have hcovers : σ.image.snapIndex ≤ x.metadata.lastIncludedIndex := by
      rw [← himage]
      exact Nat.le_of_lt (LogStorage.bounds_of_getEntry hs he).1
    refine ⟨(hdiscarded.1.trans hsaved.1).trans hterm, (hdiscarded.2.trans hsaved.2).trans hvote,
      ?_, hformed.compactTo hcovers⟩
    show LogStorage.image (Storage.discardEntriesBefore (Storage.saveSnapshot s x) _) = _
    rw [LogStorage.image_discardEntriesBefore, LogStorage.image_saveSnapshot, himage]
    rfl
  | installSnapshot data index term =>
    have hstored := LawfulStorage.cells_applySnapshotChunk s 0 data true index term
    have hdiscarded := LawfulStorage.cells_discardEntriesBefore
      (Storage.applySnapshotChunk s 0 data true index term).1 (index + 1)
    have hwhole := LogStorage.image_wholeSnapshot s data index term fun cap hcap =>
      Nat.le_trans hbounded (hroom.bytes cap hcap)
    have hcovers : σ.image.snapIndex ≤ index := by
      rw [← himage]
      exact snapIndex_le_of_issued hissued
    refine ⟨(hdiscarded.1.trans hstored.1).trans hterm,
      (hdiscarded.2.trans hstored.2).trans hvote, ?_, hformed.compactTo hcovers⟩
    show LogStorage.image (Storage.discardEntriesBefore _ _) = _
    rw [LogStorage.image_discardEntriesBefore, hwhole.2, himage]
    rfl

end

/-! ## Equal answers -/

/-- Two storages answer alike, as long as at most `limit` entries are read at once. -/
structure Agree {S₁ S₂ : Type} [Storage S₁ P] [Storage S₂ P] (limit : Nat) (s₁ : S₁) (s₂ : S₂) :
    Prop where
  currentTerm : Storage.currentTerm s₁ = Storage.currentTerm s₂
  votedFor : Storage.votedFor s₁ = Storage.votedFor s₂
  lastLogIndex : Storage.lastLogIndex s₁ = Storage.lastLogIndex s₂
  lastLogTerm : Storage.lastLogTerm s₁ = Storage.lastLogTerm s₂
  firstLogIndex : Storage.firstLogIndex s₁ = Storage.firstLogIndex s₂
  snapshotMetadata : Storage.snapshotMetadata s₁ = Storage.snapshotMetadata s₂
  getEntry : ∀ i, Storage.getEntry s₁ i = Storage.getEntry s₂ i
  getEntries : ∀ start,
    (Storage.getEntries s₁ start (Storage.lastLogIndex s₁ + 1)).length ≤ limit →
      Storage.getEntries s₁ start (Storage.lastLogIndex s₁ + 1) =
        Storage.getEntries s₂ start (Storage.lastLogIndex s₂ + 1)

section

variable {S₁ S₂ : Type} [Storage S₁ P] [LogStorage S₁ P] [Storage S₂ P] [LogStorage S₂ P]
  {s : S₁} {s₁ : S₁} {s₂ : S₂} {σ : StoreState P} {limit : Nat}

theorem formed_of_shows (h : Shows s σ) : LogStorage.Formed s := by
  unfold LogStorage.Formed
  rw [h.image]
  exact h.formed

theorem Shows.lastLogIndex (h : Shows s σ) : Storage.lastLogIndex s = σ.image.lastLogIndex := by
  rw [LogStorage.lastLogIndex_eq s (formed_of_shows h), h.image]

theorem Shows.getEntries (h : Shows s σ) (start : Nat) :
    Storage.getEntries s start (Storage.lastLogIndex s + 1) =
      fitting (LogStorage.collectionCapacity S₁) 0 (σ.image.log.itemsFrom start) := by
  rw [LogStorage.lastLogIndex_add_one (formed_of_shows h), LogStorage.getEntries_eq, h.image]

theorem agree_of_shows (h₁ : Shows s₁ σ) (h₂ : Shows s₂ σ)
    (hall : LogStorage.collectionCapacity S₁ = none)
    (hlimit : ∀ cap ∈ LogStorage.collectionCapacity S₂, limit ≤ cap) : Agree limit s₁ s₂ where
  currentTerm := h₁.currentTerm.trans h₂.currentTerm.symm
  votedFor := h₁.votedFor.trans h₂.votedFor.symm
  lastLogIndex := h₁.lastLogIndex.trans h₂.lastLogIndex.symm
  lastLogTerm := by
    rw [LogStorage.lastLogTerm_eq, LogStorage.lastLogTerm_eq, h₁.image, h₂.image]
  firstLogIndex := by
    rw [LogStorage.firstLogIndex_eq, LogStorage.firstLogIndex_eq, h₁.image, h₂.image]
  snapshotMetadata := by
    rw [LogStorage.snapshotMetadata_eq, LogStorage.snapshotMetadata_eq, h₁.image, h₂.image]
  getEntry i := by
    rw [LogStorage.getEntry_eq, LogStorage.getEntry_eq, h₁.image, h₂.image]
  getEntries start := by
    rw [h₁.getEntries, h₂.getEntries, hall]
    intro hread
    have hshort : (σ.image.log.itemsFrom start).length ≤ limit := hread
    have hfits : fitting (LogStorage.collectionCapacity S₂) 0 (σ.image.log.itemsFrom start) =
        σ.image.log.itemsFrom start :=
      fitting_eq_self fun cap hcap => by
        have := hlimit cap hcap
        omega
    exact hfits.symm

end

/-- The calls as the core issues them, within the capacities of the device. -/
def WithinDevice [Storage S P] (s : S) (call : StorageCall P) : Prop :=
  call.Issued s ∧
    call.Bounded EmbassyStorage.logCapacity EmbassyStorage.snapshotCapacity s

instance [Storage S P] (s : S) (call : StorageCall P) : Decidable (WithinDevice s call) :=
  inferInstanceAs (Decidable (_ ∧ _))

def StoreState.fresh : StoreState P := ⟨0, none, ⟨⟨1, []⟩, none⟩⟩

/-- What a storage shows tells which calls may be issued. -/
theorem withinDevice_iff {S₁ S₂ : Type} [Storage S₁ P] [LogStorage S₁ P] [Storage S₂ P]
    [LogStorage S₂ P] {s₁ : S₁} {s₂ : S₂} {σ : StoreState P} (h₁ : Shows s₁ σ) (h₂ : Shows s₂ σ)
    (call : StorageCall P) : WithinDevice s₁ call ↔ WithinDevice s₂ call := by
  have hentry : ∀ i, Storage.getEntry s₁ i = Storage.getEntry s₂ i := fun i => by
    rw [LogStorage.getEntry_eq, LogStorage.getEntry_eq, h₁.image, h₂.image]
  have hmeta : Storage.snapshotMetadata s₁ = Storage.snapshotMetadata s₂ := by
    rw [LogStorage.snapshotMetadata_eq, LogStorage.snapshotMetadata_eq, h₁.image, h₂.image]
  have hheld : Storage.lastLogIndex s₁ + 1 - Storage.firstLogIndex s₁ =
      Storage.lastLogIndex s₂ + 1 - Storage.firstLogIndex s₂ := by
    rw [LogStorage.held_eq (formed_of_shows h₁), LogStorage.held_eq (formed_of_shows h₂),
      h₁.image, h₂.image]
  unfold WithinDevice
  cases call with
  | appendEntries es => simp only [StorageCall.Issued, StorageCall.Bounded, hheld]
  | saveSnapshot x => simp only [StorageCall.Issued, hentry, StorageCall.Bounded]
  | installSnapshot data index term =>
    simp only [StorageCall.Issued, hmeta, StorageCall.Bounded]
  | setCurrentTerm | setVotedFor | truncateAfter => exact Iff.rfl

/-- Two storages that begin alike and hold what the device holds follow the same meaning. -/
theorem shows_calls {S₁ S₂ : Type} [Storage S₁ P] [LogStorage S₁ P] [LawfulStorage S₁ P]
    [Storage S₂ P] [LogStorage S₂ P] [LawfulStorage S₂ P]
    (hroom₁ : HoldsUpTo S₁ EmbassyStorage.logCapacity EmbassyStorage.snapshotCapacity)
    (hroom₂ : HoldsUpTo S₂ EmbassyStorage.logCapacity EmbassyStorage.snapshotCapacity) :
    ∀ {calls : List (StorageCall P)} {s₁ : S₁} {s₂ : S₂} {σ : StoreState P}, Shows s₁ σ →
      Shows s₂ σ → Admitted StorageCall.on WithinDevice s₁ calls →
      ∃ σ', Shows (calls.foldl StorageCall.on s₁) σ' ∧ Shows (calls.foldl StorageCall.on s₂) σ'
  | [], _, _, σ, h₁, h₂, _ => ⟨σ, h₁, h₂⟩
  | call :: calls, s₁, s₂, σ, h₁, h₂, h => by
    have hok := (withinDevice_iff h₁ h₂ call).mp h.1
    have h₁' : Shows (call.on s₁) (call.meaning σ) := shows_on hroom₁ h₁ h.1.1 h.1.2
    have h₂' : Shows (call.on s₂) (call.meaning σ) := shows_on hroom₂ h₂ hok.1 hok.2
    rw [List.foldl_cons, List.foldl_cons]
    exact shows_calls hroom₁ hroom₂ h₁' h₂' h.2

theorem holdsUpTo_test :
    HoldsUpTo (InMemoryStorage P) EmbassyStorage.logCapacity EmbassyStorage.snapshotCapacity :=
  ⟨fun _ h => (by cases h), fun _ h => (by cases h)⟩

theorem holdsUpTo_embassy :
    HoldsUpTo (EmbassyStorage P) EmbassyStorage.logCapacity EmbassyStorage.snapshotCapacity :=
  ⟨fun _ h => (by cases h; exact Nat.le_refl _), fun _ h => (by cases h; exact Nat.le_refl _)⟩

theorem holdsUpTo_semihosting :
    HoldsUpTo SemihostingStorage EmbassyStorage.logCapacity EmbassyStorage.snapshotCapacity :=
  ⟨fun _ h => (by cases h), fun _ h => (by cases h; exact Nat.le_refl _)⟩

/-- **The three storages agree** after every sequence of calls that the core can issue and that
stays within 256 entries and 512 bytes of snapshot, as long as 128 entries are read at once. -/
theorem storages_agree {calls : List (StorageCall String)}
    (h : Admitted StorageCall.on WithinDevice (InMemoryStorage.new (P := String)) calls) :
    Agree EmbassyStorage.collectionCapacity
        (calls.foldl StorageCall.on (InMemoryStorage.new (P := String)))
        (calls.foldl StorageCall.on (EmbassyStorage.new (P := String))) ∧
      Agree EmbassyStorage.collectionCapacity
        (calls.foldl StorageCall.on (InMemoryStorage.new (P := String)))
        (calls.foldl StorageCall.on (SemihostingStorage.new .empty)) := by
  have htest : Shows (InMemoryStorage.new (P := String)) .fresh := ⟨rfl, rfl, rfl, rfl⟩
  have hembassy : Shows (EmbassyStorage.new (P := String)) .fresh := ⟨rfl, rfl, rfl, rfl⟩
  have hfiles : Shows (SemihostingStorage.new .empty) .fresh := ⟨rfl, rfl, rfl, rfl⟩
  obtain ⟨_, h₁, h₂⟩ := shows_calls holdsUpTo_test holdsUpTo_embassy htest hembassy h
  obtain ⟨_, h₃, h₄⟩ := shows_calls holdsUpTo_test holdsUpTo_semihosting htest hfiles h
  exact ⟨agree_of_shows h₁ h₂ rfl fun _ hcap => (by cases hcap; exact Nat.le_refl _),
    agree_of_shows h₃ h₄ rfl fun _ hcap => (by cases hcap; exact Nat.le_refl _)⟩

/-- A life of a storage: entries, a cut below the first index, a snapshot and an install. -/
def sampleCalls : List (StorageCall String) :=
  [.setCurrentTerm 2, .setVotedFor (some 1),
    .appendEntries [⟨1, .command "SET a=1"⟩, ⟨2, .configChange (.addServer 4)⟩,
      ⟨2, .command "SET b=2"⟩],
    .saveSnapshot ⟨⟨2, 2⟩, [7, 7]⟩, .truncateAfter 1, .appendEntries [⟨2, .command "DEL a"⟩],
    .installSnapshot [8] 9 2, .appendEntries [⟨3, .command "SET c=3"⟩]]

theorem storages_agree_sample :
    Agree EmbassyStorage.collectionCapacity
        (sampleCalls.foldl StorageCall.on (InMemoryStorage.new (P := String)))
        (sampleCalls.foldl StorageCall.on (EmbassyStorage.new (P := String))) ∧
      Agree EmbassyStorage.collectionCapacity
        (sampleCalls.foldl StorageCall.on (InMemoryStorage.new (P := String)))
        (sampleCalls.foldl StorageCall.on (SemihostingStorage.new .empty)) :=
  storages_agree (by decide +kernel)

end MetalRaft
