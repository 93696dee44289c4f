import MetalRaft.EmbassyStateMachine
import MetalRaft.SemihostingStorage
import Mathlib.Algebra.GroupWithZero.Nat
import Mathlib.Algebra.Order.BigOperators.Group.List
import Mathlib.Algebra.Order.Group.Nat
import Mathlib.Data.List.Infix
import Mathlib.Data.List.Perm.Subperm
import Mathlib.Data.List.TakeWhile

/-!
# The snapshot text, read back

What `restore_from_snapshot` of the embassy state machine makes of the bytes that `create_snapshot`
has written: the text is cut at 512 bytes and read line by line, each line up to its first `=`.

* `Indexed` — what holds of a map that payloads have filled; `Writable` — what its text bears.
* `restored_of_short`, `restored_of_full` — the map that is read back, entry by entry.
* `snapshot_round_trips_iff` — the maps that are read back as they were; `newline_value_lost` — one
  that is not.
-/

set_option autoImplicit false

namespace MetalRaft

variable {line before rest : List Char}

/-! ## Lines -/

theorem splitOnce_append {delimiter : Char} {key value : List Char} (h : delimiter ∉ key) :
    splitOnce delimiter (String.ofList (key ++ delimiter :: value)) =
      some (String.ofList key, String.ofList value) := by
  have hkey : ∀ c ∈ key, (c != delimiter) = true := by
    intro c hc
    simpa using fun heq : c = delimiter => h (heq ▸ hc)
  unfold splitOnce
  rw [String.toList_ofList, List.dropWhile_append_of_pos hkey, List.takeWhile_append_of_pos hkey]
  simp

theorem eq_of_splitOnce {delimiter : Char} {s key value : String}
    (h : splitOnce delimiter s = some (key, value)) :
    s.toList = key.toList ++ delimiter :: value.toList ∧ delimiter ∉ key.toList := by
  unfold splitOnce at h
  split at h
  · cases h
  · rename_i c rest hdrop
    cases h
    have hc : c = delimiter := by
      have := List.head?_dropWhile_not (· != delimiter) s.toList
      rw [hdrop] at this
      simpa using this
    rw [String.toList_ofList, String.toList_ofList]
    constructor
    · have hsplit := List.takeWhile_append_dropWhile (p := (· != delimiter)) (l := s.toList)
      rw [hdrop, hc] at hsplit
      exact hsplit.symm
    · intro hmem
      simpa using List.mem_takeWhile_imp hmem

theorem linesFrom_append (h : '\n' ∉ line) :
    linesFrom before (line ++ '\n' :: rest) =
      stripCarriageReturn (before ++ line) :: linesFrom [] rest := by
  induction line generalizing before with
  | nil => simp [linesFrom]
  | cons c line ih =>
    obtain ⟨hc, hline⟩ : '\n' ≠ c ∧ '\n' ∉ line := by simpa using h
    rw [List.cons_append, linesFrom, if_neg hc.symm, ih hline, List.append_assoc,
      List.singleton_append]

/-- What no line feed ends keeps its carriage return. -/
theorem linesFrom_last (h : '\n' ∉ line) (hne : before ++ line ≠ []) :
    linesFrom before line = [before ++ line] := by
  induction line generalizing before with
  | nil => simpa [linesFrom] using hne
  | cons c line ih =>
    obtain ⟨hc, hline⟩ : '\n' ≠ c ∧ '\n' ∉ line := by simpa using h
    rw [linesFrom, if_neg hc.symm, ih hline (by simp), List.append_assoc, List.singleton_append]

theorem mem_of_mem_stripCarriageReturn {c : Char} (h : c ∈ stripCarriageReturn line) :
    c ∈ line := by
  unfold stripCarriageReturn at h
  split at h
  · exact List.mem_of_mem_dropLast h
  · exact h

theorem stripCarriageReturn_append (value : List Char) {c : Char} (hc : c ≠ '\r') :
    stripCarriageReturn (line ++ c :: value) = line ++ c :: stripCarriageReturn value := by
  unfold stripCarriageReturn
  cases value with
  | nil => simp [hc]
  | cons d value =>
    rw [List.getLast?_append_of_ne_nil _ (by simp), List.getLast?_cons_cons,
      List.dropLast_append_of_ne_nil (by simp), List.dropLast_cons_cons]
    split <;> rfl

/-- A carriage return at the end is lost. -/
theorem stripCarriageReturn_eq_self :
    stripCarriageReturn line = line ↔ line.getLast? ≠ some '\r' := by
  unfold stripCarriageReturn
  split
  · rename_i h
    have hpos : 0 < line.length := by
      cases line with
      | nil => cases h
      | cons => exact Nat.succ_pos _
    constructor
    · intro heq
      have := congrArg List.length heq
      rw [List.length_dropLast] at this
      omega
    · exact fun hne => absurd h hne
  · rename_i h
    simp [h]

theorem newline_notMem_linesFrom :
    ∀ {cs before : List Char}, '\n' ∉ before → ∀ line ∈ linesFrom before cs, '\n' ∉ line := by
  intro cs
  induction cs with
  | nil =>
    intro before h line hline
    rw [linesFrom] at hline
    split at hline
    · cases hline
    · rwa [List.mem_singleton.mp hline]
  | cons c cs ih =>
    intro before h line hline
    rw [linesFrom] at hline
    split at hline
    · rcases List.mem_cons.mp hline with rfl | hline
      · exact fun hmem => h (mem_of_mem_stripCarriageReturn hmem)
      · exact ih List.not_mem_nil line hline
    · rename_i hc
      refine ih ?_ line hline
      simp [h, Ne.symm hc]

theorem utf8ByteSize_stripCarriageReturn_le (line : List Char) :
    (String.ofList (stripCarriageReturn line)).utf8ByteSize ≤ (String.ofList line).utf8ByteSize := by
  unfold stripCarriageReturn
  split
  · rcases List.eq_nil_or_concat line with rfl | ⟨line, c, rfl⟩
    · simp
    · simp [String.ofList_append]
  · exact Nat.le_refl _

/-- The lines of a text, a line feed added to each, are as long as the text with one more line
feed. -/
theorem sum_linesFrom_le :
    ∀ cs before : List Char,
      ((linesFrom before cs).map fun line => (String.ofList line).utf8ByteSize + 1).sum ≤
        (String.ofList before).utf8ByteSize + (String.ofList cs).utf8ByteSize + 1 := by
  intro cs
  induction cs with
  | nil =>
    intro before
    rw [linesFrom]
    split <;> simp
  | cons c cs ih =>
    intro before
    have hcs : (String.ofList (c :: cs)).utf8ByteSize =
        c.utf8Size + (String.ofList cs).utf8ByteSize := by
      simp
    rw [linesFrom]
    split
    · rename_i hc
      subst hc
      have hone : Char.utf8Size '\n' = 1 := by decide
      have hstrip := utf8ByteSize_stripCarriageReturn_le before
      have hrest := ih []
      rw [show (String.ofList []).utf8ByteSize = 0 from rfl] at hrest
      rw [List.map_cons, List.sum_cons]
      omega
    · have hrest := ih (before ++ [c])
      have hbefore : (String.ofList (before ++ [c])).utf8ByteSize =
          (String.ofList before).utf8ByteSize + c.utf8Size := by
        simp [String.ofList_append]
      omega

namespace EmbassyStateMachine

variable {s m : EmbassyStateMachine} {entries : List (String × String)} {x : String × String}
  {key value payload : String}

/-! ## Keys and values -/

/-- The line of one entry, without the line feed. -/
def lineText (x : String × String) : String := x.1 ++ "=" ++ x.2

theorem toList_lineText : (lineText x).toList = x.1.toList ++ '=' :: x.2.toList := by
  simp [lineText]

/-- What holds of the entries of every map that payloads have filled. -/
structure Indexed (entries : List (String × String)) : Prop where
  nodup : (entries.map (·.1)).Nodup
  room : entries.length ≤ mapCapacity
  separated : ∀ x ∈ entries, '=' ∉ x.1.toList

theorem Indexed.of_keys {entries' : List (String × String)} (h : Indexed entries)
    (hkeys : entries'.map (·.1) = entries.map (·.1)) : Indexed entries' := by
  refine ⟨hkeys ▸ h.nodup, ?_, ?_⟩
  · have := congrArg List.length hkeys
    rw [List.length_map, List.length_map] at this
    exact this ▸ h.room
  · intro x hx
    have hmem : x.1 ∈ entries.map (·.1) := hkeys ▸ List.mem_map_of_mem hx
    obtain ⟨y, hy, hkey⟩ := List.mem_map.mp hmem
    exact hkey ▸ h.separated y hy

theorem insert_of_mem (h : key ∈ s.data.map (·.1)) :
    (s.insert key value).data.map (·.1) = s.data.map (·.1) := by
  have hany : (s.data.any (·.1 == key)) = true := by
    simpa using h
  rw [insert, if_pos hany]
  simp only [List.map_map]
  refine List.map_congr_left fun y _ => ?_
  by_cases hy : y.1 = key <;> simp [hy]

theorem insert_of_notMem (h : key ∉ s.data.map (·.1)) :
    s.insert key value = ⟨pushWithin (some mapCapacity) s.data (key, value)⟩ := by
  have hany : ¬(s.data.any (·.1 == key)) = true := by
    simpa using h
  rw [insert, if_neg hany]

theorem mem_insert (h : x ∈ (s.insert key value).data) : x ∈ s.data ∨ x = (key, value) := by
  unfold insert at h
  split at h
  · obtain ⟨y, hy, rfl⟩ := List.mem_map.mp h
    split
    · exact Or.inr rfl
    · exact Or.inl hy
  · dsimp only at h
    exact mem_of_mem_pushWithin h

theorem Indexed.insert (h : Indexed s.data) (hkey : '=' ∉ key.toList) :
    Indexed (s.insert key value).data := by
  by_cases hmem : key ∈ s.data.map (·.1)
  · exact h.of_keys (insert_of_mem hmem)
  · rw [insert_of_notMem hmem]
    refine ⟨?_, pushWithin_length_le _ h.room, ?_⟩
    · unfold pushWithin
      dsimp only
      split
      · rw [List.map_append, List.nodup_append]
        refine ⟨h.nodup, List.nodup_singleton _, ?_⟩
        rintro k hk _ hsingle rfl
        rw [List.mem_singleton.mp hsingle] at hk
        exact hmem hk
      · exact h.nodup
    · intro x hx
      dsimp only at hx
      rcases mem_of_mem_pushWithin hx with hx | rfl
      · exact h.separated x hx
      · exact hkey

theorem Indexed.apply (h : Indexed s.data) (payload : String) : Indexed (s.apply payload).data := by
  unfold EmbassyStateMachine.apply
  split
  · rename_i hsplit
    exact h.insert (eq_of_splitOnce hsplit).2
  · exact h

theorem Indexed.foldl_apply :
    ∀ (payloads : List String) {s : EmbassyStateMachine}, Indexed s.data →
      Indexed (payloads.foldl EmbassyStateMachine.apply s).data
  | [], _, h => h
  | payload :: payloads, _, h => foldl_apply payloads (h.apply payload)

theorem indexed_new : Indexed new.data := ⟨List.nodup_nil, Nat.zero_le _, by simp [new]⟩

theorem get_of_mem (h : Indexed s.data) (hx : x ∈ s.data) : s.get x.1 = some x.2 := by
  cases hfind : s.data.find? (·.1 == x.1) with
  | none =>
    have := List.find?_eq_none.mp hfind x hx
    simp at this
  | some y =>
    have hkey : y.1 = x.1 := by simpa using List.find?_some hfind
    have hy := List.inj_on_of_nodup_map h.nodup (List.mem_of_find?_eq_some hfind) hx hkey
    simp [get, hfind, hy]

theorem mem_of_get (h : s.get key = some value) : (key, value) ∈ s.data := by
  obtain ⟨y, hfind, rfl⟩ := Option.map_eq_some_iff.mp h
  have hkey : y.1 = key := by simpa using List.find?_some hfind
  exact hkey ▸ List.mem_of_find?_eq_some hfind

/-! ## Reading lines -/

theorem splitOnce_lineText (h : '=' ∉ x.1.toList) : splitOnce '=' (lineText x) = some x := by
  rw [← String.ofList_toList (s := lineText x), toList_lineText, splitOnce_append h,
    String.ofList_toList, String.ofList_toList]

theorem apply_lineText (h : '=' ∉ x.1.toList) : s.apply (lineText x) = s.insert x.1 x.2 := by
  rw [apply, splitOnce_lineText h]

theorem Indexed.nodup_lineText (h : Indexed entries) : (entries.map lineText).Nodup := by
  refine h.nodup.of_map.map_on fun x hx y hy heq => ?_
  have := splitOnce_lineText (h.separated x hx)
  rw [heq, splitOnce_lineText (h.separated y hy)] at this
  exact (Option.some.inj this).symm

/-- An entry that a payload has put into the map is the text of the payload. -/
theorem mem_apply (h : x ∈ (s.apply payload).data) : x ∈ s.data ∨ payload = lineText x := by
  unfold apply at h
  split at h
  · rename_i hsplit
    rcases mem_insert h with h | rfl
    · exact Or.inl h
    · refine Or.inr (String.toList_inj.mp ?_)
      rw [toList_lineText, (eq_of_splitOnce hsplit).1]
  · exact Or.inl h

theorem mem_foldl_apply :
    ∀ {payloads : List String} {s : EmbassyStateMachine},
      x ∈ (payloads.foldl apply s).data → x ∈ s.data ∨ lineText x ∈ payloads
  | [], _, h => Or.inl h
  | payload :: payloads, s, h => by
    rw [List.foldl_cons] at h
    rcases mem_foldl_apply h with h | h
    · rcases mem_apply h with h | rfl
      · exact Or.inl h
      · exact Or.inr (List.mem_cons_self ..)
    · exact Or.inr (List.mem_cons_of_mem _ h)

/-- Lines of different keys fill the map in their order. -/
theorem foldl_apply_lineText :
    ∀ (entries loaded : List (String × String)), Indexed (loaded ++ entries) →
      (entries.map lineText).foldl apply ⟨loaded⟩ = ⟨loaded ++ entries⟩
  | [], loaded, _ => by simp
  | x :: entries, loaded, h => by
    have hnew : x.1 ∉ loaded.map (·.1) := by
      have := h.nodup
      rw [List.map_append, List.map_cons, List.nodup_append] at this
      exact fun hmem => this.2.2 _ hmem _ (List.mem_cons_self ..) rfl
    have hroom : loaded.length < mapCapacity := by
      have := h.room
      rw [List.length_append, List.length_cons] at this
      omega
    have hinsert : insert ⟨loaded⟩ x.1 x.2 = ⟨loaded ++ [x]⟩ := by
      rw [insert_of_notMem hnew, pushWithin, if_pos hroom]
    rw [List.map_cons, List.foldl_cons, apply_lineText (h.separated x (by simp)), hinsert,
      foldl_apply_lineText entries (loaded ++ [x]) (by rwa [List.append_assoc]), List.append_assoc,
      List.singleton_append]

theorem load_lineText (h : Indexed entries) :
    (entries.map lineText).foldl apply new = ⟨entries⟩ :=
  foldl_apply_lineText entries [] h

/-! ## The text -/

/-- The text of a snapshot that nothing is cut off. -/
def snapshotText (entries : List (String × String)) : List Char :=
  entries.flatMap fun x => (lineText x).toList ++ ['\n']

theorem snapshotText_append (entries entries' : List (String × String)) :
    snapshotText (entries ++ entries') = snapshotText entries ++ snapshotText entries' :=
  List.flatMap_append

theorem utf8Bytes_append (text text' : String) :
    utf8Bytes (text ++ text') = utf8Bytes text ++ utf8Bytes text' := by
  unfold utf8Bytes
  rw [String.toByteArray_append, ByteArray.data_append, Array.toList_append]

theorem length_utf8Bytes (text : String) : (utf8Bytes text).length = text.utf8ByteSize := rfl

theorem lineBytes_eq : lineBytes x = utf8Bytes (lineText x ++ "\n") := by
  rw [lineText, utf8Bytes_append, utf8Bytes_append, utf8Bytes_append]
  rfl

theorem flatMap_lineBytes :
    ∀ entries : List (String × String),
      entries.flatMap lineBytes = utf8Bytes (String.ofList (snapshotText entries))
  | [] => rfl
  | x :: entries => by
    have htext : String.ofList (snapshotText (x :: entries)) =
        lineText x ++ "\n" ++ String.ofList (snapshotText entries) := by
      simp [← String.toList_inj, snapshotText]
    rw [List.flatMap_cons, flatMap_lineBytes entries, lineBytes_eq, htext,
      utf8Bytes_append (lineText x ++ "\n")]

theorem length_lineBytes : (lineBytes x).length = (lineText x).utf8ByteSize + 1 := by
  rw [lineBytes_eq, length_utf8Bytes, String.utf8ByteSize_append]
  rfl

theorem length_flatMap_lineBytes (entries : List (String × String)) :
    (entries.flatMap lineBytes).length =
      ((entries.map lineText).map fun text => text.utf8ByteSize + 1).sum := by
  rw [List.length_flatMap, List.map_map]
  congr 1
  exact List.map_congr_left fun _ _ => length_lineBytes

/-- A value as it is read back from a line that a line feed ended. -/
def stripped (x : String × String) : String × String :=
  (x.1, String.ofList (stripCarriageReturn x.2.toList))

theorem stripCarriageReturn_lineText :
    stripCarriageReturn (lineText x).toList = (lineText (stripped x)).toList := by
  rw [toList_lineText, toList_lineText, stripCarriageReturn_append _ (by decide), stripped,
    String.toList_ofList]

theorem stripped_eq_self : stripped x = x ↔ x.2.toList.getLast? ≠ some '\r' := by
  rw [← stripCarriageReturn_eq_self]
  constructor
  · intro h
    have := congrArg (·.2.toList) h
    simpa [stripped] using this
  · intro h
    rw [stripped, h, String.ofList_toList]

theorem keys_map_stripped : (entries.map stripped).map (·.1) = entries.map (·.1) := by
  rw [List.map_map]
  rfl

theorem map_stripped_eq_self (h : ∀ x ∈ entries, x.2.toList.getLast? ≠ some '\r') :
    entries.map stripped = entries :=
  calc
    entries.map stripped = entries.map id :=
      List.map_congr_left fun x hx => stripped_eq_self.mpr (h x hx)
    _ = entries := List.map_id entries

/-- No key and no value runs over several lines. -/
def Unbroken (entries : List (String × String)) : Prop :=
  ∀ x ∈ entries, '\n' ∉ x.1.toList ∧ '\n' ∉ x.2.toList

theorem newline_notMem_lineText :
    '\n' ∉ (lineText x).toList ↔ '\n' ∉ x.1.toList ∧ '\n' ∉ x.2.toList := by
  simp [toList_lineText]

theorem linesFrom_snapshotText :
    ∀ entries : List (String × String), Unbroken entries →
      linesFrom [] (snapshotText entries ++ rest) =
        ((entries.map stripped).map lineText).map String.toList ++ linesFrom [] rest
  | [], _ => rfl
  | x :: entries, h => by
    have hx := newline_notMem_lineText.mpr (h x (List.mem_cons_self ..))
    have hrest := linesFrom_snapshotText entries fun y hy => h y (List.mem_cons_of_mem _ hy)
    have htext : snapshotText (x :: entries) = (lineText x).toList ++ '\n' :: snapshotText entries := by
      simp [snapshotText]
    rw [htext, List.append_assoc, List.cons_append, linesFrom_append hx, List.nil_append,
      stripCarriageReturn_lineText, hrest]
    rfl

/-! ## The bytes -/

theorem restoreFromSnapshot_text (m : EmbassyStateMachine) (text : String) :
    m.restoreFromSnapshot (utf8Bytes text) = ((lines text).foldl apply new, .ok ()) := by
  have htext : String.fromUTF8? ⟨(utf8Bytes text).toArray⟩ = some text := fromUtf8_utf8Bytes text
  rw [restoreFromSnapshot, htext]
  rfl

/-- Bytes that are accepted are a text. -/
theorem text_of_restored {data : List UInt8} (h : (m.restoreFromSnapshot data).2 = .ok ()) :
    ∃ text, utf8Bytes text = data := by
  unfold restoreFromSnapshot at h
  split at h
  · cases h
  · rename_i text htext
    exact ⟨text, utf8Bytes_of_fromUtf8 htext⟩

theorem createSnapshot_of_short
    (h : (s.data.flatMap lineBytes).length ≤ snapshotDataCapacity) :
    s.createSnapshot = s.data.flatMap lineBytes := by
  rw [createSnapshot, foldl_pushWithin_of_fits, List.nil_append]
  intro k hk
  cases hk
  simpa using h

/-- At one byte too many the last line feed is cut off. -/
theorem createSnapshot_of_full {text : List UInt8} {last : UInt8}
    (h : s.data.flatMap lineBytes = text ++ [last]) (hfull : text.length = snapshotDataCapacity) :
    s.createSnapshot = text := by
  have htext : text.foldl (pushWithin (some snapshotDataCapacity)) [] = text := by
    rw [foldl_pushWithin_of_fits, List.nil_append]
    intro k hk
    cases hk
    simp [hfull]
  rw [createSnapshot, h, List.foldl_append, htext, List.foldl_cons, List.foldl_nil, pushWithin,
    if_neg (by omega)]

theorem restored_of_short (m : EmbassyStateMachine) (hindexed : Indexed s.data)
    (hunbroken : Unbroken s.data)
    (h : (s.data.flatMap lineBytes).length ≤ snapshotDataCapacity) :
    m.restoreFromSnapshot s.createSnapshot = (⟨s.data.map stripped⟩, .ok ()) := by
  have hlines : lines (String.ofList (snapshotText s.data)) = (s.data.map stripped).map lineText := by
    rw [lines, String.toList_ofList, ← List.append_nil (snapshotText s.data),
      linesFrom_snapshotText s.data hunbroken]
    simp [linesFrom, List.map_map, Function.comp_def]
  rw [createSnapshot_of_short h, flatMap_lineBytes, restoreFromSnapshot_text, hlines,
    load_lineText (hindexed.of_keys keys_map_stripped)]

/-- At one byte too many the last line ends with the text, and keeps its carriage return. -/
theorem restored_of_full (hindexed : Indexed s.data) (hunbroken : Unbroken s.data)
    (h : (s.data.flatMap lineBytes).length = snapshotDataCapacity + 1) :
    ∃ front last, s.data = front ++ [last] ∧ Indexed (front.map stripped ++ [last]) ∧
      ∀ m : EmbassyStateMachine,
        m.restoreFromSnapshot s.createSnapshot = (⟨front.map stripped ++ [last]⟩, .ok ()) := by
  obtain ⟨front, last, hdata⟩ : ∃ front last, s.data = front ++ [last] := by
    refine (List.eq_nil_or_concat' s.data).resolve_left fun hnil => ?_
    rw [hnil] at h
    cases h
  have hread : Indexed (front.map stripped ++ [last]) :=
    hindexed.of_keys (by rw [hdata, List.map_append, keys_map_stripped, List.map_append])
  refine ⟨front, last, hdata, hread, fun m => ?_⟩
  have hfront : Unbroken front := fun x hx => hunbroken x (by simp [hdata, hx])
  have hlast : '\n' ∉ (lineText last).toList :=
    newline_notMem_lineText.mpr (hunbroken last (by simp [hdata]))
  have htext : String.ofList (snapshotText s.data) =
      String.ofList (snapshotText front ++ (lineText last).toList) ++ "\n" := by
    rw [hdata, snapshotText_append, ← String.toList_inj]
    simp [snapshotText]
  have hbytes : s.data.flatMap lineBytes =
      utf8Bytes (String.ofList (snapshotText front ++ (lineText last).toList)) ++ [10] := by
    rw [flatMap_lineBytes, htext, utf8Bytes_append]
    rfl
  have hlines : lines (String.ofList (snapshotText front ++ (lineText last).toList)) =
      (front.map stripped ++ [last]).map lineText := by
    rw [lines, String.toList_ofList, linesFrom_snapshotText front hfront,
      linesFrom_last hlast (by simp [toList_lineText])]
    simp [List.map_map, Function.comp_def]
  rw [hbytes, List.length_append, List.length_singleton] at h
  rw [createSnapshot_of_full hbytes (by omega), restoreFromSnapshot_text, hlines,
    load_lineText hread]

/-! ## The round trip -/

/-- Restoring the snapshot of `s` on any machine gives back what `s` holds, and the two still hold
the same after any further payloads. -/
def RoundTrips (s : EmbassyStateMachine) : Prop :=
  ∀ (m : EmbassyStateMachine) (further : List String),
    (m.restoreFromSnapshot s.createSnapshot).2 = .ok () ∧
      ∀ key, (further.foldl apply (m.restoreFromSnapshot s.createSnapshot).1).get key =
        (further.foldl apply s).get key

/-- The text of the map fits, its last line feed aside; every entry is one line; and no value ends
in a carriage return, except in a line whose line feed is the one that is cut off. -/
structure Writable (s : EmbassyStateMachine) : Prop where
  unbroken : Unbroken s.data
  fits : (s.data.flatMap lineBytes).length ≤ snapshotDataCapacity + 1
  ending : ∀ x ∈ s.data, x.2.toList.getLast? = some '\r' →
    s.data.getLast? = some x ∧ (s.data.flatMap lineBytes).length = snapshotDataCapacity + 1

theorem Writable.restored (h : Writable s) (hindexed : Indexed s.data) (m : EmbassyStateMachine) :
    m.restoreFromSnapshot s.createSnapshot = (s, .ok ()) := by
  rcases Nat.lt_or_ge snapshotDataCapacity (s.data.flatMap lineBytes).length with hfull | hshort
  · obtain ⟨front, last, hdata, -, hrestored⟩ :=
      restored_of_full hindexed h.unbroken (Nat.le_antisymm h.fits hfull)
    -- Keys come once, so the entry that may keep its carriage return is no earlier one.
    have hfront : front.map stripped = front := by
      refine map_stripped_eq_self fun x hx hend => ?_
      have hlast := (h.ending x (by simp [hdata, hx]) hend).1
      rw [hdata, List.getLast?_concat] at hlast
      have hnodup := hindexed.nodup.of_map
      rw [hdata, List.nodup_append] at hnodup
      exact hnodup.2.2 x hx last (List.mem_singleton_self _) (Option.some.inj hlast).symm
    rw [hrestored, hfront, ← hdata]
  · have hdata : s.data.map stripped = s.data := by
      refine map_stripped_eq_self fun x hx hend => ?_
      have := (h.ending x hx hend).2
      omega
    rw [restored_of_short m hindexed h.unbroken hshort, hdata]

/-- Whatever is read back was a line of a text that the snapshot holds. -/
theorem RoundTrips.lineText_mem (h : RoundTrips s) (hindexed : Indexed s.data) :
    ∃ text : String, text.utf8ByteSize ≤ snapshotDataCapacity ∧
      ∀ x ∈ s.data, lineText x ∈ lines text := by
  obtain ⟨text, htext⟩ := text_of_restored (h new []).1
  refine ⟨text, ?_, fun x hx => ?_⟩
  · have hlength := createSnapshot_length s
    rw [← htext] at hlength
    exact hlength
  · have hget := (h new []).2 x.1
    rw [← htext, restoreFromSnapshot_text] at hget
    have hmem := mem_of_get (hget.trans (get_of_mem hindexed hx))
    exact (mem_foldl_apply (s := new) hmem).resolve_left List.not_mem_nil

theorem RoundTrips.unbroken (h : RoundTrips s) (hindexed : Indexed s.data) : Unbroken s.data := by
  obtain ⟨text, -, hlines⟩ := h.lineText_mem hindexed
  intro x hx
  obtain ⟨line, hline, heq⟩ := List.mem_map.mp (hlines x hx)
  rw [← newline_notMem_lineText, ← heq, String.toList_ofList]
  exact newline_notMem_linesFrom List.not_mem_nil line hline

theorem RoundTrips.fits (h : RoundTrips s) (hindexed : Indexed s.data) :
    (s.data.flatMap lineBytes).length ≤ snapshotDataCapacity + 1 := by
  obtain ⟨text, hsize, hlines⟩ := h.lineText_mem hindexed
  have hsub : s.data.map lineText ⊆ lines text := by
    intro l hl
    obtain ⟨x, hx, rfl⟩ := List.mem_map.mp hl
    exact hlines x hx
  obtain ⟨l, hperm, hsublist⟩ := List.subperm_of_subset hindexed.nodup_lineText hsub
  calc
    (s.data.flatMap lineBytes).length
        = ((s.data.map lineText).map fun text => text.utf8ByteSize + 1).sum :=
      length_flatMap_lineBytes s.data
    _ = (l.map fun text => text.utf8ByteSize + 1).sum := (hperm.map _).sum_nat.symm
    _ ≤ ((lines text).map fun text => text.utf8ByteSize + 1).sum :=
      (hsublist.map _).sum_le_sum fun _ _ => Nat.zero_le _
    _ ≤ text.utf8ByteSize + 1 := by
      have := sum_linesFrom_le text.toList []
      rw [String.ofList_toList] at this
      simpa [lines, List.map_map, Function.comp_def] using this
    _ ≤ snapshotDataCapacity + 1 := Nat.succ_le_succ hsize

theorem RoundTrips.ending (h : RoundTrips s) (hindexed : Indexed s.data)
    (hx : x ∈ s.data) (hend : x.2.toList.getLast? = some '\r') :
    s.data.getLast? = some x ∧
      (s.data.flatMap lineBytes).length = snapshotDataCapacity + 1 := by
  -- A value that was stripped of its carriage return is another one.
  have hlost : ∀ entries, Indexed entries → stripped x ∈ entries →
      (new.restoreFromSnapshot s.createSnapshot).1 = ⟨entries⟩ → False := by
    intro entries hentries hmem hrestored
    have hget := (h new []).2 x.1
    rw [hrestored] at hget
    have hvalue := (get_of_mem (s := ⟨entries⟩) hentries hmem).symm.trans
      (hget.trans (get_of_mem hindexed hx))
    exact stripped_eq_self.mp (Prod.ext rfl (Option.some.inj hvalue)) hend
  have hunbroken := h.unbroken hindexed
  rcases Nat.lt_or_ge snapshotDataCapacity (s.data.flatMap lineBytes).length with hfull | hshort
  · have hlength : (s.data.flatMap lineBytes).length = snapshotDataCapacity + 1 :=
      Nat.le_antisymm (h.fits hindexed) hfull
    refine ⟨?_, hlength⟩
    obtain ⟨front, last, hdata, hread, hrestored⟩ := restored_of_full hindexed hunbroken hlength
    rw [hdata] at hx
    rcases List.mem_append.mp hx with hx | hx
    · have hmem : stripped x ∈ front.map stripped ++ [last] :=
        List.mem_append_left _ (List.mem_map_of_mem hx)
      exact (hlost _ hread hmem (congrArg Prod.fst (hrestored new))).elim
    · rw [hdata, List.getLast?_concat, List.mem_singleton.mp hx]
  · have hread := hindexed.of_keys keys_map_stripped
    have hrestored := restored_of_short new hindexed hunbroken hshort
    exact (hlost _ hread (List.mem_map_of_mem hx) (congrArg Prod.fst hrestored)).elim

/-- A map that payloads have filled round-trips through its snapshot exactly when its text bears
it. -/
theorem snapshot_round_trips_iff (payloads : List String) :
    RoundTrips (payloads.foldl apply new) ↔ Writable (payloads.foldl apply new) := by
  have hindexed := indexed_new.foldl_apply payloads
  constructor
  · intro h
    exact ⟨h.unbroken hindexed, h.fits hindexed, fun x hx hend => h.ending hindexed hx hend⟩
  · intro h m further
    rw [h.restored hindexed m]
    exact ⟨rfl, fun _ => rfl⟩

/-- A value with a line feed comes back without its second line. -/
theorem newline_value_lost :
    ¬∀ payloads : List String, RoundTrips (payloads.foldl apply new) := by
  intro h
  have := (h ["a=x\ny"] new []).2 "a"
  revert this
  decide +kernel

end EmbassyStateMachine

end MetalRaft
