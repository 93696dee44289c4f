import MetalRaft.SemihostingStorage

/-!
# The log file, read back

What `deserialize_log` makes of the bytes that `serialize_log` has written, of all of them and of a
beginning.

* `Persistable` — logs of commands whose payloads fit their length fields.
* `log_round_trips_iff` — these are the logs that are read back, index by index;
  `config_change_shifts_log` — one that is not.
* `wholeEntries` — how many entries a beginning of the file covers; `torn_log_is_prefix` — these are
  the entries that are read from it.
-/

set_option autoImplicit false

namespace MetalRaft

open LittleEndian

variable {log : List (LogEntry String)} {e : LogEntry String} {rest : List UInt8} {count j : Nat}

/-! ## One entry -/

/-- No more entries are read than were announced. -/
theorem length_deserializeEntries_le :
    ∀ (count : Nat) (data : List UInt8), (deserializeEntries count data).length ≤ count := by
  intro count
  induction count with
  | zero => exact fun _ => Nat.le_refl 0
  | succ count ih =>
    intro data
    have hskip : ∀ data, (deserializeEntries count data).length ≤ count + 1 := fun data =>
      Nat.le_succ_of_le (ih data)
    unfold deserializeEntries
    split
    · exact Nat.zero_le _
    · dsimp only
      split
      · exact Nat.zero_le _
      · split
        · exact Nat.zero_le _
        · split
          · split
            · exact Nat.zero_le _
            · split
              · exact Nat.succ_le_succ (ih _)
              · exact hskip _
          · exact hskip _

/-- A configuration change is passed over. -/
theorem deserializeEntries_configChange (term : Nat) (change : ConfigurationChange) :
    deserializeEntries (count + 1) (serializeEntry ⟨term, .configChange change⟩ ++ rest) =
      deserializeEntries count rest := by
  have hbytes : serializeEntry ⟨term, .configChange change⟩ ++ rest =
      toBytes 8 term ++ (1 :: (toBytes 4 0 ++ rest)) := by
    simp [serializeEntry]
  rw [hbytes, deserializeEntries, if_neg not_length_lt, drop_append]
  dsimp only
  rw [if_neg not_length_lt, ofBytes_take_append (by decide), drop_append, if_neg (by decide)]
  rfl

/-- The entry is read back as it was only if it is a command that fits its fields. -/
theorem storable_of_deserializeEntries {es : List (LogEntry String)}
    (h : deserializeEntries (es.length + 1) (serializeEntry e ++ rest) = e :: es) :
    e.Storable ∧ deserializeEntries es.length rest = es := by
  obtain ⟨term, entryType⟩ := e
  have hshort : ∀ data, deserializeEntries es.length data ≠ ⟨term, entryType⟩ :: es := by
    intro data heq
    have hle := length_deserializeEntries_le es.length data
    rw [heq, List.length_cons] at hle
    omega
  cases entryType with
  | configChange change =>
    rw [deserializeEntries_configChange] at h
    exact absurd h (hshort _)
  | command payload =>
    rw [deserializeEntries_command] at h
    dsimp only at h
    split at h
    · rename_i read hread
      obtain ⟨hentry, htail⟩ := List.cons.inj h
      obtain ⟨hterm, hcommand⟩ := LogEntry.mk.inj hentry
      obtain rfl : read = payload := EntryType.command.inj hcommand
      -- the bytes that were read are those of the whole payload
      have hlength := congrArg List.length (utf8Bytes_of_fromUtf8 hread)
      rw [List.length_take, List.length_append] at hlength
      have hlt : (utf8Bytes read).length % 256 ^ 4 < 256 ^ 4 := Nat.mod_lt _ (by decide)
      have hmod : (utf8Bytes read).length % 256 ^ 4 = (utf8Bytes read).length := by omega
      rw [hmod, List.drop_left] at htail
      exact ⟨⟨hterm ▸ Nat.mod_lt _ (by decide), read, rfl, hmod ▸ hlt⟩, htail⟩
    · exact absurd h (hshort _)

/-! ## The whole file -/

/-- The number of entries and the fields of each fit where they are written to, and there are only
commands. -/
def Persistable (log : List (LogEntry String)) : Prop :=
  log.length < 256 ^ 8 ∧ ∀ e ∈ log, e.Storable

theorem storable_of_entries : ∀ {es : List (LogEntry String)},
    deserializeEntries es.length (es.flatMap serializeEntry) = es → ∀ e ∈ es, e.Storable := by
  intro es
  induction es with
  | nil => exact fun _ e he => absurd he List.not_mem_nil
  | cons e es ih =>
    intro h
    rw [List.flatMap_cons, List.length_cons] at h
    obtain ⟨hfirst, hrest⟩ := storable_of_deserializeEntries h
    intro x hx
    rcases List.mem_cons.mp hx with rfl | hx
    · exact hfirst
    · exact ih hrest x hx

theorem persistable_of_deserializeLog (h : deserializeLog (serializeLog log) = log) :
    Persistable log := by
  unfold deserializeLog serializeLog at h
  rw [if_neg not_length_lt, ofBytes_take_append_mod, drop_append] at h
  have hcount := length_deserializeEntries_le (log.length % 256 ^ 8) (log.flatMap serializeEntry)
  rw [h] at hcount
  have hlt : log.length % 256 ^ 8 < 256 ^ 8 := Nat.mod_lt _ (by decide)
  have hmod : log.length % 256 ^ 8 = log.length := Nat.le_antisymm (Nat.mod_le _ _) hcount
  rw [hmod] at h hlt
  exact ⟨hlt, storable_of_entries h⟩

theorem SemihostingStorage.loadLog_persistLog (s : SemihostingStorage) :
    (new s.persistLog.disk).log = deserializeLog (serializeLog s.log) := by
  show loadLog s.persistLog.disk = _
  unfold loadLog disk persistLog writeFile
  rw [List.foldl_append]
  rfl

/-- **The log file is read back** exactly if the log is one of commands that fit their fields; then,
and only then, a restart finds every entry at its index. -/
theorem log_round_trips_iff (log : List (LogEntry String)) :
    (deserializeLog (serializeLog log) = log ↔ Persistable log) ∧
      ∀ s : SemihostingStorage, s.log = log →
        let reopened := SemihostingStorage.new s.persistLog.disk
        reopened.firstLogIndex = s.firstLogIndex →
          ((∀ i, reopened.getEntry i = s.getEntry i) ↔ Persistable log) := by
  have hiff : deserializeLog (serializeLog log) = log ↔ Persistable log :=
    ⟨persistable_of_deserializeLog, fun h => deserializeLog_serializeLog h.1 h.2⟩
  refine ⟨hiff, fun s hs => ?_⟩
  intro reopened hfirst
  refine Iff.trans ⟨fun h => ?_, fun h i => ?_⟩ hiff
  · have hlog : reopened.log = deserializeLog (serializeLog log) := by
      rw [← hs]
      exact s.loadLog_persistLog
    rw [← hlog]
    refine List.ext_getElem? fun i => ?_
    have hentry := h (s.firstLogIndex + i)
    unfold SemihostingStorage.getEntry at hentry
    rw [hfirst, if_neg (by omega), if_neg (by omega), Nat.add_sub_cancel_left, hs] at hentry
    exact hentry
  · have hlog : reopened.log = s.log := by
      rw [hs, ← h, ← hs]
      exact s.loadLog_persistLog
    unfold SemihostingStorage.getEntry
    rw [hlog, hfirst]

/-- A storage over empty files takes in a command and is opened again. -/
theorem log_round_trips_command :
    let s := (SemihostingStorage.new .empty).appendEntries [⟨1, .command "a=1"⟩]
    let reopened := SemihostingStorage.new s.persistLog.disk
    ∀ i, reopened.getEntry i = s.getEntry i := by
  intro s reopened
  refine ((log_round_trips_iff [⟨1, .command "a=1"⟩]).2 s rfl rfl).mpr ⟨by decide, fun e he => ?_⟩
  rw [List.mem_singleton.mp he]
  exact ⟨by decide, "a=1", rfl, by decide +kernel⟩

/-- A configuration change before a command is gone, and the command takes its index. -/
theorem config_change_shifts_log :
    ¬ ∀ log : List (LogEntry String), deserializeLog (serializeLog log) = log := by
  intro h
  have hshift : deserializeLog
      (serializeLog [⟨1, .configChange (.addServer 4)⟩, ⟨1, .command "a=1"⟩]) =
        [⟨1, .command "a=1"⟩] := by decide +kernel
  have hlength := congrArg List.length (hshift.symm.trans (h _))
  exact absurd hlength (by decide)

/-! ## A beginning of the file -/

/-- How many of the entries lie in the first `j` bytes of all of them. -/
def wholeEntries (j : Nat) : List (LogEntry String) → Nat
  | [] => 0
  | e :: es =>
    if (serializeEntry e).length ≤ j then wholeEntries (j - (serializeEntry e).length) es + 1 else 0

theorem wholeEntries_le : ∀ (es : List (LogEntry String)) (j : Nat), wholeEntries j es ≤ es.length := by
  intro es
  induction es with
  | nil => exact fun _ => Nat.le_refl 0
  | cons e es ih =>
    intro j
    unfold wholeEntries
    split
    · exact Nat.succ_le_succ (ih _)
    · exact Nat.zero_le _

theorem le_wholeEntries_iff : ∀ {es : List (LogEntry String)} {j m : Nat}, m ≤ es.length →
    (m ≤ wholeEntries j es ↔ ((es.take m).flatMap serializeEntry).length ≤ j) := by
  intro es
  induction es with
  | nil =>
    intro j m hm
    rw [Nat.le_zero.mp hm]
    exact iff_of_true (Nat.zero_le _) (Nat.zero_le _)
  | cons e es ih =>
    intro j m hm
    cases m with
    | zero => exact iff_of_true (Nat.zero_le _) (Nat.zero_le _)
    | succ m =>
      have hrest := ih (j := j - (serializeEntry e).length) (Nat.le_of_succ_le_succ hm)
      rw [List.take_succ_cons, List.flatMap_cons, List.length_append]
      unfold wholeEntries
      split
      · omega
      · omega

/-- The length of the entry of a command. -/
theorem length_serializeEntry (term : Nat) (payload : String) :
    (serializeEntry ⟨term, .command payload⟩).length = 13 + (utf8Bytes payload).length := by
  unfold serializeEntry
  rw [List.length_append, List.length_cons, List.length_append, length_toBytes, length_toBytes]
  omega

/-- Of an entry that is cut nothing is read. -/
theorem deserializeEntries_cut (h : e.Storable) (hj : j < (serializeEntry e).length) :
    deserializeEntries (count + 1) ((serializeEntry e).take j) = [] := by
  obtain ⟨term, entryType⟩ := e
  obtain ⟨_, payload, hcommand, hlen⟩ := h
  dsimp only at hcommand
  subst hcommand
  have hbytes : serializeEntry ⟨term, .command payload⟩ =
      toBytes 8 term ++ (0 :: (toBytes 4 (utf8Bytes payload).length ++ utf8Bytes payload)) := rfl
  rw [length_serializeEntry] at hj
  unfold deserializeEntries
  rw [List.length_take_of_le (by rw [length_serializeEntry]; omega)]
  -- the cut is in the term, before the type, in the length field, or in the payload
  by_cases hterm : j < 8
  · rw [if_pos hterm]
  rw [if_neg hterm, hbytes, List.drop_take, drop_append]
  obtain ⟨i, rfl⟩ := Nat.exists_eq_add_of_le (Nat.not_lt.mp hterm)
  rw [Nat.add_sub_cancel_left]
  cases i with
  | zero => rfl
  | succ i =>
    rw [List.take_succ_cons]
    dsimp only
    by_cases hfield : i < 4
    · rw [List.length_take, if_pos (by omega)]
    obtain ⟨k, rfl⟩ := Nat.exists_eq_add_of_le (Nat.not_lt.mp hfield)
    rw [if_neg (by rw [List.length_take, List.length_append, length_toBytes]; omega),
      if_pos rfl, List.drop_take, drop_append, Nat.add_sub_cancel_left, List.take_take,
      Nat.min_eq_left (Nat.le_add_right 4 k), ofBytes_take_append hlen,
      if_pos (by rw [List.length_take]; omega)]

theorem deserializeEntries_take : ∀ {es : List (LogEntry String)} {j : Nat},
    (∀ e ∈ es, e.Storable) →
      deserializeEntries es.length ((es.flatMap serializeEntry).take j) =
        es.take (wholeEntries j es) := by
  intro es
  induction es with
  | nil => exact fun _ => rfl
  | cons e es ih =>
    intro j h
    have hfirst := h e (List.mem_cons_self ..)
    rw [List.flatMap_cons, List.length_cons]
    unfold wholeEntries
    by_cases hwhole : (serializeEntry e).length ≤ j
    · obtain ⟨k, rfl⟩ := Nat.exists_eq_add_of_le hwhole
      rw [if_pos hwhole, List.take_length_add_append, deserializeEntries_cons hfirst,
        Nat.add_sub_cancel_left, ih fun x hx => h x (List.mem_cons_of_mem _ hx),
        List.take_succ_cons]
    · have hcut := Nat.not_le.mp hwhole
      rw [if_neg hwhole, List.take_append_of_le_length (Nat.le_of_lt hcut),
        deserializeEntries_cut hfirst hcut]
      rfl

/-- **A torn log file yields a prefix**: the entries that lie wholly in the first `k` bytes. -/
theorem torn_log_is_prefix {log : List (LogEntry String)} (h : Persistable log) (k : Nat) :
    ∃ n ≤ log.length, deserializeLog ((serializeLog log).take k) = log.take n ∧
      ∀ m ≤ log.length, m ≤ n ↔ m = 0 ∨ (serializeLog (log.take m)).length ≤ k := by
  have hheader : ∀ es, (serializeLog es).length = 8 + (es.flatMap serializeEntry).length := by
    intro es
    unfold serializeLog
    rw [List.length_append, length_toBytes]
  unfold deserializeLog
  by_cases hk : k < 8
  · refine ⟨0, Nat.zero_le _, ?_, fun m _ => ?_⟩
    · rw [List.length_take, if_pos (by omega)]
      rfl
    · rw [hheader]
      omega
  · obtain ⟨j, rfl⟩ := Nat.exists_eq_add_of_le (Nat.not_lt.mp hk)
    refine ⟨wholeEntries j log, wholeEntries_le log j, ?_, fun m hm => ?_⟩
    · rw [List.length_take, hheader, if_neg (by omega), List.take_take,
        Nat.min_eq_left (Nat.le_add_right 8 j), List.drop_take, Nat.add_sub_cancel_left]
      unfold serializeLog
      rw [ofBytes_take_append h.1, drop_append, deserializeEntries_take h.2]
    · rw [hheader, le_wholeEntries_iff hm]
      constructor
      · omega
      · rintro (rfl | hle)
        · exact Nat.zero_le _
        · omega

/-- Of two commands the second has lost its last byte. -/
theorem torn_log_is_prefix_two :
    let log : List (LogEntry String) := [⟨1, .command "a=1"⟩, ⟨2, .command "b=2"⟩]
    ∃ n ≤ 2, deserializeLog ((serializeLog log).take 39) = log.take n ∧
      ∀ m ≤ 2, m ≤ n ↔ m = 0 ∨ (serializeLog (log.take m)).length ≤ 39 := by
  intro log
  have hstorable : ∀ e ∈ log, e.Storable := by
    intro e he
    rcases List.mem_cons.mp he with rfl | he
    · exact ⟨by decide, "a=1", rfl, by decide +kernel⟩
    · rw [List.mem_singleton.mp he]
      exact ⟨by decide, "b=2", rfl, by decide +kernel⟩
  exact torn_log_is_prefix ⟨by decide, hstorable⟩ 39

end MetalRaft
