import MetalRaft.LogFile

/-!
# The log decoder in 32 bits

`deserialize_log` once more, with its offset in a `usize` of 32 bits, every index and every slice
checked: what makes it panic.

* `decodeLog` — the function, with `Panic` for what the language checks; `decodeLog_eq` — what it
  returns is what `deserializeLog` does.
* `HeaderAt` — where the headers of a file lie, whatever the width of a `usize`.
* `decodeLog_torn` — what the storage has written, or a beginning of it, is decoded.
* `decodeLog_ok_iff` — the decoder panics exactly on a file with an entry that ends beyond 32 bits;
  `long_payload_panics` — such a file.
-/

set_option autoImplicit false

namespace MetalRaft

open LittleEndian

/-! ## Arithmetic, indices and slices -/

inductive Panic where
  | arithmeticOverflow
  | indexOutOfRange
  | invalidSlice
  deriving DecidableEq

/-- The values of a `usize` of `thumbv7em`. -/
def usize32 : Nat := 2 ^ 32

/-- The sum of two `usize`. -/
def addUsize (a b : Nat) : Except Panic Nat :=
  if a + b < usize32 then .ok (a + b) else .error .arithmeticOverflow

/-- `data[i]`. -/
def byteAt (data : List UInt8) (i : Nat) : Except Panic UInt8 :=
  match data[i]? with
  | some b => .ok b
  | none => .error .indexOutOfRange

/-- `[data[offset], data[offset + 1], ..]`, of the given length. -/
def bytesAt (data : List UInt8) (offset : Nat) : Nat → Except Panic (List UInt8)
  | 0 => .ok []
  | w + 1 => do
    let bytes ← bytesAt data offset w
    let i ← addUsize offset w
    let b ← byteAt data i
    .ok (bytes ++ [b])

/-- `data[start..stop]`. -/
def sliceAt (data : List UInt8) (start stop : Nat) : Except Panic (List UInt8) :=
  if start ≤ stop ∧ stop ≤ data.length then .ok ((data.take stop).drop start)
  else .error .invalidSlice

/-! ## The decoder -/

/-- The `for` loop, with the entries found so far. -/
def decodeEntries (data : List UInt8) :
    Nat → Nat → List (LogEntry String) → Except Panic (List (LogEntry String))
  | 0, _, log => .ok log
  | count + 1, offset, log => do
    let stop ← addUsize offset 8
    if stop > data.length then .ok log
    else
      let term ← bytesAt data offset 8
      let offset ← addUsize offset 8
      if offset ≥ data.length then .ok log
      else
        let entryType ← byteAt data offset
        let offset ← addUsize offset 1
        let stop ← addUsize offset 4
        if stop > data.length then .ok log
        else
          let payloadLen ← bytesAt data offset 4
          let offset ← addUsize offset 4
          if entryType = 0 then
            let stop ← addUsize offset (ofBytes payloadLen)
            if stop > data.length then .ok log
            else
              let stop ← addUsize offset (ofBytes payloadLen)
              let bytes ← sliceAt data offset stop
              let log :=
                match fromUtf8 bytes with
                | some payload => log ++ [⟨ofBytes term, .command payload⟩]
                | none => log
              let offset ← addUsize offset (ofBytes payloadLen)
              decodeEntries data count offset log
          else
            let offset ← addUsize offset (ofBytes payloadLen)
            decodeEntries data count offset log

/-- `deserialize_log`; the cast of the count keeps its lower 32 bits. -/
def decodeLog (data : List UInt8) : Except Panic (List (LogEntry String)) :=
  if data.length < 8 then .ok []
  else do
    let count ← bytesAt data 0 8
    decodeEntries data (ofBytes count % usize32) 8 []

/-! ## Where the entries lie -/

/-- The length field of the header at `offset`. -/
def payloadLenAt (data : List UInt8) (offset : Nat) : Nat :=
  ofBytes ((data.drop (offset + 9)).take 4)

/-- Where the entry at `offset` ends: a term, a type, a length, and as many bytes. -/
def entryEnd (data : List UInt8) (offset : Nat) : Nat := offset + 13 + payloadLenAt data offset

/-- The `j`-th header after the one at `start`, each where the entry before it ends, lies at `offset`
and in the file. -/
inductive HeaderAt (data : List UInt8) : Nat → Nat → Nat → Prop
  | here {offset : Nat} : offset + 13 ≤ data.length → HeaderAt data offset 0 offset
  | next {start j offset : Nat} : start + 13 ≤ data.length →
      HeaderAt data (entryEnd data start) j offset → HeaderAt data start (j + 1) offset

/-- Every entry with one of the next `count` headers ends within 32 bits, and one that is passed over
early enough for the next term to be looked for. -/
def EndsWithin (data : List UInt8) (count start : Nat) : Prop :=
  ∀ j offset, HeaderAt data start j offset → j < count → entryEnd data offset < usize32 ∧
    (data[offset + 8]? ≠ some 0 → j + 1 < count → entryEnd data offset + 8 < usize32)

/-! ## The checks that hold -/

section

variable {data : List UInt8} {a b offset w count start : Nat} {log : List (LogEntry String)}

theorem addUsize_of_lt (h : a + b < usize32) : addUsize a b = .ok (a + b) := if_pos h

theorem addUsize_of_le (h : usize32 ≤ a + b) : addUsize a b = .error .arithmeticOverflow :=
  if_neg (Nat.not_lt.mpr h)

theorem byteAt_of_lt (h : offset < data.length) :
    ∃ b, data[offset]? = some b ∧ byteAt data offset = .ok b := by
  have hb : data[offset]? = some data[offset] := List.getElem?_eq_getElem h
  refine ⟨_, hb, ?_⟩
  unfold byteAt
  rw [hb]

/-- Bytes within the file are read. -/
theorem bytesAt_of_le (hdata : data.length < usize32) :
    ∀ {w : Nat}, offset + w ≤ data.length →
      bytesAt data offset w = .ok ((data.drop offset).take w) := by
  intro w
  induction w with
  | zero => exact fun _ => by rw [List.take_zero]; rfl
  | succ w ih =>
    intro hw
    obtain ⟨b, hb, hread⟩ := byteAt_of_lt (show offset + w < data.length by omega)
    unfold bytesAt
    rw [ih (by omega), addUsize_of_lt (by omega), List.take_add_one, List.getElem?_drop, hb]
    show (byteAt data (offset + w) >>= fun b => .ok ((data.drop offset).take w ++ [b])) = _
    rw [hread]
    rfl

theorem ok_bind {α β : Type} (x : α) (f : α → Except Panic β) : (Except.ok x >>= f) = f x := rfl

theorem error_bind {α β : Type} (p : Panic) (f : α → Except Panic β) :
    (Except.error p >>= f) = Except.error p := rfl

/-! ## One entry -/

/-- The entry at `offset`, unless its payload is no UTF-8. -/
def entryAt (data : List UInt8) (offset : Nat) : Option (LogEntry String) :=
  (fromUtf8 ((data.drop (offset + 13)).take (payloadLenAt data offset))).map fun payload =>
    ⟨ofBytes ((data.drop offset).take 8), .command payload⟩

theorem decodeEntries_overflow (h : usize32 ≤ start + 8) :
    decodeEntries data (count + 1) start log = .error .arithmeticOverflow := by
  unfold decodeEntries
  rw [addUsize_of_le h, error_bind]

/-- What the loop does with an entry that lies within the file, as far as its header goes. -/
theorem decodeEntries_header (hdata : data.length < 2 ^ 31) (h : start + 13 ≤ data.length) :
    decodeEntries data (count + 1) start log =
      if data[start + 8]? = some 0 then
        if usize32 ≤ entryEnd data start then .error .arithmeticOverflow
        else if data.length < entryEnd data start then .ok log
        else decodeEntries data count (entryEnd data start) (log ++ (entryAt data start).toList)
      else if usize32 ≤ entryEnd data start then .error .arithmeticOverflow
      else decodeEntries data count (entryEnd data start) log := by
  have hlimit : data.length < usize32 := Nat.lt_trans hdata (by decide)
  obtain ⟨b, hb, hread⟩ := byteAt_of_lt (show start + 8 < data.length by omega)
  have hfield : entryEnd data start = start + 13 + ofBytes ((data.drop (start + 9)).take 4) := rfl
  rw [decodeEntries, addUsize_of_lt (a := start) (b := 8) (by omega)]
  simp only [ok_bind]
  rw [if_neg (by omega), bytesAt_of_le hlimit (by omega)]
  simp only [ok_bind]
  rw [if_neg (by omega), hread]
  simp only [ok_bind]
  rw [addUsize_of_lt (a := start + 8) (b := 1) (by omega)]
  simp only [ok_bind, Nat.add_assoc, Nat.reduceAdd]
  rw [addUsize_of_lt (a := start + 9) (b := 4) (by omega)]
  simp only [ok_bind, Nat.add_assoc, Nat.reduceAdd]
  rw [if_neg (by omega), bytesAt_of_le hlimit (by omega), hb]
  simp only [ok_bind, Option.some.injEq]
  by_cases hover : usize32 ≤ entryEnd data start
  · have hadd : addUsize (start + 13) (ofBytes ((data.drop (start + 9)).take 4)) =
        .error .arithmeticOverflow := addUsize_of_le hover
    simp only [hadd, error_bind, if_pos hover]
  · have hadd : addUsize (start + 13) (ofBytes ((data.drop (start + 9)).take 4)) =
        .ok (entryEnd data start) := addUsize_of_lt (Nat.not_le.mp hover)
    simp only [hadd, ok_bind, if_neg hover]
    split
    · by_cases hshort : data.length < entryEnd data start
      · rw [if_pos hshort, if_pos hshort]
      · have hslice : sliceAt data (start + 13) (entryEnd data start) =
            .ok ((data.drop (start + 13)).take (payloadLenAt data start)) := by
          have hwidth : entryEnd data start - (start + 13) = payloadLenAt data start := by
            rw [entryEnd, Nat.add_sub_cancel_left]
          have hle : start + 13 ≤ entryEnd data start := Nat.le_add_right _ _
          unfold sliceAt
          rw [if_pos ⟨hle, Nat.not_lt.mp hshort⟩, List.drop_take, hwidth]
        rw [if_neg hshort, if_neg hshort, hslice]
        simp only [ok_bind, entryAt]
        cases fromUtf8 ((data.drop (start + 13)).take (payloadLenAt data start)) with
        | none => rw [Option.map_none, Option.toList_none, List.append_nil]
        | some payload => rfl
    · rfl

/-- Where there is no whole header the loop ends. -/
theorem decodeEntries_end (hdata : data.length < 2 ^ 31) (hstart : start + 8 < usize32)
    (h : data.length < start + 13) : decodeEntries data (count + 1) start log = .ok log := by
  have hlimit : data.length < usize32 := Nat.lt_trans hdata (by decide)
  rw [decodeEntries, addUsize_of_lt hstart]
  simp only [ok_bind]
  by_cases hterm : data.length < start + 8
  · rw [if_pos hterm]
  rw [if_neg hterm, bytesAt_of_le hlimit (Nat.not_lt.mp hterm)]
  simp only [ok_bind]
  by_cases htype : start + 8 ≥ data.length
  · rw [if_pos htype]
  obtain ⟨b, _, hread⟩ := byteAt_of_lt (Nat.not_le.mp htype)
  have hsmall : start + 13 < usize32 := by
    have : usize32 = 2 * 2 ^ 31 := rfl
    omega
  rw [if_neg htype, hread]
  simp only [ok_bind]
  rw [addUsize_of_lt (a := start + 8) (b := 1) (by omega)]
  simp only [ok_bind, Nat.add_assoc, Nat.reduceAdd]
  rw [addUsize_of_lt (a := start + 9) (b := 4) (by omega)]
  simp only [ok_bind, Nat.add_assoc, Nat.reduceAdd]
  rw [if_pos h]

/-! ## All entries -/

theorem endsWithin_end (h : data.length < start + 13) : EndsWithin data count start := by
  intro j offset hat
  cases hat <;> omega

/-- The header at `start` and those behind it. -/
theorem endsWithin_succ (h : start + 13 ≤ data.length) : EndsWithin data (count + 1) start ↔
    (entryEnd data start < usize32 ∧
      (data[start + 8]? ≠ some 0 → 0 < count → entryEnd data start + 8 < usize32)) ∧
      EndsWithin data count (entryEnd data start) := by
  constructor
  · refine fun hall => ⟨?_, fun j offset hat hj => ?_⟩
    · obtain ⟨hlt, hskip⟩ := hall 0 start (.here h) (Nat.succ_pos count)
      exact ⟨hlt, fun htype hcount => hskip htype (Nat.succ_lt_succ hcount)⟩
    · obtain ⟨hlt, hskip⟩ := hall (j + 1) offset (.next h hat) (Nat.succ_lt_succ hj)
      exact ⟨hlt, fun htype hcount => hskip htype (Nat.succ_lt_succ hcount)⟩
  · rintro ⟨⟨hlt, hskip⟩, hrest⟩ j offset hat hj
    cases hat with
    | here => exact ⟨hlt, fun htype hcount => hskip htype (by omega)⟩
    | @next _ j _ _ hat =>
      obtain ⟨hlt', hskip'⟩ := hrest j offset hat (Nat.lt_of_succ_lt_succ hj)
      exact ⟨hlt', fun htype hcount => hskip' htype (by omega)⟩

/-- The loop comes to its end exactly if every offset it computes fits. -/
theorem decodeEntries_ok_iff (hdata : data.length < 2 ^ 31) :
    ∀ {count start : Nat} {log : List (LogEntry String)}, count = 0 ∨ start + 8 < usize32 →
      ((∃ log', decodeEntries data count start log = .ok log') ↔ EndsWithin data count start) := by
  intro count
  induction count with
  | zero => exact fun _ => iff_of_true ⟨_, rfl⟩ fun j _ _ hj => absurd hj (Nat.not_lt_zero j)
  | succ count ih =>
    intro start log h
    have hstart : start + 8 < usize32 := h.resolve_left (Nat.succ_ne_zero count)
    have hlimit : usize32 = 2 * 2 ^ 31 := rfl
    by_cases hheader : start + 13 ≤ data.length
    · rw [decodeEntries_header hdata hheader, endsWithin_succ hheader]
      by_cases hover : usize32 ≤ entryEnd data start
      · have hfail : ¬ ∃ log', Except.error Panic.arithmeticOverflow =
            (Except.ok log' : Except Panic (List (LogEntry String))) := fun ⟨_, hok⟩ => by cases hok
        rw [if_pos hover, if_pos hover, ite_self]
        exact iff_of_false hfail fun hfits => absurd hover (Nat.not_le.mpr hfits.1.1)
      rw [if_neg hover, if_neg hover]
      have hend := Nat.not_le.mp hover
      by_cases htype : data[start + 8]? = some 0
      · rw [if_pos htype]
        have hhead : entryEnd data start < usize32 ∧
            (data[start + 8]? ≠ some 0 → 0 < count → entryEnd data start + 8 < usize32) :=
          ⟨hend, fun hne => absurd htype hne⟩
        by_cases hshort : data.length < entryEnd data start
        · rw [if_pos hshort]
          exact iff_of_true ⟨_, rfl⟩ ⟨hhead, endsWithin_end (by omega)⟩
        · rw [if_neg hshort, ih (Or.inr (by omega))]
          exact (and_iff_right hhead).symm
      · rw [if_neg htype]
        by_cases hnext : count = 0 ∨ entryEnd data start + 8 < usize32
        · rw [ih hnext]
          exact (and_iff_right ⟨hend, fun _ hcount => hnext.resolve_left (by omega)⟩).symm
        · -- the next round begins with a sum that does not fit
          obtain ⟨hcount, hwide⟩ := not_or.mp hnext
          obtain ⟨count, rfl⟩ := Nat.exists_eq_succ_of_ne_zero hcount
          rw [decodeEntries_overflow (Nat.not_lt.mp hwide)]
          refine iff_of_false (fun ⟨_, hok⟩ => by cases hok) fun hfits => ?_
          exact hwide (hfits.1.2 htype (Nat.succ_pos count))
    · have hend := Nat.not_le.mp hheader
      rw [decodeEntries_end hdata hstart hend]
      exact iff_of_true ⟨_, rfl⟩ (endsWithin_end hend)

/-! ## The same entries -/

theorem deserializeEntries_header (h : start + 13 ≤ data.length) :
    deserializeEntries (count + 1) (data.drop start) =
      if data[start + 8]? = some 0 then
        if data.length < entryEnd data start then []
        else (entryAt data start).toList ++ deserializeEntries count (data.drop (entryEnd data start))
      else deserializeEntries count (data.drop (entryEnd data start)) := by
  obtain ⟨b, hb, _⟩ := byteAt_of_lt (show start + 8 < data.length by omega)
  have htype : (data.drop start).drop 8 = b :: data.drop (start + 9) := by
    rw [List.drop_drop]
    exact List.drop_eq_getElem?_toList_append.trans (by rw [hb]; rfl)
  rw [deserializeEntries, List.length_drop, if_neg (by omega), htype, hb]
  simp only [List.length_drop, List.drop_drop, Option.some.injEq]
  rw [if_neg (by omega)]
  have hend : start + 9 + 4 + ofBytes ((data.drop (start + 9)).take 4) = entryEnd data start := rfl
  have hshort : data.length - (start + 9 + 4) < ofBytes ((data.drop (start + 9)).take 4) ↔
      data.length < entryEnd data start := by
    rw [← hend]
    omega
  simp only [hend, hshort, entryAt, payloadLenAt]
  cases fromUtf8 ((data.drop (start + 13)).take (ofBytes ((data.drop (start + 9)).take 4))) with
  | none => rfl
  | some payload => rfl

theorem deserializeEntries_end (h : data.length < start + 13) :
    deserializeEntries (count + 1) (data.drop start) = [] := by
  rw [deserializeEntries, List.length_drop]
  by_cases hterm : data.length - start < 8
  · rw [if_pos hterm]
  rw [if_neg hterm]
  dsimp only
  split
  · rfl
  · rename_i b rest hrest
    have hlength := congrArg List.length hrest
    rw [List.length_drop, List.length_drop, List.length_cons] at hlength
    rw [if_pos (by omega)]

/-- What the loop has found at its end is what the bytes from its offset on stand for. -/
theorem decodeEntries_eq (hdata : data.length < 2 ^ 31) :
    ∀ {count start : Nat} {log log' : List (LogEntry String)},
      decodeEntries data count start log = .ok log' →
        log' = log ++ deserializeEntries count (data.drop start) := by
  intro count
  induction count with
  | zero =>
    intro start log log' h
    cases h
    exact (List.append_nil log).symm
  | succ count ih =>
    intro start log log' h
    by_cases hstart : usize32 ≤ start + 8
    · rw [decodeEntries_overflow hstart] at h
      cases h
    by_cases hheader : start + 13 ≤ data.length
    · rw [decodeEntries_header hdata hheader] at h
      rw [deserializeEntries_header hheader]
      by_cases hover : usize32 ≤ entryEnd data start
      · rw [if_pos hover, if_pos hover, ite_self] at h
        cases h
      rw [if_neg hover, if_neg hover] at h
      split at h
      · rename_i htype
        rw [if_pos htype]
        split at h
        · rename_i hshort
          cases h
          rw [if_pos hshort, List.append_nil]
        · rename_i hshort
          rw [if_neg hshort, ih h, List.append_assoc]
      · rename_i htype
        rw [if_neg htype, ih h]
    · have hend := Nat.not_le.mp hheader
      rw [decodeEntries_end hdata (Nat.not_le.mp hstart) hend] at h
      cases h
      rw [deserializeEntries_end hend, List.append_nil]

/-! ## Files -/

/-- The count in the file. -/
def countOf (data : List UInt8) : Nat := ofBytes (data.take 8)

theorem decodeLog_of_le (hdata : data.length < 2 ^ 31) (h : 8 ≤ data.length) :
    decodeLog data = decodeEntries data (countOf data % usize32) 8 [] := by
  have hread : bytesAt data 0 8 = .ok (data.take 8) :=
    bytesAt_of_le (Nat.lt_trans hdata (by decide)) h
  unfold decodeLog
  rw [if_neg (Nat.not_lt.mpr h), hread]
  rfl

/-- What the decoder returns is what `deserializeLog` does. -/
theorem decodeLog_eq (hdata : data.length < 2 ^ 31) (hcount : countOf data < usize32)
    (h : decodeLog data = .ok log) : log = deserializeLog data := by
  unfold deserializeLog
  by_cases hlength : data.length < 8
  · unfold decodeLog at h
    rw [if_pos hlength] at h
    cases h
    rw [if_pos hlength]
  · rw [decodeLog_of_le hdata (Nat.not_lt.mp hlength), Nat.mod_eq_of_lt hcount] at h
    rw [if_neg hlength]
    exact decodeEntries_eq hdata h

/-- **The decoder fails on no file content** but one in which an entry that is reached ends beyond 32
bits, or a skipped one so close below that the next term cannot be looked for. -/
theorem decodeLog_ok_iff {data : List UInt8} (hdata : data.length < 2 ^ 31) :
    (∃ log, decodeLog data = .ok log) ↔ EndsWithin data (countOf data % usize32) 8 := by
  by_cases hlength : data.length < 8
  · unfold decodeLog
    rw [if_pos hlength]
    exact iff_of_true ⟨_, rfl⟩ (endsWithin_end (by omega))
  · rw [decodeLog_of_le hdata (Nat.not_lt.mp hlength)]
    exact decodeEntries_ok_iff hdata (Or.inr (by decide))

/-! ## A file of the storage's own -/

theorem entryEnd_of_drop {e : LogEntry String} {rest : List UInt8} (he : e.Storable)
    (hheader : start + 13 ≤ data.length)
    (hdrop : data.drop start = (serializeEntry e ++ rest).take (data.length - start)) :
    data[start + 8]? = some 0 ∧ entryEnd data start = start + (serializeEntry e).length := by
  obtain ⟨term, entryType⟩ := e
  obtain ⟨_, payload, hcommand, hlen⟩ := he
  dsimp only at hcommand
  subst hcommand
  have hbytes : serializeEntry ⟨term, .command payload⟩ ++ rest = toBytes 8 term ++
      (0 :: (toBytes 4 (utf8Bytes payload).length ++ (utf8Bytes payload ++ rest))) := by
    simp [serializeEntry]
  obtain ⟨j, hj⟩ := Nat.exists_eq_add_of_le hheader
  have hwidth : data.length - start = j + 4 + 1 + 8 := by omega
  have htype : data.drop (start + 8) =
      0 :: (toBytes 4 (utf8Bytes payload).length ++ (utf8Bytes payload ++ rest)).take (j + 4) := by
    rw [← List.drop_drop, hdrop, hwidth, hbytes, List.drop_take, drop_append, Nat.add_sub_cancel,
      List.take_succ_cons]
  have hfield : data.drop (start + 9) =
      (toBytes 4 (utf8Bytes payload).length ++ (utf8Bytes payload ++ rest)).take (j + 4) := by
    rw [show start + 9 = start + 8 + 1 from rfl, ← List.drop_drop, htype]
    rfl
  refine ⟨?_, ?_⟩
  · rw [← Nat.add_zero (start + 8), ← List.getElem?_drop, htype]
    rfl
  · unfold entryEnd payloadLenAt
    rw [hfield, List.take_take, Nat.min_eq_left (Nat.le_add_left 4 j), ofBytes_take_append hlen,
      length_serializeEntry]
    omega

/-- A beginning of a file that is itself within 31 bits has no entry that is not. -/
theorem endsWithin_of_drop : ∀ {es : List (LogEntry String)} {start : Nat},
    (∀ e ∈ es, e.Storable) →
      data.drop start = (es.flatMap serializeEntry).take (data.length - start) →
      start + (es.flatMap serializeEntry).length < 2 ^ 31 → EndsWithin data es.length start := by
  intro es
  induction es with
  | nil => exact fun _ _ _ j _ _ hj => absurd hj (Nat.not_lt_zero j)
  | cons e es ih =>
    intro start h hdrop hlength
    rw [List.flatMap_cons] at hdrop hlength
    rw [List.length_append] at hlength
    by_cases hheader : start + 13 ≤ data.length
    · obtain ⟨htype, hend⟩ := entryEnd_of_drop (h e (List.mem_cons_self ..)) hheader hdrop
      have hlimit : usize32 = 2 * 2 ^ 31 := rfl
      rw [List.length_cons, endsWithin_succ hheader]
      refine ⟨⟨by omega, fun hne => absurd htype hne⟩,
        ih (fun x hx => h x (List.mem_cons_of_mem _ hx)) ?_ (by omega)⟩
      rw [hend, ← List.drop_drop, hdrop, List.drop_take, List.drop_left, Nat.sub_sub]
    · exact endsWithin_end (Nat.not_le.mp hheader)

theorem length_le_flatMap : ∀ {es : List (LogEntry String)}, (∀ e ∈ es, e.Storable) →
    es.length ≤ (es.flatMap serializeEntry).length := by
  intro es
  induction es with
  | nil => exact fun _ => Nat.le_refl 0
  | cons e es ih =>
    intro h
    have hrest := ih fun x hx => h x (List.mem_cons_of_mem _ hx)
    have hfirst : 8 ≤ (serializeEntry e).length := by
      unfold serializeEntry
      rw [List.length_append, length_toBytes]
      exact Nat.le_add_right _ _
    rw [List.flatMap_cons, List.length_cons, List.length_append]
    omega

/-- **The decoder copes with what the storage has written**, also with a beginning of it. -/
theorem decodeLog_torn {log : List (LogEntry String)} (h : Persistable log)
    (hlength : (serializeLog log).length < 2 ^ 31) (k : Nat) :
    decodeLog ((serializeLog log).take k) = .ok (deserializeLog ((serializeLog log).take k)) := by
  have hheader : (serializeLog log).length = 8 + (log.flatMap serializeEntry).length := by
    unfold serializeLog
    rw [List.length_append, length_toBytes]
  have hdata : ((serializeLog log).take k).length < 2 ^ 31 :=
    Nat.lt_of_le_of_lt (List.length_take_le' _ _) hlength
  by_cases hk : ((serializeLog log).take k).length < 8
  · unfold decodeLog deserializeLog
    rw [if_pos hk, if_pos hk]
  have hwhole := Nat.not_lt.mp hk
  obtain ⟨j, rfl⟩ : ∃ j, k = 8 + j := Nat.exists_eq_add_of_le (by
    rw [List.length_take] at hwhole
    omega)
  have hcount : countOf ((serializeLog log).take (8 + j)) = log.length := by
    unfold countOf serializeLog
    rw [List.take_take, Nat.min_eq_left (Nat.le_add_right 8 j), ofBytes_take_append h.1]
  have hsmall : log.length < usize32 := by
    have hle := length_le_flatMap h.2
    have hlimit : usize32 = 2 * 2 ^ 31 := rfl
    omega
  have hends : EndsWithin ((serializeLog log).take (8 + j)) log.length 8 := by
    refine endsWithin_of_drop h.2 ?_ (by omega)
    have hdrop : (serializeLog log).drop 8 = log.flatMap serializeEntry := drop_append
    rw [List.drop_take, Nat.add_sub_cancel_left, hdrop, List.length_take, hheader]
    exact List.take_eq_take_iff.mpr (by omega)
  obtain ⟨read, hread⟩ : ∃ read, decodeEntries ((serializeLog log).take (8 + j)) log.length 8 [] =
      .ok read := (decodeEntries_ok_iff hdata (Or.inr (by decide))).mpr hends
  have hdecode : decodeLog ((serializeLog log).take (8 + j)) = .ok read := by
    rw [decodeLog_of_le hdata hwhole, hcount, Nat.mod_eq_of_lt hsmall]
    exact hread
  rw [hdecode, decodeLog_eq hdata (by rw [hcount]; exact hsmall) hdecode]

end

/-- A file with a header for an entry that is skipped and ends at the last offset there is. -/
def skippedFile (count : Nat) : List UInt8 :=
  toBytes 8 count ++ toBytes 8 7 ++ 1 :: toBytes 4 (usize32 - 22)

/-- The decoder gets past the entry when it is the only one, and panics when another is to follow. -/
theorem decodeLog_ok_iff_skipped :
    EndsWithin (skippedFile 1) (countOf (skippedFile 1) % usize32) 8 ∧
      ¬ EndsWithin (skippedFile 2) (countOf (skippedFile 2) % usize32) 8 := by
  refine ⟨(decodeLog_ok_iff (by decide)).mp ⟨[], by rfl⟩, fun h => ?_⟩
  obtain ⟨log, hlog⟩ := (decodeLog_ok_iff (by decide)).mpr h
  have hpanic : decodeLog (skippedFile 2) = .error .arithmeticOverflow := by rfl
  rw [hpanic] at hlog
  cases hlog

/-- A file with one header, whose length field has all bits set. -/
theorem long_payload_panics :
    ¬ ∀ data : List UInt8, data.length < 2 ^ 31 → ∃ log, decodeLog data = .ok log := by
  intro h
  obtain ⟨log, hlog⟩ := h (toBytes 8 1 ++ toBytes 8 7 ++ 0 :: toBytes 4 (usize32 - 1)) (by decide)
  have hpanic : decodeLog (toBytes 8 1 ++ toBytes 8 7 ++ 0 :: toBytes 4 (usize32 - 1)) =
      .error .arithmeticOverflow := by rfl
  rw [hpanic] at hlog
  cases hlog

end MetalRaft
