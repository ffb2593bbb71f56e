import QuorumDB.Query.QueryEngine

/-!
What the log tells about the records, and what Recover makes of it. A crash leaves the log
of an earlier moment, no earlier than the last flush, and possibly a part of one more record.
-/

namespace QuorumDB.Query
open Storage Program TableProg Cut

variable {store : TableStore} {base : Multiset (PageId × Cell)} {rounds : Nat} {map : Key → Option Record}
variable {wal : WALManager} {record : LogRecord} {records early more : List LogRecord} {file part : Bytes}

section Replay

/-- The image of a record that Recover reads an image of. -/
def Replayable (record : LogRecord) : Prop :=
  record.type = .insert ∨ record.type = .update → record.afterImage.length = recordSize

def replayMap (map : Key → Option Record) (record : LogRecord) : Key → Option Record :=
  match record.type with
  | .insert => insertRecord map (deserializeRecord record.afterImage)
  | .update => updateRecord map record.recordId (deserializeRecord record.afterImage)
  | .delete => eraseRecord map record.recordId
  | .commit => map

def replayMaps (records : List LogRecord) : Key → Option Record := records.foldl replayMap fun _ => none

theorem replayMaps_concat (records : List LogRecord) (record : LogRecord) :
    replayMaps (records ++ [record]) = replayMap (replayMaps records) record := by
  rw [replayMaps, List.foldl_append]
  rfl

theorem recordFromImage_eq (size : record.afterImage.length = recordSize) :
    Table.recordFromImage record.afterImage = .ok (deserializeRecord record.afterImage) :=
  if_neg (not_not.mpr size)

theorem replay_spec (tabled : Tabled base map store) (replayable : Replayable record) (enough : maxPages + 1 < rounds) :
    Finishes rounds (Table.replay record) (fun _ later => later.wal = store.wal ∧
      Tabled base (replayMap map record) later) store := by
  unfold Table.replay replayMap
  unfold Replayable at replayable
  cases type : record.type with
  | insert =>
    rw [recordFromImage_eq (replayable (.inl type))]
    refine (tabled.insertWithoutWAL _ enough).seq fun _ later done => ?_
    exact finishes_pure.mpr done.2
  | update =>
    rw [recordFromImage_eq (replayable (.inr type))]
    refine (tabled.updateWithoutWAL _ _ enough).seq fun _ later done => ?_
    exact finishes_pure.mpr done.2
  | delete =>
    refine (tabled.deleteWithoutWAL _ enough).seq fun _ later done => ?_
    exact finishes_pure.mpr done.2
  | commit => exact finishes_pure.mpr ⟨rfl, tabled⟩

theorem replayAll_spec (tabled : Tabled base map store) (replayable : ∀ record ∈ records, Replayable record)
    (enough : maxPages + 1 < rounds) :
    Finishes rounds (Table.replayAll records) (fun _ later => later.wal = store.wal ∧
      Tabled base (records.foldl replayMap map) later) store := by
  induction records generalizing store map with
  | nil => exact finishes_pure.mpr ⟨rfl, tabled⟩
  | cons record records ih =>
    rw [Table.replayAll]
    refine (replay_spec tabled (replayable record List.mem_cons_self) enough).seq fun _ later done => ?_
    have rest := ih done.2 fun other member => replayable other (List.mem_cons_of_mem _ member)
    exact rest.mono fun _ last kept => ⟨kept.1.trans done.1, kept.2⟩

/-- Recover brings the records of the log into an empty table. -/
theorem recover_spec (tabled : Tabled base (fun _ => none) store)
    (replayable : ∀ record ∈ store.wal.readAllRecords, Replayable record) (enough : maxPages + 1 < rounds) :
    Finishes rounds (Table.recover true) (fun _ later => later.wal = store.wal ∧
      Tabled base (replayMaps store.wal.readAllRecords) later) store := by
  have replayed := replayAll_spec tabled replayable enough
  unfold Finishes at replayed ⊢
  exact (ensures_call rfl).mpr replayed

end Replay

section Changes

def Change.toLog (change : Change) (lsn : Int64) : LogRecord :=
  ⟨lsn, change.type, change.recordId, change.beforeImage, change.afterImage⟩

variable {op : TableOp} {change : Change}

theorem recordImage_length (record : Record) : (Table.recordImage record).length = recordSize :=
  serializeRecord_length record

theorem onMap_refused (refused : op.change map = none) : op.onMap map = map := by
  cases op with
  | insert record =>
    rw [TableOp.change, ite_eq_right_iff] at refused
    exact if_neg fun absent => Option.some_ne_none _ (refused absent)
  | update id mutator =>
    rw [TableOp.change, Option.map_eq_none_iff] at refused
    rw [TableOp.onMap, refused]
  | delete id =>
    rw [TableOp.change, Option.map_eq_none_iff] at refused
    exact Function.update_eq_self_iff.mpr refused.symm

theorem toLog_fits (before : change.beforeImage.length ≤ recordSize) (after : change.afterImage.length ≤ recordSize)
    (lsn : Int64) : (change.toLog lsn).Fits := by
  change 25 + change.beforeImage.length + change.afterImage.length < 4294967296
  unfold recordSize at before after
  omega

theorem replayMap_change (changed : op.change map = some change) (lsn : Int64) :
    (change.toLog lsn).Fits ∧ Replayable (change.toLog lsn) ∧ replayMap map (change.toLog lsn) = op.onMap map := by
  cases op with
  | insert record =>
    rw [TableOp.change, Option.ite_none_right_eq_some] at changed
    obtain ⟨absent, same⟩ := changed
    obtain rfl := Option.some.inj same
    refine ⟨toLog_fits (Nat.zero_le _) (recordImage_length record).le lsn, fun _ => recordImage_length record, ?_⟩
    · change insertRecord map (deserializeRecord (serializeRecord record)) = _
      rw [deserializeRecord_serializeRecord, TableOp.onMap, insertRecord, insertRecord, Record.stored_stored,
        Record.stored_id]
  | update id mutator =>
    obtain ⟨before, present, rfl⟩ := Option.map_eq_some_iff.mp changed
    refine ⟨toLog_fits (recordImage_length before).le (recordImage_length _).le lsn, fun _ => recordImage_length _, ?_⟩
    · change updateRecord map id (deserializeRecord (serializeRecord { mutator before with id := id })) = _
      rw [deserializeRecord_serializeRecord, TableOp.onMap, updateRecord, Record.stored_stored, present,
        if_neg (Option.some_ne_none _)]
  | delete id =>
    obtain ⟨before, present, rfl⟩ := Option.map_eq_some_iff.mp changed
    have other : Replayable (Change.toLog ⟨.delete, id, Table.recordImage before, []⟩ lsn) := by
      rintro (impossible | impossible)
      · cases impossible
      · cases impossible
    exact ⟨toLog_fits (recordImage_length before).le (Nat.zero_le _) lsn, other, rfl⟩

end Changes

section Logs

/-- The log holds whole records, the first of which were flushed, and possibly a part of one more. -/
structure Tells (wal : WALManager) (early more : List LogRecord) (part : Bytes) : Prop where
  written : wal.written = (early ++ more).flatMap logFrame ++ part
  sound : ∀ record ∈ early ++ more, record.Fits ∧ Replayable record
  flushed : (early.flatMap logFrame).length ≤ wal.flushed
  tail : part = [] ∨ ∃ record : LogRecord, record.Fits ∧ Torn logFrame record part

/-- The log stands for the records of `map`, and whatever a crash leaves of it for good ones. -/
def LogHolds (wal : WALManager) (map : Key → Option Record) (good : (Key → Option Record) → Prop) : Prop :=
  ∃ early more part, Tells wal early more part ∧ replayMaps (early ++ more) = map ∧
    ∀ count, good (replayMaps (early ++ more.take count))

/-- The file is the records that are read from it. -/
def Whole (file : Bytes) : Prop := (readRecords file).flatMap logFrame = file

instance wholeDecidable (file : Bytes) : Decidable (Whole file) := inferInstanceAs (Decidable (_ = _))

variable {good wider : (Key → Option Record) → Prop} {op : TableOp} {change : Change}

theorem whole_flatMap (fits : ∀ record ∈ records, record.Fits) : Whole (records.flatMap logFrame) := by
  have read := readRecords_tail fits (.inl rfl)
  rw [List.append_nil] at read
  rw [Whole, read]

namespace Tells

theorem fits (tells : Tells wal early more part) : ∀ record ∈ early ++ more, record.Fits :=
  fun record member => (tells.sound record member).1

theorem reads (tells : Tells wal early more part) : wal.readAllRecords = early ++ more := by
  rw [WALManager.readAllRecords, tells.written]
  exact readRecords_tail tells.fits tells.tail

theorem part_nil (tells : Tells wal early more part) (whole : Whole wal.written) : part = [] := by
  have read := tells.reads
  rw [WALManager.readAllRecords] at read
  rw [Whole, read, tells.written] at whole
  exact List.append_cancel_left (whole.symm.trans (List.append_nil _).symm)

theorem crash (tells : Tells wal early more part) (crashes : wal.Crashes file) :
    ∃ count left, Tells (wal.reopen file) early (more.take count) left := by
  obtain ⟨cut, kept⟩ := crashes
  have whole : (early ++ more).flatMap logFrame <+: wal.written := tells.written ▸ List.prefix_append _ _
  rcases List.prefix_or_prefix_of_prefix cut whole with inside | ⟨left, rfl⟩
  · obtain ⟨whole, left, rfl, shape⟩ := cut_flatMap (early ++ more) inside
    have behind := shape.behind logFrame_pos (tells.flushed.trans kept)
    have split : (early ++ more).take whole = early ++ more.take (whole - early.length) := by
      rw [List.take_append, List.take_of_length_le behind]
    refine ⟨whole - early.length, left, ?_, fun record member => ?_, tells.flushed, shape.torn.imp_right fun torn => ?_⟩
    · rw [← split]
      rfl
    · rw [← split] at member
      exact tells.sound record (List.mem_of_mem_take member)
    · obtain ⟨record, found, inside⟩ := torn
      exact ⟨record, tells.fits record (List.mem_of_getElem? found), inside⟩
  · refine ⟨more.length, left, ?_, ?_, tells.flushed, ?_⟩
    · rw [List.take_length]
      rfl
    · rw [List.take_length]
      exact tells.sound
    · rw [tells.written, List.prefix_append_right_inj] at cut
      rcases tells.tail with rfl | ⟨record, fits, inside, short⟩
      · exact .inl (List.prefix_nil.mp cut)
      · exact .inr ⟨record, fits, cut.trans inside, Nat.lt_of_le_of_lt cut.length_le short⟩

theorem append (tells : Tells wal early more []) (type : LogRecordType) (recordId : Int64) (beforeImage afterImage : Bytes)
    (fits : (LogRecord.mk wal.nextLsn type recordId beforeImage afterImage).Fits)
    (replayable : Replayable ⟨wal.nextLsn, type, recordId, beforeImage, afterImage⟩) :
    Tells (wal.append type recordId beforeImage afterImage).2 early
      (more ++ [⟨wal.nextLsn, type, recordId, beforeImage, afterImage⟩]) [] := by
  refine ⟨?_, fun record member => ?_, tells.flushed, .inl rfl⟩
  · change wal.written ++ logFrame _ = _
    have last : logFrame ⟨wal.nextLsn, type, recordId, beforeImage, afterImage⟩ =
        [⟨wal.nextLsn, type, recordId, beforeImage, afterImage⟩].flatMap logFrame := (List.flatMap_singleton _ _).symm
    rw [tells.written, List.append_nil, List.append_nil, ← List.append_assoc, last, ← List.flatMap_append]
  · rw [← List.append_assoc, List.mem_append, List.mem_singleton] at member
    rcases member with old | rfl
    · exact tells.sound record old
    · exact ⟨fits, replayable⟩

end Tells

theorem logHolds_nil : LogHolds (WALManager.openFile []) (fun _ => none) fun map => map = fun _ => none := by
  refine ⟨[], [], [], ⟨rfl, ?_, Nat.le_refl _, .inl rfl⟩, rfl, fun count => ?_⟩
  · exact fun _ impossible => absurd impossible List.not_mem_nil
  · rw [List.take_nil]
    rfl

namespace LogHolds

theorem mono (holds : LogHolds wal map good) (weaker : ∀ map, good map → wider map) : LogHolds wal map wider := by
  obtain ⟨early, more, part, tells, same, every⟩ := holds
  exact ⟨early, more, part, tells, same, fun count => weaker _ (every count)⟩

theorem reads (holds : LogHolds wal map good) :
    good map ∧ (∀ record ∈ wal.readAllRecords, Replayable record) ∧ replayMaps wal.readAllRecords = map := by
  obtain ⟨early, more, part, tells, rfl, every⟩ := holds
  rw [tells.reads]
  have all := every more.length
  rw [List.take_length] at all
  exact ⟨all, fun record member => (tells.sound record member).2, rfl⟩

theorem crash (holds : LogHolds wal map good) (crashes : wal.Crashes file) :
    ∃ left, good left ∧ LogHolds (wal.reopen file) left good := by
  obtain ⟨early, more, part, tells, rfl, every⟩ := holds
  obtain ⟨count, left, kept⟩ := tells.crash crashes
  refine ⟨_, every count, early, more.take count, left, kept, rfl, fun fewer => ?_⟩
  rw [List.take_take]
  exact every _

theorem append (holds : LogHolds wal map good) (whole : Whole wal.written) (type : LogRecordType) (recordId : Int64)
    (beforeImage afterImage : Bytes) (fits : (LogRecord.mk wal.nextLsn type recordId beforeImage afterImage).Fits)
    (replayable : Replayable ⟨wal.nextLsn, type, recordId, beforeImage, afterImage⟩) {next : Key → Option Record}
    (meaning : replayMap map ⟨wal.nextLsn, type, recordId, beforeImage, afterImage⟩ = next) :
    LogHolds (wal.append type recordId beforeImage afterImage).2 next (fun left => good left ∨ left = next) ∧
      Whole (wal.append type recordId beforeImage afterImage).2.written := by
  obtain ⟨early, more, part, tells, rfl, every⟩ := holds
  obtain rfl := tells.part_nil whole
  have more_tells := tells.append type recordId beforeImage afterImage fits replayable
  have last : replayMaps (early ++ (more ++ [⟨wal.nextLsn, type, recordId, beforeImage, afterImage⟩])) = next := by
    rw [← List.append_assoc, replayMaps_concat]
    exact meaning
  constructor
  · refine ⟨early, _, [], more_tells, last, fun count => ?_⟩
    by_cases short : count ≤ more.length
    · rw [List.take_append_of_le_length short]
      exact .inl (every count)
    · rw [List.take_of_length_le (by rw [List.length_append, List.length_singleton]; omega)]
      exact .inr last
  · rw [more_tells.written, List.append_nil]
    exact whole_flatMap more_tells.fits

theorem flush (holds : LogHolds wal map good) : LogHolds wal.flush map fun left => left = map := by
  obtain ⟨early, more, part, tells, rfl, -⟩ := holds
  refine ⟨early ++ more, [], part, ⟨?_, ?_, ?_, tells.tail⟩, ?_, fun count => ?_⟩
  · rw [List.append_nil]
    exact tells.written
  · rw [List.append_nil]
    exact tells.sound
  · change _ ≤ wal.written.length
    rw [tells.written, List.length_append]
    exact Nat.le_add_right _ _
  · rw [List.append_nil]
  · rw [List.take_nil, List.append_nil]

theorem appendCommit (holds : LogHolds wal map good) (whole : Whole wal.written) :
    LogHolds wal.appendCommit map good ∧ Whole wal.appendCommit.written := by
  have small : 25 < 2 ^ 32 := by decide
  have none : Replayable ⟨wal.nextLsn, .commit, -1, [], []⟩ := by
    rintro (impossible | impossible)
    · cases impossible
    · cases impossible
  obtain ⟨appended, still⟩ := holds.append whole .commit (-1) [] [] small none rfl
  refine ⟨appended.mono fun left => ?_, still⟩
  rintro (old | rfl)
  · exact old
  · exact holds.reads.1

theorem appended (holds : LogHolds wal map good) (whole : Whole wal.written) (changed : op.change map = some change) :
    LogHolds (LogOf.appended wal change) (op.onMap map) (fun left => good left ∨ left = op.onMap map) ∧
      Whole (LogOf.appended wal change).written := by
  obtain ⟨fits, replayable, meaning⟩ := replayMap_change changed wal.nextLsn
  exact holds.append whole change.type change.recordId change.beforeImage change.afterImage fits replayable meaning

/-- The log after an operation. Nothing of an operation that was not refused can be lost. -/
theorem after (holds : LogHolds wal map good) (ready : op.change map = none ∨ Whole wal.written) :
    LogHolds (LogOf.after true wal (op.change map)) (op.onMap map)
      (fun left => op.change map = none ∧ good left ∨ op.change map ≠ none ∧ left = op.onMap map) ∧
        (Whole wal.written → Whole (LogOf.after true wal (op.change map)).written) := by
  cases changed : op.change map with
  | none =>
    rw [onMap_refused changed]
    exact ⟨holds.mono fun left old => .inl ⟨rfl, old⟩, id⟩
  | some change =>
    have whole := ready.resolve_left fun refused => Option.some_ne_none change (changed.symm.trans refused)
    obtain ⟨appended, still⟩ := holds.appended whole changed
    obtain ⟨committed, last⟩ := appended.flush.appendCommit still
    exact ⟨committed.mono fun left same => .inr ⟨Option.some_ne_none change, same⟩, fun _ => last⟩

theorem moment (holds : LogHolds wal map good) (ready : op.change map = none ∨ Whole wal.written) {stage : WALManager}
    (member : stage ∈ LogOf.moments true wal (op.change map)) :
    ∃ now, LogHolds stage now fun left => good left ∨ left = op.onMap map := by
  cases changed : op.change map with
  | none =>
    rw [changed] at member
    rw [List.mem_singleton.mp member]
    exact ⟨map, holds.mono fun left => .inl⟩
  | some change =>
    have whole := ready.resolve_left fun refused => Option.some_ne_none change (changed.symm.trans refused)
    obtain ⟨appended, still⟩ := holds.appended whole changed
    rw [changed] at member
    simp only [LogOf.moments, List.mem_cons, List.not_mem_nil, or_false] at member
    rcases member with rfl | rfl | rfl | rfl
    · exact ⟨map, holds.mono fun left => .inl⟩
    · exact ⟨_, appended⟩
    · exact ⟨_, appended.flush.mono fun left => .inr⟩
    · exact ⟨_, (appended.flush.appendCommit still).1.mono fun left => .inr⟩

end LogHolds

end Logs

end QuorumDB.Query
