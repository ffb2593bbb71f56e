import QuorumDB.Storage.WalManager
import Mathlib.Order.Bounds.Defs

/-!
Any calls on the write-ahead log, with clean closes and reopenings in between. What is read
back is what was appended, and from a cut file what was appended wholly inside the cut.
-/

namespace QuorumDB.Storage
open Cut

/-- A call on the log; `reopen` closes the file and opens it again. -/
inductive WalCall where
  | appendInsert (recordId : Int64) (afterImage : Bytes)
  | appendUpdate (recordId : Int64) (beforeImage afterImage : Bytes)
  | appendDelete (recordId : Int64) (beforeImage : Bytes)
  | appendCommit
  | flush
  | reopen
  deriving DecidableEq, Repr

def WalCall.record (lsn : Int64) : WalCall → Option LogRecord
  | .appendInsert recordId afterImage => some ⟨lsn, .insert, recordId, [], afterImage⟩
  | .appendUpdate recordId beforeImage afterImage => some ⟨lsn, .update, recordId, beforeImage, afterImage⟩
  | .appendDelete recordId beforeImage => some ⟨lsn, .delete, recordId, beforeImage, []⟩
  | .appendCommit => some ⟨lsn, .commit, -1, [], []⟩
  | .flush => none
  | .reopen => none

/-- What the calls append, numbered from `lsn` on. -/
def appended : Nat → List WalCall → List LogRecord
  | _, [] => []
  | lsn, call :: calls =>
      match call.record (Int64.ofNat lsn) with
      | some record => record :: appended (lsn + 1) calls
      | none => appended lsn calls

namespace WALManager

def call (wal : WALManager) : WalCall → WALManager
  | .appendInsert recordId afterImage => (wal.appendInsert recordId afterImage).2
  | .appendUpdate recordId beforeImage afterImage => (wal.appendUpdate recordId beforeImage afterImage).2
  | .appendDelete recordId beforeImage => (wal.appendDelete recordId beforeImage).2
  | .appendCommit => wal.appendCommit
  | .flush => wal.flush
  | .reopen => openFile wal.written

def callAll (wal : WALManager) (calls : List WalCall) : WALManager := calls.foldl call wal

structure Logged (wal : WALManager) (records : List LogRecord) : Prop where
  written : wal.written = records.flatMap logFrame
  fits : ∀ record ∈ records, record.Fits
  numbered : records.map LogRecord.lsn = (List.range records.length).map Int64.ofNat
  next : wal.nextLsn = Int64.ofNat records.length

variable {wal : WALManager} {records : List LogRecord} {record : LogRecord}

theorem Logged.readRecords (logged : wal.Logged records) : wal.readAllRecords = records := by
  have whole := readRecords_tail logged.fits (.inl rfl)
  rw [List.append_nil, ← logged.written] at whole
  exact whole

theorem logged_empty : (openFile []).Logged [] where
  written := rfl
  fits _ inside := nomatch inside
  numbered := rfl
  next := rfl

theorem Logged.append (logged : wal.Logged records) (type : LogRecordType) (recordId : Int64)
    (beforeImage afterImage : Bytes)
    (fits : LogRecord.Fits ⟨Int64.ofNat records.length, type, recordId, beforeImage, afterImage⟩) :
    (wal.append type recordId beforeImage afterImage).2.Logged
      (records ++ [⟨Int64.ofNat records.length, type, recordId, beforeImage, afterImage⟩]) where
  written := by
    rw [List.flatMap_append, ← logged.written, List.flatMap_singleton, ← logged.next]
    rfl
  fits record inside := by
    rcases List.mem_append.mp inside with old | new
    · exact logged.fits record old
    · rw [List.mem_singleton.mp new]
      exact fits
  numbered := by
    rw [List.map_append, logged.numbered, List.length_append, List.length_singleton, List.range_succ, List.map_append]
    rfl
  next := by
    rw [List.length_append, List.length_singleton, Int64.ofNat_add, ← logged.next]
    rfl

theorem Logged.reopen (logged : wal.Logged records) : (openFile wal.written).Logged records where
  written := logged.written
  fits := logged.fits
  numbered := logged.numbered
  next := by
    have same : Storage.readRecords wal.written = records := logged.readRecords
    unfold openFile
    simp only [same]
    rcases List.eq_nil_or_concat records with rfl | ⟨before, last, rfl⟩
    · rfl
    · have numbers := logged.numbered
      simp only [List.concat_eq_append, List.map_append, List.map_cons, List.map_nil, List.length_append,
        List.length_singleton, List.range_succ] at numbers
      have number := List.append_inj_right' numbers rfl
      simp only [List.concat_eq_append, List.getLast?_append, List.getLast?_singleton, Option.some_or,
        (List.cons.inj number).1, List.length_append, List.length_singleton, Int64.ofNat_add]
      rfl

theorem Logged.call (logged : wal.Logged records) (call : WalCall)
    (fits : ∀ record, call.record (Int64.ofNat records.length) = some record → record.Fits) :
    (wal.call call).Logged (records ++ (call.record (Int64.ofNat records.length)).toList) := by
  cases call with
  | appendInsert recordId afterImage => exact logged.append _ _ _ _ (fits _ rfl)
  | appendUpdate recordId beforeImage afterImage => exact logged.append _ _ _ _ (fits _ rfl)
  | appendDelete recordId beforeImage => exact logged.append _ _ _ _ (fits _ rfl)
  | appendCommit => exact logged.append _ _ _ _ (fits _ rfl)
  | flush =>
    simp only [WalCall.record, Option.toList_none, List.append_nil]
    exact ⟨logged.written, logged.fits, logged.numbered, logged.next⟩
  | reopen =>
    simp only [WalCall.record, Option.toList_none, List.append_nil]
    exact logged.reopen

theorem appended_cons (lsn : Nat) (call : WalCall) (calls : List WalCall) :
    appended lsn (call :: calls) = (call.record (Int64.ofNat lsn)).toList ++
      appended (lsn + (call.record (Int64.ofNat lsn)).toList.length) calls := by
  rw [appended]
  cases call.record (Int64.ofNat lsn) with
  | none => rfl
  | some record => rfl

theorem Logged.callAll (calls : List WalCall) (logged : wal.Logged records)
    (fits : ∀ record ∈ appended records.length calls, record.Fits) :
    (wal.callAll calls).Logged (records ++ appended records.length calls) := by
  induction calls generalizing wal records with
  | nil =>
    rw [appended, List.append_nil]
    exact logged
  | cons call calls ih =>
    rw [appended_cons] at fits ⊢
    have step := logged.call call fun record one =>
      fits record (List.mem_append_left _ (by rw [one]; exact List.mem_cons_self))
    have rest := ih step (by
      rw [List.length_append]
      exact fun record later => fits record (List.mem_append_right _ later))
    rw [List.length_append, List.append_assoc] at rest
    exact rest

/-- What is read back is what was appended, numbered from 0 on; from a cut file, the longest
list of leading records that are wholly inside the cut. -/
theorem readAllRecords_callAll (calls : List WalCall) (fits : ∀ record ∈ appended 0 calls, record.Fits) :
    ((openFile []).callAll calls).readAllRecords = appended 0 calls ∧
    (appended 0 calls).map LogRecord.lsn = (List.range (appended 0 calls).length).map Int64.ofNat ∧
    ∀ length ≤ ((openFile []).callAll calls).written.length, ∃ count,
      IsGreatest {count | count ≤ (appended 0 calls).length ∧
        (((appended 0 calls).take count).flatMap logFrame).length ≤ length} count ∧
      Storage.readRecords (((openFile []).callAll calls).written.take length) = (appended 0 calls).take count := by
  have logged := logged_empty.callAll calls fits
  rw [List.length_nil, List.nil_append] at logged
  refine ⟨logged.readRecords, logged.numbered, fun length inside => ?_⟩
  have cut := List.take_prefix length ((openFile []).callAll calls).written
  rw [logged.written] at inside cut ⊢
  obtain ⟨count, part, shape, left⟩ := cut_flatMap (appended 0 calls) cut
  have size : length = (((appended 0 calls).take count).flatMap logFrame ++ part).length := by
    rw [← shape, List.length_take, Nat.min_eq_left inside]
  refine ⟨count, ?_, ?_⟩
  · rw [size]
    exact left.greatest logFrame_pos
  · rw [shape]
    apply readRecords_tail
    · exact fun record member => logged.fits record (List.mem_of_mem_take member)
    · exact left.torn.imp_right fun ⟨record, found, torn⟩ => ⟨record, logged.fits record (List.mem_of_getElem? found), torn⟩

/-- An insert and a commit, the log reopened between them. A file cut at 54 bytes has 24 of the 29 of the commit. -/
theorem readAllRecords_callAll_reopened :
    let calls : List WalCall := [.appendInsert 1 [5], .reopen, .appendCommit]
    ((openFile []).callAll calls).readAllRecords = [⟨0, .insert, 1, [], [5]⟩, ⟨1, .commit, -1, [], []⟩] ∧
      (appended 0 calls).map LogRecord.lsn = [0, 1] ∧
      Storage.readRecords (((openFile []).callAll calls).written.take 54) = [⟨0, .insert, 1, [], [5]⟩] := by
  intro calls
  obtain ⟨whole, numbered, cuts⟩ := readAllRecords_callAll calls (by decide)
  obtain ⟨count, ⟨⟨inside, fits⟩, most⟩, read⟩ := cuts 54 (by decide)
  have one : 1 ≤ count := most ⟨by decide, by decide⟩
  have short : count ≠ 2 := by
    rintro rfl
    revert fits
    decide
  have only : count = 1 := by
    change count ≤ 2 at inside
    omega
  subst only
  exact ⟨whole, numbered, read⟩

end WALManager

end QuorumDB.Storage
