import QuorumDB.Lib.Cut
import QuorumDB.Lib.LittleEndian

/-!
The write-ahead log (`storage/log_record.h`, `storage/wal_manager.cpp`). What the log file
can hold after a crash is any cut of what was written at or after the last flush.
-/

namespace QuorumDB.Storage
open LittleEndian Cut

inductive LogRecordType where
  | insert
  | update
  | delete
  | commit
  deriving DecidableEq, Repr

structure LogRecord where
  lsn : Int64
  type : LogRecordType
  recordId : Int64
  beforeImage : Bytes
  afterImage : Bytes
  deriving DecidableEq, Repr

namespace LogRecordType

def toByte : LogRecordType → UInt8
  | .insert => 0
  | .update => 1
  | .delete => 2
  | .commit => 3

def ofByte (byte : UInt8) : Option LogRecordType :=
  if byte = 0 then some .insert
  else if byte = 1 then some .update
  else if byte = 2 then some .delete
  else if byte = 3 then some .commit
  else none

@[simp] theorem ofByte_toByte (type : LogRecordType) : ofByte type.toByte = some type := by
  cases type with
  | insert => rfl
  | update => rfl
  | delete => rfl
  | commit => rfl

end LogRecordType

/-- kHeaderSize. -/
def logHeaderSize : Nat := 25

/-- The sizes of the images are cut to 32 bits. -/
def serializeLogRecord (record : LogRecord) : Bytes :=
  let beforeSize := UInt32.ofNat record.beforeImage.length
  let afterSize := UInt32.ofNat record.afterImage.length
  int64Bytes record.lsn ++ (record.type.toByte :: (int64Bytes record.recordId ++ (uint32Bytes beforeSize ++
    (uint32Bytes afterSize ++ (record.beforeImage.take beforeSize.toNat ++ record.afterImage.take afterSize.toNat)))))

/-- The reads of the header, then the two images, which must be all there is. -/
def deserializeLogRecord (bytes : Bytes) : Option LogRecord :=
  if bytes.length < logHeaderSize then none
  else
    let (lsn, bytes) := readInt64 bytes
    let (byte, bytes) := readValue 1 bytes
    let (recordId, bytes) := readInt64 bytes
    let (beforeSize, bytes) := readUInt32 bytes
    let (afterSize, bytes) := readUInt32 bytes
    match LogRecordType.ofByte (UInt8.ofNat byte) with
    | none => none
    | some type =>
        if beforeSize.toNat > bytes.length ∨ afterSize.toNat > bytes.length - beforeSize.toNat then none
        else if beforeSize.toNat + afterSize.toNat = bytes.length then
          some ⟨lsn, type, recordId, bytes.take beforeSize.toNat, (bytes.drop beforeSize.toNat).take afterSize.toNat⟩
        else none

/-- The images fit their sizes and the record fits the size in front of it. -/
def LogRecord.Fits (record : LogRecord) : Prop :=
  logHeaderSize + record.beforeImage.length + record.afterImage.length < 2 ^ 32

def LogRecord.truncated (record : LogRecord) : LogRecord :=
  { record with
    beforeImage := record.beforeImage.take (UInt32.ofNat record.beforeImage.length).toNat
    afterImage := record.afterImage.take (UInt32.ofNat record.afterImage.length).toNat }

instance (record : LogRecord) : Decidable record.Fits := inferInstanceAs (Decidable (_ < _))

section Codec

variable {record : LogRecord}

theorem LogRecord.Fits.sizes (fits : record.Fits) :
    (UInt32.ofNat record.beforeImage.length).toNat = record.beforeImage.length ∧
      (UInt32.ofNat record.afterImage.length).toNat = record.afterImage.length := by
  unfold Fits at fits
  constructor
  · exact UInt32.toNat_ofNat_of_lt' (by change _ < 2 ^ 32; omega)
  · exact UInt32.toNat_ofNat_of_lt' (by change _ < 2 ^ 32; omega)

theorem serializeLogRecord_length (fits : record.Fits) :
    (serializeLogRecord record).length = logHeaderSize + record.beforeImage.length + record.afterImage.length := by
  obtain ⟨before, after⟩ := fits.sizes
  simp only [serializeLogRecord, List.length_append, List.length_cons, int64Bytes_length, uint32Bytes_length,
    before, after, List.take_length, logHeaderSize]
  omega

theorem truncated_eq (fits : record.Fits) : record.truncated = record := by
  obtain ⟨before, after⟩ := fits.sizes
  rw [LogRecord.truncated, before, after, List.take_length, List.take_length]

theorem deserializeLogRecord_serialize (record : LogRecord) :
    deserializeLogRecord (serializeLogRecord record) = some record.truncated := by
  have size : ∀ image : Bytes, (image.take (UInt32.ofNat image.length).toNat).length = (UInt32.ofNat image.length).toNat := by
    intro image
    rw [List.length_take, UInt32.toNat_ofNat']
    exact Nat.min_eq_left (Nat.mod_le _ _)
  have before := size record.beforeImage
  have after := size record.afterImage
  have long : ¬ (serializeLogRecord record).length < logHeaderSize := by
    simp only [serializeLogRecord, List.length_append, List.length_cons, int64Bytes_length, uint32Bytes_length, logHeaderSize]
    omega
  have single : ∀ (byte : UInt8) (rest : Bytes), readValue 1 (byte :: rest) = (byte.toNat, rest) := fun byte rest => rfl
  rw [deserializeLogRecord, if_neg long]
  simp only [serializeLogRecord, readInt64_append, readUInt32_append, single, UInt8.ofNat_toNat,
    LogRecordType.ofByte_toByte, List.length_append, before, after, List.take_left' before, List.drop_left' before,
    List.take_take, Nat.min_self]
  rw [if_neg (by omega), if_pos trivial, LogRecord.truncated]

theorem deserializeLogRecord_serializeLogRecord (fits : record.Fits) :
    deserializeLogRecord (serializeLogRecord record) = some record := by
  rw [deserializeLogRecord_serialize, truncated_eq fits]

end Codec

/-- What Append writes: the size, cut to 32 bits, and the record. -/
def logFrame (record : LogRecord) : Bytes :=
  uint32Bytes (UInt32.ofNat (serializeLogRecord record).length) ++ serializeLogRecord record

/-- The loop of ReadAllRecordsUnlocked. A round takes at least one byte. -/
def readRecordsFrom : Nat → Bytes → List LogRecord
  | 0, _ => []
  | rounds + 1, bytes =>
      if bytes.length < 4 then []
      else
        let (size, rest) := readUInt32 bytes
        if size = 0 ∨ rest.length < size.toNat then []
        else
          match deserializeLogRecord (rest.take size.toNat) with
          | none => []
          | some record => record :: readRecordsFrom rounds (rest.drop size.toNat)

def readRecords (file : Bytes) : List LogRecord := readRecordsFrom file.length file

/-- `written` is everything written to the stream, of which the first `flushed` bytes were
on the disk when the last Flush returned. -/
structure WALManager where
  written : Bytes
  flushed : Nat
  nextLsn : Int64
  deriving DecidableEq, Repr

namespace WALManager

def openFile (file : Bytes) : WALManager where
  written := file
  flushed := file.length
  nextLsn := match (readRecords file).getLast? with
    | some last => last.lsn + 1
    | none => 0

def append (wal : WALManager) (type : LogRecordType) (recordId : Int64) (beforeImage afterImage : Bytes) :
    Int64 × WALManager :=
  (wal.nextLsn, { wal with
    written := wal.written ++ logFrame ⟨wal.nextLsn, type, recordId, beforeImage, afterImage⟩
    nextLsn := wal.nextLsn + 1 })

def appendInsert (wal : WALManager) (recordId : Int64) (afterImage : Bytes) : Int64 × WALManager :=
  wal.append .insert recordId [] afterImage

def appendUpdate (wal : WALManager) (recordId : Int64) (beforeImage afterImage : Bytes) : Int64 × WALManager :=
  wal.append .update recordId beforeImage afterImage

def appendDelete (wal : WALManager) (recordId : Int64) (beforeImage : Bytes) : Int64 × WALManager :=
  wal.append .delete recordId beforeImage []

def appendCommit (wal : WALManager) : WALManager := (wal.append .commit (-1) [] []).2

def flush (wal : WALManager) : WALManager := { wal with flushed := wal.written.length }

def readAllRecords (wal : WALManager) : List LogRecord := readRecords wal.written

def Crashes (wal : WALManager) (file : Bytes) : Prop := file <+: wal.written ∧ wal.flushed ≤ file.length

/-- A WALManager on what a crash left. What was not flushed before may be lost yet. -/
def reopen (wal : WALManager) (file : Bytes) : WALManager := { openFile file with flushed := wal.flushed }

end WALManager

section Reading

variable {record : LogRecord} {records : List LogRecord} {rest part : Bytes} {rounds : Nat}

theorem logFrame_size (fits : record.Fits) :
    (UInt32.ofNat (serializeLogRecord record).length).toNat = (serializeLogRecord record).length := by
  have size := serializeLogRecord_length fits
  unfold LogRecord.Fits at fits
  exact UInt32.toNat_ofNat_of_lt' (by change _ < 2 ^ 32; omega)

theorem logFrame_length (record : LogRecord) : (logFrame record).length = 4 + (serializeLogRecord record).length := by
  rw [logFrame, List.length_append, uint32Bytes_length]

theorem logFrame_pos (record : LogRecord) : 0 < (logFrame record).length := by
  rw [logFrame_length]
  omega

theorem readRecordsFrom_frame (fits : record.Fits) :
    readRecordsFrom (rounds + 1) (logFrame record ++ rest) = record :: readRecordsFrom rounds rest := by
  have size := logFrame_size fits
  have length := serializeLogRecord_length fits
  have some : ¬ (UInt32.ofNat (serializeLogRecord record).length = 0) := by
    intro zero
    rw [zero] at size
    have none : (0 : UInt32).toNat = 0 := rfl
    unfold logHeaderSize at length
    omega
  have long : ¬ (logFrame record ++ rest).length < 4 := by
    rw [List.length_append, logFrame_length]
    omega
  have enough : ¬ (serializeLogRecord record ++ rest).length < (serializeLogRecord record).length := by
    rw [List.length_append]
    omega
  rw [readRecordsFrom, if_neg long]
  simp only [logFrame, List.append_assoc, readUInt32_append, size]
  rw [if_neg (not_or.mpr ⟨some, enough⟩), List.take_left, List.drop_left, deserializeLogRecord_serializeLogRecord fits]

theorem readRecordsFrom_torn (fits : record.Fits) (torn : Torn logFrame record part) :
    readRecordsFrom rounds part = [] := by
  obtain ⟨⟨missing, whole⟩, short⟩ := torn
  cases rounds with
  | zero => rfl
  | succ rounds =>
    rw [readRecordsFrom]
    by_cases header : part.length < 4
    · exact if_pos header
    · rw [if_neg header]
      have front : part.take 4 = uint32Bytes (UInt32.ofNat (serializeLogRecord record).length) := by
        rw [← List.take_append_of_le_length (Nat.le_of_not_lt header), whole, logFrame,
          List.take_left' (uint32Bytes_length _)]
      have split : part = uint32Bytes (UInt32.ofNat (serializeLogRecord record).length) ++ part.drop 4 := by
        rw [← front, List.take_append_drop]
      have less : (part.drop 4).length < (serializeLogRecord record).length := by
        rw [logFrame_length] at short
        rw [List.length_drop]
        omega
      rw [split, readUInt32_append]
      simp only [logFrame_size fits, less, or_true, if_true]

theorem readRecordsFrom_nil : readRecordsFrom rounds [] = [] := by
  cases rounds with
  | zero => rfl
  | succ rounds => rfl

theorem readRecordsFrom_flatMap (fits : ∀ record ∈ records, record.Fits)
    (enough : (records.flatMap logFrame ++ rest).length ≤ rounds) :
    ∃ left, rest.length ≤ left ∧
      readRecordsFrom rounds (records.flatMap logFrame ++ rest) = records ++ readRecordsFrom left rest := by
  induction records generalizing rounds with
  | nil => exact ⟨rounds, enough, rfl⟩
  | cons record records ih =>
    rw [List.flatMap_cons, List.append_assoc] at enough ⊢
    have positive := logFrame_pos record
    rw [List.length_append] at enough
    obtain ⟨rounds, rfl⟩ := Nat.exists_eq_add_of_lt (Nat.lt_of_lt_of_le (Nat.lt_add_right _ positive) enough)
    rw [Nat.zero_add, readRecordsFrom_frame (fits record List.mem_cons_self)]
    have fewer : (records.flatMap logFrame ++ rest).length ≤ rounds := by omega
    obtain ⟨left, much, same⟩ := ih (fun other member => fits other (List.mem_cons_of_mem _ member)) fewer
    exact ⟨left, much, congrArg (record :: ·) same⟩

theorem readRecords_tail (fits : ∀ record ∈ records, record.Fits)
    (tail : part = [] ∨ ∃ record : LogRecord, record.Fits ∧ Torn logFrame record part) :
    readRecords (records.flatMap logFrame ++ part) = records := by
  obtain ⟨rounds, -, same⟩ := readRecordsFrom_flatMap fits (Nat.le_refl (records.flatMap logFrame ++ part).length)
  rw [readRecords, same]
  rcases tail with rfl | ⟨record, small, torn⟩
  · rw [readRecordsFrom_nil, List.append_nil]
  · rw [readRecordsFrom_torn small torn, List.append_nil]

end Reading

end QuorumDB.Storage
