import QuorumDB.Lib.Cursor
import QuorumDB.Storage.WalManager

/-!
The codec of log records with its buffers and offsets (`storage/log_record.h`). Neither
direction leaves a buffer, and what is accepted is what is written for some record.
-/

namespace QuorumDB.Storage
open LittleEndian Cursor

namespace Buffered

/-- The writes into the string made for them. -/
def serializeLogRecord (record : LogRecord) : Option Bytes := do
  let beforeSize := UInt32.ofNat record.beforeImage.length
  let afterSize := UInt32.ofNat record.afterImage.length
  let beforeImage ← copy record.beforeImage beforeSize.toNat
  let afterImage ← copy record.afterImage afterSize.toNat
  fill (logHeaderSize + beforeSize.toNat + afterSize.toNat)
    [int64Bytes record.lsn, [record.type.toByte], int64Bytes record.recordId, uint32Bytes beforeSize,
      uint32Bytes afterSize, beforeImage, afterImage]

def readLogRecord (bytes : Bytes) : Reader (Option LogRecord) := do
  let lsn ← loadAs 8 readInt64 bytes
  let byte ← loadAs 1 (readValue 1) bytes
  let recordId ← loadAs 8 readInt64 bytes
  let beforeSize ← loadAs 4 readUInt32 bytes
  let afterSize ← loadAs 4 readUInt32 bytes
  match LogRecordType.ofByte (UInt8.ofNat byte) with
  | none => return none
  | some type =>
      let left ← minus bytes.length (← get)
      if beforeSize.toNat > left then return none
      let left ← minus left beforeSize.toNat
      if afterSize.toNat > left then return none
      let beforeImage ← load bytes beforeSize.toNat
      let afterImage ← load bytes afterSize.toNat
      let offset ← get
      return if offset = bytes.length then some ⟨lsn, type, recordId, beforeImage, afterImage⟩ else none

def deserializeLogRecord (bytes : Bytes) : Option (Option LogRecord) :=
  if bytes.length < logHeaderSize then some none else (readLogRecord bytes).run' 0

theorem serializeLogRecord_eq (record : LogRecord) :
    serializeLogRecord record = some (Storage.serializeLogRecord record) := by
  have before : (UInt32.ofNat record.beforeImage.length).toNat ≤ record.beforeImage.length := Nat.mod_le _ _
  have after : (UInt32.ofNat record.afterImage.length).toNat ≤ record.afterImage.length := Nat.mod_le _ _
  unfold serializeLogRecord
  simp only [copy_eq before, copy_eq after, Option.bind_eq_bind, Option.bind_some, fill_eq]
  have size : ([int64Bytes record.lsn, [record.type.toByte], int64Bytes record.recordId,
      uint32Bytes (UInt32.ofNat record.beforeImage.length), uint32Bytes (UInt32.ofNat record.afterImage.length),
      record.beforeImage.take (UInt32.ofNat record.beforeImage.length).toNat,
      record.afterImage.take (UInt32.ofNat record.afterImage.length).toNat].flatten).length =
      logHeaderSize + (UInt32.ofNat record.beforeImage.length).toNat + (UInt32.ofNat record.afterImage.length).toNat := by
    simp only [List.flatten_cons, List.flatten_nil, List.length_append, List.length_cons, List.length_nil,
      int64Bytes_length, uint32Bytes_length, List.length_take, Nat.min_eq_left before, Nat.min_eq_left after, logHeaderSize]
    omega
  rw [size, if_pos (Nat.le_refl _), Nat.sub_self, List.replicate_zero, List.append_nil]
  simp [Storage.serializeLogRecord]

theorem readLogRecord_eq {bytes : Bytes} (long : ¬ bytes.length < logHeaderSize) :
    (readLogRecord bytes).run' 0 = some (Storage.deserializeLogRecord bytes) := by
  unfold readLogRecord Storage.deserializeLogRecord
  rw [if_neg long]
  unfold logHeaderSize at long
  simp (disch := omega) only [StateT.run'_eq, StateT.run_bind, loadAs_run fixed_readInt64,
    loadAs_run (fixed_readValue 1), loadAs_run fixed_readUInt32, Option.bind_eq_bind, Option.bind_some,
    fixed_readInt64.rest, (fixed_readValue 1).rest, fixed_readUInt32.rest, List.drop_drop, Nat.zero_add,
    Nat.reduceAdd, List.drop_zero]
  generalize LogRecordType.ofByte _ = kind
  cases kind with
  | none => rfl
  | some type =>
    generalize (readUInt32 (bytes.drop 17)).1.toNat = beforeSize
    generalize (readUInt32 (bytes.drop 21)).1.toNat = afterSize
    have header : 25 ≤ bytes.length := Nat.le_of_not_lt long
    simp only [StateT.run_bind, StateT.run_get, minus_run header, Option.bind_eq_bind, Option.bind_some,
      Option.pure_def]
    rw [List.length_drop]
    by_cases before : beforeSize > bytes.length - 25
    · rw [if_pos before, if_pos (.inl before)]
      rfl
    · rw [if_neg before]
      simp only [StateT.run_bind, minus_run (Nat.le_of_not_lt before), Option.bind_eq_bind, Option.bind_some]
      by_cases after : afterSize > bytes.length - 25 - beforeSize
      · rw [if_pos after, if_pos (.inr after)]
        rfl
      · have total : 25 + beforeSize + afterSize = bytes.length ↔ beforeSize + afterSize = bytes.length - 25 := by omega
        rw [if_neg after, if_neg (by omega)]
        simp (disch := omega) only [StateT.run_bind, load_run, StateT.run_get, Option.bind_eq_bind, Option.bind_some,
          StateT.run_pure, Option.pure_def, total]
        rfl

theorem deserializeLogRecord_eq (bytes : Bytes) :
    deserializeLogRecord bytes = some (Storage.deserializeLogRecord bytes) := by
  by_cases short : bytes.length < logHeaderSize
  · rw [deserializeLogRecord, if_pos short, Storage.deserializeLogRecord, if_pos short]
  · rw [deserializeLogRecord, if_neg short, readLogRecord_eq short]

end Buffered

section Exact

variable {bytes : Bytes} {record : LogRecord}

theorem LogRecordType.toByte_ofByte {byte : UInt8} {type : LogRecordType} (known : ofByte byte = some type) :
    type.toByte = byte := by
  unfold ofByte at known
  split_ifs at known with insert update delete commit
  · rw [← Option.some.inj known, insert, toByte]
  · rw [← Option.some.inj known, update, toByte]
  · rw [← Option.some.inj known, delete, toByte]
  · rw [← Option.some.inj known, commit, toByte]

theorem serializeLogRecord_deserialize (read : deserializeLogRecord bytes = some record) :
    serializeLogRecord record = bytes := by
  unfold deserializeLogRecord logHeaderSize at read
  split_ifs at read with short
  simp only [fixed_readInt64.rest, (fixed_readValue 1).rest, fixed_readUInt32.rest, List.drop_drop, Nat.reduceAdd] at read
  match kind : LogRecordType.ofByte (UInt8.ofNat (readValue 1 (bytes.drop 8)).1) with
  | none =>
    rw [kind] at read
    cases read
  | some type =>
    rw [kind] at read
    simp only at read
    split_ifs at read with outside whole
    obtain rfl := Option.some.inj read
    have header : 25 ≤ bytes.length := Nat.le_of_not_lt short
    rw [List.length_drop] at outside whole
    have before : ((bytes.drop 25).take (readUInt32 (bytes.drop 17)).1.toNat).length =
        (readUInt32 (bytes.drop 17)).1.toNat := by
      rw [List.length_take, List.length_drop]
      omega
    have after : ((bytes.drop (25 + (readUInt32 (bytes.drop 17)).1.toNat)).take
        (readUInt32 (bytes.drop 21)).1.toNat).length = (readUInt32 (bytes.drop 21)).1.toNat := by
      rw [List.length_take, List.length_drop]
      omega
    have byte : (bytes.drop 8).take 1 = [type.toByte] := by
      rw [LogRecordType.toByte_ofByte kind, ← toBytes_readValue (le_length_drop (by omega))]
      rfl
    have last : (bytes.drop (25 + (readUInt32 (bytes.drop 17)).1.toNat)).take (readUInt32 (bytes.drop 21)).1.toNat =
        bytes.drop (25 + (readUInt32 (bytes.drop 17)).1.toNat) :=
      List.take_of_length_le (by rw [List.length_drop]; omega)
    have lsn := @int64Bytes_readInt64 bytes (by omega)
    have recordId := int64Bytes_readInt64 (le_length_drop (by omega : 9 + 8 ≤ bytes.length))
    have beforeSize := uint32Bytes_readUInt32 (le_length_drop (by omega : 17 + 4 ≤ bytes.length))
    have afterSize := uint32Bytes_readUInt32 (le_length_drop (by omega : 21 + 4 ≤ bytes.length))
    unfold serializeLogRecord
    simp only [before, after, UInt32.ofNat_toNat, List.take_take, Nat.min_self]
    rw [last, lsn, recordId, beforeSize, afterSize, ← List.singleton_append, ← byte, take_append_next rfl,
      take_append_next (by rfl), take_append_next (by rfl), take_append_next (by rfl), take_append_next (by rfl),
      List.take_append_drop]

theorem deserializeLogRecord_isSome :
    (deserializeLogRecord bytes).isSome = true ↔ ∃ written, serializeLogRecord written = bytes := by
  constructor
  · intro accepted
    obtain ⟨record, read⟩ := Option.isSome_iff_exists.mp accepted
    exact ⟨record, serializeLogRecord_deserialize read⟩
  · rintro ⟨written, rfl⟩
    rw [deserializeLogRecord_serialize]
    rfl

/-- A record reads back, exactly the strings written for records are accepted, and every
access is inside its buffer. -/
theorem logRecord_codec (record : LogRecord) (bytes : Bytes) :
    (record.Fits → deserializeLogRecord (serializeLogRecord record) = some record) ∧
    ((deserializeLogRecord bytes).isSome = true ↔ ∃ written, serializeLogRecord written = bytes) ∧
    (∀ read, deserializeLogRecord bytes = some read → serializeLogRecord read = bytes) ∧
    Buffered.serializeLogRecord record = some (serializeLogRecord record) ∧
    Buffered.deserializeLogRecord bytes = some (deserializeLogRecord bytes) :=
  ⟨deserializeLogRecord_serializeLogRecord, deserializeLogRecord_isSome, fun _ => serializeLogRecord_deserialize,
    Buffered.serializeLogRecord_eq record, Buffered.deserializeLogRecord_eq bytes⟩

/-- An update record whose images differ in length. -/
theorem logRecord_codec_update :
    let record : LogRecord := ⟨3, .update, 7, [1], [2, 3]⟩
    let bytes := serializeLogRecord record
    deserializeLogRecord bytes = some record ∧ (∃ written, serializeLogRecord written = bytes) ∧
      (∀ read, deserializeLogRecord bytes = some read → serializeLogRecord read = bytes) ∧
      Buffered.serializeLogRecord record = some bytes ∧ Buffered.deserializeLogRecord bytes = some (some record) := by
  intro record bytes
  obtain ⟨back, accepts, whole, written, read⟩ := logRecord_codec record bytes
  have same := back (by decide)
  rw [same] at accepts read
  exact ⟨same, accepts.mp rfl, whole, written, read⟩

end Exact

end QuorumDB.Storage
