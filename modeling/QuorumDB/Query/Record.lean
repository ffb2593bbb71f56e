import QuorumDB.Lib.LittleEndian
import Mathlib.Data.List.TakeWhile

/-! Records and their 80-byte image (`query/record.h`). -/

namespace QuorumDB.Query
open LittleEndian

def recordNameSize : Nat := 64
def recordSize : Nat := 80

structure Record where
  id : Int64
  name : Bytes
  value : Int64
  deriving DecidableEq, Repr

def serializeRecord (record : Record) : Bytes :=
  int64Bytes record.id ++ ((record.name.take recordNameSize ++
    List.replicate (recordNameSize - record.name.length) 0) ++ int64Bytes record.value)

def deserializeRecord (buffer : Bytes) : Record where
  id := (readInt64 buffer).1
  name := ((buffer.drop 8).take recordNameSize).takeWhile (· ≠ 0)
  value := (readInt64 (buffer.drop (8 + recordNameSize))).1

/-- A name cut at 64 bytes and at its first NUL byte. -/
def cutName (name : Bytes) : Bytes := (name.take recordNameSize).takeWhile (· ≠ 0)

def Record.stored (record : Record) : Record := { record with name := cutName record.name }

theorem serializeRecord_length (record : Record) : (serializeRecord record).length = recordSize := by
  simp only [serializeRecord, List.length_append, int64Bytes_length, List.length_take, List.length_replicate,
    recordNameSize, recordSize]
  omega

theorem takeWhile_padding (bytes : Bytes) (count : Nat) :
    (bytes ++ List.replicate count 0).takeWhile (· ≠ 0) = bytes.takeWhile (· ≠ 0) := by
  induction bytes with
  | nil =>
    cases count with
    | zero => rfl
    | succ count => rfl
  | cons byte bytes ih =>
    rw [List.cons_append, List.takeWhile_cons, List.takeWhile_cons, ih]

theorem deserializeRecord_append (record : Record) (rest : Bytes) :
    deserializeRecord (serializeRecord record ++ rest) = record.stored := by
  have nameSize : (record.name.take recordNameSize ++
      List.replicate (recordNameSize - record.name.length) 0).length = recordNameSize := by
    rw [List.length_append, List.length_take, List.length_replicate]
    omega
  have identifier := int64Bytes_length record.id
  unfold deserializeRecord serializeRecord Record.stored cutName
  simp only [List.append_assoc] at nameSize ⊢
  rw [readInt64_append, ← List.drop_drop, List.drop_left' identifier]
  simp only [← List.append_assoc] at nameSize ⊢
  simp only [List.append_assoc _ (int64Bytes record.value) rest]
  rw [List.take_left' nameSize, List.drop_left' nameSize, readInt64_append, takeWhile_padding]

theorem deserializeRecord_serializeRecord (record : Record) :
    deserializeRecord (serializeRecord record) = record.stored := by
  have whole := deserializeRecord_append record []
  rw [List.append_nil] at whole
  exact whole

theorem cutName_cutName (name : Bytes) : cutName (cutName name) = cutName name := by
  have short : (cutName name).length ≤ recordNameSize :=
    Nat.le_trans (List.takeWhile_sublist _).length_le (List.length_take_le _ _)
  rw [cutName, List.take_of_length_le short]
  exact List.takeWhile_idem

@[simp] theorem Record.stored_id (record : Record) : record.stored.id = record.id := rfl
@[simp] theorem Record.stored_value (record : Record) : record.stored.value = record.value := rfl

@[simp] theorem Record.stored_stored (record : Record) : record.stored.stored = record.stored := by
  rw [Record.stored, Record.stored, cutName_cutName]

end QuorumDB.Query
