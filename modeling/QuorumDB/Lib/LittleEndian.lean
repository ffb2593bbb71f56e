import QuorumDB.Lib.Bytes
import Mathlib.Algebra.Group.Int.Defs
import Mathlib.Algebra.Group.Nat.Defs

/-! Little-endian integers in byte strings, and reading values off the front of one. -/

namespace QuorumDB.LittleEndian

def toBytes : Nat → Nat → Bytes
  | 0, _ => []
  | width + 1, value => UInt8.ofNat value :: toBytes width (value / 256)

def ofBytes : Bytes → Nat
  | [] => 0
  | byte :: rest => byte.toNat + 256 * ofBytes rest

@[simp] theorem toBytes_length (width value : Nat) : (toBytes width value).length = width := by
  induction width generalizing value with
  | zero => rfl
  | succ width ih => rw [toBytes, List.length_cons, ih]

theorem ofBytes_toBytes (width value : Nat) : ofBytes (toBytes width value) = value % 256 ^ width := by
  induction width generalizing value with
  | zero => rw [toBytes, ofBytes, Nat.pow_zero, Nat.mod_one]
  | succ width ih =>
    have low : (UInt8.ofNat value).toNat = value % 256 := UInt8.toNat_ofNat'
    rw [toBytes, ofBytes, ih, low, Nat.pow_succ, Nat.mul_comm (256 ^ width), Nat.mod_mul]

theorem toBytes_ofBytes (bytes : Bytes) : toBytes bytes.length (ofBytes bytes) = bytes := by
  induction bytes with
  | nil => rfl
  | cons byte rest ih =>
    have low : UInt8.ofNat (byte.toNat + 256 * ofBytes rest) = byte := by
      apply UInt8.toNat_inj.mp
      rw [UInt8.toNat_ofNat', Nat.add_mul_mod_self_left, Nat.mod_eq_of_lt byte.toNat_lt]
    have high : (byte.toNat + 256 * ofBytes rest) / 256 = ofBytes rest := by
      have bound := byte.toNat_lt
      omega
    rw [List.length_cons, ofBytes, toBytes, low, high, ih]

theorem toBytes_mod (width value : Nat) : toBytes width (value % 256 ^ width) = toBytes width value := by
  have whole := toBytes_ofBytes (toBytes width value)
  rw [toBytes_length, ofBytes_toBytes] at whole
  exact whole

theorem ofBytes_lt (bytes : Bytes) : ofBytes bytes < 256 ^ bytes.length := by
  induction bytes with
  | nil => decide
  | cons byte rest ih =>
    have bound := byte.toNat_lt
    rw [ofBytes, List.length_cons, Nat.pow_succ]
    omega

/-- The unsigned value of the next `width` bytes, and the bytes after them. -/
def readValue (width : Nat) (bytes : Bytes) : Nat × Bytes :=
  (ofBytes (bytes.take width), bytes.drop width)

theorem readValue_append (width value : Nat) (rest : Bytes) :
    readValue width (toBytes width value ++ rest) = (value % 256 ^ width, rest) := by
  have size := toBytes_length width value
  have front : (toBytes width value ++ rest).take width = toBytes width value := List.take_left' size
  have back : (toBytes width value ++ rest).drop width = rest := List.drop_left' size
  rw [readValue, front, back, ofBytes_toBytes]

theorem take_append_next {start width stop : Nat} (sum : start + width = stop) (bytes : Bytes) :
    (bytes.drop start).take width ++ bytes.drop stop = bytes.drop start := by
  rw [← sum, ← List.drop_drop, List.take_append_drop]

theorem readValue_lt (width : Nat) (bytes : Bytes) : (readValue width bytes).1 < 256 ^ width :=
  Nat.lt_of_lt_of_le (ofBytes_lt _) (Nat.pow_le_pow_right (by decide) (List.length_take_le _ _))

theorem toBytes_readValue {width : Nat} {bytes : Bytes} (long : width ≤ bytes.length) :
    toBytes width (readValue width bytes).1 = bytes.take width := by
  have whole := toBytes_ofBytes (bytes.take width)
  rw [List.length_take, Nat.min_eq_left long] at whole
  exact whole

def readMany {Value : Type} (read : Bytes → Value × Bytes) : Nat → Bytes → List Value × Bytes
  | 0, bytes => ([], bytes)
  | count + 1, bytes =>
      ((read bytes).1 :: (readMany read count (read bytes).2).1, (readMany read count (read bytes).2).2)

theorem readMany_length {Value : Type} (read : Bytes → Value × Bytes) (count : Nat) (bytes : Bytes) :
    (readMany read count bytes).1.length = count := by
  induction count generalizing bytes with
  | zero => rfl
  | succ count ih => rw [readMany, List.length_cons, ih]

theorem readMany_append {Value : Type} {read : Bytes → Value × Bytes} {write : Value → Bytes}
    (inverse : ∀ value rest, read (write value ++ rest) = (value, rest)) (values : List Value) (rest : Bytes) :
    readMany read values.length (values.flatMap write ++ rest) = (values, rest) := by
  induction values with
  | nil => rfl
  | cons value values ih =>
    rw [List.flatMap_cons, List.append_assoc, List.length_cons, readMany, inverse, ih]

section Fixed

def uint32Bytes (value : UInt32) : Bytes := toBytes 4 value.toNat
def int32Bytes (value : Int32) : Bytes := toBytes 4 value.toUInt32.toNat
def int64Bytes (value : Int64) : Bytes := toBytes 8 value.toUInt64.toNat

def readUInt32 (bytes : Bytes) : UInt32 × Bytes :=
  (UInt32.ofNat (readValue 4 bytes).1, (readValue 4 bytes).2)

def readInt32 (bytes : Bytes) : Int32 × Bytes :=
  ((UInt32.ofNat (readValue 4 bytes).1).toInt32, (readValue 4 bytes).2)

def readInt64 (bytes : Bytes) : Int64 × Bytes :=
  ((UInt64.ofNat (readValue 8 bytes).1).toInt64, (readValue 8 bytes).2)

@[simp] theorem uint32Bytes_length (value : UInt32) : (uint32Bytes value).length = 4 := toBytes_length _ _
@[simp] theorem int32Bytes_length (value : Int32) : (int32Bytes value).length = 4 := toBytes_length _ _
@[simp] theorem int64Bytes_length (value : Int64) : (int64Bytes value).length = 8 := toBytes_length _ _

theorem readUInt32_append (value : UInt32) (rest : Bytes) :
    readUInt32 (uint32Bytes value ++ rest) = (value, rest) := by
  have bound : value.toNat < 256 ^ 4 := value.toNat_lt
  simp only [readUInt32, uint32Bytes, readValue_append, Nat.mod_eq_of_lt bound, UInt32.ofNat_toNat]

theorem readInt32_append (value : Int32) (rest : Bytes) :
    readInt32 (int32Bytes value ++ rest) = (value, rest) := by
  have bound : value.toUInt32.toNat < 256 ^ 4 := value.toUInt32.toNat_lt
  simp only [readInt32, int32Bytes, readValue_append, Nat.mod_eq_of_lt bound, UInt32.ofNat_toNat,
    Int32.toInt32_toUInt32]

theorem readInt64_append (value : Int64) (rest : Bytes) :
    readInt64 (int64Bytes value ++ rest) = (value, rest) := by
  have bound : value.toUInt64.toNat < 256 ^ 8 := value.toUInt64.toNat_lt
  simp only [readInt64, int64Bytes, readValue_append, Nat.mod_eq_of_lt bound, UInt64.ofNat_toNat,
    Int64.toInt64_toUInt64]

theorem uint32Bytes_readUInt32 {bytes : Bytes} (long : 4 ≤ bytes.length) :
    uint32Bytes (readUInt32 bytes).1 = bytes.take 4 := by
  have small : (readValue 4 bytes).1 < 2 ^ 32 := readValue_lt 4 bytes
  rw [uint32Bytes, readUInt32, UInt32.toNat_ofNat_of_lt' small, toBytes_readValue long]

theorem int64Bytes_readInt64 {bytes : Bytes} (long : 8 ≤ bytes.length) :
    int64Bytes (readInt64 bytes).1 = bytes.take 8 := by
  have small : (readValue 8 bytes).1 < 2 ^ 64 := readValue_lt 8 bytes
  rw [int64Bytes, readInt64, UInt64.toUInt64_toInt64, UInt64.toNat_ofNat_of_lt' small, toBytes_readValue long]

end Fixed

end QuorumDB.LittleEndian
