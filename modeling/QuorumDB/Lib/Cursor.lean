import QuorumDB.Lib.NetworkOrder
import Mathlib.Control.Monad.Basic

/-!
Buffers accessed at an offset that moves on. An access that would leave its buffer has no
outcome, and neither has an unsigned subtraction that would wrap around.
-/

namespace QuorumDB.Cursor
open LittleEndian NetworkOrder

def copy (source : Bytes) (size : Nat) : Option Bytes :=
  if size ≤ source.length then some (source.take size) else none

def writeAll : List Bytes → Bytes × Nat → Option (Bytes × Nat)
  | [], state => some state
  | bytes :: rest, (buffer, offset) =>
      if offset + bytes.length ≤ buffer.length then
        writeAll rest (buffer.take offset ++ bytes ++ buffer.drop (offset + bytes.length), offset + bytes.length)
      else none

def u64Writes (word : Nat) : List Bytes := [u32Bytes (word / 2 ^ 32), u32Bytes word]

/-- A buffer of zeros of the given size after the writes. -/
def fill (size : Nat) (writes : List Bytes) : Option Bytes :=
  (writeAll writes (List.replicate size 0, 0)).map Prod.fst

abbrev Reader := StateT Nat Option

def minus (first second : Nat) : Reader Nat := fun offset =>
  if second ≤ first then some (first - second, offset) else none

def load (buffer : Bytes) (width : Nat) : Reader Bytes := fun offset =>
  if offset + width ≤ buffer.length then some ((buffer.drop offset).take width, offset + width) else none

/-- A value made of the next `width` bytes. -/
def loadAs {Value : Type} (width : Nat) (read : Bytes → Value × Bytes) (buffer : Bytes) : Reader Value := do
  let bytes ← load buffer width
  return (read bytes).1

def loadMany {Value : Type} (one : Reader Value) : Nat → Reader (List Value)
  | 0 => return []
  | count + 1 => do
      let value ← one
      let values ← loadMany one count
      return value :: values

def loadU32 (buffer : Bytes) : Reader Nat := loadAs 4 readU32 buffer

def loadU64 (buffer : Bytes) : Reader Nat := do
  let high ← loadU32 buffer
  let low ← loadU32 buffer
  return high * 2 ^ 32 + low

section Writing

variable {source buffer : Bytes} {writes : List Bytes} {size offset : Nat}

theorem copy_eq (inside : size ≤ source.length) : copy source size = some (source.take size) := if_pos inside

theorem writeAll_eq (inside : offset ≤ buffer.length) :
    writeAll writes (buffer, offset) =
      if offset + writes.flatten.length ≤ buffer.length then
        some (buffer.take offset ++ writes.flatten ++ buffer.drop (offset + writes.flatten.length),
          offset + writes.flatten.length)
      else none := by
  induction writes generalizing buffer offset with
  | nil =>
    rw [writeAll, List.flatten_nil, List.length_nil, Nat.add_zero, if_pos inside, List.append_nil,
      List.take_append_drop]
  | cons bytes rest ih =>
    have total : offset + (bytes :: rest).flatten.length = offset + bytes.length + rest.flatten.length := by
      rw [List.flatten_cons, List.length_append, Nat.add_assoc]
    rw [writeAll, total]
    by_cases room : offset + bytes.length ≤ buffer.length
    · have front : (buffer.take offset ++ bytes).length = offset + bytes.length := by
        rw [List.length_append, List.length_take, Nat.min_eq_left inside]
      have same : (buffer.take offset ++ bytes ++ buffer.drop (offset + bytes.length)).length = buffer.length := by
        rw [List.length_append, front, List.length_drop, Nat.add_sub_cancel' room]
      have back : (buffer.take offset ++ bytes ++ buffer.drop (offset + bytes.length)).drop
          (offset + bytes.length + rest.flatten.length) = buffer.drop (offset + bytes.length + rest.flatten.length) := by
        rw [← List.drop_drop, List.drop_left' front, List.drop_drop]
      rw [if_pos room, ih (by rw [same]; exact room), same, List.take_left' front, back, List.flatten_cons]
      simp only [List.append_assoc]
    · rw [if_neg room, if_neg (by omega)]

theorem u64Writes_flatten (word : Nat) : (u64Writes word).flatten = u64Bytes word := by
  simp [u64Writes, u64Bytes]

theorem fill_eq :
    fill size writes =
      if writes.flatten.length ≤ size then
        some (writes.flatten ++ List.replicate (size - writes.flatten.length) 0)
      else none := by
  rw [fill, writeAll_eq (Nat.zero_le _), List.length_replicate, Nat.zero_add]
  by_cases room : writes.flatten.length ≤ size
  · rw [if_pos room, if_pos room, Option.map_some, List.take_zero, List.nil_append, List.drop_replicate]
  · rw [if_neg room, if_neg room, Option.map_none]

end Writing

section Reading

structure Fixed {Value : Type} (width : Nat) (read : Bytes → Value × Bytes) : Prop where
  value : ∀ bytes, (read (bytes.take width)).1 = (read bytes).1
  rest : ∀ bytes, (read bytes).2 = bytes.drop width

variable {Value : Type} {buffer : Bytes} {width offset : Nat} {read : Bytes → Value × Bytes}

theorem le_length_drop (inside : offset + width ≤ buffer.length) : width ≤ (buffer.drop offset).length := by
  rw [List.length_drop]
  exact Nat.le_sub_of_add_le' inside

theorem minus_run {first second : Nat} (less : second ≤ first) :
    (minus first second).run offset = some (first - second, offset) := if_pos less

theorem load_run (inside : offset + width ≤ buffer.length) :
    (load buffer width).run offset = some ((buffer.drop offset).take width, offset + width) := if_pos inside

theorem loadAs_run (fixed : Fixed width read) (inside : offset + width ≤ buffer.length) :
    (loadAs width read buffer).run offset = some ((read (buffer.drop offset)).1, offset + width) := by
  simp only [loadAs, StateT.run_bind, load_run inside, StateT.run_pure, Option.bind_eq_bind, Option.bind_some,
    fixed.value]
  rfl

theorem loadMany_run (fixed : Fixed width read) {count : Nat} (inside : offset + count * width ≤ buffer.length) :
    (loadMany (loadAs width read buffer) count).run offset =
      some ((readMany read count (buffer.drop offset)).1, offset + count * width) := by
  induction count generalizing offset with
  | zero =>
    rw [Nat.zero_mul, Nat.add_zero]
    rfl
  | succ count ih =>
    rw [Nat.succ_mul] at inside
    have first : offset + width ≤ buffer.length := by omega
    have others : offset + width + count * width ≤ buffer.length := by omega
    have total : offset + (count + 1) * width = offset + width + count * width := by
      rw [Nat.succ_mul]
      omega
    simp only [loadMany, StateT.run_bind, loadAs_run fixed first, Option.bind_eq_bind, Option.bind_some, ih others,
      StateT.run_pure, readMany, fixed.rest, List.drop_drop, total]
    rfl

theorem readMany_fixed (fixed : Fixed width read) (count : Nat) (bytes : Bytes) :
    (readMany read count bytes).2 = bytes.drop (count * width) := by
  induction count generalizing bytes with
  | zero => rw [Nat.zero_mul, List.drop_zero, readMany]
  | succ count ih => rw [readMany, ih, fixed.rest, List.drop_drop, Nat.succ_mul, Nat.add_comm]

theorem fixed_readValue (width : Nat) : Fixed width (readValue width) where
  value bytes := by rw [readValue, readValue, List.take_take, Nat.min_self]
  rest bytes := rfl

theorem fixed_readUInt32 : Fixed 4 readUInt32 where
  value bytes := by rw [readUInt32, readUInt32, (fixed_readValue 4).value]
  rest bytes := rfl

theorem fixed_readInt32 : Fixed 4 readInt32 where
  value bytes := by rw [readInt32, readInt32, (fixed_readValue 4).value]
  rest bytes := rfl

theorem fixed_readInt64 : Fixed 8 readInt64 where
  value bytes := by rw [readInt64, readInt64, (fixed_readValue 8).value]
  rest bytes := rfl

theorem fixed_readU32 : Fixed 4 readU32 where
  value bytes := by rw [readU32, readU32, List.take_take, Nat.min_self]
  rest bytes := rfl

theorem loadU32_run (inside : offset + 4 ≤ buffer.length) :
    (loadU32 buffer).run offset = some ((readU32 (buffer.drop offset)).1, offset + 4) :=
  loadAs_run fixed_readU32 inside

theorem loadU64_run (inside : offset + 8 ≤ buffer.length) :
    (loadU64 buffer).run offset = some ((readU64 (buffer.drop offset)).1, offset + 8) := by
  have first : offset + 4 ≤ buffer.length := by omega
  have second : offset + 4 + 4 ≤ buffer.length := by omega
  simp only [loadU64, StateT.run_bind, loadU32_run first, loadU32_run second, Option.bind_eq_bind, Option.bind_some,
    StateT.run_pure, readU64, fixed_readU32.rest, List.drop_drop]
  rfl

theorem readU64_rest (bytes : Bytes) : (readU64 bytes).2 = bytes.drop 8 := by
  rw [readU64, fixed_readU32.rest, fixed_readU32.rest, List.drop_drop]

end Reading

end QuorumDB.Cursor
