import QuorumDB.Lib.Bytes

/-!
A file as a byte string that reads as zeros past its end. Writing at an offset
changes the bytes written and nothing else, wherever the end of the file is.
-/

namespace QuorumDB.ByteFile

def byteAt (file : Bytes) (position : Nat) : UInt8 := file[position]?.getD 0

/-- The file after writing at an offset that may lie past its end. -/
def splice (file : Bytes) (offset : Nat) (bytes : Bytes) : Bytes :=
  file.take offset ++ List.replicate (offset - file.length) 0 ++ bytes ++ file.drop (offset + bytes.length)

def window (file : Bytes) (offset count : Nat) : Bytes :=
  (file.drop offset).take count ++ List.replicate (count - (file.length - offset)) 0

theorem byteAt_past {file : Bytes} {position : Nat} (past : file.length ≤ position) : byteAt file position = 0 := by
  rw [byteAt, List.getElem?_eq_none past, Option.getD_none]

theorem splice_length (file : Bytes) (offset : Nat) (bytes : Bytes) :
    (splice file offset bytes).length = max file.length (offset + bytes.length) := by
  simp only [splice, List.length_append, List.length_take, List.length_replicate, List.length_drop]
  omega

theorem byteAt_splice_inside {file bytes : Bytes} {offset position : Nat} (inside : position < bytes.length) :
    byteAt (splice file offset bytes) (offset + position) = bytes[position] := by
  have front : (file.take offset ++ List.replicate (offset - file.length) 0).length = offset := by
    simp only [List.length_append, List.length_take, List.length_replicate]
    omega
  rw [byteAt, splice, List.append_assoc, List.getElem?_append_right (by omega), front,
    Nat.add_sub_cancel_left, List.getElem?_append_left inside, List.getElem?_eq_getElem inside, Option.getD_some]

theorem byteAt_splice_outside {file bytes : Bytes} {offset position : Nat}
    (outside : position < offset ∨ offset + bytes.length ≤ position) :
    byteAt (splice file offset bytes) position = byteAt file position := by
  have front : (file.take offset ++ List.replicate (offset - file.length) 0).length = offset := by
    simp only [List.length_append, List.length_take, List.length_replicate]
    omega
  rcases outside with before | after
  · rw [byteAt, splice, List.append_assoc, List.getElem?_append_left (by omega)]
    by_cases present : position < file.length
    · rw [List.getElem?_append_left (by rw [List.length_take]; omega), List.getElem?_take_of_lt before]
      rfl
    · rw [byteAt_past (Nat.le_of_not_lt present),
        List.getElem?_append_right (by rw [List.length_take]; omega), List.getElem?_replicate]
      split <;> rfl
  · rw [byteAt, splice, List.getElem?_append_right (by rw [List.length_append, front]; omega),
      List.length_append, front, List.getElem?_drop, Nat.add_sub_cancel' after]
    rfl

@[simp] theorem window_length (file : Bytes) (offset count : Nat) : (window file offset count).length = count := by
  simp only [window, List.length_append, List.length_take, List.length_drop, List.length_replicate]
  omega

theorem window_getElem {file : Bytes} {offset count position : Nat} (inside : position < (window file offset count).length) :
    (window file offset count)[position] = byteAt file (offset + position) := by
  have bound : position < count := by
    rw [window_length] at inside
    exact inside
  apply Option.some.inj
  rw [← List.getElem?_eq_getElem, byteAt, window]
  by_cases present : offset + position < file.length
  · rw [List.getElem?_append_left (by rw [List.length_take, List.length_drop]; omega),
      List.getElem?_take_of_lt bound, List.getElem?_drop, List.getElem?_eq_getElem present, Option.getD_some]
  · rw [List.getElem?_append_right (by rw [List.length_take, List.length_drop]; omega),
      List.getElem?_eq_none (Nat.le_of_not_lt present), List.getElem?_replicate, Option.getD_none]
    rw [if_pos (by rw [List.length_take, List.length_drop]; omega)]

theorem window_splice_same (file : Bytes) (offset : Nat) (bytes : Bytes) :
    window (splice file offset bytes) offset bytes.length = bytes := by
  apply List.ext_getElem (window_length _ _ _)
  intro position inside bound
  rw [window_getElem, byteAt_splice_inside bound]

theorem window_splice_other {file bytes : Bytes} {offset other count : Nat}
    (apart : other + count ≤ offset ∨ offset + bytes.length ≤ other) :
    window (splice file offset bytes) other count = window file other count := by
  apply List.ext_getElem (by rw [window_length, window_length])
  intro position inside bound
  have short : position < count := by
    rw [window_length] at bound
    exact bound
  rw [window_getElem, window_getElem, byteAt_splice_outside (by omega)]

end QuorumDB.ByteFile
