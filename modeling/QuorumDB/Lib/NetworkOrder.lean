import QuorumDB.Lib.LittleEndian

/-!
Integers in network byte order: unsigned words of four bytes, pairs of them for eight,
and signed integers through their two's complement.
-/

namespace QuorumDB.NetworkOrder

/-- The unsigned word a signed integer is cast to. -/
def unsigned (bits : Nat) (value : Int) : Nat := (value % 2 ^ bits).toNat

def signed (bits : Nat) (word : Nat) : Int := Int.bmod word (2 ^ bits)

def Signed (bits : Nat) (value : Int) : Prop := -2 ^ (bits - 1) ≤ value ∧ value < 2 ^ (bits - 1)

instance (bits : Nat) (value : Int) : Decidable (Signed bits value) := inferInstanceAs (Decidable (_ ∧ _))

theorem two_pow_ne (bits : Nat) : (2 : Int) ^ bits ≠ 0 := Int.pow_ne_zero (by decide)

theorem two_pow_pos (bits : Nat) : (0 : Int) < 2 ^ bits := Int.pow_pos (by decide)

theorem unsigned_lt (bits : Nat) (value : Int) : unsigned bits value < 2 ^ bits := by
  have low := Int.emod_nonneg value (two_pow_ne bits)
  have high := Int.emod_lt_of_pos value (two_pow_pos bits)
  unfold unsigned
  rw [← Int.ofNat_lt, Int.toNat_of_nonneg low, Int.natCast_pow]
  exact high

theorem signed_unsigned {bits : Nat} {value : Int} (some : 0 < bits) (fits : Signed bits value) :
    signed bits (unsigned bits value) = value := by
  obtain ⟨low, high⟩ := fits
  have double : (2 : Int) ^ bits = 2 * 2 ^ (bits - 1) := by
    rw [← Int.pow_succ', Nat.sub_add_cancel some]
  have cast : ((2 ^ bits : Nat) : Int) = 2 ^ bits := Int.natCast_pow 2 bits
  unfold signed unsigned
  rw [Int.toNat_of_nonneg (Int.emod_nonneg value (two_pow_ne bits)), ← cast, Int.emod_bmod]
  refine Int.bmod_eq_of_le ?_ ?_
  · omega
  · omega

theorem unsigned_signed {bits word : Nat} (small : word < 2 ^ bits) : unsigned bits (signed bits word) = word := by
  have cast : ((2 ^ bits : Nat) : Int) = 2 ^ bits := Int.natCast_pow 2 bits
  rw [unsigned, signed, ← cast, Int.bmod_emod, ← Int.natCast_emod, Int.toNat_natCast, Nat.mod_eq_of_lt small]

theorem signed_fits {bits : Nat} (some : 0 < bits) (word : Nat) : Signed bits (signed bits word) := by
  have double : 2 ^ bits = 2 * 2 ^ (bits - 1) := by
    rw [← Nat.pow_succ', Nat.succ_eq_add_one, Nat.sub_add_cancel some]
  have cast : ((2 ^ (bits - 1) : Nat) : Int) = 2 ^ (bits - 1) := Int.natCast_pow 2 (bits - 1)
  have positive : 0 < 2 ^ bits := Nat.two_pow_pos bits
  have low := @Int.le_bmod word (2 ^ bits) positive
  have high := @Int.bmod_lt word (2 ^ bits) positive
  unfold Signed signed
  omega

/-- The four bytes of a word, highest first. A larger number is cut to its low 32 bits. -/
def u32Bytes (word : Nat) : Bytes := (LittleEndian.toBytes 4 word).reverse

def u64Bytes (word : Nat) : Bytes := u32Bytes (word / 2 ^ 32) ++ u32Bytes word

def readU32 (bytes : Bytes) : Nat × Bytes := (LittleEndian.ofBytes (bytes.take 4).reverse, bytes.drop 4)

def readU64 (bytes : Bytes) : Nat × Bytes :=
  ((readU32 bytes).1 * 2 ^ 32 + (readU32 (readU32 bytes).2).1, (readU32 (readU32 bytes).2).2)

@[simp] theorem u32Bytes_length (word : Nat) : (u32Bytes word).length = 4 := by
  rw [u32Bytes, List.length_reverse, LittleEndian.toBytes_length]

@[simp] theorem u64Bytes_length (word : Nat) : (u64Bytes word).length = 8 := by
  rw [u64Bytes, List.length_append, u32Bytes_length, u32Bytes_length]

theorem readU32_append (word : Nat) (rest : Bytes) : readU32 (u32Bytes word ++ rest) = (word % 2 ^ 32, rest) := by
  have size := u32Bytes_length word
  have width : (256 : Nat) ^ 4 = 2 ^ 32 := by decide
  rw [readU32, List.take_left' size, List.drop_left' size, u32Bytes, List.reverse_reverse,
    LittleEndian.ofBytes_toBytes, width]

theorem readU64_append {word : Nat} (small : word < 2 ^ 64) (rest : Bytes) :
    readU64 (u64Bytes word ++ rest) = (word, rest) := by
  have high : word / 2 ^ 32 % 2 ^ 32 = word / 2 ^ 32 := Nat.mod_eq_of_lt (by omega)
  rw [readU64, u64Bytes, List.append_assoc, readU32_append, readU32_append, high, Nat.div_add_mod']

theorem readU32_lt (bytes : Bytes) : (readU32 bytes).1 < 2 ^ 32 := by
  have bound := LittleEndian.ofBytes_lt (bytes.take 4).reverse
  rw [List.length_reverse] at bound
  exact Nat.lt_of_lt_of_le bound (Nat.pow_le_pow_right (by decide) (List.length_take_le 4 bytes))

theorem readU64_lt (bytes : Bytes) : (readU64 bytes).1 < 2 ^ 64 := by
  have high := readU32_lt bytes
  have low := readU32_lt (readU32 bytes).2
  rw [readU64]
  omega

theorem u32Bytes_mod (word : Nat) : u32Bytes (word % 2 ^ 32) = u32Bytes word := by
  have width : (2 : Nat) ^ 32 = 256 ^ 4 := by decide
  rw [u32Bytes, width, LittleEndian.toBytes_mod, u32Bytes]

theorem u32Bytes_readU32 {bytes : Bytes} (long : 4 ≤ bytes.length) : u32Bytes (readU32 bytes).1 = bytes.take 4 := by
  have whole := LittleEndian.toBytes_ofBytes (bytes.take 4).reverse
  rw [List.length_reverse, List.length_take, Nat.min_eq_left long] at whole
  rw [u32Bytes, readU32, whole, List.reverse_reverse]

theorem u64Bytes_readU64 {bytes : Bytes} (long : 8 ≤ bytes.length) : u64Bytes (readU64 bytes).1 = bytes.take 8 := by
  have small := readU32_lt (readU32 bytes).2
  have front : 4 ≤ bytes.length := by omega
  have back : 4 ≤ (readU32 bytes).2.length := by
    rw [readU32, List.length_drop]
    omega
  have high : ((readU32 bytes).1 * 2 ^ 32 + (readU32 (readU32 bytes).2).1) / 2 ^ 32 = (readU32 bytes).1 := by omega
  have low : u32Bytes ((readU32 bytes).1 * 2 ^ 32 + (readU32 (readU32 bytes).2).1) =
      u32Bytes (readU32 (readU32 bytes).2).1 := by
    rw [← u32Bytes_mod, Nat.mul_add_mod_self_right, Nat.mod_eq_of_lt small]
  rw [u64Bytes, readU64, high, low, u32Bytes_readU32 front, u32Bytes_readU32 back, readU32]
  exact List.take_add.symm

@[simp] theorem readU32_snd_length (bytes : Bytes) : (readU32 bytes).2.length = bytes.length - 4 :=
  List.length_drop

end QuorumDB.NetworkOrder
