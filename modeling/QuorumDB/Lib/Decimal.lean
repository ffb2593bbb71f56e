import QuorumDB.Lib.Bytes
import QuorumDB.Lib.NetworkOrder
import Mathlib.Data.List.TakeWhile
import Mathlib.Data.Nat.Digits.Defs

/-!
Decimal numbers in text: `std::to_string` and `std::stoi`, which skips spaces, takes a sign, and
stops at the first byte that is not a digit.
-/

namespace QuorumDB.Decimal
open NetworkOrder

def plus : UInt8 := 0x2b

def minus : UInt8 := 0x2d

/-- `std::isspace` in the C locale. -/
def isSpace (byte : UInt8) : Bool :=
  byte.toNat = 0x20 ∨ 0x09 ≤ byte.toNat ∧ byte.toNat ≤ 0x0d

def isDigit (byte : UInt8) : Bool :=
  0x30 ≤ byte.toNat ∧ byte.toNat ≤ 0x39

def number (digits : Bytes) : Nat :=
  digits.foldl (fun value digit => 10 * value + (digit.toNat - 0x30)) 0

def readSign : Bytes → Bool × Bytes
  | [] => (false, [])
  | first :: rest =>
      if first = minus then (true, rest) else if first = plus then (false, rest) else (false, first :: rest)

def signed (negative : Bool) (value : Nat) : Int :=
  if negative then -value else value

/-- `std::stoi` in base ten. It throws where there is no digit and where the number is not an `int`. -/
def stoi (text : Bytes) : Option Int :=
  let (negative, unsigned) := readSign (text.dropWhile isSpace)
  let digits := unsigned.takeWhile isDigit
  if digits = [] then none
  else if Signed 32 (signed negative (number digits)) then some (signed negative (number digits)) else none

def toDecimal (value : Nat) : Bytes :=
  if value = 0 then [0x30] else (Nat.digits 10 value).reverse.map fun digit => UInt8.ofNat (0x30 + digit)

/-- A text that starts, after spaces, with a sign or none and these digits, and no further digit. -/
structure Spelling (text digits : Bytes) (negative : Bool) : Prop where
  parts : ∃ spaces sign rest, text = spaces ++ (sign ++ (digits ++ rest)) ∧ (∀ byte ∈ spaces, isSpace byte) ∧
    (sign = [] ∧ negative = false ∨ sign = [plus] ∧ negative = false ∨ sign = [minus] ∧ negative = true) ∧
    ∀ byte ∈ rest.head?, isDigit byte = false
  some : digits ≠ []
  all : ∀ byte ∈ digits, isDigit byte

def Spells (text : Bytes) (value : Int) : Prop :=
  ∃ digits negative, Spelling text digits negative ∧ value = signed negative (number digits)

theorem space_not_digit {byte : UInt8} (digit : isDigit byte = true) :
    isSpace byte = false ∧ byte ≠ plus ∧ byte ≠ minus := by
  have range := of_decide_eq_true digit
  refine ⟨decide_eq_false (by omega), ?_, ?_⟩
  · rintro rfl
    exact absurd range (by decide)
  · rintro rfl
    exact absurd range (by decide)

theorem takeWhile_stops {test : UInt8 → Bool} {front rest : Bytes} (all : ∀ byte ∈ front, test byte)
    (stops : ∀ byte ∈ rest.head?, test byte = false) :
    (front ++ rest).takeWhile test = front ∧ (front ++ rest).dropWhile test = rest := by
  rw [List.takeWhile_append_of_pos all, List.dropWhile_append_of_pos all]
  cases rest with
  | nil => simp
  | cons next others => simp [stops next rfl]

theorem readSign_digits {digits rest : Bytes} (some : digits ≠ []) (all : ∀ byte ∈ digits, isDigit byte) :
    readSign (digits ++ rest) = (false, digits ++ rest) := by
  obtain ⟨first, others, rfl⟩ := List.exists_cons_of_ne_nil some
  obtain ⟨-, notPlus, notMinus⟩ := space_not_digit (all first List.mem_cons_self)
  simp [readSign, notPlus, notMinus]

theorem Spelling.read {text digits : Bytes} {negative : Bool} (spelling : Spelling text digits negative) :
    ∃ unsigned, readSign (text.dropWhile isSpace) = (negative, unsigned) ∧ unsigned.takeWhile isDigit = digits := by
  obtain ⟨spaces, sign, rest, rfl, blank, signs, stops⟩ := spelling.parts
  have unspaced : ∀ byte ∈ (sign ++ (digits ++ rest)).head?, isSpace byte = false := by
    obtain ⟨first, others, same⟩ := List.exists_cons_of_ne_nil spelling.some
    have digit := spelling.all first (same ▸ List.mem_cons_self)
    rcases signs with ⟨rfl, -⟩ | ⟨rfl, -⟩ | ⟨rfl, -⟩
    · rw [same]
      rintro byte ⟨⟩
      exact (space_not_digit digit).1
    · rintro byte ⟨⟩
      decide
    · rintro byte ⟨⟩
      decide
  rw [(takeWhile_stops blank unspaced).2]
  refine ⟨digits ++ rest, ?_, (takeWhile_stops spelling.all stops).1⟩
  rcases signs with ⟨rfl, rfl⟩ | ⟨rfl, rfl⟩ | ⟨rfl, rfl⟩
  · change readSign (digits ++ rest) = _
    exact readSign_digits spelling.some spelling.all
  · simp [readSign, plus, minus]
  · simp [readSign]

theorem readSign_parts (text : Bytes) : ∃ sign, sign ++ (readSign text).2 = text ∧
    (sign = [] ∧ (readSign text).1 = false ∨ sign = [plus] ∧ (readSign text).1 = false ∨
      sign = [minus] ∧ (readSign text).1 = true) := by
  cases text with
  | nil => exact ⟨[], rfl, .inl ⟨rfl, rfl⟩⟩
  | cons first rest =>
    by_cases negative : first = minus
    · exact ⟨[minus], by simp [readSign, negative], .inr (.inr ⟨rfl, by simp [readSign, negative]⟩)⟩
    · by_cases positive : first = plus
      · exact ⟨[plus], by simp [readSign, positive, plus, minus], .inr (.inl ⟨rfl, by simp [readSign, positive, plus, minus]⟩)⟩
      · exact ⟨[], by simp [readSign, negative, positive], .inl ⟨rfl, by simp [readSign, negative, positive]⟩⟩

theorem spelling_read (text : Bytes) (some : (readSign (text.dropWhile isSpace)).2.takeWhile isDigit ≠ []) :
    Spelling text ((readSign (text.dropWhile isSpace)).2.takeWhile isDigit) (readSign (text.dropWhile isSpace)).1 := by
  have blank : ∀ byte ∈ text.takeWhile isSpace, isSpace byte := fun byte member => List.mem_takeWhile_imp member
  have halves : text.takeWhile isSpace ++ text.dropWhile isSpace = text := List.takeWhile_append_dropWhile
  obtain ⟨sign, whole, signs⟩ := readSign_parts (text.dropWhile isSpace)
  generalize readSign (text.dropWhile isSpace) = read at *
  have numbers : read.2.takeWhile isDigit ++ read.2.dropWhile isDigit = read.2 := List.takeWhile_append_dropWhile
  refine ⟨⟨text.takeWhile isSpace, sign, read.2.dropWhile isDigit, ?_, blank, signs, fun byte first => ?_⟩, some,
    fun byte member => List.mem_takeWhile_imp member⟩
  · rw [numbers, whole, halves]
  · have stops := List.head?_dropWhile_not isDigit read.2
    rw [first] at stops
    exact stops

theorem stoi_eq_some {text : Bytes} {value : Int} : stoi text = some value ↔ Spells text value ∧ Signed 32 value := by
  constructor
  · intro read
    unfold stoi at read
    simp only at read
    split_ifs at read with none fits
    obtain rfl := Option.some.inj read
    exact ⟨⟨_, _, spelling_read text none, rfl⟩, fits⟩
  · rintro ⟨⟨digits, negative, spelling, rfl⟩, fits⟩
    obtain ⟨unsigned, sign, digital⟩ := spelling.read
    unfold stoi
    simp only [sign, digital]
    rw [if_neg spelling.some, if_pos fits]

theorem digit_byte {digit : Nat} (small : digit < 10) :
    isDigit (UInt8.ofNat (0x30 + digit)) = true ∧ (UInt8.ofNat (0x30 + digit)).toNat - 0x30 = digit := by
  have value : (UInt8.ofNat (0x30 + digit)).toNat = 0x30 + digit := by
    rw [UInt8.toNat_ofNat']
    omega
  constructor
  · apply decide_eq_true
    omega
  · omega

theorem toDecimal_digits (value : Nat) : toDecimal value ≠ [] ∧ ∀ byte ∈ toDecimal value, isDigit byte = true := by
  unfold toDecimal
  by_cases zero : value = 0
  · rw [if_pos zero]
    refine ⟨List.cons_ne_nil _ _, fun byte member => ?_⟩
    rw [List.mem_singleton.mp member]
    decide
  · rw [if_neg zero]
    refine ⟨?_, fun byte member => ?_⟩
    · simpa using Nat.digits_ne_nil_iff_ne_zero.mpr zero
    · obtain ⟨digit, listed, rfl⟩ := List.mem_map.mp member
      exact (digit_byte (Nat.digits_lt_base (by decide) (List.mem_reverse.mp listed))).1

theorem number_toDecimal (value : Nat) : number (toDecimal value) = value := by
  unfold toDecimal
  by_cases zero : value = 0
  · rw [if_pos zero, zero]
    rfl
  · rw [if_neg zero]
    have spelled : ∀ digits : List Nat, (∀ digit ∈ digits, digit < 10) →
        number (digits.reverse.map fun digit => UInt8.ofNat (0x30 + digit)) = Nat.ofDigits 10 digits := by
      intro digits
      induction digits with
      | nil => exact fun _ => rfl
      | cons last rest ih =>
        intro small
        have before := ih fun digit member => small digit (List.mem_cons_of_mem _ member)
        unfold number at before ⊢
        rw [List.reverse_cons, List.map_append, List.foldl_append, before, Nat.ofDigits_cons]
        change 10 * Nat.ofDigits 10 rest + ((UInt8.ofNat (0x30 + last)).toNat - 0x30) = _
        rw [(digit_byte (small last List.mem_cons_self)).2, Nat.add_comm]
    rw [spelled _ fun digit member => Nat.digits_lt_base (by decide) member, Nat.ofDigits_digits]

theorem spells_toDecimal (value : Nat) : Spells (toDecimal value) value := by
  obtain ⟨some, all⟩ := toDecimal_digits value
  refine ⟨toDecimal value, false, ⟨⟨[], [], [], ?_, nofun, .inl ⟨rfl, rfl⟩, nofun⟩, some, all⟩, ?_⟩
  · rw [List.append_nil]
    rfl
  · rw [number_toDecimal]
    rfl

end QuorumDB.Decimal
