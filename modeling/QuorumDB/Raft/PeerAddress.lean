import QuorumDB.Lib.Decimal

/-!
Addresses of peers (`RaftNode::ParsePeerAddress`), and the host and service that SendMessage looks up
for one (`rpc/rpc_client.cpp`).
-/

namespace QuorumDB.Raft
open Decimal

def colon : UInt8 := 0x3a

/-- `std::string::rfind` of one byte: the position of the last one. -/
def rfind (byte : UInt8) : Bytes → Option Nat
  | [] => none
  | first :: rest =>
      match rfind byte rest with
      | some position => some (position + 1)
      | none => if first = byte then some 0 else none

/-- The host and the port. The pointers for the results are never null where it is called. -/
def parsePeerAddress (address : Bytes) : Option (Bytes × Int) :=
  match rfind colon address with
  | none => none
  | some separator =>
      if separator = 0 ∨ separator + 1 = address.length then none
      else match stoi (address.drop (separator + 1)) with
        | none => none
        | some port => if port ≤ 0 ∨ port > 65535 then none else some (address.take separator, port)

def cString (text : Bytes) : Bytes := text.takeWhile fun byte => byte ≠ 0

/-- What SendMessage asks `getaddrinfo` for, unless it refuses the port. -/
def lookup (host : Bytes) (port : Int) : Option (Bytes × Bytes) :=
  if port ≤ 0 ∨ port > 65535 then none else some (cString host, toDecimal port.toNat)

theorem cString_eq_self {text : Bytes} : cString text = text ↔ 0 ∉ text := by
  rw [cString, List.takeWhile_eq_self_iff]
  constructor
  · intro every zero
    exact of_decide_eq_true (every 0 zero) rfl
  · intro absent byte inside
    exact decide_eq_true fun zero => absent (zero ▸ inside)

theorem zero_notMem_cString (text : Bytes) : 0 ∉ cString text := by
  intro zero
  have met := List.mem_takeWhile_imp zero
  exact of_decide_eq_true met rfl

theorem cString_cases (text : Bytes) : cString text = text ∨ cString text ++ [0] <+: text := by
  induction text with
  | nil => exact .inl rfl
  | cons byte rest ih =>
    by_cases zero : byte = 0
    · right
      subst zero
      exact ⟨rest, rfl⟩
    · have kept : cString (byte :: rest) = byte :: cString rest := List.takeWhile_cons_of_pos (decide_eq_true zero)
      rw [kept, List.cons_append, List.cons_prefix_cons]
      exact ih.imp (congrArg (byte :: ·)) fun cut => ⟨rfl, cut⟩

theorem rfind_none {byte : UInt8} {text : Bytes} : rfind byte text = none ↔ byte ∉ text := by
  induction text with
  | nil => simp [rfind]
  | cons first rest ih =>
    rw [List.mem_cons, not_or, ← ih, rfind]
    cases rfind byte rest with
    | some position => simp
    | none => simp [eq_comm]

theorem rfind_last {byte : UInt8} (front : Bytes) {text : Bytes} (absent : byte ∉ text) :
    rfind byte (front ++ byte :: text) = some front.length := by
  induction front with
  | nil => simp [rfind, rfind_none.mpr absent]
  | cons first rest ih => simp [rfind, ih]

theorem rfind_some {byte : UInt8} {text : Bytes} {position : Nat} (found : rfind byte text = some position) :
    text = text.take position ++ byte :: text.drop (position + 1) ∧ byte ∉ text.drop (position + 1) ∧ position < text.length := by
  induction text generalizing position with
  | nil => cases found
  | cons first rest ih =>
    unfold rfind at found
    split at found
    next inner further =>
      obtain rfl := Option.some.inj found
      obtain ⟨whole, absent, inside⟩ := ih further
      refine ⟨?_, absent, Nat.succ_lt_succ inside⟩
      rw [List.take_succ_cons, List.cons_append, List.drop_succ_cons, ← whole]
    next further =>
      split_ifs at found with here
      obtain rfl := Option.some.inj found
      exact ⟨by rw [here]; rfl, rfind_none.mp further, Nat.succ_pos _⟩

theorem parsePeerAddress_some {address host : Bytes} {port : Int} (parsed : parsePeerAddress address = some (host, port)) :
    ∃ text, address = host ++ colon :: text ∧ host ≠ [] ∧ colon ∉ text ∧ Spells text port ∧ 0 < port ∧ port ≤ 65535 := by
  unfold parsePeerAddress at parsed
  split at parsed
  · cases parsed
  next separator found =>
    obtain ⟨whole, absent, inside⟩ := rfind_some found
    split_ifs at parsed with empty
    split at parsed
    · cases parsed
    next value read =>
      split_ifs at parsed with outside
      obtain ⟨rfl, rfl⟩ := Prod.mk.inj (Option.some.inj parsed)
      have spelled := (stoi_eq_some.mp read).1
      refine ⟨address.drop (separator + 1), whole, ?_, absent, spelled, by omega, by omega⟩
      intro blank
      have length := congrArg List.length blank
      rw [List.length_take, List.length_nil] at length
      omega

theorem parsePeerAddress_spelled {host text : Bytes} {port : Int} (named : host ≠ []) (absent : colon ∉ text)
    (spells : Spells text port) (low : 0 < port) (high : port ≤ 65535) :
    parsePeerAddress (host ++ colon :: text) = some (host, port) := by
  have some : text ≠ [] := by
    rintro rfl
    obtain ⟨digits, negative, spelling, -⟩ := spells
    obtain ⟨spaces, sign, rest, whole, -⟩ := spelling.parts
    simp only [List.nil_eq, List.append_eq_nil_iff] at whole
    exact spelling.some whole.2.2.1
  have hosted := List.length_pos_of_ne_nil named
  have written := List.length_pos_of_ne_nil some
  have number : stoi text = .some port := by
    rw [stoi_eq_some]
    exact ⟨spells, by constructor <;> norm_num <;> omega⟩
  have rest : (host ++ colon :: text).drop (host.length + 1) = text := by simp [List.drop_append]
  have front : (host ++ colon :: text).take host.length = host := List.take_left
  unfold parsePeerAddress
  simp only [rfind_last host absent, rest, front, number, List.length_append, List.length_cons]
  rw [if_neg (by omega), if_neg (by omega)]

/-- An address is accepted exactly when something stands before its last colon, and after it, in
decimal, a port. Spaces and one sign may come before the digits, and anything after them. What was
accepted is not refused by SendMessage; the service it looks up makes the same address with the host again,
and the host it looks up is that host up to its first zero byte. -/
theorem parsePeerAddress_exact (address host : Bytes) (port : Int) :
    (parsePeerAddress address = some (host, port) ↔ ∃ text, address = host ++ colon :: text ∧ host ≠ [] ∧ colon ∉ text ∧
      Spells text port ∧ 0 < port ∧ port ≤ 65535) ∧
    (parsePeerAddress address = some (host, port) → ∃ looked service, lookup host port = some (looked, service) ∧
      parsePeerAddress (host ++ colon :: service) = some (host, port) ∧
        0 ∉ looked ∧ (looked = host ∨ looked ++ [0] <+: host) ∧ (looked = host ↔ 0 ∉ host)) := by
  have exact : parsePeerAddress address = some (host, port) ↔ ∃ text, address = host ++ colon :: text ∧ host ≠ [] ∧
      colon ∉ text ∧ Spells text port ∧ 0 < port ∧ port ≤ 65535 := by
    constructor
    · exact parsePeerAddress_some
    · rintro ⟨text, rfl, named, absent, spells, low, high⟩
      exact parsePeerAddress_spelled named absent spells low high
  refine ⟨exact, fun parsed => ?_⟩
  obtain ⟨text, -, named, -, -, low, high⟩ := exact.mp parsed
  obtain ⟨-, digits⟩ := toDecimal_digits port.toNat
  have absent : colon ∉ toDecimal port.toNat := by
    intro present
    exact absurd (digits colon present) (by decide)
  have spells : Spells (toDecimal port.toNat) port := by
    have whole := spells_toDecimal port.toNat
    rw [Int.toNat_of_nonneg (Int.le_of_lt low)] at whole
    exact whole
  exact ⟨cString host, toDecimal port.toNat, if_neg (by omega), parsePeerAddress_spelled named absent spells low high,
    zero_notMem_cString host, cString_cases host, cString_eq_self⟩

/-- Spaces, a sign and a tail are passed over. Another colon is part of the host. -/
example : parsePeerAddress [0x3a, 0x61, 0x3a, 0x20, 0x2b, 0x38, 0x30, 0x78] = some ([0x3a, 0x61], 80) := by decide

end QuorumDB.Raft
