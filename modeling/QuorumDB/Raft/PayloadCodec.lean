import QuorumDB.Lib.Cursor
import QuorumDB.Raft.Payload

/-!
The payload of an AppendEntries request with its buffers and offsets (`raft/log_entry.h`), and
which strings the decoder takes that no request is written as.
-/

namespace QuorumDB.Raft
open NetworkOrder Cursor

namespace Buffered

def entryWrites (entry : LogEntry) : List Bytes :=
  u32Bytes (unsigned 32 entry.term) :: u64Writes (unsigned 64 entry.index) ++
    [u32Bytes entry.command.length, entry.command]

/-- The size is computed first, the loop over the entries adding to it. -/
def serializeAppendEntriesPayload (args : AppendEntriesArgs) : Option Bytes :=
  fill (args.entries.foldl (fun size entry => size + (16 + entry.command.length)) 28)
    (u64Writes (unsigned 64 args.prevLogIndex) ++ u32Bytes (unsigned 32 args.prevLogTerm) ::
      (u64Writes (unsigned 64 args.leaderCommit) ++ u32Bytes args.entries.length ::
        args.entries.flatMap entryWrites))

/-- The loop over the entries. -/
def readEntries (bytes : Bytes) : Nat → Reader (Option (List LogEntry))
  | 0 => return some []
  | count + 1 => do
      if (← get) + 16 > bytes.length then return none
      let term ← loadU32 bytes
      let index ← loadU64 bytes
      let commandLength ← loadU32 bytes
      if (← get) + commandLength > bytes.length then return none
      let command ← load bytes commandLength
      let others ← readEntries bytes count
      return others.map (⟨signed 32 term, signed 64 index, command⟩ :: ·)

def readPayload (bytes : Bytes) : Reader (Option AppendEntriesArgs) := do
  let prevLogIndex ← loadU64 bytes
  let prevLogTerm ← loadU32 bytes
  let leaderCommit ← loadU64 bytes
  let entriesCount ← loadU32 bytes
  let entries ← readEntries bytes entriesCount
  return entries.map fun entries =>
    ⟨signed 64 prevLogIndex, signed 32 prevLogTerm, signed 64 leaderCommit, entries⟩

def deserializeAppendEntriesPayload (bytes : Bytes) : Option (Option AppendEntriesArgs) :=
  if bytes.length < 24 then some none else (readPayload bytes).run' 0

theorem entryWrites_flatten (entry : LogEntry) : (entryWrites entry).flatten = entryBytes entry := by
  simp [entryWrites, entryBytes, u64Writes_flatten]

theorem flatMap_entryWrites_flatten (entries : List LogEntry) :
    (entries.flatMap entryWrites).flatten = entries.flatMap entryBytes := by
  induction entries with
  | nil => rfl
  | cons entry entries ih =>
    rw [List.flatMap_cons, List.flatten_append, entryWrites_flatten, ih, List.flatMap_cons]

theorem foldl_size (entries : List LogEntry) (start : Nat) :
    entries.foldl (fun size entry => size + (16 + entry.command.length)) start = start + entriesSize entries := by
  induction entries generalizing start with
  | nil => rfl
  | cons entry entries ih =>
    have sum : entriesSize (entry :: entries) = 16 + entry.command.length + entriesSize entries := List.sum_cons
    rw [List.foldl_cons, ih, sum]
    omega

/-- The writes end four bytes before the end of the string made for them. -/
theorem serializeAppendEntriesPayload_eq (args : AppendEntriesArgs) :
    serializeAppendEntriesPayload args = some (Raft.serializeAppendEntriesPayload args) := by
  have writes : (u64Writes (unsigned 64 args.prevLogIndex) ++ u32Bytes (unsigned 32 args.prevLogTerm) ::
      (u64Writes (unsigned 64 args.leaderCommit) ++ u32Bytes args.entries.length ::
        args.entries.flatMap entryWrites)).flatten = payloadBytes args := by
    simp only [List.flatten_append, List.flatten_cons, u64Writes_flatten, flatMap_entryWrites_flatten, payloadBytes]
  have left : 28 + entriesSize args.entries - (24 + entriesSize args.entries) = 4 := by omega
  rw [serializeAppendEntriesPayload, foldl_size, fill_eq, writes, payloadBytes_length, if_pos (by omega), left,
    serialize_payloadBytes]

theorem readEntries_run {bytes : Bytes} (count : Nat) {offset : Nat} (inside : offset ≤ bytes.length) :
    ∃ later, (readEntries bytes count).run offset = some (Raft.readEntries count (bytes.drop offset), later) := by
  induction count generalizing offset with
  | zero => exact ⟨offset, rfl⟩
  | succ count ih =>
    rw [readEntries, Raft.readEntries, Raft.readEntry]
    simp only [StateT.run_bind, StateT.run_get, Option.bind_eq_bind, Option.bind_some, Option.pure_def]
    rw [List.length_drop]
    by_cases header : offset + 16 > bytes.length
    · rw [if_pos header, if_pos (by omega)]
      exact ⟨offset, rfl⟩
    · rw [if_neg header, if_neg (by omega)]
      simp (disch := omega) only [StateT.run_bind, StateT.run_get, loadU32_run, loadU64_run, Option.bind_eq_bind,
        Option.bind_some, Option.pure_def, fixed_readU32.rest, readU64_rest, List.drop_drop, List.length_drop,
        Nat.add_assoc, Nat.reduceAdd]
      generalize (readU32 (bytes.drop (offset + 12))).1 = commandLength
      by_cases missing : offset + (16 + commandLength) > bytes.length
      · rw [if_pos missing, if_pos (by omega)]
        exact ⟨_, rfl⟩
      · have behind : offset + (16 + commandLength) ≤ bytes.length := Nat.le_of_not_lt missing
        obtain ⟨later, others⟩ := ih behind
        rw [if_neg missing, if_neg (by omega)]
        simp (disch := omega) only [StateT.run_bind, load_run, Nat.add_assoc, others, Option.bind_eq_bind,
          Option.bind_some, StateT.run_pure]
        exact ⟨later, rfl⟩

theorem readPayload_eq {bytes : Bytes} (long : ¬ bytes.length < 24) :
    (readPayload bytes).run' 0 = some (Raft.deserializeAppendEntriesPayload bytes) := by
  have inside : 24 ≤ bytes.length := Nat.le_of_not_lt long
  obtain ⟨later, entries⟩ := readEntries_run (readU32 (bytes.drop 20)).1 inside
  unfold readPayload Raft.deserializeAppendEntriesPayload
  rw [if_neg long]
  simp (disch := omega) only [StateT.run'_eq, StateT.run_bind, loadU32_run, loadU64_run, Option.bind_eq_bind,
    Option.bind_some, Nat.zero_add, Nat.reduceAdd, fixed_readU32.rest, readU64_rest, List.drop_drop, List.drop_zero,
    entries, StateT.run_pure]
  rfl

theorem deserializeAppendEntriesPayload_eq (bytes : Bytes) :
    deserializeAppendEntriesPayload bytes = some (Raft.deserializeAppendEntriesPayload bytes) := by
  by_cases short : bytes.length < 24
  · rw [deserializeAppendEntriesPayload, if_pos short, Raft.deserializeAppendEntriesPayload, if_pos short]
  · rw [deserializeAppendEntriesPayload, if_neg short, readPayload_eq short]

end Buffered

section Exact

def behindEntries : Nat → Bytes → Option Bytes
  | 0, bytes => some bytes
  | count + 1, bytes =>
      if bytes.length < 16 then none
      else if bytes.length - 16 < (readU32 (bytes.drop 12)).1 then none
      else behindEntries count (bytes.drop (16 + (readU32 (bytes.drop 12)).1))

/-- The bytes behind the entries a payload announces, unless these run past its end. -/
def behindPayload (bytes : Bytes) : Option Bytes :=
  if bytes.length < 24 then none else behindEntries (readU32 (bytes.drop 20)).1 (bytes.drop 24)

variable {bytes : Bytes} {args : AppendEntriesArgs}

theorem readEntry_cases (bytes : Bytes) :
    ((bytes.length < 16 ∨ bytes.length - 16 < (readU32 (bytes.drop 12)).1) ∧ readEntry bytes = none) ∨
    ∃ entry : LogEntry, ¬ bytes.length < 16 ∧ ¬ bytes.length - 16 < (readU32 (bytes.drop 12)).1 ∧
      readEntry bytes = some (entry, bytes.drop (16 + (readU32 (bytes.drop 12)).1)) ∧
      entryBytes entry ++ bytes.drop (16 + (readU32 (bytes.drop 12)).1) = bytes ∧ entry.Typed ∧
      entry.command.length < 2 ^ 32 := by
  unfold readEntry
  simp only [fixed_readU32.rest, readU64_rest, List.drop_drop, Nat.reduceAdd, List.length_drop]
  by_cases short : bytes.length < 16
  · rw [if_pos short]
    exact .inl ⟨.inl short, rfl⟩
  · rw [if_neg short]
    by_cases missing : bytes.length - 16 < (readU32 (bytes.drop 12)).1
    · rw [if_pos missing]
      exact .inl ⟨.inr missing, rfl⟩
    · rw [if_neg missing]
      have size : ((bytes.drop 16).take (readU32 (bytes.drop 12)).1).length = (readU32 (bytes.drop 12)).1 := by
        rw [List.length_take, List.length_drop, Nat.min_eq_left (Nat.le_of_not_lt missing)]
      have small := readU32_lt (bytes.drop 12)
      have term := @u32Bytes_readU32 bytes (by omega)
      have index := u64Bytes_readU64 (le_length_drop (by omega : 4 + 8 ≤ bytes.length))
      have length := u32Bytes_readU32 (le_length_drop (by omega : 12 + 4 ≤ bytes.length))
      refine .inr ⟨_, short, missing, rfl, ?_, ⟨?_, ?_⟩, ?_⟩
      · simp only [entryBytes, List.append_assoc, unsigned_signed (readU32_lt _), unsigned_signed (readU64_lt _), size]
        rw [term, index, length, LittleEndian.take_append_next rfl, LittleEndian.take_append_next (by rfl),
          LittleEndian.take_append_next (by rfl), List.take_append_drop]
      · dsimp only
        exact signed_fits (by decide) _
      · dsimp only
        exact signed_fits (by decide) _
      · rw [size]
        exact small

theorem readEntries_cases (count : Nat) (bytes : Bytes) :
    (behindEntries count bytes = none ∧ readEntries count bytes = none) ∨
    ∃ tail entries, behindEntries count bytes = some tail ∧ readEntries count bytes = some entries ∧
      entries.flatMap entryBytes ++ tail = bytes ∧ entries.length = count ∧
      ∀ entry ∈ entries, entry.Typed ∧ entry.command.length < 2 ^ 32 := by
  induction count generalizing bytes with
  | zero => exact .inr ⟨bytes, [], rfl, rfl, rfl, rfl, fun entry inside => nomatch inside⟩
  | succ count ih =>
    rw [behindEntries, readEntries]
    rcases readEntry_cases bytes with ⟨outside, none⟩ | ⟨entry, short, missing, read, split, typed, small⟩
    · rw [none]
      rcases outside with short | missing
      · exact .inl ⟨if_pos short, rfl⟩
      · exact .inl ⟨by rw [if_pos missing, ite_self], rfl⟩
    · rw [if_neg short, if_neg missing, read]
      rcases ih (bytes.drop (16 + (readU32 (bytes.drop 12)).1)) with ⟨none, refused⟩ | ⟨tail, entries, behind, others, rest, length, all⟩
      · left
        simp only [none, refused, Option.map_none, and_self]
      · simp only [behind, others, Option.map_some]
        refine .inr ⟨tail, entry :: entries, rfl, rfl, ?_, ?_, ?_⟩
        · rw [List.flatMap_cons, List.append_assoc, rest, split]
        · rw [List.length_cons, length]
        · intro other inside
          rcases List.mem_cons.mp inside with rfl | later
          · exact ⟨typed, small⟩
          · exact all other later

/-- A string is refused, or is what is written for the request read from it and a tail. -/
theorem deserializeAppendEntriesPayload_cases (bytes : Bytes) :
    (behindPayload bytes = none ∧ deserializeAppendEntriesPayload bytes = none) ∨
    ∃ tail args, behindPayload bytes = some tail ∧ deserializeAppendEntriesPayload bytes = some args ∧
      payloadBytes args ++ tail = bytes ∧ args.Typed ∧ args.Short := by
  unfold behindPayload deserializeAppendEntriesPayload
  by_cases short : bytes.length < 24
  · exact .inl ⟨if_pos short, if_pos short⟩
  · rw [if_neg short, if_neg short]
    simp only [fixed_readU32.rest, readU64_rest, List.drop_drop, Nat.reduceAdd]
    rcases readEntries_cases (readU32 (bytes.drop 20)).1 (bytes.drop 24) with
      ⟨none, refused⟩ | ⟨tail, entries, behind, read, rest, length, all⟩
    · exact .inl ⟨none, by rw [refused, Option.map_none]⟩
    · have prevLogIndex := @u64Bytes_readU64 bytes (by omega)
      have prevLogTerm := u32Bytes_readU32 (le_length_drop (by omega : 8 + 4 ≤ bytes.length))
      have leaderCommit := u64Bytes_readU64 (le_length_drop (by omega : 12 + 8 ≤ bytes.length))
      have count := u32Bytes_readU32 (le_length_drop (by omega : 20 + 4 ≤ bytes.length))
      rw [read, Option.map_some]
      refine .inr ⟨tail, _, behind, rfl, ?_, ⟨?_, ?_, ?_, ?_⟩, ⟨?_, ?_⟩⟩
      · simp only [payloadBytes, List.append_assoc, unsigned_signed (readU32_lt _), unsigned_signed (readU64_lt _), length]
        rw [prevLogIndex, prevLogTerm, leaderCommit, count, rest, LittleEndian.take_append_next rfl,
          LittleEndian.take_append_next (by rfl), LittleEndian.take_append_next (by rfl), List.take_append_drop]
      · dsimp only
        exact signed_fits (by decide) _
      · dsimp only
        exact signed_fits (by decide) _
      · dsimp only
        exact signed_fits (by decide) _
      · exact fun entry inside => (all entry inside).1
      · dsimp only
        rw [length]
        exact readU32_lt _
      · exact fun entry inside => (all entry inside).2

theorem behindPayload_payloadBytes (typed : args.Typed) (short : args.Short) (tail : Bytes) :
    behindPayload (payloadBytes args ++ tail) = some tail := by
  have read := deserialize_payloadBytes typed short tail
  rcases deserializeAppendEntriesPayload_cases (payloadBytes args ++ tail) with
    ⟨-, refused⟩ | ⟨other, found, behind, same, whole, -, -⟩
  · rw [refused] at read
    cases read
  · rw [read] at same
    obtain rfl := Option.some.inj same
    rw [behind, List.append_cancel_left whole]

theorem deserializeAppendEntriesPayload_isSome :
    (deserializeAppendEntriesPayload bytes).isSome = (behindPayload bytes).isSome := by
  rcases deserializeAppendEntriesPayload_cases bytes with ⟨none, refused⟩ | ⟨tail, args, behind, read, -⟩
  · rw [none, refused]
    rfl
  · rw [behind, read]
    rfl

/-- What is written for a request whose counts do not fit 32 bits. -/
def Oversized (bytes : Bytes) : Prop :=
  ∃ args : AppendEntriesArgs, args.Typed ∧ ¬ args.Short ∧ serializeAppendEntriesPayload args = bytes

/-- Such a string is longer than 4 GiB. -/
theorem Oversized.long (oversized : Oversized bytes) : 2 ^ 32 + 28 ≤ bytes.length := by
  obtain ⟨args, -, many, rfl⟩ := oversized
  rw [serializeAppendEntriesPayload_length]
  by_contra less
  exact many (AppendEntriesArgs.short_of_size (by omega))

theorem serialized_iff (fits : ¬ Oversized bytes) :
    (∃ args : AppendEntriesArgs, args.Typed ∧ serializeAppendEntriesPayload args = bytes) ↔
      behindPayload bytes = some (List.replicate 4 0) := by
  constructor
  · rintro ⟨args, typed, written⟩
    have short : args.Short := by
      by_contra many
      exact fits ⟨args, typed, many, written⟩
    rw [← written, serialize_payloadBytes]
    exact behindPayload_payloadBytes typed short _
  · intro zeros
    rcases deserializeAppendEntriesPayload_cases bytes with ⟨none, -⟩ | ⟨tail, args, behind, -, whole, typed, -⟩
    · rw [none] at zeros
      cases zeros
    · rw [behind] at zeros
      rw [Option.some.inj zeros] at whole
      exact ⟨args, typed, by rw [serialize_payloadBytes, whole]⟩

/-- The decoder takes exactly what the encoder writes as far as no announced entries end other
than four zeros before the end of the string. -/
theorem accepts_serialized_iff (bytes : Bytes) :
    ((deserializeAppendEntriesPayload bytes).isSome = true ↔
      ∃ args : AppendEntriesArgs, args.Typed ∧ serializeAppendEntriesPayload args = bytes) ↔
    (Oversized bytes → (behindPayload bytes).isSome = true) ∧
      (¬ Oversized bytes → ∀ tail, behindPayload bytes = some tail → tail = List.replicate 4 0) := by
  rw [deserializeAppendEntriesPayload_isSome]
  by_cases oversized : Oversized bytes
  · obtain ⟨args, typed, -, written⟩ := id oversized
    have image : ∃ args : AppendEntriesArgs, args.Typed ∧ serializeAppendEntriesPayload args = bytes := ⟨args, typed, written⟩
    rw [iff_true_right image]
    exact ⟨fun some => ⟨fun _ => some, fun fits => absurd oversized fits⟩, fun condition => condition.1 oversized⟩
  · rw [serialized_iff oversized]
    cases behind : behindPayload bytes with
    | none =>
      apply iff_of_true
      · exact iff_of_false Bool.false_ne_true fun none => nomatch none
      · exact ⟨fun impossible => absurd impossible oversized, fun _ tail none => nomatch none⟩
    | some tail =>
      rw [iff_true_left (show (some tail).isSome = true from rfl), Option.some_inj]
      constructor
      · intro zeros
        exact ⟨fun impossible => absurd impossible oversized, fun _ other same => (Option.some.inj same).symm.trans zeros⟩
      · intro condition
        exact condition.2 oversized tail rfl

/-- The 24 bytes of a heartbeat without the four zeros are accepted. -/
theorem accepts_truncated :
    ¬ ∀ bytes, (deserializeAppendEntriesPayload bytes).isSome = true ↔
      ∃ args : AppendEntriesArgs, args.Typed ∧ serializeAppendEntriesPayload args = bytes := by
  intro claim
  obtain ⟨args, -, written⟩ := (claim (List.replicate 24 0)).mp (by decide)
  have length := serializeAppendEntriesPayload_length args
  rw [written, List.length_replicate] at length
  omega

end Exact

end QuorumDB.Raft
