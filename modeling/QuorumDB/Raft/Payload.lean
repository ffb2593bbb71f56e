import QuorumDB.Rpc.Message
import Mathlib.Algebra.GroupWithZero.Nat

/-!
The payload of an AppendEntries request (`raft/log_entry.h`) and HandleMessage, which
decodes it.
-/

namespace QuorumDB.Raft
open NetworkOrder

/-- The bytes written for one entry. The length is cut to 32 bits, the command is not. -/
def entryBytes (entry : LogEntry) : Bytes :=
  u32Bytes (unsigned 32 entry.term) ++ (u64Bytes (unsigned 64 entry.index) ++
    (u32Bytes entry.command.length ++ entry.command))

/-- The size computed for the header is 28 while 24 bytes are written, so four zeros end the payload. -/
def serializeAppendEntriesPayload (args : AppendEntriesArgs) : Bytes :=
  u64Bytes (unsigned 64 args.prevLogIndex) ++ (u32Bytes (unsigned 32 args.prevLogTerm) ++
    (u64Bytes (unsigned 64 args.leaderCommit) ++ (u32Bytes args.entries.length ++
      (args.entries.flatMap entryBytes ++ List.replicate 4 0))))

def readEntry (bytes : Bytes) : Option (LogEntry × Bytes) :=
  if bytes.length < 16 then none
  else
    let (term, bytes) := readU32 bytes
    let (index, bytes) := readU64 bytes
    let (commandLength, bytes) := readU32 bytes
    if bytes.length < commandLength then none
    else some (⟨signed 32 term, signed 64 index, bytes.take commandLength⟩, bytes.drop commandLength)

def readEntries : Nat → Bytes → Option (List LogEntry)
  | 0, _ => some []
  | count + 1, bytes =>
      match readEntry bytes with
      | none => none
      | some (entry, rest) => (readEntries count rest).map (entry :: ·)

/-- What follows the entries is not looked at. `reserve` for the announced number of entries is taken to
succeed. -/
def deserializeAppendEntriesPayload (bytes : Bytes) : Option AppendEntriesArgs :=
  if bytes.length < 24 then none
  else
    let (prevLogIndex, bytes) := readU64 bytes
    let (prevLogTerm, bytes) := readU32 bytes
    let (leaderCommit, bytes) := readU64 bytes
    let (entriesCount, bytes) := readU32 bytes
    (readEntries entriesCount bytes).map fun entries =>
      ⟨signed 64 prevLogIndex, signed 32 prevLogTerm, signed 64 leaderCommit, entries⟩

namespace RaftNode

/-- The reply to a message no handler takes. -/
def pong (node : RaftNode) : RpcMessage := ⟨.pong, node.currentTerm, node.nodeId, []⟩

def handleMessage (node : RaftNode) (message : RpcMessage) : Option (RaftNode × RpcMessage) :=
  match message.type with
  | .requestVote => some (node.handleRequestVote message.term message.senderId)
  | .appendEntries =>
      match deserializeAppendEntriesPayload message.payload with
      | some args => node.handleAppendEntries message.term message.senderId args
      | none => some (node, node.pong)
  | _ => some (node, node.pong)

end RaftNode

section Codec

structure LogEntry.Typed (entry : LogEntry) : Prop where
  term : Signed 32 entry.term
  index : Signed 64 entry.index

structure AppendEntriesArgs.Typed (args : AppendEntriesArgs) : Prop where
  prevLogIndex : Signed 64 args.prevLogIndex
  prevLogTerm : Signed 32 args.prevLogTerm
  leaderCommit : Signed 64 args.leaderCommit
  entries : ∀ entry ∈ args.entries, entry.Typed

def entriesSize (entries : List LogEntry) : Nat := (entries.map fun entry => 16 + entry.command.length).sum

theorem entriesSize_append (front rest : List LogEntry) : entriesSize (front ++ rest) = entriesSize front + entriesSize rest := by
  rw [entriesSize, List.map_append, List.sum_append]
  rfl

theorem entryBytes_length (entry : LogEntry) : (entryBytes entry).length = 16 + entry.command.length := by
  simp only [entryBytes, List.length_append, u32Bytes_length, u64Bytes_length]
  omega

theorem flatMap_entryBytes_length (entries : List LogEntry) :
    (entries.flatMap entryBytes).length = entriesSize entries := by
  rw [List.length_flatMap, entriesSize]
  congr 2
  funext entry
  exact entryBytes_length entry

theorem readEntry_append {entry : LogEntry} (typed : entry.Typed) (short : entry.command.length < 2 ^ 32) (rest : Bytes) :
    readEntry (entryBytes entry ++ rest) = some (entry, rest) := by
  have long : ¬ (entryBytes entry ++ rest).length < 16 := by
    rw [List.length_append, entryBytes_length]
    omega
  have termWord : unsigned 32 entry.term % 2 ^ 32 = unsigned 32 entry.term := Nat.mod_eq_of_lt (unsigned_lt 32 entry.term)
  have size : entry.command.length % 2 ^ 32 = entry.command.length := Nat.mod_eq_of_lt short
  have enough : ¬ (entry.command ++ rest).length < entry.command.length := by
    rw [List.length_append]
    omega
  rw [readEntry, if_neg long]
  simp only [entryBytes, List.append_assoc, readU32_append, readU64_append (unsigned_lt 64 entry.index), termWord, size,
    if_neg enough, signed_unsigned (by decide) typed.term, signed_unsigned (by decide) typed.index, List.take_left,
    List.drop_left]

theorem readEntries_append {entries : List LogEntry} (typed : ∀ entry ∈ entries, entry.Typed)
    (short : ∀ entry ∈ entries, entry.command.length < 2 ^ 32) (rest : Bytes) :
    readEntries entries.length (entries.flatMap entryBytes ++ rest) = some entries := by
  induction entries with
  | nil => rfl
  | cons entry entries ih =>
    have first := readEntry_append (typed entry List.mem_cons_self) (short entry List.mem_cons_self)
      (entries.flatMap entryBytes ++ rest)
    have others := ih (fun other inside => typed other (List.mem_cons_of_mem _ inside))
      fun other inside => short other (List.mem_cons_of_mem _ inside)
    rw [List.length_cons, List.flatMap_cons, List.append_assoc, readEntries, first]
    simp only [others, Option.map_some]

theorem entry_size_le {entries : List LogEntry} {entry : LogEntry} (inside : entry ∈ entries) :
    16 + entry.command.length ≤ entriesSize entries := by
  induction entries with
  | nil => cases inside
  | cons first entries ih =>
    have sum : entriesSize (first :: entries) = 16 + first.command.length + entriesSize entries := List.sum_cons
    rw [sum]
    rcases List.mem_cons.mp inside with rfl | later
    · exact Nat.le_add_right _ _
    · have rest := ih later
      omega

theorem count_le_entriesSize (entries : List LogEntry) : 16 * entries.length ≤ entriesSize entries := by
  induction entries with
  | nil => exact Nat.le_refl 0
  | cons entry entries ih =>
    have sum : entriesSize (entry :: entries) = 16 + entry.command.length + entriesSize entries := List.sum_cons
    rw [List.length_cons, sum]
    omega

structure AppendEntriesArgs.Short (args : AppendEntriesArgs) : Prop where
  count : args.entries.length < 2 ^ 32
  commands : ∀ entry ∈ args.entries, entry.command.length < 2 ^ 32

theorem AppendEntriesArgs.short_of_size {args : AppendEntriesArgs} (small : entriesSize args.entries < 2 ^ 32) :
    args.Short where
  count := by
    have many := count_le_entriesSize args.entries
    omega
  commands entry inside := by
    have part := entry_size_le inside
    omega

def payloadBytes (args : AppendEntriesArgs) : Bytes :=
  u64Bytes (unsigned 64 args.prevLogIndex) ++ (u32Bytes (unsigned 32 args.prevLogTerm) ++
    (u64Bytes (unsigned 64 args.leaderCommit) ++ (u32Bytes args.entries.length ++ args.entries.flatMap entryBytes)))

theorem serialize_payloadBytes (args : AppendEntriesArgs) :
    serializeAppendEntriesPayload args = payloadBytes args ++ List.replicate 4 0 := by
  simp only [serializeAppendEntriesPayload, payloadBytes, List.append_assoc]

theorem payloadBytes_length (args : AppendEntriesArgs) : (payloadBytes args).length = 24 + entriesSize args.entries := by
  simp only [payloadBytes, List.length_append, u32Bytes_length, u64Bytes_length, flatMap_entryBytes_length]
  omega

theorem serializeAppendEntriesPayload_length (args : AppendEntriesArgs) :
    (serializeAppendEntriesPayload args).length = 28 + entriesSize args.entries := by
  rw [serialize_payloadBytes, List.length_append, payloadBytes_length, List.length_replicate]
  omega

theorem deserialize_payloadBytes {args : AppendEntriesArgs} (typed : args.Typed) (short : args.Short) (tail : Bytes) :
    deserializeAppendEntriesPayload (payloadBytes args ++ tail) = some args := by
  have long : ¬ (payloadBytes args ++ tail).length < 24 := by
    rw [List.length_append, payloadBytes_length]
    omega
  have count : args.entries.length % 2 ^ 32 = args.entries.length := Nat.mod_eq_of_lt short.count
  have termWord : unsigned 32 args.prevLogTerm % 2 ^ 32 = unsigned 32 args.prevLogTerm :=
    Nat.mod_eq_of_lt (unsigned_lt 32 args.prevLogTerm)
  have entries := readEntries_append typed.entries short.commands tail
  rw [deserializeAppendEntriesPayload, if_neg long]
  simp only [payloadBytes, List.append_assoc, readU64_append (unsigned_lt 64 args.prevLogIndex), readU32_append, termWord,
    readU64_append (unsigned_lt 64 args.leaderCommit), count, entries, Option.map_some,
    signed_unsigned (by decide) typed.prevLogIndex, signed_unsigned (by decide) typed.prevLogTerm,
    signed_unsigned (by decide) typed.leaderCommit]

theorem deserializeAppendEntriesPayload_serialize {args : AppendEntriesArgs} (typed : args.Typed)
    (short : entriesSize args.entries < 2 ^ 32) :
    deserializeAppendEntriesPayload (serializeAppendEntriesPayload args) = some args := by
  rw [serialize_payloadBytes]
  exact deserialize_payloadBytes typed (AppendEntriesArgs.short_of_size short) (List.replicate 4 0)

theorem readU64_snd_length (bytes : Bytes) : (readU64 bytes).2.length = bytes.length - 8 := by
  change (readU32 (readU32 bytes).2).2.length = bytes.length - 8
  rw [readU32_snd_length, readU32_snd_length]
  omega

theorem readEntry_length {bytes rest : Bytes} {entry : LogEntry} (read : readEntry bytes = some (entry, rest)) :
    16 + entry.command.length + rest.length = bytes.length := by
  have first := readU32_snd_length bytes
  unfold readEntry at read
  split_ifs at read with short
  generalize readU32 bytes = front at first read
  obtain ⟨term, bytesOne⟩ := front
  have second := readU64_snd_length bytesOne
  simp only at first read
  generalize readU64 bytesOne = front at second read
  obtain ⟨index, bytesTwo⟩ := front
  have third := readU32_snd_length bytesTwo
  simp only at second read
  generalize readU32 bytesTwo = front at third read
  obtain ⟨commandLength, bytesThree⟩ := front
  simp only at third read
  split_ifs at read with missing
  obtain ⟨rfl, rfl⟩ := Prod.mk.inj (Option.some.inj read)
  rw [List.length_take, List.length_drop]
  omega

theorem readEntries_length {count : Nat} {bytes : Bytes} {entries : List LogEntry}
    (read : readEntries count bytes = some entries) : entriesSize entries ≤ bytes.length := by
  induction count generalizing bytes entries with
  | zero =>
    rw [← Option.some.inj read]
    exact Nat.zero_le _
  | succ count ih =>
    rw [readEntries] at read
    match one : readEntry bytes with
    | none =>
      rw [one] at read
      cases read
    | some (entry, rest) =>
      rw [one] at read
      obtain ⟨others, more, rfl⟩ := Option.map_eq_some_iff.mp read
      have size := readEntry_length one
      have tail := ih more
      have sum : entriesSize (entry :: others) = 16 + entry.command.length + entriesSize others := List.sum_cons
      omega

theorem deserializeAppendEntriesPayload_length {bytes : Bytes} {args : AppendEntriesArgs}
    (read : deserializeAppendEntriesPayload bytes = some args) : 24 + entriesSize args.entries ≤ bytes.length := by
  have first := readU64_snd_length bytes
  unfold deserializeAppendEntriesPayload at read
  split_ifs at read with short
  generalize readU64 bytes = front at first read
  obtain ⟨prevLogIndex, bytesOne⟩ := front
  have second := readU32_snd_length bytesOne
  simp only at first read
  generalize readU32 bytesOne = front at second read
  obtain ⟨prevLogTerm, bytesTwo⟩ := front
  have third := readU64_snd_length bytesTwo
  simp only at second read
  generalize readU64 bytesTwo = front at third read
  obtain ⟨leaderCommit, bytesThree⟩ := front
  have fourth := readU32_snd_length bytesThree
  simp only at third read
  generalize readU32 bytesThree = front at fourth read
  obtain ⟨entriesCount, bytesFour⟩ := front
  simp only at fourth read
  obtain ⟨entries, some, rfl⟩ := Option.map_eq_some_iff.mp read
  have size := readEntries_length some
  change 24 + entriesSize entries ≤ _
  omega

end Codec

end QuorumDB.Raft
