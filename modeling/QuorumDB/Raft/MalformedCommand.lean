import QuorumDB.Query.Crash
import QuorumDB.Raft.CommandCodec

/-!
Bytes that are no command. Deserialize has no error to report, so Apply does what it read of
them, and the records keep what they were only when that changes nothing.
-/

namespace QuorumDB.Raft
open Storage Query Program NetworkOrder

variable {store : TableStore} {base : Multiset (PageId × Cell)} {rounds : Nat} {logged : Bool}
variable {map next : Key → Option Record} {bytes : Bytes}

section Fields

/-- The fields of a command where Deserialize reads them. -/
def typeAt (bytes : Bytes) : UInt8 := bytes.headD RaftCommand.insert
def idAt (bytes : Bytes) : Int64 := (UInt64.ofNat (readU64 (bytes.drop 1)).1).toInt64
def valueAt (bytes : Bytes) : Int64 := (UInt64.ofNat (readU64 (bytes.drop 9)).1).toInt64
def nameSizeAt (bytes : Bytes) : Nat := (readU32 (bytes.drop 17)).1

def WellFormed (bytes : Bytes) : Prop :=
  ∃ command : RaftCommand, command.type ≤ RaftCommand.delete ∧ command.serialize = bytes

theorem u64Bytes_int64 {word : Nat} (small : word < 2 ^ 64) :
    u64Bytes (UInt64.ofNat word).toInt64.toUInt64.toNat = u64Bytes word := by
  rw [UInt64.toUInt64_toInt64, UInt64.toNat_ofNat_of_lt' small]

theorem wellFormed_iff : WellFormed bytes ↔
    21 ≤ bytes.length ∧ typeAt bytes ≤ RaftCommand.delete ∧ nameSizeAt bytes = (bytes.length - 21) % 2 ^ 32 := by
  constructor
  · rintro ⟨command, known, rfl⟩
    have long := command.serialize_length
    refine ⟨by omega, known, ?_⟩
    have behind : command.serialize.drop 17 = u32Bytes command.name.length ++ command.name := by
      rw [RaftCommand.serialize, List.drop_succ_cons, ← List.append_assoc]
      apply List.drop_left'
      rw [List.length_append, u64Bytes_length, u64Bytes_length]
    rw [nameSizeAt, behind, readU32_append, long, Nat.add_sub_cancel_left]
  · rintro ⟨long, known, size⟩
    cases bytes with
    | nil => exact absurd long (by decide)
    | cons type rest =>
      rw [List.length_cons] at long size
      have front : u64Bytes (readU64 rest).1 = rest.take 8 := u64Bytes_readU64 (by omega)
      have middle : u64Bytes (readU64 (rest.drop 8)).1 = (rest.drop 8).take 8 :=
        u64Bytes_readU64 (Cursor.le_length_drop (by omega))
      have named : u32Bytes (rest.drop 20).length = (rest.drop 16).take 4 := by
        rw [List.length_drop, ← u32Bytes_mod, ← u32Bytes_readU32 (Cursor.le_length_drop (by omega))]
        exact congrArg u32Bytes size.symm
      refine ⟨⟨type, (UInt64.ofNat (readU64 rest).1).toInt64, rest.drop 20,
        (UInt64.ofNat (readU64 (rest.drop 8)).1).toInt64⟩, known, ?_⟩
      calc RaftCommand.serialize _
        _ = type :: (rest.take 8 ++ ((rest.drop 8).take 8 ++ ((rest.drop 16).take 4 ++ rest.drop 20))) := by
          simp only [RaftCommand.serialize, u64Bytes_int64 (readU64_lt _), front, middle, named]
        _ = type :: rest := by
          have last := List.take_append_drop 4 (rest.drop 16)
          have more := List.take_append_drop 8 (rest.drop 8)
          rw [List.drop_drop] at last more
          rw [last, more, List.take_append_drop]

end Fields

section Engine

/-- What a program answers on a table or throws, and the table afterwards. A run that has no
meaning, to which no table that holds records comes, is left out. -/
def answering (rounds : Nat) (program : TableProg Bool) (store : TableStore) : Except StorageError Bool × TableStore :=
  (run (TableStore.handler rounds) program store).getD (.ok false, store)

def engineCalls (rounds : Nat) (logged : Bool) : EngineCalls TableStore StorageError where
  insert id name value := answering rounds (QueryEngine.insert logged id name value)
  updateValue id newValue := answering rounds (QueryEngine.updateValue logged id newValue)
  deleteById id := answering rounds (QueryEngine.deleteById logged id)

def RaftCommand.op (command : RaftCommand) : Option TableOp :=
  if command.type = insert then some (.insert ⟨command.id, command.name, command.value⟩)
  else if command.type = updateValue then some (.update command.id fun record => { record with value := command.value })
  else if command.type = delete then some (.delete command.id)
  else none

theorem execute_op (command : RaftCommand) (store : TableStore) :
    RaftStateMachine.execute (engineCalls rounds logged) command store =
      match command.op with
      | none => (.ok false, store)
      | some op => answering rounds (op.program logged) store := by
  unfold RaftStateMachine.execute RaftCommand.op
  split_ifs <;> rfl

theorem answering_cases {program : TableProg Bool} {post : Bool → TableStore → Prop}
    (finishes : Finishes rounds program post store) :
    (∃ later, answering rounds program store = (.error .pageIdLimit, later) ∧ later.tree.Exhausted) ∨
      ∃ answer later, answering rounds program store = (.ok answer, later) ∧ post answer later := by
  unfold Finishes Ensures at finishes
  unfold answering
  match ran : run (TableStore.handler rounds) program store with
  | none =>
    rw [ran] at finishes
    exact finishes.elim
  | some (.error error, later) =>
    rw [ran] at finishes
    obtain ⟨rfl, exhausted⟩ := finishes
    exact .inl ⟨later, rfl, exhausted⟩
  | some (.ok answer, later) =>
    rw [ran] at finishes
    exact .inr ⟨answer, later, rfl, finishes⟩

end Engine

section Records

/-- The command changes none of these records. -/
structure RaftCommand.Harmless (map : Key → Option Record) (command : RaftCommand) : Prop where
  insert : command.type = insert → map command.id ≠ none
  updateValue : command.type = updateValue → ∀ record, map command.id = some record → record.value = command.value
  delete : command.type = delete → map command.id = none

theorem insert_same (record : Record) : (TableOp.insert record).onMap map = map ↔ map record.id ≠ none := by
  rw [TableOp.onMap, insertRecord]
  by_cases absent : map record.id = none
  · rw [if_pos absent, Function.update_eq_self_iff, absent]
    exact iff_of_false (Option.some_ne_none _) (not_not.mpr rfl)
  · rw [if_neg absent]
    exact iff_of_true rfl absent

theorem update_same (tidy : Tidy map) (id value : Int64) :
    (TableOp.update id fun record => { record with value := value }).onMap map = map ↔
      ∀ record, map id = some record → record.value = value := by
  rw [TableOp.onMap]
  cases present : map id with
  | none => exact iff_of_true rfl fun record found => absurd found.symm (Option.some_ne_none record)
  | some before =>
    obtain rfl := tidy.named id before present
    have cut : cutName before.name = before.name := congrArg Record.name (tidy.stored before.id before present)
    have kept : Record.stored ⟨before.id, before.name, value⟩ = before ↔ before.value = value := by
      rw [Record.stored, cut]
      constructor
      · intro same
        exact (congrArg Record.value same).symm
      · rintro rfl
        rfl
    simp only [Function.update_eq_self_iff, present, Option.some.injEq, forall_eq']
    exact kept

theorem delete_same (id : Int64) : (TableOp.delete id).onMap map = map ↔ map id = none := by
  rw [TableOp.onMap, eraseRecord, Function.update_eq_self_iff, eq_comm]

theorem RaftCommand.harmless_iff (tidy : Tidy map) (command : RaftCommand) :
    (∀ op ∈ command.op, op.onMap map = map) ↔ command.Harmless map := by
  have other : updateValue ≠ insert ∧ delete ≠ insert ∧ delete ≠ updateValue := by decide
  rw [op]
  by_cases inserts : command.type = insert
  · simp only [if_pos inserts, Option.mem_some_iff, forall_eq', insert_same]
    refine ⟨fun present => ⟨fun _ => present, fun updates => ?_, fun deletes => ?_⟩, fun harmless => harmless.insert inserts⟩
    · exact absurd (updates.symm.trans inserts) other.1
    · exact absurd (deletes.symm.trans inserts) other.2.1
  by_cases updates : command.type = updateValue
  · simp only [if_neg inserts, if_pos updates, Option.mem_some_iff, forall_eq', update_same tidy]
    refine ⟨fun same => ⟨fun now => absurd now inserts, fun _ => same, fun deletes => ?_⟩, fun harmless => harmless.updateValue updates⟩
    exact absurd (deletes.symm.trans updates) other.2.2
  by_cases deletes : command.type = delete
  · simp only [if_neg inserts, if_neg updates, if_pos deletes, Option.mem_some_iff, forall_eq', delete_same]
    exact ⟨fun absent => ⟨fun now => absurd now inserts, fun now => absurd now updates, fun _ => absent⟩,
      fun harmless => harmless.delete deletes⟩
  · rw [if_neg inserts, if_neg updates, if_neg deletes]
    exact iff_of_true (fun op none => nomatch none)
      ⟨fun now => absurd now inserts, fun now => absurd now updates, fun now => absurd now deletes⟩

/-- The bytes are a command that changes none of these records. Too few of them are the INSERT of an
empty record with id 0. -/
def Harmless (map : Key → Option Record) (bytes : Bytes) : Prop :=
  if bytes.length < 21 then map 0 ≠ none
  else RaftCommand.Harmless map ⟨typeAt bytes, idAt bytes, [], valueAt bytes⟩

theorem harmless_iff (tidy : Tidy map) :
    (∀ op ∈ (RaftCommand.deserialize bytes).op, op.onMap map = map) ↔ Harmless map bytes := by
  rw [RaftCommand.harmless_iff tidy, Harmless]
  by_cases short : bytes.length < 21
  · have zero : RaftCommand.deserialize bytes = ⟨RaftCommand.insert, 0, [], 0⟩ := by
      cases bytes with
      | nil => rfl
      | cons type rest => exact if_pos short
    rw [if_pos short, zero]
    refine ⟨fun harmless => harmless.insert rfl, fun present => ⟨fun _ => present, fun now => ?_, fun now => ?_⟩⟩
    · exact absurd now (by decide)
    · exact absurd now (by decide)
  · rw [if_neg short]
    cases bytes with
    | nil => exact absurd (by decide) short
    | cons type rest =>
      rw [RaftCommand.deserialize_cons (Nat.le_of_succ_le_succ (Nat.le_of_not_lt short))]
      exact ⟨fun harmless => ⟨harmless.insert, harmless.updateValue, harmless.delete⟩,
        fun harmless => ⟨harmless.insert, harmless.updateValue, harmless.delete⟩⟩

end Records

/-- Apply ends, unless it finds no page identifier left, with the same records exactly when the bytes
order nothing else. -/
theorem apply_same_iff (tabled : Tabled base map store) (tidy : Tidy map) (enough : maxPages + 1 < rounds)
    (lastAppliedIndex logIndex : Int) (bytes : Bytes) :
    (∃ later, RaftStateMachine.apply (engineCalls rounds logged) ⟨some store, lastAppliedIndex⟩ bytes logIndex =
      (.error .pageIdLimit, ⟨some later, lastAppliedIndex⟩) ∧ later.tree.Exhausted) ∨
    ∃ later index, RaftStateMachine.apply (engineCalls rounds logged) ⟨some store, lastAppliedIndex⟩ bytes logIndex =
      (.ok (), ⟨some later, index⟩) ∧ (Shows rounds later map ↔ logIndex ≤ lastAppliedIndex ∨ Harmless map bytes) := by
  by_cases dropped : logIndex ≤ lastAppliedIndex
  · have left : RaftStateMachine.apply (engineCalls rounds logged) ⟨some store, lastAppliedIndex⟩ bytes logIndex =
        (.ok (), ⟨some store, lastAppliedIndex⟩) := if_pos dropped
    exact .inr ⟨store, lastAppliedIndex, left, iff_of_true (tabled.shows enough) (.inl dropped)⟩
  · have fresh : ¬ (⟨some store, lastAppliedIndex⟩ : RaftStateMachine TableStore).Drops logIndex := dropped
    have executes := @execute_op rounds logged (RaftCommand.deserialize bytes) store
    rw [RaftStateMachine.apply, if_neg fresh, or_iff_right dropped, ← harmless_iff tidy]
    cases ordered : (RaftCommand.deserialize bytes).op with
    | none =>
      simp only [ordered] at executes
      simp only [executes]
      exact .inr ⟨store, logIndex, rfl, iff_of_true (tabled.shows enough) fun op none => nomatch none⟩
    | some op =>
      have does : Finishes rounds (op.program logged) (op.Does base map logged store.wal) store :=
        (op.program_spec tabled enough).finishes
      simp only [ordered] at executes
      rcases answering_cases does with ⟨later, threw, exhausted⟩ | ⟨answer, later, answered, -, changed, -⟩
      · simp only [executes, threw]
        exact .inl ⟨later, rfl, exhausted⟩
      · simp only [executes, answered]
        refine .inr ⟨later, logIndex, rfl, ?_⟩
        rw [changed.shows_iff enough]
        simp only [Option.mem_some_iff, forall_eq']

/-- Given any bytes, Apply runs out of page identifiers, or it ends. Then bytes that are no command
leave the records alone exactly when the index was applied before or they order no change. -/
def MalformedKept (rounds : Nat) (logged : Bool) (map : Key → Option Record) (store : TableStore) : Prop :=
  ∀ lastAppliedIndex logIndex bytes,
    (∃ later, RaftStateMachine.apply (engineCalls rounds logged) ⟨some store, lastAppliedIndex⟩ bytes logIndex =
      (.error .pageIdLimit, ⟨some later, lastAppliedIndex⟩) ∧ later.tree.Exhausted) ∨
    ∃ later index, RaftStateMachine.apply (engineCalls rounds logged) ⟨some store, lastAppliedIndex⟩ bytes logIndex =
      (.ok (), ⟨some later, index⟩) ∧
      ((¬ WellFormed bytes → Shows rounds later map) ↔ WellFormed bytes ∨ logIndex ≤ lastAppliedIndex ∨ Harmless map bytes)

/-- So it is for every table that operations lead to. -/
theorem malformed_kept (fresh : store.tree.rootPageId = invalidPageId) (owns : Owns store.tree.storage base) (logged : Bool)
    (ops : List TableOp) (enough : maxPages + 1 < rounds) :
    Finishes rounds (TableOp.programs logged ops) (fun _ reached =>
      MalformedKept rounds logged (TableOp.onMaps (fun _ => none) ops) reached) store := by
  refine (TableOp.programs_spec (tabled_empty fresh owns) ops enough).mono fun answers reached tabled => ?_
  intro lastAppliedIndex logIndex bytes
  refine (apply_same_iff tabled (tidy_empty.onMaps ops) enough lastAppliedIndex logIndex bytes).imp_right ?_
  rintro ⟨later, index, ended, same⟩
  refine ⟨later, index, ended, ?_⟩
  rw [same]
  by_cases command : WellFormed bytes
  · exact iff_of_true (fun malformed => absurd command malformed) (.inl command)
  · rw [or_iff_right command]
    exact ⟨fun kept => kept command, fun kept _ => kept⟩

theorem malformed_kept_present :
    Finishes (maxPages + 2) (TableOp.programs true [.insert ⟨0, [65], 7⟩]) (fun _ reached =>
      MalformedKept (maxPages + 2) true (TableOp.onMaps (fun _ => none) [.insert ⟨0, [65], 7⟩]) reached)
      ⟨TreeStore.open 1 [], WALManager.openFile []⟩ :=
  malformed_kept rfl (opened_owns (by decide) (by decide)) true _ (Nat.lt_succ_self _)

/-- The empty string inserts a record with id 0. -/
theorem malformed_kept_fails :
    ¬ ∀ store base map, Tabled base map store → ∀ bytes, ¬ WellFormed bytes → ∀ logIndex later index,
      RaftStateMachine.apply (engineCalls (maxPages + 2) true) ⟨some store, 0⟩ bytes logIndex =
        (.ok (), ⟨some later, index⟩) → Shows (maxPages + 2) later map := by
  intro claim
  have tabled : Tabled (strays []) (fun _ => none) ⟨TreeStore.open 1 [], WALManager.openFile []⟩ :=
    tabled_opened (by decide) (by decide)
  have malformed : ¬ WellFormed [] := fun command => absurd (wellFormed_iff.mp command).1 (by decide)
  have ran : ∃ later, RaftStateMachine.apply (engineCalls (maxPages + 2) true)
      ⟨some ⟨TreeStore.open 1 [], WALManager.openFile []⟩, 0⟩ [] 1 = (.ok (), ⟨some later, 1⟩) := ⟨_, rfl⟩
  obtain ⟨later, ended⟩ := ran
  have kept := claim _ _ _ tabled [] malformed 1 later 1 ended
  rcases @apply_same_iff _ _ _ true _ tabled tidy_empty (Nat.lt_succ_self _) 0 1 [] with
    ⟨other, threw, -⟩ | ⟨other, index, again, same⟩
  · cases ended.symm.trans threw
  · obtain ⟨-, machines⟩ := Prod.mk.inj (ended.symm.trans again)
    obtain rfl := Option.some.inj (RaftStateMachine.mk.inj machines).1
    rcases same.mp kept with before | harmless
    · exact absurd before (by decide)
    · exact harmless rfl

end QuorumDB.Raft
