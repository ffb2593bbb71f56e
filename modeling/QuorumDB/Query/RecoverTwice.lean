import QuorumDB.Lib.Settle
import QuorumDB.Query.FailedWrites

/-!
Recover over a table that is not empty. A log record sets the record of its id or fills it
in, so that replaying a log again changes nothing, and neither does replaying it over the
table that wrote it.
-/

namespace QuorumDB.Query
open Storage Program TableProg Settle

variable {store : TableStore} {base : Multiset (PageId × Cell)} {rounds : Nat} {map : Key → Option Record}
variable {wal : WALManager} {record : LogRecord} {records : List LogRecord}

section Replay

/-- A log record as the table writes them. -/
structure Faithful (record : LogRecord) : Prop where
  fits : record.Fits
  replayable : Replayable record
  titled : record.type = .update → (deserializeRecord record.afterImage).id = record.recordId

/-- What a log record makes of the record of one id. -/
def replayAt (record : LogRecord) (id : Key) (value : Option Record) : Option Record :=
  match record.type with
  | .insert => if id = (deserializeRecord record.afterImage).id
      then value.or (some (deserializeRecord record.afterImage).stored) else value
  | .update => if id = record.recordId then some (deserializeRecord record.afterImage).stored else value
  | .delete => if id = record.recordId then none else value
  | .commit => value

theorem replayAt_settles (record : LogRecord) (id : Key) : Settles (replayAt record id) := by
  unfold replayAt
  cases record.type with
  | insert =>
    by_cases same : id = (deserializeRecord record.afterImage).id
    · simp only [if_pos same]
      exact settles_fill _
    · simp only [if_neg same]
      exact settles_keep
  | update =>
    by_cases same : id = record.recordId
    · simp only [if_pos same]
      exact settles_set _
    · simp only [if_neg same]
      exact settles_keep
  | delete =>
    by_cases same : id = record.recordId
    · simp only [if_pos same]
      exact settles_set _
    · simp only [if_neg same]
      exact settles_keep
  | commit => exact settles_keep

theorem insertRecord_at (map : Key → Option Record) (made : Record) (id : Key) :
    insertRecord map made id = if id = made.id then (map id).or (some made.stored) else map id := by
  unfold insertRecord
  by_cases same : id = made.id
  · rw [if_pos same, same]
    cases found : map made.id with
    | none =>
      rw [if_pos rfl, Function.update_self]
      rfl
    | some old =>
      rw [if_neg (Option.some_ne_none old)]
      exact found
  · rw [if_neg same]
    split_ifs
    · exact Function.update_of_ne same _ _
    · rfl

theorem replayMap_at (titled : record.type = .update → (deserializeRecord record.afterImage).id = record.recordId)
    (map : Key → Option Record) (id : Key) : replayMap map record id = replayAt record id (map id) := by
  unfold replayMap replayAt
  cases type : record.type with
  | insert => exact insertRecord_at map _ id
  | update =>
    simp only [updateRecord]
    by_cases absent : map record.recordId = none
    · rw [if_pos absent, insertRecord_at, titled type]
      by_cases same : id = record.recordId
      · rw [if_pos same, if_pos same, same, absent]
        rfl
      · rw [if_neg same, if_neg same]
    · rw [if_neg absent]
      exact Function.update_apply _ _ _ _
  | delete => exact Function.update_apply _ _ _ _
  | commit => rfl

theorem replay_at (faithful : ∀ record ∈ records, Faithful record) (map : Key → Option Record) (id : Key) :
    records.foldl replayMap map id = records.foldl (fun value record => replayAt record id value) (map id) := by
  induction records generalizing map with
  | nil => rfl
  | cons record records ih =>
    rw [List.foldl_cons, List.foldl_cons, ← replayMap_at (faithful record List.mem_cons_self).titled]
    exact ih (fun other member => faithful other (List.mem_cons_of_mem _ member)) _

/-- Replaying a log twice is replaying it once. -/
theorem replay_twice (faithful : ∀ record ∈ records, Faithful record) (map : Key → Option Record) :
    records.foldl replayMap (records.foldl replayMap map) = records.foldl replayMap map := by
  funext id
  rw [replay_at faithful, replay_at faithful map]
  have settles : Settles fun value => records.foldl (fun value record => replayAt record id value) value :=
    settles_foldl fun record _ => replayAt_settles record id
  exact settles.twice (map id)

end Replay

section Logs

variable {op : TableOp} {change : Change}

theorem faithful_change (changed : op.change map = some change) (lsn : Int64) : Faithful (change.toLog lsn) := by
  obtain ⟨fits, replayable, -⟩ := replayMap_change changed lsn
  refine ⟨fits, replayable, fun type => ?_⟩
  cases op with
  | insert record =>
    obtain ⟨-, same⟩ := Option.ite_none_right_eq_some.mp changed
    obtain rfl := Option.some.inj same
    cases type
  | update id mutator =>
    obtain ⟨before, -, rfl⟩ := Option.map_eq_some_iff.mp changed
    change (deserializeRecord (serializeRecord { mutator before with id := id })).id = id
    rw [deserializeRecord_serializeRecord]
    rfl
  | delete id =>
    obtain ⟨before, -, rfl⟩ := Option.map_eq_some_iff.mp changed
    cases type

theorem faithful_commit (lsn : Int64) : Faithful ⟨lsn, .commit, -1, [], []⟩ := by
  have fits : (LogRecord.mk lsn .commit (-1) [] []).Fits := by
    change 25 + 0 + 0 < 4294967296
    decide
  refine ⟨fits, ?_, nofun⟩
  rintro (impossible | impossible) <;> cases impossible

def Readable (wal : WALManager) : Prop :=
  wal.written = wal.readAllRecords.flatMap logFrame ∧ ∀ record ∈ wal.readAllRecords, Faithful record

theorem readable_of_records (written : wal.written = records.flatMap logFrame) (faithful : ∀ record ∈ records, Faithful record) :
    Readable wal ∧ wal.readAllRecords = records := by
  have read := readRecords_tail (fun record member => (faithful record member).fits) (.inl rfl)
  rw [List.append_nil, ← written] at read
  have same : wal.readAllRecords = records := read
  refine ⟨⟨?_, ?_⟩, same⟩
  · rw [same]
    exact written
  · rw [same]
    exact faithful

theorem Readable.append (readable : Readable wal) {type : LogRecordType} {recordId : Int64} {beforeImage afterImage : Bytes}
    (faithful : Faithful ⟨wal.nextLsn, type, recordId, beforeImage, afterImage⟩) :
    Readable (wal.append type recordId beforeImage afterImage).2 ∧
      (wal.append type recordId beforeImage afterImage).2.readAllRecords =
        wal.readAllRecords ++ [⟨wal.nextLsn, type, recordId, beforeImage, afterImage⟩] := by
  apply readable_of_records
  · change wal.written ++ logFrame _ = _
    rw [List.flatMap_append, List.flatMap_singleton, ← readable.1]
  · intro record member
    rcases List.mem_append.mp member with old | last
    · exact readable.2 record old
    · exact List.mem_singleton.mp last ▸ faithful

theorem readable_empty : Readable (WALManager.openFile []) :=
  (@readable_of_records (WALManager.openFile []) [] rfl nofun).1

def Signed : TableCall → Prop
  | .appendInsert recordId afterImage => ∀ lsn, Faithful ⟨lsn, .insert, recordId, [], afterImage⟩
  | .appendUpdate recordId beforeImage afterImage => ∀ lsn, Faithful ⟨lsn, .update, recordId, beforeImage, afterImage⟩
  | .appendDelete recordId beforeImage => ∀ lsn, Faithful ⟨lsn, .delete, recordId, beforeImage, []⟩
  | _ => True

theorem signed_of_unlogged {Result : Type} {program : TableProg Result} (unlogged : Unlogged program) :
    Only Signed program := by
  refine unlogged.mono fun request silent => ?_
  cases request with
  | appendInsert recordId afterImage => cases silent
  | appendUpdate recordId beforeImage afterImage => cases silent
  | appendDelete recordId beforeImage => cases silent
  | _ => trivial

theorem signed_commit (done : Bool) : Only Signed (Table.withLog (done && true) appendCommit >>= fun _ => pure done) := by
  cases done with
  | true => exact .call trivial fun _ => .done true
  | false => exact .done false

theorem signed_program (op : TableOp) : Only Signed (op.program true) := by
  cases op with
  | insert record =>
    have changed : (TableOp.insert record).change (fun _ => none) =
        some ⟨.insert, record.id, [], Table.recordImage record⟩ := by
      rw [TableOp.change, if_pos rfl]
    have faithful : Signed (.appendInsert record.id (Table.recordImage record)) := faithful_change changed
    refine .call trivial fun found => ?_
    cases found with
    | some recordPageId => exact .done false
    | none =>
      refine .call faithful fun _ => .call trivial fun _ => ?_
      exact (signed_of_unlogged (unlogged_insertWithoutWAL record)).bind signed_commit
  | update id mutator =>
    refine (signed_of_unlogged (unlogged_select id)).bind fun found => ?_
    cases found with
    | none => exact .done false
    | some before =>
      have faithful : Signed (.appendUpdate id (Table.recordImage before)
          (Table.recordImage { mutator before with id := id })) := fun lsn =>
        @faithful_change (fun _ => some before) (.update id mutator) _ rfl lsn
      refine .call faithful fun _ => .call trivial fun _ => ?_
      exact (signed_of_unlogged (unlogged_updateWithoutWAL id _)).bind signed_commit
  | delete id =>
    refine (signed_of_unlogged (unlogged_select id)).bind fun found => ?_
    cases found with
    | none => exact .done false
    | some before =>
      have faithful : Signed (.appendDelete id (Table.recordImage before)) := fun lsn =>
        @faithful_change (fun _ => some before) (.delete id) _ rfl lsn
      refine .call faithful fun _ => .call trivial fun _ => ?_
      exact (signed_of_unlogged (unlogged_deleteWithoutWAL id)).bind signed_commit

theorem crowded_wal {request : TableCall} (silent : request.logs = false) {state later : TableStore × List Bool}
    {result : Except StorageError (TableCall.Answer request)}
    (handled : TableStore.crowded rounds request state = some (result, later)) : later.1.wal = state.1.wal := by
  unfold TableStore.crowded at handled
  cases tree : TableStore.treeProgram rounds request with
  | some program =>
    rw [tree] at handled
    obtain ⟨done, -, same⟩ := Option.map_eq_some_iff.mp handled
    rw [← (Prod.mk.inj same).2]
  | none =>
    rw [tree] at handled
    have served : ∀ {rest : List Bool}, ((TableStore.handler rounds request state.1).map fun done =>
        (done.1, (done.2, rest))) = some (result, later) → later.1.wal = state.1.wal := fun ran => by
      obtain ⟨done, answered, same⟩ := Option.map_eq_some_iff.mp ran
      rw [← (Prod.mk.inj same).2]
      exact handler_wal silent answered
    unfold Handler.refusing at handled
    cases refusal : TableStore.refusal request with
    | none =>
      simp only [refusal] at handled
      exact served handled
    | some answer =>
      simp only [refusal] at handled
      split_ifs at handled
      · rw [← (Prod.mk.inj (Option.some.inj handled)).2]
      · exact served handled

theorem crowded_readable (request : TableCall) (state : TableStore × List Bool)
    (result : Except StorageError (TableCall.Answer request)) (later : TableStore × List Bool) (signed : Signed request)
    (readable : Readable state.1.wal) (handled : TableStore.crowded rounds request state = some (result, later)) :
    Readable later.1.wal := by
  by_cases silent : request.logs = false
  · rw [crowded_wal silent handled]
    exact readable
  · cases request with
    | appendInsert recordId afterImage =>
      obtain ⟨-, rfl⟩ := Prod.mk.inj (Option.some.inj handled)
      exact (readable.append (signed _)).1
    | appendUpdate recordId beforeImage afterImage =>
      obtain ⟨-, rfl⟩ := Prod.mk.inj (Option.some.inj handled)
      exact (readable.append (signed _)).1
    | appendDelete recordId beforeImage =>
      obtain ⟨-, rfl⟩ := Prod.mk.inj (Option.some.inj handled)
      exact (readable.append (signed _)).1
    | appendCommit =>
      obtain ⟨-, rfl⟩ := Prod.mk.inj (Option.some.inj handled)
      exact (readable.append (faithful_commit _)).1
    | flush =>
      obtain ⟨-, rfl⟩ := Prod.mk.inj (Option.some.inj handled)
      exact readable
    | _ => exact absurd rfl silent

/-- The logs of tables. Each call may be refused any frames and may throw; the next one may be made on
another table, and after the log was closed and opened again. -/
inductive LogWritten (rounds : Nat) : WALManager → Prop
  | start : LogWritten rounds (WALManager.openFile [])
  | wrote {wal : WALManager} {tree : TreeStore} {op : TableOp} {plan rest : List Bool} {later : TableStore}
      {result : Except StorageError Bool} (before : LogWritten rounds wal)
      (ran : run (TableStore.crowded rounds) (op.program true) (⟨tree, wal⟩, plan) = some (result, (later, rest))) :
      LogWritten rounds later.wal
  | reopened {wal : WALManager} (before : LogWritten rounds wal) : LogWritten rounds (WALManager.openFile wal.written)

theorem LogWritten.readable (written : LogWritten rounds wal) : Readable wal := by
  induction written with
  | start => exact readable_empty
  | @wrote wal tree op plan rest later result before ran ih =>
    exact (signed_program op).keeps crowded_readable ih ran
  | reopened before ih => exact ih

end Logs

/-- Recover leaves the records of the table as they are. -/
def RecoverKeeps (rounds : Nat) (store : TableStore) : Prop :=
  ∃ map, Shows rounds store map ∧ Finishes rounds (Table.recover true) (fun _ later => Shows rounds later map) store

theorem recover_replays (tabled : Tabled base map store) (readable : Readable store.wal) (enough : maxPages + 1 < rounds) :
    Finishes rounds (Table.recover true) (fun _ later => later.wal = store.wal ∧
      Tabled base (store.wal.readAllRecords.foldl replayMap map) later) store := by
  have replayed := replayAll_spec tabled (fun record member => (readable.2 record member).replayable) enough
  unfold Finishes at replayed ⊢
  exact (ensures_call rfl).mpr replayed

theorem recover_keeps (tabled : Tabled base map store) (readable : Readable store.wal)
    (replayed : store.wal.readAllRecords.foldl replayMap map = map) (enough : maxPages + 1 < rounds) :
    RecoverKeeps rounds store := by
  refine ⟨map, tabled.shows enough, (recover_replays tabled readable enough).mono fun _ later done => ?_⟩
  rw [replayed] at done
  exact done.2.shows enough

/-- The table holds what its log makes of the records it started from. -/
structure Live (base : Multiset (PageId × Cell)) (first map : Key → Option Record) (store : TableStore) : Prop where
  tabled : Tabled base map store
  readable : Readable store.wal
  replayed : store.wal.readAllRecords.foldl replayMap first = map

theorem Live.does {first : Key → Option Record} (live : Live base first map store) {op : TableOp} {answer : Bool}
    {later : TableStore} (done : op.Does base map true store.wal answer later) : Live base first (op.onMap map) later := by
  obtain ⟨-, tabled, log⟩ := done
  cases changed : op.change map with
  | none =>
    rw [changed, LogOf.after_none] at log
    rw [onMap_refused changed] at tabled ⊢
    exact ⟨tabled, log ▸ live.readable, log ▸ live.replayed⟩
  | some change =>
    rw [changed] at log
    have appended := live.readable.append (faithful_change changed store.wal.nextLsn)
    have flushed : Readable (LogOf.flushed store.wal change) := appended.1
    have committed := flushed.append (faithful_commit (LogOf.flushed store.wal change).nextLsn)
    have records : later.wal.readAllRecords = store.wal.readAllRecords ++ [change.toLog store.wal.nextLsn] ++
        [⟨(LogOf.flushed store.wal change).nextLsn, .commit, -1, [], []⟩] := by
      rw [log]
      refine committed.2.trans (congrArg (· ++ _) ?_)
      exact appended.2
    refine ⟨tabled, ?_, ?_⟩
    · rw [log]
      exact committed.1
    · rw [records, List.foldl_append, List.foldl_append, live.replayed]
      exact (replayMap_change changed _).2.2

theorem Live.programs {first : Key → Option Record} (live : Live base first map store) (ops : List TableOp)
    (enough : maxPages + 1 < rounds) :
    Finishes rounds (TableOp.programs true ops) (fun _ later => ∃ map, Live base first map later) store := by
  induction ops generalizing store map with
  | nil => exact finishes_pure.mpr ⟨map, live⟩
  | cons op ops ih =>
    refine (op.program_spec live.tabled enough).finishes.seq fun answer later done => ?_
    exact (ih (live.does done)).seq fun answers last whole => finishes_pure.mpr whole

/-- Recover is idempotent: a second time right after the first, and on a live table that wrote the log,
it changes no record. -/
theorem recover_idempotent (tabled : Tabled base map store) (enough : maxPages + 1 < rounds) :
    (LogWritten rounds store.wal →
      Finishes rounds (Table.recover true) (fun _ once => RecoverKeeps rounds once) store) ∧
    (store.wal = WALManager.openFile [] → ∀ ops,
      Finishes rounds (TableOp.programs true ops) (fun _ live => RecoverKeeps rounds live) store) := by
  constructor
  · intro written
    have readable := written.readable
    refine (recover_replays tabled readable enough).mono fun _ once done => ?_
    obtain ⟨log, recovered⟩ := done
    refine recover_keeps recovered (log ▸ readable) ?_ enough
    rw [log]
    exact replay_twice readable.2 map
  · intro empty ops
    have live : Live base map map store := by
      refine ⟨tabled, ?_, ?_⟩
      · rw [empty]
        exact readable_empty
      · rw [empty]
        rfl
    refine (live.programs ops enough).mono fun _ later done => ?_
    obtain ⟨last, whole⟩ := done
    refine recover_keeps whole.tabled whole.readable ?_ enough
    rw [← whole.replayed]
    exact replay_twice whole.readable.2 map

/-- With the log of an Insert that was refused a frame after it logged, and on a table that was written to. -/
theorem recover_idempotent_opened :
    (∃ wal, LogWritten (maxPages + 2) wal ∧ wal.written.length = 109 ∧
      Finishes (maxPages + 2) (Table.recover true) (fun _ once => RecoverKeeps (maxPages + 2) once)
        ⟨TreeStore.open 1 [], wal⟩) ∧
    Finishes (maxPages + 2) (TableOp.programs true [.insert ⟨5, [65], 1⟩, .delete 5, .insert ⟨5, [66], 2⟩])
      (fun _ live => RecoverKeeps (maxPages + 2) live) ⟨TreeStore.open 1 [], WALManager.openFile []⟩ := by
  have enough : maxPages + 1 < maxPages + 2 := Nat.lt_succ_self _
  have refused : ∃ later, run (TableStore.crowded (maxPages + 2)) ((TableOp.insert ⟨1, [65], 7⟩).program true)
      (⟨TreeStore.open 1 [], WALManager.openFile []⟩, [true]) = some (.ok false, (later, [])) ∧
      later.wal = LogOf.flushed (WALManager.openFile []) ⟨.insert, 1, [], Table.recordImage ⟨1, [65], 7⟩⟩ := ⟨_, rfl, rfl⟩
  obtain ⟨later, ran, log⟩ := refused
  have written := LogWritten.wrote .start ran
  have size : later.wal.written.length = 109 := by
    rw [log]
    decide +kernel
  exact ⟨⟨later.wal, written, size, (recover_idempotent (tabled_opened (by decide) (by decide)) enough).1 written⟩,
    (recover_idempotent (tabled_opened (by decide) (by decide)) enough).2 rfl _⟩

end QuorumDB.Query
