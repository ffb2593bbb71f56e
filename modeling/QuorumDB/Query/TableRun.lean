import QuorumDB.Query.TableRules

/-!
The writing operations of the table: what they answer, what they make of the records and
what they leave in the log, alone and one after the other.
-/

namespace QuorumDB.Query
open Storage Program TableProg

variable {Result : Type} {store : TableStore} {base : Multiset (PageId × Cell)} {rounds : Nat}
variable {map : Key → Option Record} {logged : Bool} {post : Result → TableStore → Prop}

inductive TableOp where
  | insert (record : Record)
  | update (id : Int64) (mutator : Record → Record)
  | delete (id : Int64)

/-- What a log record says, its number apart. -/
structure Change where
  type : LogRecordType
  recordId : Int64
  beforeImage : Bytes
  afterImage : Bytes

namespace TableOp

def program (logged : Bool) : TableOp → TableProg Bool
  | .insert record => Table.insert logged record
  | .update id mutator => Table.update logged id mutator
  | .delete id => Table.delete logged id

/-- What the operation logs. It is refused when there is nothing to log. -/
def change (map : Key → Option Record) : TableOp → Option Change
  | .insert record =>
      if map record.id = none then some ⟨.insert, record.id, [], Table.recordImage record⟩ else none
  | .update id mutator => (map id).map fun before =>
      ⟨.update, id, Table.recordImage before, Table.recordImage { mutator before with id := id }⟩
  | .delete id => (map id).map fun before => ⟨.delete, id, Table.recordImage before, []⟩

def onMap (map : Key → Option Record) : TableOp → Key → Option Record
  | .insert record => insertRecord map record
  | .update id mutator =>
      match map id with
      | none => map
      | some before => Function.update map id (some { mutator before with id := id }.stored)
  | .delete id => eraseRecord map id

def onMaps (map : Key → Option Record) (ops : List TableOp) : Key → Option Record := ops.foldl onMap map

def programs (logged : Bool) : List TableOp → TableProg (List Bool)
  | [] => return []
  | op :: ops => do
      let answer ← op.program logged
      return answer :: (← programs logged ops)

end TableOp

namespace LogOf

def appended (wal : WALManager) (change : Change) : WALManager :=
  (wal.append change.type change.recordId change.beforeImage change.afterImage).2

def flushed (wal : WALManager) (change : Change) : WALManager := (appended wal change).flush

def after (logged : Bool) (wal : WALManager) (change : Option Change) : WALManager :=
  match logged, change with
  | true, some change => (flushed wal change).appendCommit
  | _, _ => wal

def moments (logged : Bool) (wal : WALManager) (change : Option Change) : List WALManager :=
  match logged, change with
  | true, some change => [wal, appended wal change, flushed wal change, (flushed wal change).appendCommit]
  | _, _ => [wal]

theorem after_none (wal : WALManager) : after logged wal none = wal := by
  cases logged with
  | false => rfl
  | true => rfl

theorem start_mem_moments (wal : WALManager) (change : Option Change) : wal ∈ moments logged wal change := by
  cases logged with
  | false => exact List.mem_singleton_self wal
  | true =>
    cases change with
    | none => exact List.mem_singleton_self wal
    | some change => exact List.mem_cons_self

end LogOf

/-- What an operation does once it is known what it changes: log, work, log the COMMIT record. -/
def loggedWork (logged : Bool) (log : TableProg Unit) (work : TableProg Bool) : TableProg Bool := do
  Table.withLog logged log
  let done ← work
  Table.withLog (done && logged) appendCommit
  return done

def Worked (base : Multiset (PageId × Cell)) (next : Key → Option Record) (logged : Bool) (wal : WALManager) (change : Change)
    (answer : Bool) (later : TableStore) : Prop :=
  answer = true ∧ Tabled base next later ∧ later.wal = LogOf.after logged wal (some change)

theorem loggedWork_spec {log : TableProg Unit} {work : TableProg Bool} {change : Change} {next : Key → Option Record}
    (unlogged : Unlogged work)
    (logs : visits (TableStore.handler rounds) log store =
      [store, { store with wal := LogOf.appended store.wal change }, { store with wal := LogOf.flushed store.wal change }])
    (ran : run (TableStore.handler rounds) log store =
      some (.ok (), { store with wal := LogOf.flushed store.wal change }))
    (works : ∀ wal, Finishes rounds work (fun done later => done = true ∧ later.wal = wal ∧ Tabled base next later)
      { store with wal := wal }) :
    Passes rounds (· ∈ LogOf.moments logged store.wal (some change)) (loggedWork logged log work)
      (Worked base next logged store.wal change) store := by
  have now : store.wal ∈ LogOf.moments logged store.wal (some change) := LogOf.start_mem_moments _ _
  cases logged with
  | false =>
    refine (unlogged.passes now (works store.wal)).seq ?_
    rintro done later ⟨rfl, sameLog, tabled⟩
    exact passes_pure (sameLog.symm ▸ now) ⟨rfl, tabled, sameLog⟩
  | true =>
    have logging : Passes rounds (· ∈ LogOf.moments true store.wal (some change)) log
        (fun _ later => later = { store with wal := LogOf.flushed store.wal change }) store := by
      constructor
      · rw [logs]
        intro seen member
        simp only [List.mem_cons, List.not_mem_nil, or_false] at member
        rcases member with rfl | rfl | rfl
        · exact now
        · exact List.mem_cons_of_mem _ List.mem_cons_self
        · exact List.mem_cons_of_mem _ (List.mem_cons_of_mem _ List.mem_cons_self)
      · unfold Finishes Ensures
        rw [ran]
    refine logging.seq ?_
    rintro - - rfl
    have flushed : LogOf.flushed store.wal change ∈ LogOf.moments true store.wal (some change) :=
      List.mem_cons_of_mem _ (List.mem_cons_of_mem _ List.mem_cons_self)
    refine (unlogged.passes flushed (works _)).seq ?_
    rintro done later ⟨rfl, sameLog, tabled⟩
    constructor
    · intro seen member
      change seen ∈ [later, { later with wal := later.wal.appendCommit }] at member
      simp only [List.mem_cons, List.not_mem_nil, or_false] at member
      rcases member with rfl | rfl
      · rw [sameLog]
        exact flushed
      · rw [sameLog]
        exact List.mem_of_getLast? rfl
    · unfold Finishes
      refine (ensures_call rfl).mpr ⟨rfl, tabled.relog _, ?_⟩
      change later.wal.appendCommit = _
      rw [sameLog]
      rfl

namespace TableOp

/-- The operation answers whether it was not refused, and leaves the records and the log it should. -/
def Does (base : Multiset (PageId × Cell)) (map : Key → Option Record) (logged : Bool) (wal : WALManager) (op : TableOp)
    (answer : Bool) (later : TableStore) : Prop :=
  answer = (op.change map).isSome ∧ Tabled base (op.onMap map) later ∧
    later.wal = LogOf.after logged wal (op.change map)

theorem insert_work (logged : Bool) (tabled : Tabled base map store) (record : Record) (absent : map record.id = none)
    (enough : maxPages + 1 < rounds) :
    Passes rounds (· ∈ LogOf.moments logged store.wal (some ⟨.insert, record.id, [], Table.recordImage record⟩))
      (loggedWork logged (appendInsert record.id (Table.recordImage record) >>= fun _ => flush)
        (Table.insertWithoutWAL record))
      (Worked base (insertRecord map record) logged store.wal ⟨.insert, record.id, [], Table.recordImage record⟩) store := by
  apply loggedWork_spec (unlogged_insertWithoutWAL record) rfl rfl
  intro wal
  refine ((tabled.relog wal).insertWithoutWAL record enough).mono fun inserted last done => ?_
  rw [absent] at done
  exact done

theorem update_work (logged : Bool) (tabled : Tabled base map store) (id : Int64) (before after : Record)
    (present : map id = some before) (enough : maxPages + 1 < rounds) :
    Passes rounds (· ∈ LogOf.moments logged store.wal (some ⟨.update, id, Table.recordImage before, Table.recordImage after⟩))
      (loggedWork logged (appendUpdate id (Table.recordImage before) (Table.recordImage after) >>= fun _ => flush)
        (Table.updateWithoutWAL id after))
      (Worked base (Function.update map id (some after.stored)) logged store.wal
        ⟨.update, id, Table.recordImage before, Table.recordImage after⟩) store := by
  apply loggedWork_spec (unlogged_updateWithoutWAL id after) rfl rfl
  intro wal
  refine ((tabled.relog wal).updateWithoutWAL id after enough).mono fun updated last done => ?_
  rw [present, updateRecord, if_neg (Option.isSome_iff_ne_none.mp (Option.isSome_of_eq_some present))] at done
  exact done

theorem delete_work (logged : Bool) (tabled : Tabled base map store) (id : Int64) (before : Record)
    (enough : maxPages + 1 < rounds) :
    Passes rounds (· ∈ LogOf.moments logged store.wal (some ⟨.delete, id, Table.recordImage before, []⟩))
      (loggedWork logged (appendDelete id (Table.recordImage before) >>= fun _ => flush) (Table.deleteWithoutWAL id))
      (Worked base (eraseRecord map id) logged store.wal ⟨.delete, id, Table.recordImage before, []⟩) store := by
  apply loggedWork_spec (unlogged_deleteWithoutWAL id) rfl rfl
  intro wal
  exact (tabled.relog wal).deleteWithoutWAL id enough

theorem insert_spec (tabled : Tabled base map store) (record : Record) (enough : maxPages + 1 < rounds) :
    Passes rounds (· ∈ LogOf.moments logged store.wal ((insert record).change map)) (Table.insert logged record)
      ((insert record).Does base map logged store.wal) store := by
  unfold Does
  have now : store.wal ∈ LogOf.moments logged store.wal ((insert record).change map) := LogOf.start_mem_moments _ _
  refine ((unlogged_search record.id).passes now (tabled.lookup record.id enough)).seq ?_
  rintro found later ⟨same, sameLog, still⟩
  rw [← sameLog] at now ⊢
  rw [onMap]
  cases found with
  | some value =>
    have present : map record.id ≠ none := Option.isSome_iff_ne_none.mp same.symm
    rw [change, if_neg present] at now ⊢
    rw [insertRecord, if_neg present]
    exact passes_pure now ⟨rfl, still, (LogOf.after_none _).symm⟩
  | none =>
    have absent : map record.id = none := Option.not_isSome_iff_eq_none.mp (same ▸ Bool.false_ne_true)
    rw [change, if_pos absent]
    exact insert_work logged still record absent enough

theorem update_spec (tabled : Tabled base map store) (id : Int64) (mutator : Record → Record)
    (enough : maxPages + 1 < rounds) :
    Passes rounds (· ∈ LogOf.moments logged store.wal ((update id mutator).change map)) (Table.update logged id mutator)
      ((update id mutator).Does base map logged store.wal) store := by
  unfold Does
  have now : store.wal ∈ LogOf.moments logged store.wal ((update id mutator).change map) := LogOf.start_mem_moments _ _
  refine ((unlogged_select id).passes now (tabled.select id enough)).seq ?_
  rintro found later ⟨rfl, sameLog, still⟩
  rw [← sameLog] at now ⊢
  rw [onMap]
  cases present : map id with
  | none =>
    rw [change, present] at now ⊢
    exact passes_pure now ⟨rfl, still, (LogOf.after_none _).symm⟩
  | some before =>
    rw [change, present]
    exact update_work logged still id before { mutator before with id := id } present enough

theorem delete_spec (tabled : Tabled base map store) (id : Int64) (enough : maxPages + 1 < rounds) :
    Passes rounds (· ∈ LogOf.moments logged store.wal ((delete id).change map)) (Table.delete logged id)
      ((delete id).Does base map logged store.wal) store := by
  unfold Does
  have now : store.wal ∈ LogOf.moments logged store.wal ((delete id).change map) := LogOf.start_mem_moments _ _
  refine ((unlogged_select id).passes now (tabled.select id enough)).seq ?_
  rintro found later ⟨rfl, sameLog, still⟩
  rw [← sameLog] at now ⊢
  rw [onMap]
  cases present : map id with
  | none =>
    rw [change, present] at now ⊢
    rw [eraseRecord, Function.update_eq_self_iff.mpr present.symm]
    exact passes_pure now ⟨rfl, still, (LogOf.after_none _).symm⟩
  | some before =>
    rw [change, present]
    exact delete_work logged still id before enough

theorem program_spec (tabled : Tabled base map store) (op : TableOp) (enough : maxPages + 1 < rounds) :
    Passes rounds (· ∈ LogOf.moments logged store.wal (op.change map)) (op.program logged)
      (op.Does base map logged store.wal) store := by
  cases op with
  | insert record => exact insert_spec tabled record enough
  | update id mutator => exact update_spec tabled id mutator enough
  | delete id => exact delete_spec tabled id enough

theorem programs_spec (tabled : Tabled base map store) (ops : List TableOp) (enough : maxPages + 1 < rounds) :
    Finishes rounds (programs logged ops) (fun _ later => Tabled base (onMaps map ops) later) store := by
  induction ops generalizing store map with
  | nil => exact finishes_pure.mpr tabled
  | cons op ops ih =>
    refine (op.program_spec tabled enough).finishes.seq fun answer later done => ?_
    exact (ih done.2.1).seq fun answers last still => finishes_pure.mpr still

end TableOp

/-- Every record is filed under its own id with a name that is cut already. -/
structure Tidy (map : Key → Option Record) : Prop where
  named : Named map
  stored : ∀ id record, map id = some record → record.stored = record

theorem tidy_empty : Tidy fun _ => none :=
  ⟨fun _ _ impossible => absurd impossible.symm (Option.some_ne_none _),
    fun _ _ impossible => absurd impossible.symm (Option.some_ne_none _)⟩

theorem Tidy.put (tidy : Tidy map) (record : Record) : Tidy (Function.update map record.id (some record.stored)) := by
  constructor
  · intro id other found
    by_cases same : id = record.id
    · subst same
      rw [Function.update_self] at found
      rw [← Option.some.inj found, Record.stored_id]
    · rw [Function.update_of_ne same] at found
      exact tidy.named id other found
  · intro id other found
    by_cases same : id = record.id
    · subst same
      rw [Function.update_self] at found
      rw [← Option.some.inj found, Record.stored_stored]
    · rw [Function.update_of_ne same] at found
      exact tidy.stored id other found

theorem Tidy.erase (tidy : Tidy map) (id : Key) : Tidy (eraseRecord map id) := by
  have kept : ∀ other record, eraseRecord map id other = some record → map other = some record := by
    intro other record found
    by_cases same : other = id
    · rw [eraseRecord, same, Function.update_self] at found
      cases found
    · rwa [eraseRecord, Function.update_of_ne same] at found
  exact ⟨fun other record found => tidy.named other record (kept other record found),
    fun other record found => tidy.stored other record (kept other record found)⟩

theorem Tidy.onMap (tidy : Tidy map) (op : TableOp) : Tidy (op.onMap map) := by
  cases op with
  | insert record =>
    rw [TableOp.onMap, insertRecord]
    split
    · exact tidy.put record
    · exact tidy
  | update id mutator =>
    rw [TableOp.onMap]
    cases map id with
    | none => exact tidy
    | some before => exact tidy.put { mutator before with id := id }
  | delete id => exact tidy.erase id

theorem Tidy.onMaps (tidy : Tidy map) (ops : List TableOp) : Tidy (TableOp.onMaps map ops) := by
  induction ops generalizing map with
  | nil => exact tidy
  | cons op ops ih => exact ih (tidy.onMap op)

end QuorumDB.Query
