import QuorumDB.Lib.Execution
import QuorumDB.Query.QueryEngine
import QuorumDB.Storage.TreeWalk

/-!
Who owns a page: the nodes under the root, the records that leaf values name, or the free
list. After every sequence of calls every page handed out has exactly one owner.
-/

namespace QuorumDB.Storage

/-- Tree nodes, record pages and the free list share no page and leave none out. -/
def TreeStore.Partitioned (store : TreeStore) : Prop :=
  ∃ depth pages recordPages, store.walk depth = some (pages, recordPages.map Int32.toInt64) ∧
    (pages ++ (recordPages ++ store.storage.disk.freeList)).Nodup ∧
      ∀ pageId, pageId ∈ pages ++ (recordPages ++ store.storage.disk.freeList) ↔
        0 ≤ pageId ∧ pageId < store.storage.disk.nextPageId

end QuorumDB.Storage

namespace QuorumDB.Query
open Storage Program Execution

variable {store later : TableStore} {base : Multiset (PageId × Cell)} {rows : List Row} {rounds : Nat} {logged : Bool}

theorem Stores.partitioned {store : TreeStore} (stores : Stores store 0 rows) : store.Partitioned := by
  obtain ⟨depth, pages, walked, cells, same, owns⟩ := Represents.walk stores
  have values : (rows.map Row.entry).map Prod.snd = (rows.map Row.pageId).map Int32.toInt64 := by
    rw [List.map_map, List.map_map]
    rfl
  have owned : (cells + (recordCells rows + 0)).map Prod.fst = ((pages ++ rows.map Row.pageId : List PageId) : Multiset PageId) := by
    rw [add_zero, Multiset.map_add, same, recordCells, Multiset.map_coe, List.map_map, Multiset.coe_add]
    rfl
  have distinct := owns.distinct
  have covered := owns.covered
  rw [owned] at distinct covered
  have live : ∀ pageId ∈ pages ++ rows.map Row.pageId, 0 ≤ pageId ∧ pageId < store.storage.disk.nextPageId ∧
      pageId ∉ store.storage.disk.freeList := by
    intro pageId member
    have inside : pageId ∈ (cells + (recordCells rows + 0)).map Prod.fst := by
      rw [owned]
      exact member
    obtain ⟨cell, found, rfl⟩ := Multiset.mem_map.mp inside
    have alive := owns.live cell found
    exact ⟨alive.nonneg, alive.below, alive.used⟩
  refine ⟨depth, pages, rows.map Row.pageId, ?_, ?_, fun pageId => ?_⟩
  · rw [walked, values]
  · rw [← List.append_assoc]
    refine List.nodup_append.mpr ⟨Multiset.coe_nodup.mp distinct, owns.sound.free_nodup, fun pageId used other free same => ?_⟩
    subst same
    exact (live pageId used).2.2 free
  · rw [← List.append_assoc, List.mem_append]
    constructor
    · rintro (used | free)
      · exact ⟨(live pageId used).1, (live pageId used).2.1⟩
      · exact owns.sound.free_range pageId free
    · rintro ⟨nonneg, below⟩
      exact (covered pageId nonneg below).symm

/-- The program ends with a table that holds some records, also when it throws, unless no page
identifier is left. -/
def Keeps {Result : Type} (rounds : Nat) (base : Multiset (PageId × Cell)) (program : TableProg Result) (store : TableStore) : Prop :=
  Ensures (TableStore.handler rounds) (fun error later => error = .pageIdLimit ∨ ∃ map, Tabled base map later) program
    (fun _ later => ∃ map, Tabled base map later) store

theorem Finishes.keeps {Result : Type} {program : TableProg Result} {post : Result → TableStore → Prop}
    (finishes : Finishes rounds program post store) (tabled : ∀ value later, post value later → ∃ map, Tabled base map later) :
    Keeps rounds base program store := by
  unfold Finishes at finishes
  exact finishes.weaken tabled fun _ _ thrown => .inl thrown.1

theorem Keeps.seq {First Second : Type} {program : TableProg First} {next : First → TableProg Second}
    (first : Keeps rounds base program store)
    (rest : ∀ value later, (∃ map, Tabled base map later) → Keeps rounds base (next value) later) :
    Keeps rounds base (program >>= next) store :=
  Ensures.seq first rest

theorem replay_keeps (tabled : ∃ map, Tabled base map store) (record : LogRecord) (enough : maxPages + 1 < rounds) :
    Keeps rounds base (Table.replay record) store := by
  obtain ⟨map, tabled⟩ := tabled
  have done : ∀ {program : TableProg Bool}, Keeps rounds base program store →
      Keeps rounds base (program >>= fun _ => pure ()) store := fun first => first.seq fun _ _ held => held
  unfold Table.replay
  cases record.type with
  | insert =>
    cases Table.recordFromImage record.afterImage with
    | error error => exact .inr ⟨map, tabled⟩
    | ok row => exact done ((tabled.insertWithoutWAL row enough).keeps fun _ _ kept => ⟨_, kept.2.2⟩)
  | update =>
    cases Table.recordFromImage record.afterImage with
    | error error => exact .inr ⟨map, tabled⟩
    | ok row => exact done ((tabled.updateWithoutWAL record.recordId row enough).keeps fun _ _ kept => ⟨_, kept.2.2⟩)
  | delete => exact done ((tabled.deleteWithoutWAL record.recordId enough).keeps fun _ _ kept => ⟨_, kept.2.2⟩)
  | commit => exact ⟨map, tabled⟩

theorem replayAll_keeps (tabled : ∃ map, Tabled base map store) (records : List LogRecord) (enough : maxPages + 1 < rounds) :
    Keeps rounds base (Table.replayAll records) store := by
  induction records generalizing store with
  | nil => exact tabled
  | cons record records ih =>
    rw [Table.replayAll]
    exact (replay_keeps tabled record enough).seq fun _ _ held => ih held

inductive TableAction where
  | write (op : TableOp)
  | recover

namespace TableAction

def program (logged : Bool) : TableAction → TableProg Unit
  | .write op => do
      let _ ← op.program logged
      return ()
  | .recover => Table.recover logged

theorem keeps (tabled : ∃ map, Tabled base map store) (action : TableAction) (enough : maxPages + 1 < rounds) :
    Keeps rounds base (action.program logged) store := by
  cases action with
  | write op =>
    obtain ⟨map, tabled⟩ := tabled
    have first : Keeps rounds base (op.program logged) store :=
      (op.program_spec tabled enough).finishes.keeps fun _ _ done => ⟨_, done.2.1⟩
    exact first.seq fun _ _ held => held
  | recover =>
    cases logged with
    | false => exact tabled
    | true => exact replayAll_keeps tabled store.wal.readAllRecords enough

def Initial (store : TableStore) : Prop := ∃ poolSize, 0 < poolSize ∧ store.tree = TreeStore.open poolSize []

/-- A call that does not run out of page identifiers. It may still throw, and Recover does when the
log holds an image of the wrong size. -/
def Step (rounds : Nat) (logged : Bool) (store : TableStore) (action : TableAction) (later : TableStore) : Prop :=
  ∃ result, run (TableStore.handler rounds) (action.program logged) store = some (result, later) ∧
    result ≠ .error .pageIdLimit

theorem tabled_reached {past : List TableStore} (reached : Run Initial (Step rounds logged) past store)
    (enough : maxPages + 1 < rounds) : ∃ map, Tabled 0 map store := by
  refine @Run.invariant _ _ _ _ (fun _ store => ∃ map, Tabled 0 map store) ?_ ?_ _ _ reached
  · rintro ⟨tree, wal⟩ ⟨poolSize, some, rfl⟩
    exact ⟨_, tabled_empty rfl (opened_owns some (by decide))⟩
  · rintro past store action later - tabled ⟨result, ran, fine⟩
    have kept : Keeps rounds 0 (action.program logged) store := action.keeps tabled enough
    unfold Keeps Ensures at kept
    rw [ran] at kept
    cases result with
    | ok value => exact kept
    | error error => exact kept.resolve_left fun same => fine (congrArg Except.error same)

end TableAction

/-- Page ownership: after every sequence of calls every page has exactly one owner. -/
theorem pages_partitioned {past : List TableStore} (reached : Run TableAction.Initial (TableAction.Step rounds logged) past store)
    (enough : maxPages + 1 < rounds) : store.tree.Partitioned := by
  obtain ⟨map, rows, stores, -⟩ := TableAction.tabled_reached reached enough
  exact stores.partitioned

set_option maxRecDepth 4000 in
/-- Two records are inserted and one of them deleted, which frees its page, and the log is replayed over that. -/
theorem pages_partitioned_insert :
    ∃ past store, Run TableAction.Initial (TableAction.Step (maxPages + 2) true) past store ∧ past.length = 4 ∧
      store.tree.storage.disk.freeList = [2] ∧ store.tree.Partitioned := by
  have runs : ∃ one two three four,
      run (TableStore.handler (maxPages + 2)) (TableAction.program true (.write (.insert ⟨5, [65], 1⟩)))
        ⟨TreeStore.open 8 [], WALManager.openFile []⟩ = some (.ok (), one) ∧
      run (TableStore.handler (maxPages + 2)) (TableAction.program true (.write (.insert ⟨6, [66], 2⟩))) one = some (.ok (), two) ∧
      run (TableStore.handler (maxPages + 2)) (TableAction.program true (.write (.delete 6))) two = some (.ok (), three) ∧
      run (TableStore.handler (maxPages + 2)) (TableAction.program true .recover) three = some (.ok (), four) ∧
      four.tree.storage.disk.freeList = [2] :=
    ⟨_, _, _, _, rfl, rfl, rfl, rfl, rfl⟩
  obtain ⟨one, two, three, four, inserts, again, deletes, recovers, free⟩ := runs
  have step : ∀ {before after action}, run (TableStore.handler (maxPages + 2)) (TableAction.program true action) before =
      some (.ok (), after) → TableAction.Step (maxPages + 2) true before action after :=
    fun ran => ⟨_, ran, fun impossible => nomatch impossible⟩
  have opened : Run TableAction.Initial (TableAction.Step (maxPages + 2) true) [] ⟨TreeStore.open 8 [], WALManager.openFile []⟩ :=
    .start ⟨8, by decide, rfl⟩
  have reached := (((opened.next (step inserts)).next (step again)).next (step deletes)).next (step recovers)
  exact ⟨_, four, reached, rfl, free, pages_partitioned reached (Nat.lt_succ_self _)⟩

end QuorumDB.Query
