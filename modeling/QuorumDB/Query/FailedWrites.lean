import QuorumDB.Query.Crash
import QuorumDB.Storage.Crowd

/-!
Operations over a crowded pool. An operation that is refused a frame before it logs changes
nothing; as long as none is refused one after that, Recover brings back what the table held.
-/

namespace QuorumDB.Query
open Storage Program TableProg

variable {Result Value : Type} {store : TableStore} {base : Multiset (PageId × Cell)} {rounds : Nat}
variable {map : Key → Option Record} {rows : List Row} {plan : List Bool} {state : TableStore × List Bool}

namespace TableStore

def treeProgram (rounds : Nat) : (request : TableCall) → Option (PageProg (TableCall.Answer request))
  | .search key => some (BPlusTree.search rounds key)
  | .insert key value => some (BPlusTree.insert rounds key value)
  | .delete key => some (BPlusTree.delete rounds key)
  | .rangeScan start stop => some (BPlusTree.rangeScan rounds start stop [])
  | _ => none

def refusal : (request : TableCall) → Option (Except StorageError (TableCall.Answer request))
  | .newPage => some (.ok none)
  | .fetchPage _ => some (.ok none)
  | _ => none

/-- What each call does when the flags of a plan say which FetchPage and NewPage find no frame. -/
def crowded (rounds : Nat) : Handler TableCall TableCall.Answer StorageError (TableStore × List Bool) :=
  fun request state =>
    match treeProgram rounds request with
    | some program => (run TreeStore.crowded program (state.1.tree, state.2)).map fun done =>
        (done.1, ({ state.1 with tree := done.2.1 }, done.2.2))
    | none => (handler rounds).refusing refusal request state

def Served (rounds : Nat) (request : TableCall) (state : TableStore × List Bool) : Prop :=
  match treeProgram rounds request with
  | some program => Along TreeStore.crowded (Granted TreeStore.refusal) program (state.1.tree, state.2)
  | none => Granted refusal request state

theorem handler_tree {request : TableCall} {program : PageProg (TableCall.Answer request)}
    (found : treeProgram rounds request = some program) : handler rounds request store = onTree program store := by
  cases request with
  | search key => exact Option.some.inj found ▸ rfl
  | insert key value => exact Option.some.inj found ▸ rfl
  | delete key => exact Option.some.inj found ▸ rfl
  | rangeScan start stop => exact Option.some.inj found ▸ rfl
  | newPage => cases found
  | fetchPage pageId => cases found
  | unpinPage pageId isDirty => cases found
  | deletePage pageId => cases found
  | serializeRecord page record => cases found
  | deserializeRecord page => cases found
  | appendInsert recordId afterImage => cases found
  | appendUpdate recordId beforeImage afterImage => cases found
  | appendDelete recordId beforeImage => cases found
  | appendCommit => cases found
  | flush => cases found
  | readAllRecords => cases found

theorem crowded_served (request : TableCall) (state : TableStore × List Bool) (served : Served rounds request state) :
    ∃ rest, crowded rounds request state = (handler rounds request state.1).map fun done => (done.1, (done.2, rest)) := by
  unfold Served at served
  unfold crowded
  cases found : treeProgram rounds request with
  | none =>
    rw [found] at served
    exact refusing_granted served
  | some program =>
    rw [found] at served
    obtain ⟨rest, same⟩ := run_along (fun _ _ => refusing_granted) served
    refine ⟨rest, ?_⟩
    show (run TreeStore.crowded program (state.1.tree, state.2)).map _ = _
    have meaning : TreeStore.crowded = TreeStore.handler.refusing TreeStore.refusal := rfl
    rw [meaning, same, handler_tree found, onTree, Option.map_map, Option.map_map]
    rfl

theorem crowded_nil (request : TableCall) (store : TableStore) :
    crowded rounds request (store, []) = (handler rounds request store).map (fun done => (done.1, (done.2, []))) ∧
      Served rounds request (store, []) := by
  unfold crowded Served
  cases found : treeProgram rounds request with
  | none => exact ⟨refusing_nil (handler rounds) refusal request store, fun _ => (Option.some_ne_none true).symm⟩
  | some program =>
    have granted : ∀ call (state : TreeStore), Granted TreeStore.refusal call (state, []) :=
      fun call state _ => (Option.some_ne_none true).symm
    obtain ⟨same, along⟩ := run_fixed (refusing_nil TreeStore.handler TreeStore.refusal) granted program store.tree
    refine ⟨?_, along⟩
    show (run (TreeStore.handler.refusing TreeStore.refusal) program (store.tree, [])).map _ = _
    rw [same, handler_tree found, onTree, Option.map_map, Option.map_map]
    rfl

/-- A pool whose frames are all pinned refuses the pages it does not hold just so. -/
theorem handler_full {request : TableCall} {answer : Except StorageError (TableCall.Answer request)}
    (refused : refusal request = some answer) (full : ¬ store.tree.storage.pool.Available)
    (absent : ∀ pageId, request = .fetchPage pageId →
      pageId ≠ invalidPageId ∧ store.tree.storage.pool.find pageId = none) :
    handler rounds request store = some (answer, store) := by
  cases request with
  | newPage =>
    rw [← Option.some.inj refused]
    show onPages BufferedDisk.newPage store = _
    simp only [onPages, TreeStore.accessing, newPage_none full, Option.map_some]
  | fetchPage pageId =>
    obtain ⟨real, gone⟩ := absent pageId rfl
    rw [← Option.some.inj refused]
    show onPages (BufferedDisk.fetchPage pageId) store = _
    simp only [onPages, TreeStore.accessing, fetchPage_full real gone full, Option.map_some]
  | search key => cases refused
  | insert key value => cases refused
  | delete key => cases refused
  | rangeScan start stop => cases refused
  | unpinPage pageId isDirty => cases refused
  | deletePage pageId => cases refused
  | serializeRecord page record => cases refused
  | deserializeRecord page => cases refused
  | appendInsert recordId afterImage => cases refused
  | appendUpdate recordId beforeImage afterImage => cases refused
  | appendDelete recordId beforeImage => cases refused
  | appendCommit => cases refused
  | flush => cases refused
  | readAllRecords => cases refused

end TableStore

/-- Over a crowded pool the program ends in a state that satisfies `post`, or throws in one that
satisfies `kept`, unless no page identifier is left. -/
def Endures (rounds : Nat) (kept : TableStore → Prop) (program : TableProg Result) (post : Result → TableStore → Prop)
    (state : TableStore × List Bool) : Prop :=
  Ensures (TableStore.crowded rounds) (fun error later => error = .pageIdLimit ∨ kept later.1) program
    (fun value later => post value later.1) state

section Rules

variable {kept : TableStore → Prop} {post : Result → TableStore → Prop}

theorem Finishes.endures {program : TableProg Result} (finishes : Finishes rounds program post state.1)
    (along : Along (TableStore.crowded rounds) (TableStore.Served rounds) program state) :
    Endures rounds kept program post state := by
  obtain ⟨rest, same⟩ := run_along TableStore.crowded_served along
  unfold Finishes Ensures at finishes
  unfold Endures Ensures
  rw [same]
  match ran : run (TableStore.handler rounds) program state.1 with
  | none =>
    rw [ran] at finishes
    exact finishes
  | some (.error error, later) =>
    rw [ran] at finishes
    exact .inl finishes.1
  | some (.ok value, later) =>
    rw [ran] at finishes
    exact finishes

theorem Endures.andThen {program : TableProg Value} {next : Value → TableProg Result} {middle : Value → TableStore → Prop}
    (first : Endures rounds kept program middle state)
    (rest : ∀ value later, middle value later.1 → Endures rounds kept (next value) post later) :
    Endures rounds kept (program >>= next) post state :=
  Ensures.seq first rest

theorem Endures.seq {program : TableProg Value} {next : Value → TableProg Result} {middle : Value → TableStore → Prop}
    (first : Endures rounds kept program middle state) (unlogged : Unlogged program)
    (served : AlongFrom (TableStore.crowded rounds) TableCall.logs (TableStore.Served rounds) (program >>= next) state)
    (rest : ∀ value later, middle value later.1 →
      AlongFrom (TableStore.crowded rounds) TableCall.logs (TableStore.Served rounds) (next value) later →
        Endures rounds kept (next value) post later) : Endures rounds kept (program >>= next) post state := by
  unfold Endures at first rest ⊢
  refine ensures_bind.mpr ?_
  unfold Ensures at first ⊢
  match ran : run (TableStore.crowded rounds) program state with
  | none =>
    rw [ran] at first
    exact first
  | some (.error error, later) =>
    rw [ran] at first
    exact first
  | some (.ok value, later) =>
    rw [ran] at first
    exact rest value later first (unlogged.along_from served ran)

end Rules

section Lookups

variable {before after : List Row} {row : Row}

def Still (base : Multiset (PageId × Cell)) (rows : List Row) (wal : WALManager) (store : TableStore) : Prop :=
  Stores store.tree base rows ∧ store.wal = wal

theorem Stores.search_crowded (stores : Stores store.tree base rows) (key : Key) (plan : List Bool)
    (enough : maxPages + 1 < rounds) :
    Endures rounds (Still base rows store.wal) (TableProg.search key)
      (fun found later => found = SearchWord.assoc (rows.map Row.entry) key ∧ Still base rows store.wal later) (store, plan) := by
  have few := stores.few enough
  obtain ⟨result, later, rest, ran, still, outcome⟩ := Represents.search_crowded stores key few plan
  have handled : TableStore.crowded rounds (.search key) (store, plan) =
      some (result, ({ store with tree := later }, rest)) := by
    show (run TreeStore.crowded (BPlusTree.search rounds key) (store.tree, plan)).map _ = _
    rw [ran]
    rfl
  have kept : Still base rows store.wal { store with tree := later } := ⟨still, rfl⟩
  rcases outcome with rfl | rfl
  · exact (ensures_call handled).mpr ⟨rfl, kept⟩
  · exact (ensures_throw handled).mpr (.inr kept)

theorem Stores.readRecord_crowded (stores : Stores store.tree base (before ++ row :: after)) (plan : List Bool)
    {kept : TableStore → Prop} :
    Endures rounds kept (Table.readRecord row.pageId.toInt64) (fun found later => (found = some row.record ∨ found = none) ∧
      Still base (before ++ row :: after) store.wal later) (store, plan) := by
  have shape : ∃ next : Option Nat → TableProg (Option Record),
      Table.readRecord row.pageId.toInt64 = .call (.fetchPage row.pageId) next ∧ next none = .done none ∧
        ∀ page, Only (fun request => ∀ state, TableStore.Served rounds request state) (next page) := by
    rw [Table.readRecord]
    simp only [Int32.toInt32_toInt64, if_neg stores.real]
    refine ⟨_, rfl, rfl, fun page => ?_⟩
    cases page with
    | none => exact .done none
    | some index =>
      exact .call (fun _ impossible => absurd impossible Bool.false_ne_true) fun record =>
        .call (fun _ impossible => absurd impossible Bool.false_ne_true) fun released => .done (some record)
  have reads : Finishes rounds (Table.readRecord row.pageId.toInt64) (fun found later =>
      (found = some row.record ∨ found = none) ∧ Still base (before ++ row :: after) store.wal later) store :=
    stores.readRecord.mono fun found later done => ⟨.inl done.1, done.2.2, done.2.1⟩
  obtain ⟨next, same, missing, served⟩ := shape
  rw [same] at reads ⊢
  by_cases refused : plan.head? = some true
  · have handled : TableStore.crowded rounds (.fetchPage row.pageId) (store, plan) =
        some (.ok none, (store, plan.tail)) := if_pos refused
    unfold Endures
    rw [ensures_call handled, missing]
    exact ⟨.inr rfl, stores, rfl⟩
  · refine Finishes.endures reads ?_
    rw [Along]
    refine ⟨fun _ => refused, ?_⟩
    split
    · exact (served _).along (fun request state fine => fine state) _
    · trivial

end Lookups

def Unchanged (base : Multiset (PageId × Cell)) (map : Key → Option Record) (wal : WALManager) (store : TableStore) : Prop :=
  Tabled base map store ∧ store.wal = wal

namespace Tabled

theorem search_crowded (tabled : Tabled base map store) (id : Int64) (plan : List Bool) (enough : maxPages + 1 < rounds) :
    Endures rounds (Unchanged base map store.wal) (TableProg.search id)
      (fun found later => found.isSome = (map id).isSome ∧ Unchanged base map store.wal later) (store, plan) := by
  obtain ⟨rows, stores, rfl⟩ := tabled
  refine Ensures.weaken (stores.search_crowded id plan enough) (fun found later done => ?_) fun error later kept => ?_
  · obtain ⟨rfl, still, sameLog⟩ := done
    refine ⟨?_, ⟨rows, still, rfl⟩, sameLog⟩
    rcases find_row stores.sorted id with ⟨absent, missing⟩ | ⟨before, row, after, rfl, rfl, below, above⟩
    · rw [absent, missing]
      rfl
    · obtain ⟨entry, record⟩ := assoc_row fun other member => (below other member).ne
      rw [entry, record]
      rfl
  · exact kept.imp_right fun still => ⟨⟨rows, still.1, rfl⟩, still.2⟩

theorem select_crowded (tabled : Tabled base map store) (id : Int64) (plan : List Bool) (enough : maxPages + 1 < rounds) :
    Endures rounds (Unchanged base map store.wal) (Table.select id)
      (fun found later => (found = map id ∨ found = none) ∧ Unchanged base map store.wal later) (store, plan) := by
  obtain ⟨rows, stores, rfl⟩ := tabled
  have whole : ∀ {later : TableStore}, Still base rows store.wal later → Unchanged base (records rows) store.wal later :=
    fun still => ⟨⟨rows, still.1, rfl⟩, still.2⟩
  have first : Endures rounds (Unchanged base (records rows) store.wal) (TableProg.search id)
      (fun found later => found = SearchWord.assoc (rows.map Row.entry) id ∧ Still base rows store.wal later) (store, plan) :=
    Ensures.weaken (stores.search_crowded id plan enough) (fun _ _ done => done) fun _ _ kept => kept.imp_right whole
  refine Endures.andThen first fun found later done => ?_
  obtain ⟨rfl, still⟩ := done
  rcases find_row stores.sorted id with ⟨absent, missing⟩ | ⟨before, row, after, rfl, rfl, below, above⟩
  · rw [missing]
    exact ⟨.inr rfl, whole still⟩
  · obtain ⟨entry, record⟩ := assoc_row fun other member => (below other member).ne
    rw [entry, record]
    have read : Endures rounds (Unchanged base (records (before ++ row :: after)) store.wal)
        (Table.readRecord row.pageId.toInt64) (fun found last => (found = some row.record ∨ found = none) ∧
          Still base (before ++ row :: after) later.1.wal last) later := Stores.readRecord_crowded still.1 later.2
    refine Ensures.mono read fun value last outcome => ⟨outcome.1, whole ?_⟩
    rw [← still.2]
    exact outcome.2

end Tabled

namespace Backed

theorem unchanged {later : TableStore} (backed : Backed base map store) (same : Unchanged base map store.wal later) :
    Backed base map later :=
  ⟨same.1, same.2 ▸ backed.logged, same.2 ▸ backed.whole⟩

theorem worked {op : TableOp} {change : Change} {answer : Bool} {later : TableStore} (backed : Backed base map store)
    (changed : op.change map = some change) (done : Worked base (op.onMap map) true store.wal change answer later) :
    Backed base (if answer then op.onMap map else map) later := by
  obtain ⟨rfl, tabled, sameLog⟩ := done
  have does : op.Does base map true store.wal true later := by
    unfold TableOp.Does
    rw [changed]
    exact ⟨rfl, tabled, sameLog⟩
  exact backed.does does

end Backed

namespace TableOp

/-- From its log record on the operation is not refused a frame. -/
def Served (rounds : Nat) (op : TableOp) (plan : List Bool) (store : TableStore) : Prop :=
  AlongFrom (TableStore.crowded rounds) TableCall.logs (TableStore.Served rounds) (op.program true) (store, plan)

theorem served_nil (op : TableOp) (store : TableStore) : op.Served rounds [] store :=
  (run_fixed (fun request state => (TableStore.crowded_nil request state).1)
    (fun request state => (TableStore.crowded_nil request state).2) (op.program true) store).2.from_start

/-- An operation that is served from its log record on changes the table and the log together, or neither. -/
theorem program_crowded (backed : Backed base map store) (op : TableOp) (served : op.Served rounds plan store)
    (enough : maxPages + 1 < rounds) :
    Endures rounds (Backed base map) (op.program true)
      (fun answer later => Backed base (if answer then op.onMap map else map) later) (store, plan) := by
  have kept : ∀ {First : Type} {first : TableProg First} {middle : First → TableStore → Prop},
      Endures rounds (Unchanged base map store.wal) first middle (store, plan) →
        Endures rounds (Backed base map) first middle (store, plan) := fun ends =>
    Ensures.weaken ends (fun _ _ done => done) fun _ _ => .imp_right backed.unchanged
  cases op with
  | insert record =>
    refine (kept (backed.tabled.search_crowded record.id plan enough)).seq (unlogged_search record.id) served ?_
    intro found later done along
    have now := backed.unchanged done.2
    cases found with
    | some value => exact now
    | none =>
      have absent : map record.id = none := Option.not_isSome_iff_eq_none.mp (done.1 ▸ Bool.false_ne_true)
      have changed : (insert record).change map = some ⟨.insert, record.id, [], Table.recordImage record⟩ := if_pos absent
      have work := (insert_work true now.tabled record absent enough).finishes
      exact (work.mono fun answer last => now.worked changed).endures along
  | update id mutator =>
    refine (kept (backed.tabled.select_crowded id plan enough)).seq (unlogged_select id) served ?_
    intro found later done along
    have now := backed.unchanged done.2
    cases found with
    | none => exact now
    | some before =>
      have present : map id = some before := (done.1.resolve_right (Option.some_ne_none before)).symm
      have changed : (update id mutator).change map = some ⟨.update, id, Table.recordImage before,
          Table.recordImage { mutator before with id := id }⟩ := by rw [change, present, Option.map_some]
      have next : (update id mutator).onMap map =
          Function.update map id (some { mutator before with id := id }.stored) := by rw [onMap, present]
      have work := (update_work true now.tabled id before { mutator before with id := id } present enough).finishes
      rw [← next] at work
      exact (work.mono fun answer last => now.worked changed).endures along
  | delete id =>
    refine (kept (backed.tabled.select_crowded id plan enough)).seq (unlogged_select id) served ?_
    intro found later done along
    have now := backed.unchanged done.2
    cases found with
    | none => exact now
    | some before =>
      have present : map id = some before := (done.1.resolve_right (Option.some_ne_none before)).symm
      have changed : (delete id).change map = some ⟨.delete, id, Table.recordImage before, []⟩ := by
        rw [change, present, Option.map_some]
      have work := (delete_work true now.tabled id before enough).finishes
      exact (work.mono fun answer last => now.worked changed).endures along

end TableOp

/-- Runs of operations over a crowded pool, with what each returned or threw. A run in which the page
identifiers run out is none. -/
inductive Attempts (rounds : Nat) (meets : TableOp → List Bool → TableStore → Prop) :
    List (TableOp × Except StorageError Bool) → TableStore → Prop
  | start {store : TableStore} {base : Multiset (PageId × Cell)} (fresh : store.tree.rootPageId = invalidPageId)
      (owns : Owns store.tree.storage base) (empty : store.wal = WALManager.openFile []) : Attempts rounds meets [] store
  | attempt {history : List (TableOp × Except StorageError Bool)} {store later : TableStore} {op : TableOp}
      {plan rest : List Bool} {result : Except StorageError Bool} (before : Attempts rounds meets history store)
      (meeting : meets op plan store)
      (ran : run (TableStore.crowded rounds) (op.program true) (store, plan) = some (result, (later, rest)))
      (fine : result ≠ .error .pageIdLimit) : Attempts rounds meets (history ++ [(op, result)]) later

def succeeded (history : List (TableOp × Except StorageError Bool)) : Key → Option Record :=
  history.foldl (fun map attempt => match attempt.2 with
    | .ok true => attempt.1.onMap map
    | _ => map) fun _ => none

theorem succeeded_concat (history : List (TableOp × Except StorageError Bool)) (op : TableOp)
    (result : Except StorageError Bool) :
    succeeded (history ++ [(op, result)]) = match result with
      | .ok true => op.onMap (succeeded history)
      | _ => succeeded history := by
  rw [succeeded, List.foldl_append]
  rfl

theorem Attempts.backed {history : List (TableOp × Except StorageError Bool)}
    (attempts : Attempts rounds (TableOp.Served rounds) history store) (enough : maxPages + 1 < rounds) :
    ∃ base, Backed base (succeeded history) store := by
  induction attempts with
  | start fresh owns empty =>
    refine ⟨_, tabled_empty fresh owns, ?_, ?_⟩
    · rw [empty]
      exact logHolds_nil
    · rw [empty]
      rfl
  | @attempt history store later op plan rest result before served ran fine ih =>
    obtain ⟨base, backed⟩ := ih
    have ends := op.program_crowded backed served enough
    unfold Endures Ensures at ends
    rw [ran] at ends
    rw [succeeded_concat]
    match result with
    | .ok true => exact ⟨base, ends⟩
    | .ok false => exact ⟨base, ends⟩
    | .error error => exact ⟨base, ends.resolve_left fun same => fine (congrArg Except.error same)⟩

/-- A failed write stays failed, as long as no operation is refused a frame after its log record: the
table shows what the operations that returned true made, and so does a table recovered after a crash. -/
theorem failed_stays_failed {history : List (TableOp × Except StorageError Bool)}
    (attempts : Attempts rounds (TableOp.Served rounds) history store) (enough : maxPages + 1 < rounds) :
    Shows rounds store (succeeded history) ∧
      ∀ file, store.wal.Crashes file → RecoversTo rounds (WALManager.openFile file) (succeeded history) := by
  obtain ⟨base, backed⟩ := attempts.backed enough
  refine ⟨backed.tabled.shows enough, fun file crashes => ?_⟩
  obtain ⟨left, rfl, recovers⟩ := backed.logged.recovers crashes enough
  exact recovers

/-- An Insert that returns true, one whose Search finds no frame for the root and throws, and a Delete whose
ReadRecord finds none and which returns false. -/
def refusedWrites : List (TableOp × Except StorageError Bool) :=
  [(.insert ⟨1, [65], 7⟩, .ok true), (.insert ⟨2, [66], 8⟩, .error .noEvictableFrame), (.delete 1, .ok false)]

set_option maxRecDepth 4000 in
/-- The refusals are those of a pool whose one frame another client holds: a new page in the first case, the
root in the second. -/
theorem failed_stays_failed_insert :
    ∃ first, Attempts (maxPages + 2) (TableOp.Served (maxPages + 2)) (refusedWrites.take 1) first ∧
      (TreeStore.handler (.readNode first.tree.rootPageId)
          ⟨(BufferedDisk.newPage first.tree.storage).2, first.tree.rootPageId⟩ =
        some (.error .noEvictableFrame, ⟨(BufferedDisk.newPage first.tree.storage).2, first.tree.rootPageId⟩)) ∧
      (TableStore.handler (maxPages + 2) (.fetchPage 0)
          ⟨⟨(BufferedDisk.fetchPage first.tree.rootPageId first.tree.storage).2, first.tree.rootPageId⟩, first.wal⟩ =
        some (.ok none,
          ⟨⟨(BufferedDisk.fetchPage first.tree.rootPageId first.tree.storage).2, first.tree.rootPageId⟩, first.wal⟩)) ∧
      ∃ store recovered, Attempts (maxPages + 2) (TableOp.Served (maxPages + 2)) refusedWrites store ∧
        Shows (maxPages + 2) store (succeeded refusedWrites) ∧ succeeded refusedWrites 1 = some ⟨1, [65], 7⟩ ∧
        run (TableStore.handler (maxPages + 2)) (Table.recover true)
          ⟨TreeStore.open 1 [], WALManager.openFile store.wal.written⟩ = some (.ok (), recovered) ∧
        Shows (maxPages + 2) recovered (succeeded refusedWrites) := by
  have opened : Attempts (maxPages + 2) (TableOp.Served (maxPages + 2)) [] ⟨TreeStore.open 1 [], WALManager.openFile []⟩ :=
    .start rfl (opened_owns (by decide) (by decide)) rfl
  have runs : ∃ first, run (TableStore.crowded (maxPages + 2)) ((TableOp.insert ⟨1, [65], 7⟩).program true)
        (⟨TreeStore.open 1 [], WALManager.openFile []⟩, []) = some (.ok true, (first, [])) ∧
      run (TableStore.crowded (maxPages + 2)) (TableProg.search 2) (first, [true]) =
        some (.error .noEvictableFrame, (first, [])) ∧
      run (TableStore.crowded (maxPages + 2)) ((TableOp.insert ⟨2, [66], 8⟩).program true) (first, [true]) =
        some (.error .noEvictableFrame, (first, [])) ∧
      first.tree.rootPageId ≠ invalidPageId ∧ first.wal.flushed ≤ first.wal.written.length ∧
      (∃ recovered, run (TableStore.handler (maxPages + 2)) (Table.recover true)
        ⟨TreeStore.open 1 [], WALManager.openFile first.wal.written⟩ = some (.ok (), recovered)) ∧
      (BufferedDisk.newPage first.tree.storage).2.pool.find first.tree.rootPageId = none ∧
      (BufferedDisk.newPage first.tree.storage).2.pool.freeFrames = [] ∧
      (BufferedDisk.newPage first.tree.storage).2.pool.lru = [] ∧
      (BufferedDisk.fetchPage first.tree.rootPageId first.tree.storage).2.pool.find 0 = none ∧
      (BufferedDisk.fetchPage first.tree.rootPageId first.tree.storage).2.pool.freeFrames = [] ∧
      (BufferedDisk.fetchPage first.tree.rootPageId first.tree.storage).2.pool.lru = [] ∧
      ∃ last, run (TableStore.crowded (maxPages + 2)) (Table.select 1) (first, [false, false, true]) =
        some (.ok none, (last, [])) ∧ last.wal = first.wal :=
    ⟨_, rfl, rfl, rfl, by decide, by decide, ⟨_, rfl⟩, rfl, rfl, rfl, rfl, rfl, rfl, _, rfl, rfl⟩
  obtain ⟨first, inserted, looked, refused, real, kept, ⟨recovered, again⟩, gone, free, lru, absent, freeToo, lruToo, last,
    missed, sameLog⟩ := runs
  rw [← sameLog] at kept again
  have fine : ∀ answer, (.ok answer : Except StorageError Bool) ≠ .error .pageIdLimit := fun answer impossible => by cases impossible
  have other : (.error .noEvictableFrame : Except StorageError Bool) ≠ .error .pageIdLimit := fun impossible => by cases impossible
  have one := opened.attempt (TableOp.served_nil _ _) inserted (fine true)
  have served : (TableOp.insert ⟨2, [66], 8⟩).Served (maxPages + 2) [true] first := by
    refine Only.from_bind (unlogged_search 2) fun value later ran => ?_
    cases looked.symm.trans ran
  have two := one.attempt served refused other
  have servedToo : (TableOp.delete 1).Served (maxPages + 2) [false, false, true] first := by
    refine Only.from_bind (unlogged_select 1) fun value later ran => ?_
    cases missed.symm.trans ran
    trivial
  have deleted : run (TableStore.crowded (maxPages + 2)) ((TableOp.delete 1).program true) (first, [false, false, true]) =
      some (.ok false, (last, [])) := run_bind missed _
  have three := two.attempt servedToo deleted (fine false)
  obtain ⟨shows, recovers⟩ := failed_stays_failed three (Nat.lt_succ_self _)
  have brings := recovers _ ⟨List.prefix_refl _, kept⟩ 1 [] (by decide) (by decide)
  unfold Finishes Ensures at brings
  rw [again] at brings
  refine ⟨first, one, ?_, ?_, last, recovered, three, shows, rfl, again, brings⟩
  · refine TreeStore.handler_full rfl (BufferPoolManager.not_available free lru) fun pageId asks => ?_
    rcases asks with same | ⟨node, same, -⟩
    · cases same
      exact ⟨real, gone⟩
    · cases same
  · refine TableStore.handler_full rfl (BufferPoolManager.not_available freeToo lruToo) fun pageId same => ?_
    cases same
    exact ⟨by decide, absent⟩

/-- Insert logs, is refused a frame for the record and returns false; Recover inserts the record. The
same happens over a pool whose only frame another client has pinned. -/
theorem failed_stays_failed_fails :
    (∃ history store, Attempts (maxPages + 2) (fun _ _ _ => True) history store ∧
      ¬ ∃ map, Shows (maxPages + 2) store map ∧
        ∀ file, store.wal.Crashes file → RecoversTo (maxPages + 2) (WALManager.openFile file) map) ∧
    ∃ later, run (TableStore.handler (maxPages + 2)) ((TableOp.insert ⟨1, [65], 7⟩).program true)
      ⟨⟨(BufferedDisk.newPage (TreeStore.open 1 []).storage).2, invalidPageId⟩, WALManager.openFile []⟩ =
        some (.ok false, later) ∧
      later.wal = LogOf.flushed (WALManager.openFile []) ⟨.insert, 1, [], Table.recordImage ⟨1, [65], 7⟩⟩ := by
  refine ⟨?_, _, rfl, rfl⟩
  have opened : Attempts (maxPages + 2) (fun _ _ _ => True) [] ⟨TreeStore.open 1 [], WALManager.openFile []⟩ :=
    .start rfl (opened_owns (by decide) (by decide)) rfl
  have ran : ∃ later, run (TableStore.crowded (maxPages + 2)) ((TableOp.insert ⟨1, [65], 7⟩).program true)
      (⟨TreeStore.open 1 [], WALManager.openFile []⟩, [true]) = some (.ok false, (later, [])) ∧
      later = ⟨TreeStore.open 1 [], LogOf.flushed (WALManager.openFile []) ⟨.insert, 1, [], Table.recordImage ⟨1, [65], 7⟩⟩⟩ :=
    ⟨_, rfl, rfl⟩
  obtain ⟨later, refused, same⟩ := ran
  have fine : (.ok false : Except StorageError Bool) ≠ .error .pageIdLimit := fun impossible => by cases impossible
  refine ⟨_, later, opened.attempt trivial refused fine, ?_⟩
  rintro ⟨map, shows, recovers⟩
  rw [same] at shows recovers
  have missing : map 1 = none := by
    obtain ⟨last, found⟩ := shows 1
    exact (Except.ok.inj (Prod.mk.inj (Option.some.inj found)).1).symm
  have logged : LogHolds (LogOf.flushed (WALManager.openFile []) ⟨.insert, 1, [], Table.recordImage ⟨1, [65], 7⟩⟩)
      ((TableOp.insert ⟨1, [65], 7⟩).onMap fun _ => none) fun left => left = (TableOp.insert ⟨1, [65], 7⟩).onMap fun _ => none :=
    (logHolds_nil.appended rfl rfl).1.flush
  have whole := logged.recovers ⟨List.prefix_refl _, Nat.le_refl _⟩ (Nat.lt_succ_self _)
  obtain ⟨left, rfl, brings⟩ := whole
  have recovered : ∃ last, run (TableStore.handler (maxPages + 2)) (Table.recover true) ⟨TreeStore.open 1 [],
      WALManager.openFile (LogOf.flushed (WALManager.openFile []) ⟨.insert, 1, [], Table.recordImage ⟨1, [65], 7⟩⟩).written⟩ =
        some (.ok (), last) := ⟨_, rfl⟩
  obtain ⟨last, done⟩ := recovered
  have one := recovers _ ⟨List.prefix_refl _, Nat.le_refl _⟩ 1 [] (by decide) (by decide)
  have two := brings 1 [] (by decide) (by decide)
  unfold Finishes Ensures at one two
  rw [done] at one two
  obtain ⟨first, found⟩ := one 1
  obtain ⟨second, inserted⟩ := two 1
  rw [found] at inserted
  have present : map 1 = some (Record.stored ⟨1, [65], 7⟩) := Except.ok.inj (Prod.mk.inj (Option.some.inj inserted)).1
  rw [missing] at present
  cases present

end QuorumDB.Query
