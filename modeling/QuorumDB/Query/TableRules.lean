import QuorumDB.Query.Table
import QuorumDB.Storage.TreeRun

/-!
What the table's functions do to its rows. A row is a key in the tree and the page its value
names, which holds the record.
-/

namespace QuorumDB.Query
open Storage Program SearchWord

/-- The program ends in a state that satisfies `post`, or throws for want of a page identifier in a state
in which there is none. It is not for unfolding: with as many rounds as this module asks for a program must
not be run. -/
@[irreducible] def Finishes {Result : Type} (rounds : Nat) (program : TableProg Result) (post : Result → TableStore → Prop)
    (store : TableStore) : Prop :=
  Ensures (TableStore.handler rounds) (fun error later => error = .pageIdLimit ∧ later.tree.Exhausted) program post store

/-- The program returns and does not throw. -/
abbrev Returns {Result : Type} (rounds : Nat) (program : TableProg Result) (post : Result → TableStore → Prop)
    (store : TableStore) : Prop :=
  Ensures (TableStore.handler rounds) (fun _ _ => False) program post store

structure Row where
  key : Key
  pageId : PageId
  record : Record

namespace Row

def entry (row : Row) : Key × Value := (row.key, row.pageId.toInt64)

def cell (row : Row) : PageId × Cell := (row.pageId, .record row.record)

def pair (row : Row) : Key × Record := (row.key, row.record)

end Row

def recordCells (rows : List Row) : Multiset (PageId × Cell) := (rows.map Row.cell : List (PageId × Cell))

def records (rows : List Row) : Key → Option Record := assoc (rows.map Row.pair)

/-- The tree leads to the rows, whose pages hold the records. -/
def Stores (store : TreeStore) (base : Multiset (PageId × Cell)) (rows : List Row) : Prop :=
  Represents store (recordCells rows + base) (rows.map Row.entry)

variable {Result Value : Type} {store : TableStore} {base : Multiset (PageId × Cell)} {rows before after : List Row}
variable {row : Row} {rounds : Nat} {post : Result → TableStore → Prop}

section Programs

@[simp] theorem finishes_pure {value : Result} :
    Finishes rounds (pure value : TableProg Result) post store ↔ post value store := by
  unfold Finishes
  exact Iff.rfl

theorem Finishes.mono {program : TableProg Result} {wider : Result → TableStore → Prop}
    (finishes : Finishes rounds program post store) (weaker : ∀ value later, post value later → wider value later) :
    Finishes rounds program wider store := by
  unfold Finishes at finishes ⊢
  exact Ensures.mono finishes weaker

theorem Finishes.seq {program : TableProg Value} {next : Value → TableProg Result} {middle : Value → TableStore → Prop}
    (first : Finishes rounds program middle store)
    (rest : ∀ value later, middle value later → Finishes rounds (next value) post later) :
    Finishes rounds (program >>= next) post store := by
  unfold Finishes at first rest ⊢
  exact Ensures.seq first rest

variable {request : TableCall} {next : TableCall.Answer request → TableProg Result}

theorem tree_call {program : PageProg (TableCall.Answer request)} {middle : TableCall.Answer request → TreeStore → Prop}
    (meaning : TableStore.handler rounds request = TableStore.onTree program)
    (proceeds : Proceeds program middle store.tree)
    (rest : ∀ answer later, middle answer later → Finishes rounds (next answer) post { store with tree := later }) :
    Finishes rounds (Prog.ask request >>= next) post store := by
  unfold Proceeds Ensures at proceeds
  unfold Finishes at rest ⊢
  have handled : TableStore.handler rounds request store = TableStore.onTree program store := by rw [meaning]
  unfold TableStore.onTree at handled
  match ran : run TreeStore.handler program store.tree with
  | none =>
    rw [ran] at proceeds
    exact proceeds.elim
  | some (.error error, later) =>
    rw [ran] at proceeds handled
    exact (ensures_throw handled).mpr proceeds
  | some (.ok answer, later) =>
    rw [ran] at proceeds handled
    exact (ensures_call handled).mpr (rest answer later proceeds)

theorem handler_pages {access : Access (TableCall.Answer request)} {answer : TableCall.Answer request} {later : BufferedDisk}
    (meaning : TableStore.handler rounds request = TableStore.onPages access)
    (ran : access store.tree.storage = (.ok answer, later)) :
    TableStore.handler rounds request store = some (.ok answer, { store with tree := ⟨later, store.tree.rootPageId⟩ }) := by
  rw [meaning, TableStore.onPages, TreeStore.accessing, ran]
  rfl

theorem page_call {access : Access (TableCall.Answer request)} {answer : TableCall.Answer request} {later : BufferedDisk}
    (meaning : TableStore.handler rounds request = TableStore.onPages access)
    (ran : access store.tree.storage = (.ok answer, later))
    (rest : Finishes rounds (next answer) post { store with tree := ⟨later, store.tree.rootPageId⟩ }) :
    Finishes rounds (Prog.ask request >>= next) post store := by
  unfold Finishes at rest ⊢
  exact (ensures_call (handler_pages meaning ran)).mpr rest

theorem page_last {access : Access (TableCall.Answer request)} {answer : TableCall.Answer request} {later : BufferedDisk}
    {post : TableCall.Answer request → TableStore → Prop}
    (meaning : TableStore.handler rounds request = TableStore.onPages access)
    (ran : access store.tree.storage = (.ok answer, later))
    (done : post answer { store with tree := ⟨later, store.tree.rootPageId⟩ }) :
    Finishes rounds (Prog.ask request) post store := by
  have tail : Finishes rounds (pure answer) post { store with tree := ⟨later, store.tree.rootPageId⟩ } :=
    finishes_pure.mpr done
  have whole := page_call meaning ran tail
  unfold Finishes at whole ⊢
  exact whole

theorem page_throw {access : Access (TableCall.Answer request)} {later : BufferedDisk}
    (meaning : TableStore.handler rounds request = TableStore.onPages access)
    (ran : access store.tree.storage = (.error .pageIdLimit, later))
    (exhausted : later.disk.allocatePage = .error .pageIdLimit) :
    Finishes rounds (Prog.ask request >>= next) post store := by
  have handled : TableStore.handler rounds request store =
      some (.error .pageIdLimit, { store with tree := ⟨later, store.tree.rootPageId⟩ }) := by
    rw [meaning, TableStore.onPages, TreeStore.accessing, ran]
    rfl
  unfold Finishes
  exact (ensures_throw handled).mpr ⟨rfl, exhausted⟩

theorem finishes_of_run {program : TableProg Result} {value : Result} {later : TableStore}
    (ran : run (TableStore.handler rounds) program store = some (.ok value, later)) (done : post value later) :
    Finishes rounds program post store := by
  unfold Finishes Ensures
  rw [ran]
  exact done

theorem Returns.finishes {program : TableProg Result} (returns : Returns rounds program post store) :
    Finishes rounds program post store := by
  unfold Finishes
  exact Ensures.weaken returns (fun _ _ done => done) fun _ _ impossible => impossible.elim

theorem returns_of_run {program : TableProg Result} {value : Result} {later : TableStore}
    (ran : run (TableStore.handler rounds) program store = some (.ok value, later)) (done : post value later) :
    Returns rounds program post store := by
  unfold Returns Ensures
  rw [ran]
  exact done

theorem Returns.runs {program : TableProg Result} (returns : Returns rounds program post store) :
    ∃ value later, run (TableStore.handler rounds) program store = some (.ok value, later) ∧ post value later := by
  unfold Returns Ensures at returns
  rcases outcome : run (TableStore.handler rounds) program store with _ | ⟨error | value, later⟩
  · rw [outcome] at returns
    exact returns.elim
  · rw [outcome] at returns
    exact returns.elim
  · rw [outcome] at returns
    exact ⟨value, later, rfl, returns⟩

theorem readRecord_ran {pageId : PageId} {index : Nat} {record : Record} {middle last : BufferedDisk}
    (real : pageId ≠ invalidPageId) (fetch : BufferedDisk.fetchPage pageId store.tree.storage = (.ok (some index), middle))
    (decoded : deserializeRecord (middle.pool.frame index).block.bytes = record)
    (unpin : BufferedDisk.unpinPage pageId false middle = (.ok true, last)) :
    run (TableStore.handler rounds) (Table.readRecord pageId.toInt64) store =
      some (.ok (some record), { store with tree := ⟨last, store.tree.rootPageId⟩ }) := by
  have read : readRecordBytes index middle = (.ok record, middle) := by
    rw [← decoded]
    rfl
  have first : TableStore.handler rounds (.fetchPage pageId) store =
      some (.ok (some index), ⟨⟨middle, store.tree.rootPageId⟩, store.wal⟩) := handler_pages rfl fetch
  have second : TableStore.handler rounds (.deserializeRecord index) ⟨⟨middle, store.tree.rootPageId⟩, store.wal⟩ =
      some (.ok record, ⟨⟨middle, store.tree.rootPageId⟩, store.wal⟩) := handler_pages rfl read
  have third : TableStore.handler rounds (.unpinPage pageId false) ⟨⟨middle, store.tree.rootPageId⟩, store.wal⟩ =
      some (.ok true, ⟨⟨last, store.tree.rootPageId⟩, store.wal⟩) := handler_pages rfl unpin
  rw [Table.readRecord]
  simp only [Int32.toInt32_toInt64, if_neg real]
  exact (run_call first _).trans ((run_call second _).trans (run_call third _))

theorem readRecord_refused {pageId : PageId} (real : pageId ≠ invalidPageId)
    (refused : BufferedDisk.fetchPage pageId store.tree.storage = (.ok none, store.tree.storage)) :
    run (TableStore.handler rounds) (Table.readRecord pageId.toInt64) store = some (.ok none, store) := by
  have first : TableStore.handler rounds (.fetchPage pageId) store = some (.ok none, store) := handler_pages rfl refused
  rw [Table.readRecord]
  simp only [Int32.toInt32_toInt64, if_neg real]
  exact run_call first _

end Programs

section Logging

def TableCall.logs : TableCall → Bool
  | .appendInsert _ _ => true
  | .appendUpdate _ _ _ => true
  | .appendDelete _ _ => true
  | .appendCommit => true
  | .flush => true
  | _ => false

abbrev Unlogged : TableProg Result → Prop := Only fun request => request.logs = false

theorem handler_wal {request : TableCall} (silent : request.logs = false)
    {result : Except StorageError (TableCall.Answer request)} {later : TableStore}
    (handled : TableStore.handler rounds request store = some (result, later)) : later.wal = store.wal := by
  have tree : ∀ {Answer : Type} {program : PageProg Answer} {result : Except StorageError Answer},
      TableStore.onTree program store = some (result, later) → later.wal = store.wal := fun ran => by
    obtain ⟨done, -, same⟩ := Option.map_eq_some_iff.mp ran
    rw [← (Prod.mk.inj same).2]
  have pages : ∀ {Answer : Type} {access : Access Answer} {result : Except StorageError Answer},
      TableStore.onPages access store = some (result, later) → later.wal = store.wal := fun ran => by
    obtain ⟨done, -, same⟩ := Option.map_eq_some_iff.mp ran
    rw [← (Prod.mk.inj same).2]
  cases request with
  | search key => exact tree handled
  | insert key value => exact tree handled
  | delete key => exact tree handled
  | rangeScan start stop => exact tree handled
  | newPage => exact pages handled
  | fetchPage pageId => exact pages handled
  | unpinPage pageId isDirty => exact pages handled
  | deletePage pageId => exact pages handled
  | serializeRecord page record => exact pages handled
  | deserializeRecord page => exact pages handled
  | readAllRecords => rw [← (Prod.mk.inj (Option.some.inj handled)).2]
  | appendInsert recordId afterImage => cases silent
  | appendUpdate recordId beforeImage afterImage => cases silent
  | appendDelete recordId beforeImage => cases silent
  | appendCommit => cases silent
  | flush => cases silent

theorem Unlogged.wal {program : TableProg Result} (unlogged : Unlogged program) {seen : TableStore}
    (member : seen ∈ visits (TableStore.handler rounds) program store) : seen.wal = store.wal := by
  induction unlogged generalizing store with
  | done value => rw [List.mem_singleton.mp member]
  | fail error => rw [List.mem_singleton.mp member]
  | @call request next silent rest ih =>
    rw [visits] at member
    rcases List.mem_cons.mp member with rfl | inside
    · rfl
    · cases handled : TableStore.handler rounds request store with
      | none =>
        rw [handled] at inside
        exact absurd inside List.not_mem_nil
      | some outcome =>
        obtain ⟨error | answer, later⟩ := outcome
        · rw [handled] at inside
          rw [List.mem_singleton.mp inside]
          exact handler_wal silent handled
        · rw [handled] at inside
          exact (ih answer inside).trans (handler_wal silent handled)

/-- The program finishes, and the log satisfies `during` at every moment. -/
structure Passes (rounds : Nat) (during : WALManager → Prop) (program : TableProg Result)
    (post : Result → TableStore → Prop) (store : TableStore) : Prop where
  during : ∀ seen ∈ visits (TableStore.handler rounds) program store, during seen.wal
  finishes : Finishes rounds program post store

variable {during : WALManager → Prop}

theorem Passes.seq {program : TableProg Value} {next : Value → TableProg Result} {middle : Value → TableStore → Prop}
    (first : Passes rounds during program middle store)
    (rest : ∀ value later, middle value later → Passes rounds during (next value) post later) :
    Passes rounds during (program >>= next) post store := by
  refine ⟨fun seen member => ?_, first.finishes.seq fun value later done => (rest value later done).finishes⟩
  rcases mem_visits_bind member with early | ⟨value, later, ran, late⟩
  · exact first.during seen early
  · have done := first.finishes
    unfold Finishes Ensures at done
    rw [ran] at done
    exact (rest value later done).during seen late

theorem passes_pure {value : Result} (now : during store.wal) (done : post value store) :
    Passes rounds during (pure value) post store := by
  refine ⟨fun seen member => ?_, finishes_pure.mpr done⟩
  rw [List.mem_singleton.mp member]
  exact now

theorem Unlogged.passes {program : TableProg Result} (unlogged : Unlogged program) (now : during store.wal)
    (finishes : Finishes rounds program post store) : Passes rounds during program post store :=
  ⟨fun _ member => (unlogged.wal member).symm ▸ now, finishes⟩

theorem unlogged_search (id : Int64) : Unlogged (TableProg.search id) := .call rfl .done

theorem unlogged_readRecord (recordPageId : Storage.Value) : Unlogged (Table.readRecord recordPageId) := by
  rw [Table.readRecord]
  by_cases missing : recordPageId.toInt32 = invalidPageId
  · simp only [if_pos missing]
    exact .done none
  · simp only [if_neg missing]
    refine .call rfl fun page => ?_
    cases page with
    | none => exact .done none
    | some index => exact .call rfl fun record => .call rfl fun released => .done (some record)

theorem unlogged_select (id : Int64) : Unlogged (Table.select id) := by
  refine .call rfl fun found => ?_
  cases found with
  | none => exact .done none
  | some recordPageId => exact unlogged_readRecord recordPageId

theorem unlogged_insertWithoutWAL (record : Record) : Unlogged (Table.insertWithoutWAL record) := by
  refine .call rfl fun found => ?_
  cases found with
  | some recordPageId => exact .done false
  | none =>
    refine .call rfl fun page => ?_
    cases page with
    | none => exact .done false
    | some made =>
      refine .call rfl fun written => .call rfl fun released => .call rfl fun inserted => ?_
      cases inserted with
      | true => exact .done true
      | false => exact .call rfl fun deleted => .done false

theorem unlogged_updateWithoutWAL (id : Int64) (record : Record) : Unlogged (Table.updateWithoutWAL id record) := by
  refine .call rfl fun found => ?_
  cases found with
  | none => exact unlogged_insertWithoutWAL record
  | some recordPageId =>
    refine .call rfl fun page => ?_
    cases page with
    | none => exact .done false
    | some index => exact .call rfl fun written => .call rfl fun released => .done true

theorem unlogged_deleteWithoutWAL (id : Int64) : Unlogged (Table.deleteWithoutWAL id) := by
  refine .call rfl fun found => ?_
  cases found with
  | none => exact .done true
  | some recordPageId =>
    refine .call rfl fun removed => ?_
    cases removed with
    | true => exact .call rfl .done
    | false => exact .done false

end Logging

section Rows

theorem records_insert (left : ∀ other ∈ before, other.key ≠ row.key) :
    records (before ++ row :: after) = Function.update (records (before ++ after)) row.key (some row.record) := by
  unfold records
  rw [List.map_append, List.map_cons, List.map_append]
  refine assoc_insert fun pair member => ?_
  obtain ⟨other, inside, rfl⟩ := List.mem_map.mp member
  exact left other inside

theorem records_remove (left : ∀ other ∈ before, other.key ≠ row.key) (right : ∀ other ∈ after, other.key ≠ row.key) :
    records (before ++ after) = Function.update (records (before ++ row :: after)) row.key none := by
  unfold records
  rw [List.map_append, List.map_append, List.map_cons]
  refine assoc_remove (fun pair member => ?_) fun pair member => ?_
  · obtain ⟨other, inside, rfl⟩ := List.mem_map.mp member
    exact left other inside
  · obtain ⟨other, inside, rfl⟩ := List.mem_map.mp member
    exact right other inside

theorem assoc_row (left : ∀ other ∈ before, other.key ≠ row.key) :
    assoc ((before ++ row :: after).map Row.entry) row.key = some row.pageId.toInt64 ∧
      records (before ++ row :: after) row.key = some row.record := by
  constructor
  · rw [List.map_append, List.map_cons, Row.entry, assoc_insert, Function.update_self]
    rintro pair member
    obtain ⟨other, inside, rfl⟩ := List.mem_map.mp member
    exact left other inside
  · rw [records_insert left, Function.update_self]

theorem find_row (sorted : rows.Pairwise fun one two => one.key < two.key) (key : Key) :
    (records rows key = none ∧ assoc (rows.map Row.entry) key = none) ∨
      ∃ before row after, rows = before ++ row :: after ∧ row.key = key ∧
        (∀ other ∈ before, other.key < key) ∧ ∀ other ∈ after, key < other.key := by
  by_cases present : ∃ row ∈ rows, row.key = key
  · obtain ⟨row, member, rfl⟩ := present
    obtain ⟨before, after, rfl⟩ := List.append_of_mem member
    obtain ⟨-, behind, across⟩ := List.pairwise_append.mp sorted
    refine .inr ⟨before, row, after, rfl, rfl, fun other inside => ?_, (List.pairwise_cons.mp behind).1⟩
    exact across other inside row List.mem_cons_self
  · refine .inl ⟨assoc_none.mpr fun pair member same => ?_, assoc_none.mpr fun pair member same => ?_⟩
    · obtain ⟨row, inside, rfl⟩ := List.mem_map.mp member
      exact present ⟨row, inside, same⟩
    · obtain ⟨row, inside, rfl⟩ := List.mem_map.mp member
      exact present ⟨row, inside, same⟩

theorem recordCells_middle (before after : List Row) (row : Row) :
    recordCells (before ++ row :: after) = {row.cell} + recordCells (before ++ after) := by
  unfold recordCells
  rw [List.map_append, List.map_cons, List.map_append, Multiset.coe_eq_coe.mpr List.perm_middle, ← Multiset.cons_coe,
    Multiset.singleton_add]

end Rows

namespace Stores

theorem sorted {store : TreeStore} (stores : Stores store base rows) :
    rows.Pairwise fun one two => one.key < two.key := by
  have pairs : (rows.map Row.entry).Pairwise fun one two => one.1 < two.1 := Represents.sorted stores
  rw [List.pairwise_map] at pairs
  exact pairs

theorem page {store : TreeStore} (stores : Stores store base (before ++ row :: after)) :
    ∃ cells, Owns store.storage ({row.cell} + cells) ∧ ∀ storage record, Owns storage ({(row.pageId, .record record)} + cells) →
      Stores ⟨storage, store.rootPageId⟩ base (before ++ { row with record := record } :: after) := by
  obtain ⟨cells, owns, frame⟩ := Represents.frame stores
  rw [recordCells_middle, add_assoc, add_left_comm] at owns
  refine ⟨_, owns, fun storage record changed => ?_⟩
  have others := frame storage ({(row.pageId, .record record)} + recordCells (before ++ after) + base)
  have entries : (before ++ { row with record := record } :: after).map Row.entry = (before ++ row :: after).map Row.entry := by
    rw [List.map_append, List.map_append]
    rfl
  rw [Stores, recordCells_middle, entries]
  refine others ?_
  rw [add_assoc, add_left_comm]
  exact changed

theorem pageId_nonneg {store : TreeStore} (stores : Stores store base (before ++ row :: after)) : 0 ≤ row.pageId := by
  obtain ⟨cells, owns, -⟩ := stores.page
  exact owns.first.1.nonneg

theorem real {store : TreeStore} (stores : Stores store base (before ++ row :: after)) : row.pageId ≠ invalidPageId := by
  intro same
  have low := stores.pageId_nonneg
  rw [same] at low
  exact absurd low (by decide)

theorem few {store : TreeStore} (stores : Stores store base rows) (enough : maxPages + 1 < rounds) :
    (rows.map Row.entry).length + 1 < rounds := by
  obtain ⟨cells, owns, -⟩ := Represents.frame stores
  have card := owns.card_le
  rw [Multiset.card_add, Multiset.card_add, recordCells, Multiset.coe_card, List.length_map] at card
  rw [List.length_map]
  omega

theorem search_handled (stores : Stores store.tree base rows) (key : Key) (enough : maxPages + 1 < rounds) :
    ∃ later, TableStore.handler rounds (.search key) store =
        some (.ok (assoc (rows.map Row.entry) key), { store with tree := later }) ∧ Stores later base rows := by
  obtain ⟨later, ran, still⟩ := Represents.search_runs stores key (stores.few enough)
  refine ⟨later, ?_, still⟩
  show TableStore.onTree (BPlusTree.search rounds key) store = _
  rw [TableStore.onTree, ran]
  rfl

theorem search (stores : Stores store.tree base rows) (key : Key) (enough : maxPages + 1 < rounds)
    {next : Option Storage.Value → TableProg Result}
    (rest : ∀ later, Stores later base rows →
      Finishes rounds (next (assoc (rows.map Row.entry) key)) post { store with tree := later }) :
    Finishes rounds (TableProg.search key >>= next) post store := by
  obtain ⟨later, handled, still⟩ := stores.search_handled key enough
  have behind := rest later still
  unfold Finishes at behind ⊢
  exact (ensures_call handled).mpr behind

theorem readRecord_runs (stores : Stores store.tree base (before ++ row :: after)) :
    ∃ later, run (TableStore.handler rounds) (Table.readRecord row.pageId.toInt64) store =
        some (.ok (some row.record), { store with tree := later }) ∧ Stores later base (before ++ row :: after) := by
  obtain ⟨cells, owns, rebuild⟩ := stores.page
  obtain ⟨index, middle, last, fetch, shown, unpin, kept⟩ :=
    Access.fetched owns (Multiset.mem_add.mpr (.inl (Multiset.mem_singleton_self _))) fun _ => rfl
  exact ⟨⟨last, store.tree.rootPageId⟩, readRecord_ran stores.real fetch shown unpin, rebuild last row.record kept⟩

theorem readRecord (stores : Stores store.tree base (before ++ row :: after)) :
    Finishes rounds (Table.readRecord row.pageId.toInt64) (fun found later => found = some row.record ∧
      later.wal = store.wal ∧ Stores later.tree base (before ++ row :: after)) store := by
  obtain ⟨later, ran, still⟩ := stores.readRecord_runs
  exact finishes_of_run ran ⟨rfl, rfl, still⟩

theorem writeRecord (stores : Stores store.tree base (before ++ row :: after)) (record : Record) :
    Finishes rounds (Table.writeRecord row.pageId.toInt64 record) (fun written later => written = true ∧
      later.wal = store.wal ∧ Stores later.tree base (before ++ { row with record := record.stored } :: after)) store := by
  obtain ⟨cells, owns, rebuild⟩ := stores.page
  obtain ⟨index, middle, fetch, fill⟩ := Access.changed owns rfl
  obtain ⟨between, last, set, unpin, kept⟩ := fill ((middle.pool.frame index).block.write (serializeRecord record))
    (.record record.stored) (fun _ => rfl) (shows_serializeRecord _ record)
  rw [Table.writeRecord]
  simp only [Int32.toInt32_toInt64]
  refine page_call rfl fetch ?_
  have write : writeRecordBytes index record middle = (.ok (), between) := set
  refine page_call rfl write ?_
  refine page_call rfl unpin ?_
  exact finishes_pure.mpr ⟨rfl, rfl, rebuild last record.stored kept⟩

theorem selectFrom (predicate : Record → Bool) (suffix : List Row) {seen : List Row} (stores : Stores store.tree base (seen ++ suffix))
    (found : List Record) :
    Returns rounds (Table.selectFrom predicate (suffix.map Row.entry) found) (fun result later =>
      result = found ++ (suffix.map Row.record).filter predicate ∧ later.wal = store.wal ∧
        Stores later.tree base (seen ++ suffix)) store := by
  induction suffix generalizing seen found store with
  | nil => exact ensures_done.mpr ⟨(List.append_nil found).symm, rfl, stores⟩
  | cons row suffix ih =>
    rw [List.map_cons, Table.selectFrom]
    obtain ⟨tree, ran, still⟩ : ∃ tree, run (TableStore.handler rounds) (Table.readRecord row.pageId.toInt64) store =
        some (.ok (some row.record), { store with tree := tree }) ∧ Stores tree base (seen ++ row :: suffix) :=
      Stores.readRecord_runs stores
    have read : Returns rounds (Table.readRecord row.pageId.toInt64)
        (fun answer later => answer = some row.record ∧ later = { store with tree := tree }) store :=
      returns_of_run ran ⟨rfl, rfl⟩
    refine Ensures.seq read ?_
    rintro answer later ⟨rfl, rfl⟩
    rw [List.append_cons] at still ⊢
    have here : Stores (TableStore.mk tree store.wal).tree base (seen ++ [row] ++ suffix) := still
    by_cases chosen : predicate row.record = true
    · simp only [if_pos chosen]
      refine (ih here _).mono fun result last done => ⟨?_, done.2⟩
      rw [done.1, List.map_cons, List.filter_cons_of_pos chosen, List.append_assoc, List.singleton_append]
    · simp only [if_neg chosen]
      refine (ih here _).mono fun result last done => ⟨?_, done.2⟩
      rw [done.1, List.map_cons, List.filter_cons_of_neg chosen]

end Stores

def Tabled (base : Multiset (PageId × Cell)) (map : Key → Option Record) (store : TableStore) : Prop :=
  ∃ rows, Stores store.tree base rows ∧ records rows = map

section Maps

def insertRecord (map : Key → Option Record) (record : Record) : Key → Option Record :=
  if map record.id = none then Function.update map record.id (some record.stored) else map

def updateRecord (map : Key → Option Record) (id : Key) (record : Record) : Key → Option Record :=
  if map id = none then insertRecord map record else Function.update map id (some record.stored)

def eraseRecord (map : Key → Option Record) (id : Key) : Key → Option Record := Function.update map id none

def Named (map : Key → Option Record) : Prop := ∀ id record, map id = some record → record.id = id

/-- The records that satisfy a predicate, in increasing id order. -/
def Lists (map : Key → Option Record) (predicate : Record → Bool) (found : List Record) : Prop :=
  (found.Pairwise fun one two => one.id < two.id) ∧
    ∀ record, record ∈ found ↔ map record.id = some record ∧ predicate record = true

theorem row_named (sorted : rows.Pairwise fun one two => one.key < two.key) (named : Named (records rows))
    (member : row ∈ rows) : records rows row.key = some row.record ∧ row.record.id = row.key := by
  have pairs : (rows.map Row.pair).Pairwise fun one two => one.1 < two.1 := List.pairwise_map.mpr sorted
  have own : records rows row.key = some row.record := (mem_iff_assoc pairs).mp (List.mem_map_of_mem member)
  exact ⟨own, named row.key row.record own⟩

theorem lists_records (sorted : rows.Pairwise fun one two => one.key < two.key) (named : Named (records rows))
    (predicate : Record → Bool) : Lists (records rows) predicate ((rows.map Row.record).filter predicate) := by
  have pairs : (rows.map Row.pair).Pairwise fun one two => one.1 < two.1 := List.pairwise_map.mpr sorted
  constructor
  · refine (List.pairwise_map.mpr (sorted.imp_of_mem fun first second less => ?_)).filter _
    rw [(row_named sorted named first).2, (row_named sorted named second).2]
    exact less
  · intro record
    rw [List.mem_filter]
    refine and_congr_left fun _ => ⟨fun member => ?_, fun found => ?_⟩
    · obtain ⟨row, inside, rfl⟩ := List.mem_map.mp member
      obtain ⟨own, same⟩ := row_named sorted named inside
      rw [same]
      exact own
    · have member : (record.id, record) ∈ rows.map Row.pair := (mem_iff_assoc pairs).mpr found
      obtain ⟨row, inside, pair⟩ := List.mem_map.mp member
      exact List.mem_map.mpr ⟨row, inside, (Prod.mk.inj pair).2⟩

end Maps

namespace Tabled

variable {map : Key → Option Record}

theorem relog (tabled : Tabled base map store) (wal : WALManager) : Tabled base map { store with wal := wal } :=
  tabled

theorem search (tabled : Tabled base map store) (id : Int64) (enough : maxPages + 1 < rounds)
    {next : Option Storage.Value → TableProg Result}
    (rest : ∀ found later, found.isSome = (map id).isSome → Tabled base map { store with tree := later } →
      Finishes rounds (next found) post { store with tree := later }) :
    Finishes rounds (TableProg.search id >>= next) post store := by
  obtain ⟨rows, stores, rfl⟩ := tabled
  refine stores.search id enough fun later still => rest _ later ?_ ⟨rows, still, rfl⟩
  rcases find_row stores.sorted id with ⟨absent, missing⟩ | ⟨before, row, after, rfl, rfl, below, above⟩
  · rw [absent, missing]
    rfl
  · obtain ⟨entry, record⟩ := assoc_row fun other member => (below other member).ne
    rw [entry, record]
    rfl

theorem lookup (tabled : Tabled base map store) (id : Int64) (enough : maxPages + 1 < rounds) :
    Finishes rounds (TableProg.search id) (fun found later => found.isSome = (map id).isSome ∧ later.wal = store.wal ∧
      Tabled base map later) store :=
  tabled.search id enough fun _ _ same still => finishes_pure.mpr ⟨same, rfl, still⟩

theorem select_runs (tabled : Tabled base map store) (id : Int64) (enough : maxPages + 1 < rounds) :
    ∃ later, run (TableStore.handler rounds) (Table.select id) store = some (.ok (map id), later) ∧
      later.wal = store.wal ∧ Tabled base map later := by
  obtain ⟨rows, stores, rfl⟩ := tabled
  obtain ⟨middle, handled, still⟩ := stores.search_handled id enough
  rcases find_row stores.sorted id with ⟨absent, missing⟩ | ⟨before, row, after, rfl, rfl, below, above⟩
  · rw [missing] at handled
    rw [absent]
    exact ⟨_, run_call handled _, rfl, rows, still, rfl⟩
  · obtain ⟨entry, record⟩ := assoc_row fun other member => (below other member).ne
    rw [entry] at handled
    rw [record]
    have whole : Stores (TableStore.mk middle store.wal).tree base (before ++ row :: after) := still
    obtain ⟨later, ran, kept⟩ := whole.readRecord_runs
    exact ⟨_, (run_call handled _).trans ran, rfl, _, kept, rfl⟩

theorem select (tabled : Tabled base map store) (id : Int64) (enough : maxPages + 1 < rounds) :
    Finishes rounds (Table.select id) (fun found later => found = map id ∧ later.wal = store.wal ∧
      Tabled base map later) store := by
  obtain ⟨later, ran, done⟩ := tabled.select_runs id enough
  exact finishes_of_run ran ⟨rfl, done⟩

theorem insertWithoutWAL (tabled : Tabled base map store) (record : Record) (enough : maxPages + 1 < rounds) :
    Finishes rounds (Table.insertWithoutWAL record) (fun inserted later => inserted = (map record.id).isNone ∧
      later.wal = store.wal ∧ Tabled base (insertRecord map record) later) store := by
  obtain ⟨rows, stores, rfl⟩ := tabled
  rw [Table.insertWithoutWAL]
  refine stores.search record.id enough fun later still => ?_
  rcases find_row stores.sorted record.id with ⟨absent, missing⟩ | ⟨before, row, after, rfl, same, below, above⟩
  · rw [missing, insertRecord, absent, if_pos rfl]
    obtain ⟨cells, owns, frame⟩ := Represents.frame still
    rcases Access.added owns with ⟨left, full, exhausted, -⟩ | ⟨pageId, index, middle, made, fill⟩
    · exact page_throw rfl full exhausted
    · obtain ⟨between, last, set, unpin, kept⟩ := fill ((middle.pool.frame index).block.write (serializeRecord record))
        (.record record.stored) (fun _ => rfl) (shows_serializeRecord _ record)
      have write : writeRecordBytes index record middle = (.ok (), between) := set
      refine page_call rfl made ?_
      refine page_call rfl write ?_
      refine page_call rfl unpin ?_
      rw [add_left_comm] at kept
      have few := stores.few enough
      refine tree_call rfl (insert_spec (frame last _ kept) record.id pageId.toInt64 few) ?_
      rintro inserted final (⟨-, -, present⟩ | ⟨rfl, front, back, split, grown, below, above⟩)
      · exact absurd missing present
      · obtain ⟨before, after, rfl, rfl, rfl⟩ := List.map_eq_append_iff.mp split
        have left : ∀ other ∈ before, other.key ≠ record.id := fun other member =>
          (below other.entry (List.mem_map_of_mem member)).ne
        refine finishes_pure.mpr ⟨rfl, rfl, before ++ ⟨record.id, pageId, record.stored⟩ :: after, ?_, records_insert left⟩
        rw [Stores, recordCells_middle, List.map_append, List.map_cons, add_assoc]
        exact grown
  · have left : ∀ other ∈ before, other.key ≠ row.key := fun other member => same ▸ (below other member).ne
    have entry := (@assoc_row before after row left).1
    have present := (@assoc_row before after row left).2
    rw [← same, entry, insertRecord, ← same, present, if_neg (Option.some_ne_none _)]
    exact finishes_pure.mpr ⟨rfl, rfl, _, still, rfl⟩

theorem updateWithoutWAL (tabled : Tabled base map store) (id : Int64) (record : Record)
    (enough : maxPages + 1 < rounds) :
    Finishes rounds (Table.updateWithoutWAL id record) (fun updated later =>
      updated = ((map id).isSome || (map record.id).isNone) ∧ later.wal = store.wal ∧
        Tabled base (updateRecord map id record) later) store := by
  obtain ⟨rows, stores, rfl⟩ := tabled
  rw [Table.updateWithoutWAL]
  refine stores.search id enough fun later still => ?_
  rcases find_row stores.sorted id with ⟨absent, missing⟩ | ⟨before, row, after, rfl, rfl, below, above⟩
  · rw [missing, updateRecord, absent, if_pos rfl]
    have whole : Tabled base (records rows) { store with tree := later } := ⟨rows, still, rfl⟩
    exact whole.insertWithoutWAL record enough
  · have left : ∀ other ∈ before, other.key ≠ row.key := fun other member => (below other member).ne
    obtain ⟨entry, present⟩ := assoc_row left
    rw [entry, updateRecord, present, if_neg (Option.some_ne_none _)]
    refine (Stores.writeRecord still record).mono fun written last done => ?_
    refine ⟨done.1, done.2.1, _, done.2.2, ?_⟩
    have others := @records_insert before after { row with record := record.stored } left
    rw [others, records_insert left, Function.update_idem]

theorem deleteWithoutWAL (tabled : Tabled base map store) (id : Int64) (enough : maxPages + 1 < rounds) :
    Finishes rounds (Table.deleteWithoutWAL id) (fun deleted later => deleted = true ∧ later.wal = store.wal ∧
      Tabled base (eraseRecord map id) later) store := by
  obtain ⟨rows, stores, rfl⟩ := tabled
  rw [Table.deleteWithoutWAL]
  refine stores.search id enough fun later still => ?_
  cases found : assoc (rows.map Row.entry) id with
  | none =>
    rcases find_row stores.sorted id with ⟨absent, -⟩ | ⟨before, row, after, rfl, rfl, below, above⟩
    · rw [eraseRecord, Function.update_eq_self_iff.mpr absent.symm]
      exact finishes_pure.mpr ⟨rfl, rfl, rows, still, rfl⟩
    · rw [(assoc_row fun other member => (below other member).ne).1] at found
      cases found
  | some value =>
    have few := stores.few enough
    refine tree_call rfl (delete_spec still id few) ?_
    rintro deleted final (⟨-, -, missing⟩ | ⟨rfl, front, other, back, split, shrunk, below, above⟩)
    · rw [found] at missing
      cases missing
    · obtain ⟨before, tail, rfl, rfl, rest⟩ := List.map_eq_append_iff.mp split
      obtain ⟨row, after, rfl, same, rfl⟩ := List.map_eq_cons_iff.mp rest
      obtain ⟨rfl, rfl⟩ := Prod.mk.inj same
      have left : ∀ other ∈ before, other.key ≠ row.key := fun other member =>
        (below other.entry (List.mem_map_of_mem member)).ne
      have right : ∀ other ∈ after, other.key ≠ row.key := fun other member =>
        (above other.entry (List.mem_map_of_mem member)).ne'
      rw [(assoc_row left).1] at found
      obtain rfl := Option.some.inj found
      rw [recordCells_middle, add_assoc] at shrunk
      obtain ⟨cells, owns, frame⟩ := Represents.frame shrunk
      rw [add_left_comm] at owns
      obtain ⟨last, ran, kept⟩ := Access.deletePage_eq rfl owns
      simp only [if_true, Int32.toInt32_toInt64]
      refine page_last rfl ran ⟨rfl, rfl, before ++ after, ?_, records_remove left right⟩
      rw [Stores, List.map_append]
      exact frame last _ kept

theorem selectWhere (tabled : Tabled base map store) (named : Named map) (predicate : Record → Bool)
    (enough : maxPages + 1 < rounds) :
    Returns rounds (Table.selectWhere predicate) (fun found later => Lists map predicate found ∧
      later.wal = store.wal ∧ Tabled base map later) store := by
  obtain ⟨rows, stores, rfl⟩ := tabled
  obtain ⟨tree, ran, still⟩ := Represents.rangeScan_runs stores Int64.minValue Int64.maxValue [] (stores.few enough)
  have all : (rows.map Row.entry).filter (inRange Int64.minValue Int64.maxValue) = rows.map Row.entry := by
    refine List.filter_eq_self.mpr fun pair member => ?_
    simp only [inRange, decide_eq_true_eq]
    exact ⟨Int64.minValue_le _, Int64.le_maxValue _⟩
  have handled : TableStore.handler rounds (.rangeScan Int64.minValue Int64.maxValue) store =
      some (.ok (rows.map Row.entry), { store with tree := tree }) := by
    rw [all, List.nil_append] at ran
    change TableStore.onTree (BPlusTree.rangeScan rounds Int64.minValue Int64.maxValue []) store = _
    rw [TableStore.onTree, ran]
    rfl
  have whole : Stores (TableStore.mk tree store.wal).tree base ([] ++ rows) := still
  refine (ensures_call handled).mpr ((Stores.selectFrom predicate rows whole []).mono fun found last done => ?_)
  rw [List.nil_append, List.nil_append] at done
  rw [done.1]
  exact ⟨lists_records stores.sorted named predicate, done.2.1, rows, done.2.2, rfl⟩

end Tabled

theorem tabled_empty (fresh : store.tree.rootPageId = invalidPageId) (owns : Owns store.tree.storage base) :
    Tabled base (fun _ => none) store := by
  have none : recordCells [] + base = base := zero_add base
  refine ⟨[], .empty fresh ?_, rfl⟩
  rwa [none]

theorem tabled_opened {poolSize : Nat} {data : Bytes} {wal : WALManager} (some : 0 < poolSize)
    (small : data.length / pageSize < maxPages) : Tabled (strays data) (fun _ => none) ⟨TreeStore.open poolSize data, wal⟩ :=
  tabled_empty rfl (opened_owns some small)

end QuorumDB.Query
