import QuorumDB.Lib.Guards
import QuorumDB.Query.TableRun

/-!
The table between the calls of an operation, where others may read it. An operation has at
most one page in its hands, pinned or outside the index, and goes from phase to phase with
each of its calls.
-/

namespace QuorumDB.Query
open Storage Program SearchWord

/-- What an operation has in its hands. -/
inductive Phase where
  | idle (rows : List Row)
  /-- The page of a row is pinned. -/
  | lent (before : List Row) (key : Key) (pageId : PageId) (frame : Nat) (bytes : Block) (owed : Bool) (after : List Row)
  /-- A new page is pinned. -/
  | made (pageId : PageId) (frame : Nat) (bytes : Block) (rows : List Row)
  /-- A row is not in the index yet, or no longer, and its page is in use. -/
  | aside (row : Row) (rows : List Row)

/-- The record of an id, as the bytes of the pages have it. -/
def TableStore.recordOf (rounds : Nat) (store : TableStore) (id : Int64) : Option Record :=
  match run TreeStore.viewing (BPlusTree.search rounds id) store.tree with
  | some (.ok (some recordPageId), _) =>
      some (deserializeRecord (store.tree.storage.content recordPageId.toInt32).bytes)
  | _ => none

def Row.reading (key : Key) (pageId : PageId) (bytes : Block) : Row := ⟨key, pageId, deserializeRecord bytes.bytes⟩

namespace Phase

def rows : Phase → List Row
  | .idle rows => rows
  | .lent before key pageId _ bytes _ after => before ++ Row.reading key pageId bytes :: after
  | .made _ _ _ rows => rows
  | .aside _ rows => rows

def known : Phase → List Row
  | .aside row rows => row :: rows
  | phase => phase.rows

def cells : Phase → Multiset (PageId × Cell)
  | .idle rows => recordCells rows
  | .lent before _ pageId frame bytes owed after =>
      {(pageId, .held ⟨frame, bytes, 1, owed⟩)} + recordCells (before ++ after)
  | .made pageId frame bytes rows => {(pageId, .held ⟨frame, bytes, 1, true⟩)} + recordCells rows
  | .aside row rows => {row.cell} + recordCells rows

def Free : Phase → Prop
  | .idle _ => True
  | .aside _ _ => True
  | _ => False

/-- Of every row the phase knew, the next one knows the row as it was, or its index knows the page; unless
the page was given up. -/
def Carries (phase : Phase) (request : TableCall) (reached : Phase) : Prop :=
  ∀ row ∈ phase.known, row ∈ reached.known ∨
    (∃ kept ∈ reached.rows, kept.key = row.key ∧ kept.pageId = row.pageId) ∨ request = .deletePage row.pageId

variable {phase : Phase} {row : Row}

theorem rows_known (member : row ∈ phase.rows) : row ∈ phase.known := by
  cases phase with
  | aside other rows => exact List.mem_cons_of_mem other member
  | _ => exact member

theorem mem_recordCells {rows : List Row} (member : row ∈ rows) : row.cell ∈ recordCells rows :=
  Multiset.mem_coe.mpr (List.mem_map_of_mem member)

theorem cell_of (member : row ∈ phase.known) : row.cell ∈ phase.cells ∨
    ∃ loan, loan.pins ≠ 0 ∧ ¬ phase.Free ∧ (row.pageId, .held loan) ∈ phase.cells ∧
      deserializeRecord loan.bytes.bytes = row.record := by
  cases phase with
  | idle rows => exact .inl (mem_recordCells member)
  | made pageId frame bytes rows => exact .inl (Multiset.mem_add.mpr (.inr (mem_recordCells member)))
  | aside other rows =>
    left
    rcases List.mem_cons.mp member with rfl | inside
    · exact Multiset.mem_add.mpr (.inl (Multiset.mem_singleton_self _))
    · exact Multiset.mem_add.mpr (.inr (mem_recordCells inside))
  | lent before key pageId frame bytes owed after =>
    have others : row ∈ before ++ after → row.cell ∈ cells (.lent before key pageId frame bytes owed after) := fun inside =>
      Multiset.mem_add.mpr (.inr (mem_recordCells inside))
    rcases List.mem_append.mp member with left | behind
    · exact .inl (others (List.mem_append_left _ left))
    · rcases List.mem_cons.mp behind with rfl | right
      · exact .inr ⟨⟨frame, bytes, 1, owed⟩, Nat.one_ne_zero, id, Multiset.mem_add.mpr (.inl (Multiset.mem_singleton_self _)), rfl⟩
      · exact .inl (others (List.mem_append_right _ right))

theorem rows_le (phase : Phase) : phase.rows.length ≤ Multiset.card phase.cells := by
  have counted : ∀ rows, Multiset.card (recordCells rows) = rows.length := fun rows => by
    rw [recordCells, Multiset.coe_card, List.length_map]
  cases phase <;> simp only [rows, cells, Multiset.card_add, counted, Multiset.card_singleton, List.length_append,
    List.length_cons] <;> omega

end Phase

/-- The table is in a phase; a row is about its own key. -/
structure Filed (base : Multiset (PageId × Cell)) (phase : Phase) (store : TableStore) : Prop where
  standing : Standing store.tree (phase.cells + base) (phase.rows.map Row.entry)
  available : phase.Free → store.tree.storage.pool.Available
  named : ∀ row ∈ phase.known, row.record.id = row.key

/-- The program goes from phase to phase as it may, to an end that satisfies `ends`. -/
abbrev Works {Result : Type} (rounds : Nat) (base : Multiset (PageId × Cell)) (program : TableProg Result)
    (ends : Result → Phase → Prop) (phase : Phase) : Prop :=
  Guards (TableStore.handler rounds) (Filed base) Phase.Carries ends program phase

variable {Result : Type} {store later : TableStore} {base : Multiset (PageId × Cell)} {rounds : Nat} {phase : Phase}
variable {rows before after : List Row} {row : Row}

section Answers

theorem onPages_ok {access : Access Result} {answer : Result} {outcome : Except StorageError Result} {storage : BufferedDisk}
    (handled : TableStore.onPages access store = some (.ok answer, later)) (ran : access store.tree.storage = (outcome, storage)) :
    outcome = .ok answer ∧ later = { store with tree := ⟨storage, store.tree.rootPageId⟩ } := by
  rw [TableStore.onPages, TreeStore.accessing, ran] at handled
  obtain ⟨same, rfl⟩ := Prod.mk.inj (Option.some.inj handled)
  exact ⟨same, rfl⟩

theorem onTree_ok {program : PageProg Result} {answer : Result}
    (handled : TableStore.onTree program store = some (.ok answer, later)) :
    ∃ tree, run TreeStore.handler program store.tree = some (.ok answer, tree) ∧ later = { store with tree := tree } := by
  obtain ⟨⟨result, tree⟩, ran, same⟩ := Option.map_eq_some_iff.mp handled
  obtain ⟨rfl, rfl⟩ := Prod.mk.inj same
  exact ⟨tree, ran, rfl⟩

end Answers

theorem plain_record (record : Record) : Cell.Plain (.record record) := fun _ => rfl

theorem serialized {storage : BufferedDisk} {rest : Multiset (PageId × Cell)} {pageId : PageId} {frame : Nat} {bytes : Block}
    {owed : Bool} (owned : Owned storage ({(pageId, .held ⟨frame, bytes, 1, owed⟩)} + rest)) (record : Record) :
    ∃ after, writeRecordBytes frame record storage = (.ok (), after) ∧
      Owned after ({(pageId, .held ⟨frame, bytes.write (serializeRecord record), 1, true⟩)} + rest) := by
  have lent : Lent storage pageId ⟨frame, bytes, 1, owed⟩ := owned.first.1
  have block : (storage.pool.frame frame).block = bytes := (lent.held Nat.one_ne_zero).2.2
  refine ⟨(BufferedDisk.setBlock frame (bytes.write (serializeRecord record)) storage).2, ?_, ?_⟩
  · rw [← block]
    rfl
  · exact owned.relend (lent.write owned.sound.valid Nat.one_ne_zero _) rfl rfl

namespace Filed

theorem few (filed : Filed base phase store) (enough : maxPages + 1 < rounds) :
    (phase.rows.map Row.entry).length + 1 < rounds := by
  obtain ⟨nodes, -, owned⟩ := filed.standing
  have card := owned.card_le
  have rows := phase.rows_le
  rw [Multiset.card_add, Multiset.card_add] at card
  rw [List.length_map]
  omega

theorem represents (filed : Filed base phase store) (free : phase.Free) :
    Represents store.tree (phase.cells + base) (phase.rows.map Row.entry) :=
  filed.standing.represents (filed.available free)

theorem page (filed : Filed base phase store) (member : row ∈ phase.known) :
    ∃ all, Owned store.tree.storage all ∧
      (∀ storage, Owned storage all → Standing ⟨storage, store.tree.rootPageId⟩ (phase.cells + base) (phase.rows.map Row.entry)) ∧
      ((row.pageId, .record row.record) ∈ all ∨ ∃ loan, loan.pins ≠ 0 ∧ ¬ phase.Free ∧ (row.pageId, .held loan) ∈ all ∧
        deserializeRecord loan.bytes.bytes = row.record) := by
  obtain ⟨cells, owned, frame⟩ := filed.standing.frame
  have inside : ∀ cell ∈ phase.cells, cell ∈ cells + (phase.cells + base) := fun cell here =>
    Multiset.mem_add.mpr (.inr (Multiset.mem_add.mpr (.inl here)))
  refine ⟨_, owned, fun storage still => frame storage _ still, ?_⟩
  rcases Phase.cell_of member with plain | ⟨loan, pinned, taken, held, decoded⟩
  · exact .inl (inside _ plain)
  · exact .inr ⟨loan, pinned, taken, inside _ held, decoded⟩

theorem content (filed : Filed base phase store) (member : row ∈ phase.known) :
    deserializeRecord (store.tree.storage.content row.pageId).bytes = row.record := by
  obtain ⟨all, owned, -, plain | ⟨loan, -, -, held, decoded⟩⟩ := filed.page member
  · exact owned.shown _ plain
  · have bytes : store.tree.storage.content row.pageId = loan.bytes := owned.shown _ held
    rw [bytes]
    exact decoded

theorem real (filed : Filed base phase store) (member : row ∈ phase.known) : row.pageId ≠ invalidPageId := by
  obtain ⟨all, owned, -, plain | ⟨loan, -, -, held, -⟩⟩ := filed.page member
  · exact (owned.live _ plain).real
  · exact (owned.live _ held).real

theorem recordOf (filed : Filed base phase store) (member : row ∈ phase.rows) (enough : maxPages + 1 < rounds) :
    store.recordOf rounds row.key = some row.record := by
  have pair : (row.key, row.pageId.toInt64) ∈ phase.rows.map Row.entry := List.mem_map_of_mem member
  have found := (mem_iff_assoc filed.standing.sorted).mp pair
  rw [TableStore.recordOf, filed.standing.views row.key (filed.few enough), found]
  simp only [Int32.toInt32_toInt64]
  rw [filed.content (Phase.rows_known member)]

theorem search (filed : Filed base phase store) {key : Key} (enough : maxPages + 1 < rounds) {found : Option Storage.Value}
    (handled : TableStore.handler rounds (.search key) store = some (.ok found, later)) :
    found = assoc (phase.rows.map Row.entry) key ∧ Filed base phase later := by
  obtain ⟨tree, ran, rfl⟩ := onTree_ok handled
  obtain ⟨same, standing, available⟩ := filed.standing.search_ran key (filed.few enough) ran
  exact ⟨same, standing, fun free => available (filed.available free), filed.named⟩

/-- ReadRecord on the page of a known row finds the record or no frame, whoever makes it. -/
theorem readRecord (filed : Filed base phase store) (member : row ∈ phase.known) :
    ∃ found later, run (TableStore.handler rounds) (Table.readRecord row.pageId.toInt64) store = some (.ok found, later) ∧
      (found = none ∨ found = some row.record) ∧ Filed base phase later := by
  obtain ⟨all, owned, frame, plain | ⟨loan, pinned, taken, held, decoded⟩⟩ := filed.page member
  · have lent : Live store.tree.storage row.pageId (.record row.record) := owned.live _ plain
    by_cases available : store.tree.storage.pool.Available
    · obtain ⟨index, middle, last, fetch, shown, unpin, kept⟩ := Access.fetched ⟨owned, available⟩ plain fun _ => rfl
      have still : Filed base phase { store with tree := ⟨last, store.tree.rootPageId⟩ } :=
        ⟨frame last kept.toOwned, fun _ => kept.available, filed.named⟩
      exact ⟨_, _, readRecord_ran lent.real fetch shown unpin, .inr rfl, still⟩
    · have refused := lent.fetchPage_full owned.sound.valid rfl available
      exact ⟨none, store, readRecord_refused lent.real refused, .inl rfl, filed⟩
  · have lent : Lent store.tree.storage row.pageId loan := owned.live _ held
    obtain ⟨middle, last, fetch, block, unpin, kept⟩ := Access.fetched_held owned held pinned
    have read : deserializeRecord (middle.pool.frame loan.frame).block.bytes = row.record := by rw [block, decoded]
    have still : Filed base phase { store with tree := ⟨last, store.tree.rootPageId⟩ } :=
      ⟨frame last kept, fun free => absurd free taken, filed.named⟩
    exact ⟨_, _, readRecord_ran lent.real fetch read unpin, .inr rfl, still⟩

theorem exchange (filed : Filed base phase store) {pageId : PageId} {cell : Cell} {others : Multiset (PageId × Cell)}
    (split : phase.cells = {(pageId, cell)} + others) :
    ∃ rest, Owned store.tree.storage ({(pageId, cell)} + rest) ∧ ∀ storage new (reached : Phase),
      Owned storage ({(pageId, new)} + rest) → reached.cells = {(pageId, new)} + others →
      reached.rows.map Row.entry = phase.rows.map Row.entry → (reached.Free → storage.pool.Available) →
      (∀ row ∈ reached.known, row.record.id = row.key) →
      Filed base reached { store with tree := ⟨storage, store.tree.rootPageId⟩ } := by
  obtain ⟨cells, owned, frame⟩ := filed.standing.frame
  rw [split, add_assoc, add_left_comm] at owned
  refine ⟨_, owned, fun storage new reached moved same entries available named => ⟨?_, available, named⟩⟩
  rw [entries, same, add_assoc]
  refine frame storage _ ?_
  rw [add_left_comm]
  exact moved

end Filed

section Rules

variable {ends : Result → Phase → Prop}

theorem Phase.carries_same {request : TableCall} {reached : Phase} (same : ∀ row ∈ phase.known, row ∈ reached.known) :
    phase.Carries request reached :=
  fun row member => .inl (same row member)

theorem Works.search (enough : maxPages + 1 < rounds) {key : Key} {next : Option Storage.Value → TableProg Result}
    (rest : Works rounds base (next (assoc (rows.map Row.entry) key)) ends (.idle rows)) :
    Works rounds base (TableProg.search key >>= next) ends (.idle rows) := by
  intro store answer later filed handled
  obtain ⟨rfl, still⟩ := filed.search enough handled
  exact ⟨.idle rows, still, Phase.carries_same fun _ => id, rest⟩

theorem Works.log {request : TableCall} (logs : request.logs = true) {next : TableCall.Answer request → TableProg Result}
    (rest : ∀ answer, Works rounds base (next answer) ends phase) :
    Works rounds base (Prog.ask request >>= next) ends phase := by
  intro store answer later filed handled
  have same : later.tree = store.tree := by
    cases request <;> first | exact (congrArg TableStore.tree (Prod.mk.inj (Option.some.inj handled)).2).symm | cases logs
  refine ⟨phase, ⟨?_, ?_, filed.named⟩, Phase.carries_same fun _ => id, rest answer⟩
  · rw [same]
    exact filed.standing
  · rw [same]
    exact filed.available

theorem mem_replace {old : Row} (member : row ∈ before ++ old :: after) (new : Row) :
    row = old ∨ row ∈ before ++ new :: after := by
  rcases List.mem_append.mp member with left | behind
  · exact .inr (List.mem_append_left _ left)
  · exact (List.mem_cons.mp behind).imp_right fun right => List.mem_append_right _ (List.mem_cons_of_mem _ right)

theorem Works.fetchPage {next : Option Nat → TableProg Result}
    (refused : Works rounds base (next none) ends (.idle (before ++ row :: after)))
    (fetched : ∀ frame bytes, deserializeRecord bytes.bytes = row.record →
      Works rounds base (next (some frame)) ends (.lent before row.key row.pageId frame bytes false after)) :
    Works rounds base (TableProg.fetchPage row.pageId >>= next) ends (.idle (before ++ row :: after)) := by
  intro store answer later filed handled
  obtain ⟨rest, owned, moved⟩ := filed.exchange (recordCells_middle before after row)
  obtain ⟨live, shown⟩ := owned.first
  have lent : Lent store.tree.storage row.pageId ⟨0, store.tree.storage.content row.pageId, 0, false⟩ := live
  rcases fetchPage_lent owned.sound.valid lent with ⟨index, storage, fetch, -, -, relent⟩ | fetch
  · obtain ⟨same, rfl⟩ := onPages_ok handled fetch
    obtain rfl := Except.ok.inj same
    have reading : Row.reading row.key row.pageId (store.tree.storage.content row.pageId) = row :=
      congrArg (Row.mk row.key row.pageId) shown
    have held : Owned storage ({(row.pageId, .held ⟨index, store.tree.storage.content row.pageId, 1, false⟩)} + rest) :=
      owned.relend relent rfl rfl
    refine ⟨_, ?_, ?_, fetched index _ shown⟩
    · apply moved _ _ _ held rfl
      · simp only [Phase.rows, reading]
      · exact fun impossible => impossible.elim
      · simp only [Phase.known, Phase.rows, reading]
        exact filed.named
    · apply Phase.carries_same
      simp only [Phase.known, Phase.rows, reading]
      exact fun _ => id
  · obtain ⟨same, rfl⟩ := onPages_ok handled fetch
    obtain rfl := Except.ok.inj same
    exact ⟨_, filed, Phase.carries_same fun _ => id, refused⟩

theorem Works.deserializeRecord {key : Key} {pageId : PageId} {frame : Nat} {bytes : Block} {owed : Bool}
    {next : Record → TableProg Result}
    (rest : Works rounds base (next (Query.deserializeRecord bytes.bytes)) ends (.lent before key pageId frame bytes owed after)) :
    Works rounds base (TableProg.deserializeRecord frame >>= next) ends (.lent before key pageId frame bytes owed after) := by
  intro store answer later filed handled
  obtain ⟨others, owned, -⟩ := filed.exchange rfl
  have lent : Lent store.tree.storage pageId ⟨frame, bytes, 1, owed⟩ := owned.first.1
  obtain ⟨same, rfl⟩ := onPages_ok handled rfl
  have block : (store.tree.storage.pool.frame frame).block = bytes := (lent.held Nat.one_ne_zero).2.2
  rw [block] at same
  obtain rfl := Except.ok.inj same
  exact ⟨_, filed, Phase.carries_same fun _ => id, rest⟩

theorem Works.serializeRecord {pageId : PageId} {frame : Nat} {bytes : Block} {owed : Bool} {record : Record}
    {next : Unit → TableProg Result}
    (rest : ∀ bytes, Works rounds base (next ()) ends (.lent before record.id pageId frame bytes true after)) :
    Works rounds base (TableProg.serializeRecord frame record >>= next) ends
      (.lent before record.id pageId frame bytes owed after) := by
  intro store answer later filed handled
  obtain ⟨others, owned, moved⟩ := filed.exchange rfl
  obtain ⟨storage, write, held⟩ := serialized owned record
  obtain ⟨-, rfl⟩ := onPages_ok handled write
  have stored : Query.deserializeRecord (bytes.write (Query.serializeRecord record)).bytes = record.stored :=
    shows_serializeRecord bytes record
  have named : (Query.deserializeRecord (bytes.write (Query.serializeRecord record)).bytes).id = record.id := by
    rw [stored, Record.stored_id]
  refine ⟨.lent before record.id pageId frame (bytes.write (Query.serializeRecord record)) true after, ?_, ?_, rest _⟩
  · apply moved storage _ _ held rfl
    · simp only [Phase.rows, Row.reading, Row.entry, List.map_append, List.map_cons]
    · exact fun impossible => impossible.elim
    · intro row member
      rcases mem_replace member (Row.reading record.id pageId bytes) with rfl | other
      · exact named
      · exact filed.named row other
  · intro row member
    rcases mem_replace member (Row.reading record.id pageId (bytes.write (Query.serializeRecord record))) with rfl | other
    · exact .inr (.inl ⟨_, List.mem_append_right _ List.mem_cons_self, rfl, rfl⟩)
    · exact .inl other

theorem Works.unpinPage {key : Key} {pageId : PageId} {frame : Nat} {bytes : Block} {owed isDirty : Bool}
    (covered : isDirty = false → owed = false) {next : Bool → TableProg Result}
    (rest : Works rounds base (next true) ends (.idle (before ++ Row.reading key pageId bytes :: after))) :
    Works rounds base (TableProg.unpinPage pageId isDirty >>= next) ends (.lent before key pageId frame bytes owed after) := by
  intro store answer later filed handled
  obtain ⟨others, owned, moved⟩ := filed.exchange rfl
  have shown : Cell.Shows (.record (Query.deserializeRecord bytes.bytes)) bytes := rfl
  obtain ⟨storage, unpin, owns⟩ := Access.released owned rfl isDirty covered (plain_record _) shown
  obtain ⟨same, rfl⟩ := onPages_ok handled unpin
  obtain rfl := Except.ok.inj same
  have split : Phase.cells (.idle (before ++ Row.reading key pageId bytes :: after)) =
      {(pageId, .record (Query.deserializeRecord bytes.bytes))} + recordCells (before ++ after) :=
    recordCells_middle before after _
  exact ⟨_, moved storage _ _ owns.toOwned split rfl (fun _ => owns.available) filed.named, Phase.carries_same fun _ => id, rest⟩

theorem Works.newPage {next : Option (PageId × Nat) → TableProg Result}
    (refused : Works rounds base (next none) ends (.idle rows))
    (made : ∀ pageId frame bytes, Works rounds base (next (some (pageId, frame))) ends (.made pageId frame bytes rows)) :
    Works rounds base (TableProg.newPage >>= next) ends (.idle rows) := by
  intro store answer later filed handled
  obtain ⟨cells, owned, frame⟩ := filed.standing.frame
  rcases newPage_lent owned.sound.valid owned.sound.toAllocatable with ⟨index, left, make, -⟩ | make |
    ⟨pageId, index, storage, disk, make, fresh, valid, lent, apart, nextPageId, freeList⟩
  · cases (onPages_ok handled make).1
  · obtain ⟨same, rfl⟩ := onPages_ok handled make
    obtain rfl := Except.ok.inj same
    exact ⟨_, filed, Phase.carries_same fun _ => id, refused⟩
  · obtain ⟨same, rfl⟩ := onPages_ok handled make
    obtain rfl := Except.ok.inj same
    have more : Owned storage ({(pageId, .held ⟨index, Block.zero, 1, true⟩)} + (cells + (recordCells rows + base))) :=
      Access.allocated owned fresh valid lent apart nextPageId freeList rfl rfl
    rw [add_left_comm, ← add_assoc _ _ base] at more
    exact ⟨.made pageId index Block.zero rows, ⟨frame storage _ more, fun impossible => impossible.elim, filed.named⟩,
      Phase.carries_same fun _ => id, made _ _ _⟩

theorem Works.fillRecord {pageId : PageId} {frame : Nat} {bytes : Block} {record : Record} {next : Unit → TableProg Result}
    (rest : ∀ bytes, (Query.deserializeRecord bytes.bytes).id = record.id →
      Works rounds base (next ()) ends (.made pageId frame bytes rows)) :
    Works rounds base (TableProg.serializeRecord frame record >>= next) ends (.made pageId frame bytes rows) := by
  intro store answer later filed handled
  obtain ⟨others, owned, moved⟩ := filed.exchange rfl
  obtain ⟨storage, write, held⟩ := serialized owned record
  obtain ⟨-, rfl⟩ := onPages_ok handled write
  have stored : Query.deserializeRecord (bytes.write (Query.serializeRecord record)).bytes = record.stored :=
    shows_serializeRecord bytes record
  have named : (Query.deserializeRecord (bytes.write (Query.serializeRecord record)).bytes).id = record.id := by
    rw [stored, Record.stored_id]
  refine ⟨.made pageId frame (bytes.write (Query.serializeRecord record)) rows, ?_, Phase.carries_same fun _ => id, rest _ named⟩
  exact moved storage _ _ held rfl rfl (fun impossible => impossible.elim) filed.named

theorem Works.unpinNew {key : Key} {pageId : PageId} {frame : Nat} {bytes : Block}
    (named : (Query.deserializeRecord bytes.bytes).id = key) {next : Bool → TableProg Result}
    (rest : Works rounds base (next true) ends (.aside (Row.reading key pageId bytes) rows)) :
    Works rounds base (TableProg.unpinPage pageId true >>= next) ends (.made pageId frame bytes rows) := by
  intro store answer later filed handled
  obtain ⟨others, owned, moved⟩ := filed.exchange rfl
  have shown : Cell.Shows (.record (Query.deserializeRecord bytes.bytes)) bytes := rfl
  have covered : true = false → true = false := id
  obtain ⟨storage, unpin, owns⟩ := Access.released owned rfl true covered (plain_record _) shown
  obtain ⟨same, rfl⟩ := onPages_ok handled unpin
  obtain rfl := Except.ok.inj same
  refine ⟨.aside (Row.reading key pageId bytes) rows, moved storage _ _ owns.toOwned rfl rfl (fun _ => owns.available) ?_, ?_, rest⟩
  · intro row member
    rcases List.mem_cons.mp member with rfl | inside
    · exact named
    · exact filed.named row inside
  · exact Phase.carries_same fun row inside => List.mem_cons_of_mem _ inside

theorem Works.deletePage {next : Bool → TableProg Result} (rest : Works rounds base (next true) ends (.idle rows)) :
    Works rounds base (TableProg.deletePage row.pageId >>= next) ends (.aside row rows) := by
  intro store answer later filed handled
  obtain ⟨cells, owned, frame⟩ := filed.standing.frame
  rw [Phase.cells, add_assoc, add_left_comm] at owned
  obtain ⟨storage, ran, fewer, available⟩ := Access.deleted rfl owned
  obtain ⟨same, rfl⟩ := onPages_ok handled ran
  obtain rfl := Except.ok.inj same
  refine ⟨.idle rows, ⟨frame storage _ fewer, fun _ => available (filed.available trivial), ?_⟩, ?_, rest⟩
  · exact fun row inside => filed.named row (List.mem_cons_of_mem _ inside)
  · intro known member
    rcases List.mem_cons.mp member with rfl | inside
    · exact .inr (.inr rfl)
    · exact .inl inside

theorem Works.insertKey (enough : maxPages + 1 < rounds) {next : Bool → TableProg Result}
    (refused : Works rounds base (next false) ends (.aside row rows))
    (inserted : ∀ before after, Works rounds base (next true) ends (.idle (before ++ row :: after))) :
    Works rounds base (TableProg.insertKey row.key row.pageId.toInt64 >>= next) ends (.aside row rows) := by
  intro store answer later filed handled
  obtain ⟨tree, ran, rfl⟩ := onTree_ok handled
  have proceeds := insert_spec (filed.represents trivial) row.key row.pageId.toInt64 (filed.few enough)
  unfold Proceeds Ensures at proceeds
  rw [ran] at proceeds
  rcases proceeds with ⟨rfl, still, -⟩ | ⟨rfl, front, back, split, grown, -, -⟩
  · exact ⟨_, ⟨still.standing, fun _ => still.available, filed.named⟩, Phase.carries_same fun _ => id, refused⟩
  · obtain ⟨before, after, rfl, rfl, rfl⟩ := List.map_eq_append_iff.mp split
    have same : ∀ other, other ∈ before ++ row :: after ↔ other ∈ row :: (before ++ after) := fun other =>
      List.perm_middle.mem_iff
    refine ⟨.idle (before ++ row :: after), ⟨?_, fun _ => grown.available, ?_⟩, ?_, inserted before after⟩
    · rw [Phase.cells, recordCells_middle, Phase.rows, List.map_append, List.map_cons]
      exact grown.standing
    · exact fun other inside => filed.named other ((same other).mp inside)
    · exact Phase.carries_same fun other inside => (same other).mpr inside

theorem Works.deleteKey (enough : maxPages + 1 < rounds) {key : Key} {next : Bool → TableProg Result}
    (refused : Works rounds base (next false) ends (.idle rows))
    (deleted : ∀ row others, assoc (rows.map Row.entry) key = some row.pageId.toInt64 →
      Works rounds base (next true) ends (.aside row others)) :
    Works rounds base (TableProg.deleteKey key >>= next) ends (.idle rows) := by
  intro store answer later filed handled
  obtain ⟨tree, ran, rfl⟩ := onTree_ok handled
  have proceeds := delete_spec (filed.represents trivial) key (filed.few enough)
  unfold Proceeds Ensures at proceeds
  rw [ran] at proceeds
  rcases proceeds with ⟨rfl, still, -⟩ | ⟨rfl, front, value, back, split, shrunk, below, -⟩
  · exact ⟨_, ⟨still.standing, fun _ => still.available, filed.named⟩, Phase.carries_same fun _ => id, refused⟩
  · obtain ⟨before, tail, rfl, rfl, rest⟩ := List.map_eq_append_iff.mp split
    obtain ⟨row, after, rfl, same, rfl⟩ := List.map_eq_cons_iff.mp rest
    obtain ⟨rfl, rfl⟩ := Prod.mk.inj same
    have left : ∀ other ∈ before, other.key ≠ row.key := fun other member =>
      (below other.entry (List.mem_map_of_mem member)).ne
    have shuffled : ∀ other, other ∈ before ++ row :: after ↔ other ∈ row :: (before ++ after) := fun other =>
      List.perm_middle.mem_iff
    refine ⟨.aside row (before ++ after), ⟨?_, fun _ => shrunk.available, ?_⟩, ?_, deleted row _ (assoc_row left).1⟩
    · have standing := shrunk.standing
      rw [Phase.cells, recordCells_middle] at standing
      rw [Phase.cells, Phase.rows, List.map_append]
      exact standing
    · exact fun other inside => filed.named other ((shuffled other).mpr inside)
    · exact Phase.carries_same fun other inside => (shuffled other).mp inside

end Rules

section Operations

def Rests (rounds : Nat) (base : Multiset (PageId × Cell)) (program : TableProg Result) : Prop :=
  ∀ rows, Works rounds base program (fun _ reached => ∃ others, reached = .idle others) (.idle rows)

variable {Value : Type}

theorem rests_pure (value : Result) : Rests rounds base (pure value) := fun rows => ⟨rows, rfl⟩

theorem Rests.seq {program : TableProg Value} {next : Value → TableProg Result} (first : Rests rounds base program)
    (rest : ∀ value, Rests rounds base (next value)) : Rests rounds base (program >>= next) := by
  intro rows
  apply Guards.seq (first rows)
  rintro value reached ⟨others, rfl⟩
  exact rest value others

theorem assoc_split {key : Key} {value : Storage.Value} (found : assoc (rows.map Row.entry) key = some value) :
    ∃ before row after, rows = before ++ row :: after ∧ row.key = key ∧ row.pageId.toInt64 = value := by
  unfold assoc at found
  obtain ⟨pair, first, rfl⟩ := Option.map_eq_some_iff.mp found
  obtain ⟨row, member, rfl⟩ := List.mem_map.mp (List.mem_of_find?_eq_some first)
  have same := List.find?_some first
  obtain ⟨before, after, split⟩ := List.append_of_mem member
  exact ⟨before, row, after, split, of_decide_eq_true same, rfl⟩

theorem rests_log {request : TableCall} (logs : request.logs = true) : Rests rounds base (Prog.ask request) :=
  fun rows => Works.log logs fun _ => ⟨rows, rfl⟩

theorem rests_withLog (logged : Bool) {program : TableProg Unit} (rests : Rests rounds base program) :
    Rests rounds base (Table.withLog logged program) := by
  cases logged with
  | false => exact rests_pure ()
  | true => exact rests

theorem rests_select (id : Int64) (enough : maxPages + 1 < rounds) : Rests rounds base (Table.select id) := by
  intro rows
  apply Works.search enough
  cases found : assoc (rows.map Row.entry) id with
  | none => exact rests_pure none rows
  | some recordPageId =>
    obtain ⟨before, row, after, rfl, rfl, rfl⟩ := assoc_split found
    simp only [Table.readRecord, Int32.toInt32_toInt64]
    by_cases missing : row.pageId = invalidPageId
    · rw [if_pos missing]
      exact rests_pure none _
    · rw [if_neg missing]
      refine Works.fetchPage (rests_pure none _) fun frame bytes decoded => ?_
      apply Works.deserializeRecord
      apply Works.unpinPage fun _ => rfl
      exact rests_pure _ _

theorem rests_insertWithoutWAL (record : Record) (enough : maxPages + 1 < rounds) :
    Rests rounds base (Table.insertWithoutWAL record) := by
  intro rows
  apply Works.search enough
  cases assoc (rows.map Row.entry) record.id with
  | some recordPageId => exact rests_pure false rows
  | none =>
    refine Works.newPage (rests_pure false rows) fun pageId frame bytes => ?_
    apply Works.fillRecord
    intro bytes named
    apply Works.unpinNew named
    apply @Works.insertKey _ base rounds rows (Row.reading record.id pageId bytes) _ enough
    · apply Works.deletePage
      exact rests_pure false rows
    · intro before after
      exact rests_pure true _

theorem rests_updateWithoutWAL {id : Int64} {record : Record} (own : record.id = id) (enough : maxPages + 1 < rounds) :
    Rests rounds base (Table.updateWithoutWAL id record) := by
  intro rows
  apply Works.search enough
  cases found : assoc (rows.map Row.entry) id with
  | none => exact rests_insertWithoutWAL record enough rows
  | some recordPageId =>
    obtain ⟨before, row, after, rfl, same, rfl⟩ := assoc_split found
    simp only [Table.writeRecord, Int32.toInt32_toInt64]
    refine Works.fetchPage (rests_pure false _) fun frame bytes decoded => ?_
    rw [same, ← own]
    apply Works.serializeRecord
    intro written
    refine Works.unpinPage (fun clean => absurd clean.symm Bool.false_ne_true) ?_
    exact rests_pure true _

theorem rests_deleteWithoutWAL (id : Int64) (enough : maxPages + 1 < rounds) :
    Rests rounds base (Table.deleteWithoutWAL id) := by
  intro rows
  apply Works.search enough
  cases found : assoc (rows.map Row.entry) id with
  | none => exact rests_pure true rows
  | some recordPageId =>
    refine Works.deleteKey enough (rests_pure false rows) fun row others same => ?_
    obtain rfl := Option.some.inj (found.symm.trans same)
    simp only [if_true, Int32.toInt32_toInt64]
    apply @Works.deletePage _ base rounds others row _ Prog.done
    exact rests_pure true others

/-- An operation of the state machine goes from phase to phase and ends with empty hands. -/
theorem TableOp.program_rests (logged : Bool) (op : TableOp) (enough : maxPages + 1 < rounds) :
    Rests rounds base (op.program logged) := by
  have closing : ∀ done : Bool, Rests rounds base (do
      Table.withLog (done && logged) TableProg.appendCommit
      return done) := fun done =>
    (rests_withLog _ (rests_log rfl)).seq fun _ => rests_pure done
  cases op with
  | insert record =>
    intro rows
    apply Works.search enough
    cases assoc (rows.map Row.entry) record.id with
    | some recordPageId => exact rests_pure false rows
    | none =>
      have logging := rests_withLog logged ((@rests_log base rounds (.appendInsert record.id (Table.recordImage record)) rfl).seq
        fun _ => @rests_log base rounds .flush rfl)
      exact (logging.seq fun _ => (rests_insertWithoutWAL record enough).seq closing) rows
  | update id mutator =>
    refine (rests_select id enough).seq fun found => ?_
    cases found with
    | none => exact rests_pure false
    | some before =>
      have logging := rests_withLog logged ((@rests_log base rounds (.appendUpdate id (Table.recordImage before)
        (Table.recordImage { mutator before with id := id })) rfl).seq fun _ => @rests_log base rounds .flush rfl)
      have work := @rests_updateWithoutWAL base rounds id { mutator before with id := id } rfl enough
      exact logging.seq fun _ => work.seq closing
  | delete id =>
    refine (rests_select id enough).seq fun found => ?_
    cases found with
    | none => exact rests_pure false
    | some before =>
      have logging := rests_withLog logged ((@rests_log base rounds (.appendDelete id (Table.recordImage before)) rfl).seq
        fun _ => @rests_log base rounds .flush rfl)
      exact logging.seq fun _ => (rests_deleteWithoutWAL id enough).seq closing

end Operations

end QuorumDB.Query
