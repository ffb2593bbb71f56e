import QuorumDB.Lib.Execution
import QuorumDB.Query.Recovery

/-!
Crashes of a table with a log. After one crash Recover brings back the records of the
operations that returned, with or without the one in flight. After several, what returned
true is kept as long as nothing is appended behind the part of a record.
-/

namespace QuorumDB.Query
open Storage Program Execution

variable {store crashed : TableStore} {base : Multiset (PageId × Cell)} {rounds : Nat} {map : Key → Option Record}
variable {wal : WALManager} {file : Bytes} {good : (Key → Option Record) → Prop}

def Shows (rounds : Nat) (store : TableStore) (map : Key → Option Record) : Prop :=
  ∀ id, ∃ later, run (TableStore.handler rounds) (Table.select id) store = some (.ok (map id), later)

/-- Recover brings these records into an empty tree, whatever the data file holds. -/
def RecoversTo (rounds : Nat) (wal : WALManager) (map : Key → Option Record) : Prop :=
  ∀ poolSize data, 0 < poolSize → data.length / pageSize < maxPages →
    Finishes rounds (Table.recover true) (fun _ recovered => Shows rounds recovered map)
      ⟨TreeStore.open poolSize data, wal⟩

theorem Tabled.shows (tabled : Tabled base map store) (enough : maxPages + 1 < rounds) : Shows rounds store map :=
  fun id => (tabled.select_runs id enough).imp fun _ done => done.1

theorem Tabled.shows_iff {other : Key → Option Record} (tabled : Tabled base map store) (enough : maxPages + 1 < rounds) :
    Shows rounds store other ↔ map = other := by
  constructor
  · intro shows
    funext id
    obtain ⟨one, first⟩ := tabled.shows enough id
    obtain ⟨two, second⟩ := shows id
    exact Except.ok.inj (Prod.mk.inj (Option.some.inj (first.symm.trans second))).1
  · rintro rfl
    exact tabled.shows enough

theorem LogHolds.recovers (holds : LogHolds wal map good) (crashes : wal.Crashes file) (enough : maxPages + 1 < rounds) :
    ∃ left, good left ∧ RecoversTo rounds (WALManager.openFile file) left := by
  obtain ⟨left, fine, kept⟩ := holds.crash crashes
  obtain ⟨-, replayable, rfl⟩ := kept.reads
  refine ⟨_, fine, fun poolSize data some small => ?_⟩
  have opened : Tabled (strays data) (fun _ => none) ⟨TreeStore.open poolSize data, WALManager.openFile file⟩ :=
    tabled_opened some small
  exact (recover_spec opened replayable enough).mono fun _ recovered done => done.2.shows enough

/-- The table holds these records, and its log stands for them and can lose none. -/
structure Backed (base : Multiset (PageId × Cell)) (map : Key → Option Record) (store : TableStore) : Prop where
  tabled : Tabled base map store
  logged : LogHolds store.wal map fun left => left = map
  whole : Whole store.wal.written

namespace Backed

theorem does (backed : Backed base map store) {op : TableOp} {answer : Bool} {later : TableStore}
    (done : op.Does base map true store.wal answer later) : Backed base (op.onMap map) later := by
  obtain ⟨holds, whole⟩ := backed.logged.after (.inr backed.whole)
  refine ⟨done.2.1, ?_, ?_⟩
  · rw [done.2.2]
    refine holds.mono fun left => ?_
    rintro (⟨refused, rfl⟩ | ⟨-, same⟩)
    · exact (onMap_refused refused).symm
    · exact same
  · rw [done.2.2]
    exact whole backed.whole

theorem program (backed : Backed base map store) (op : TableOp) (enough : maxPages + 1 < rounds) :
    Finishes rounds (op.program true) (fun _ later => Backed base (op.onMap map) later) store :=
  (op.program_spec backed.tabled enough).finishes.mono fun _ _ done => backed.does done

theorem programs (backed : Backed base map store) (ops : List TableOp) (enough : maxPages + 1 < rounds) :
    Finishes rounds (TableOp.programs true ops) (fun _ later => Backed base (TableOp.onMaps map ops) later) store := by
  induction ops generalizing store map with
  | nil => exact finishes_pure.mpr backed
  | cons op ops ih =>
    refine (backed.program op enough).seq fun answer later next => ?_
    exact (ih next).seq fun answers last done => finishes_pure.mpr done

/-- A crash inside an operation leaves the records as they were, or as the operation makes them. -/
theorem caught (backed : Backed base map store) (op : TableOp) (enough : maxPages + 1 < rounds)
    (member : crashed ∈ visits (TableStore.handler rounds) (op.program true) store) (crashes : crashed.wal.Crashes file) :
    RecoversTo rounds (WALManager.openFile file) map ∨ RecoversTo rounds (WALManager.openFile file) (op.onMap map) := by
  have stage := (op.program_spec backed.tabled enough).during crashed member
  obtain ⟨now, holds⟩ := backed.logged.moment (.inr backed.whole) stage
  obtain ⟨left, rfl | rfl, recovers⟩ := holds.recovers crashes enough
  · exact .inl recovers
  · exact .inr recovers

end Backed

/-- Crash recovery is exact: it brings back what the operations that returned left, or that and
the effect of the operation in flight. -/
theorem crash_recovery_exact (fresh : store.tree.rootPageId = invalidPageId) (owns : Owns store.tree.storage base)
    (empty : store.wal = WALManager.openFile []) (ops : List TableOp) (enough : maxPages + 1 < rounds) :
    Finishes rounds (TableOp.programs true ops) (fun _ later =>
      Shows rounds later (TableOp.onMaps (fun _ => none) ops) ∧
      (∀ file, later.wal.Crashes file →
        RecoversTo rounds (WALManager.openFile file) (TableOp.onMaps (fun _ => none) ops)) ∧
      ∀ op crashed file, crashed ∈ visits (TableStore.handler rounds) (op.program true) later → crashed.wal.Crashes file →
        RecoversTo rounds (WALManager.openFile file) (TableOp.onMaps (fun _ => none) ops) ∨
          RecoversTo rounds (WALManager.openFile file) (TableOp.onMaps (fun _ => none) (ops ++ [op]))) store := by
  have start : Backed base (fun _ => none) store := by
    refine ⟨tabled_empty fresh owns, ?_, ?_⟩
    · rw [empty]
      exact logHolds_nil
    · rw [empty]
      rfl
  refine (start.programs ops enough).mono fun answers later backed => ⟨backed.tabled.shows enough, ?_, ?_⟩
  · intro file crashes
    obtain ⟨left, rfl, recovers⟩ := backed.logged.recovers crashes enough
    exact recovers
  · intro op crashed file member crashes
    have last : TableOp.onMaps (fun _ => none) (ops ++ [op]) = op.onMap (TableOp.onMaps (fun _ => none) ops) := by
      rw [TableOp.onMaps, List.foldl_append]
      rfl
    rw [last]
    exact backed.caught op enough member crashes

set_option maxRecDepth 4000 in
theorem crash_recovery_exact_opened :
    ∃ later recovered, run (TableStore.handler (maxPages + 2)) (TableOp.programs true [.insert ⟨1, [65], 7⟩])
        ⟨TreeStore.open 1 [], WALManager.openFile []⟩ = some (.ok [true], later) ∧
      Shows (maxPages + 2) later (TableOp.onMaps (fun _ => none) [.insert ⟨1, [65], 7⟩]) ∧
      run (TableStore.handler (maxPages + 2)) (Table.recover true)
        ⟨TreeStore.open 1 [], WALManager.openFile later.wal.written⟩ = some (.ok (), recovered) ∧
      Shows (maxPages + 2) recovered (TableOp.onMaps (fun _ => none) [.insert ⟨1, [65], 7⟩]) ∧
      ∀ crashed file, crashed ∈ visits (TableStore.handler (maxPages + 2)) ((TableOp.delete 1).program true) later →
        crashed.wal.Crashes file → RecoversTo (maxPages + 2) (WALManager.openFile file)
          (TableOp.onMaps (fun _ => none) [.insert ⟨1, [65], 7⟩]) ∨
        RecoversTo (maxPages + 2) (WALManager.openFile file)
          (TableOp.onMaps (fun _ => none) ([.insert ⟨1, [65], 7⟩] ++ [.delete 1])) := by
  have runs : ∃ later, run (TableStore.handler (maxPages + 2)) (TableOp.programs true [.insert ⟨1, [65], 7⟩])
        ⟨TreeStore.open 1 [], WALManager.openFile []⟩ = some (.ok [true], later) ∧
      later.wal.flushed ≤ later.wal.written.length ∧ ∃ recovered,
      run (TableStore.handler (maxPages + 2)) (Table.recover true)
        ⟨TreeStore.open 1 [], WALManager.openFile later.wal.written⟩ = some (.ok (), recovered) :=
    ⟨_, rfl, by decide, _, rfl⟩
  obtain ⟨later, inserted, kept, recovered, again⟩ := runs
  have owns : Owns (TreeStore.open 1 []).storage (strays []) := opened_owns (by decide) (by decide)
  have exact := @crash_recovery_exact ⟨TreeStore.open 1 [], WALManager.openFile []⟩ _ _ rfl owns rfl
    [.insert ⟨1, [65], 7⟩] (Nat.lt_succ_self (maxPages + 1))
  unfold Finishes Ensures at exact
  rw [inserted] at exact
  obtain ⟨shows, between, inside⟩ := exact
  have brings := between later.wal.written ⟨List.prefix_refl _, kept⟩ 1 [] (by decide) (by decide)
  unfold Finishes Ensures at brings
  rw [again] at brings
  exact ⟨later, recovered, inserted, shows, again, brings, inside (.delete 1)⟩

/-- What happens to a table: an operation returns, or a crash comes, with an operation in flight or without. -/
inductive Event where
  | returned (op : TableOp) (answer : Bool)
  | crashed (op : Option TableOp)

/-- The records that what happened makes of others: every operation that returned true took effect,
one that a crash came into took effect or not. -/
def Effects : List Event → (Key → Option Record) → (Key → Option Record) → Prop
  | [], map, final => final = map
  | .returned op true :: rest, map, final => op.change map ≠ none ∧ Effects rest (op.onMap map) final
  | .returned _ false :: rest, map, final => Effects rest map final
  | .crashed none :: rest, map, final => Effects rest map final
  | .crashed (some op) :: rest, map, final => Effects rest map final ∨ Effects rest (op.onMap map) final

def Caught (rounds : Nat) (store : TableStore) : Option TableOp → TableStore → Prop
  | none, crashed => crashed = store
  | some op, crashed => crashed ∈ visits (TableStore.handler rounds) (op.program true) store

/-- Runs of a table through operations and crashes. Every crash is followed by a reopening and by
Recover. A crash inside Recover, which writes nothing, is one between two operations. -/
inductive Session (rounds : Nat) (meets : TableOp → TableStore → Prop) : List Event → TableStore → Prop
  | start {poolSize : Nat} {data : Bytes} (some : 0 < poolSize) (small : data.length / pageSize < maxPages) :
      Session rounds meets [] ⟨TreeStore.open poolSize data, WALManager.openFile []⟩
  | write {history : List Event} {store later : TableStore} {op : TableOp} {answer : Bool}
      (before : Session rounds meets history store) (meeting : meets op store)
      (ran : run (TableStore.handler rounds) (op.program true) store = some (.ok answer, later)) :
      Session rounds meets (history ++ [.returned op answer]) later
  | crash {history : List Event} {store crashed later : TableStore} {op : Option TableOp} {file : Bytes} {poolSize : Nat}
      {data : Bytes} (before : Session rounds meets history store) (meeting : ∀ running ∈ op, meets running store)
      (caught : Caught rounds store op crashed) (crashes : crashed.wal.Crashes file) (some : 0 < poolSize)
      (small : data.length / pageSize < maxPages)
      (ran : run (TableStore.handler rounds) (Table.recover true)
        ⟨TreeStore.open poolSize data, crashed.wal.reopen file⟩ = .some (.ok (), later)) :
      Session rounds meets (history ++ [.crashed op]) later

namespace TableOp

/-- The lookup that an operation begins with, and whether the operation goes on after it. -/
def lookup : TableOp → TableProg Bool
  | .insert record => do return (← TableProg.search record.id).isNone
  | .update id _ => do return (← Table.select id).isSome
  | .delete id => do return (← Table.select id).isSome

theorem lookup_spec (tabled : Tabled base map store) (op : TableOp) (enough : maxPages + 1 < rounds) :
    Finishes rounds op.lookup (fun goes _ => goes = (op.change map).isSome) store := by
  cases op with
  | insert record =>
    refine (tabled.lookup record.id enough).seq fun found later done => finishes_pure.mpr ?_
    rw [change]
    by_cases absent : map record.id = none
    · rw [if_pos absent]
      rw [absent] at done
      exact Option.isNone_iff_eq_none.mpr (Option.not_isSome_iff_eq_none.mp (done.1 ▸ Bool.false_ne_true))
    · rw [if_neg absent]
      rw [Option.isSome_iff_ne_none.mpr absent] at done
      exact Option.isNone_eq_false_iff.mpr done.1
  | update id mutator =>
    refine (tabled.select id enough).seq fun found later done => finishes_pure.mpr ?_
    rw [done.1, change, Option.isSome_map]
  | delete id =>
    refine (tabled.select id enough).seq fun found later done => finishes_pure.mpr ?_
    rw [done.1, change, Option.isSome_map]

/-- The log ends with a whole record, or the lookup of the operation stops it before it logs. -/
def Appendable (rounds : Nat) (op : TableOp) (store : TableStore) : Prop :=
  Whole store.wal.written ∨ ∃ later, run (TableStore.handler rounds) op.lookup store = some (.ok false, later)

theorem Appendable.ready {op : TableOp} (appendable : op.Appendable rounds store) (tabled : Tabled base map store)
    (enough : maxPages + 1 < rounds) : op.change map = none ∨ Whole store.wal.written := by
  rcases appendable with whole | ⟨later, ran⟩
  · exact .inr whole
  · have spec := lookup_spec tabled op enough
    unfold Finishes Ensures at spec
    rw [ran] at spec
    exact .inl (Option.not_isSome_iff_eq_none.mp (spec ▸ Bool.false_ne_true))

end TableOp

section Cycles

variable {history : List Event} {middle final : Key → Option Record} {op : TableOp}

theorem Effects.append {event : Event} (before : Effects history map middle) (last : Effects [event] middle final) :
    Effects (history ++ [event]) map final := by
  induction history generalizing map with
  | nil =>
    have same : middle = map := before
    subst same
    exact last
  | cons first history ih =>
    match first with
    | .returned op true => exact ⟨before.1, ih before.2⟩
    | .returned op false => exact ih before
    | .crashed none => exact ih before
    | .crashed (some op) => exact before.imp ih ih

/-- What the log of a table with a history stands for, now and after any crash. -/
def Remembers (history : List Event) (wal : WALManager) (map : Key → Option Record) : Prop :=
  LogHolds wal map (Effects history fun _ => none)

theorem Remembers.returned {answer : Bool} {later : TableStore} (remembers : Remembers history store.wal map)
    (ready : op.change map = none ∨ Whole store.wal.written) (does : op.Does base map true store.wal answer later) :
    Remembers (history ++ [.returned op answer]) later.wal (op.onMap map) := by
  obtain ⟨rfl, -, same⟩ := does
  rw [same]
  refine (remembers.after ready).1.mono fun left => ?_
  rintro (⟨refused, old⟩ | ⟨accepted, rfl⟩)
  · rw [refused]
    exact old.append rfl
  · rw [Option.isSome_iff_ne_none.mpr accepted]
    exact remembers.reads.1.append ⟨accepted, rfl⟩

theorem Remembers.reopened {running : Option TableOp} (remembers : Remembers history store.wal map)
    (tabled : Tabled base map store) (ready : ∀ op ∈ running, op.change map = none ∨ Whole store.wal.written)
    (caught : Caught rounds store running crashed) (crashes : crashed.wal.Crashes file) (enough : maxPages + 1 < rounds) :
    ∃ left, Remembers (history ++ [.crashed running]) (crashed.wal.reopen file) left := by
  cases running with
  | none =>
    obtain rfl : crashed = store := caught
    obtain ⟨left, -, kept⟩ := remembers.crash crashes
    exact ⟨left, kept.mono fun other old => old.append rfl⟩
  | some op =>
    have stage := (op.program_spec tabled enough).during crashed caught
    obtain ⟨now, holds⟩ := remembers.moment (ready op rfl) stage
    obtain ⟨left, -, kept⟩ := holds.crash crashes
    refine ⟨left, kept.mono fun other => ?_⟩
    rintro (old | rfl)
    · exact old.append (.inl rfl)
    · exact remembers.reads.1.append (.inr rfl)

theorem Remembers.recover {poolSize : Nat} {data : Bytes} (remembers : Remembers history wal map) (some : 0 < poolSize)
    (small : data.length / pageSize < maxPages) (enough : maxPages + 1 < rounds) :
    Finishes rounds (Table.recover true) (fun _ later => Tabled (strays data) map later ∧
      Remembers history later.wal map) ⟨TreeStore.open poolSize data, wal⟩ := by
  obtain ⟨-, replayable, rfl⟩ := LogHolds.reads remembers
  have opened : Tabled (strays data) (fun _ => none) ⟨TreeStore.open poolSize data, wal⟩ := tabled_opened some small
  exact (recover_spec opened replayable enough).mono fun _ later done => ⟨done.2, done.1 ▸ remembers⟩

theorem Session.remembers (session : Session rounds (TableOp.Appendable rounds) history store)
    (enough : maxPages + 1 < rounds) : ∃ base map, Tabled base map store ∧ Remembers history store.wal map := by
  induction session with
  | start some small => exact ⟨_, _, tabled_opened some small, logHolds_nil⟩
  | @write history store later op answer before meeting ran ih =>
    obtain ⟨base, map, tabled, remembers⟩ := ih
    have does : Finishes rounds (op.program true) (op.Does base map true store.wal) store :=
      (op.program_spec tabled enough).finishes
    unfold Finishes Ensures at does
    rw [ran] at does
    exact ⟨base, _, does.2.1, remembers.returned (meeting.ready tabled enough) does⟩
  | @crash history store crashed later op file poolSize data before meeting caught crashes some small ran ih =>
    obtain ⟨base, map, tabled, remembers⟩ := ih
    obtain ⟨left, kept⟩ := remembers.reopened tabled (fun running inside => (meeting running inside).ready tabled enough)
      caught crashes enough
    have recovered := kept.recover some small enough
    unfold Finishes Ensures at recovered
    rw [ran] at recovered
    exact ⟨_, _, recovered⟩

end Cycles

set_option maxRecDepth 4000 in
/-- A table whose first Insert was acknowledged, after a crash and Recover, and what a second Recover makes of its log. -/
theorem session_recovered :
    ∃ store again, Session (maxPages + 2) (TableOp.Appendable (maxPages + 2))
        [.returned (.insert ⟨1, [65], 7⟩) true, .crashed none] store ∧
      Whole store.wal.written ∧ store.wal.Crashes store.wal.written ∧
      run (TableStore.handler (maxPages + 2)) (Table.recover true)
        ⟨TreeStore.open 1 [], store.wal.reopen store.wal.written⟩ = some (.ok (), again) := by
  have opened : Session (maxPages + 2) (TableOp.Appendable (maxPages + 2)) []
      ⟨TreeStore.open 1 [], WALManager.openFile []⟩ := .start (by decide) (by decide)
  have runs : ∃ first, run (TableStore.handler (maxPages + 2)) ((TableOp.insert ⟨1, [65], 7⟩).program true)
        ⟨TreeStore.open 1 [], WALManager.openFile []⟩ = some (.ok true, first) ∧
      first.wal.flushed ≤ first.wal.written.length ∧ ∃ second,
      run (TableStore.handler (maxPages + 2)) (Table.recover true)
        ⟨TreeStore.open 1 [], first.wal.reopen first.wal.written⟩ = some (.ok (), second) ∧
      Whole second.wal.written ∧ second.wal.flushed ≤ second.wal.written.length ∧ ∃ third,
      run (TableStore.handler (maxPages + 2)) (Table.recover true)
        ⟨TreeStore.open 1 [], second.wal.reopen second.wal.written⟩ = some (.ok (), third) :=
    ⟨_, rfl, by decide, _, rfl, rfl, by decide, _, rfl⟩
  obtain ⟨first, inserted, kept, second, recovered, whole, left, third, again⟩ := runs
  have wrote := opened.write (.inl rfl) inserted
  have nobody : ∀ running ∈ (none : Option TableOp), running.Appendable (maxPages + 2) first :=
    fun running impossible => by cases impossible
  have back := wrote.crash nobody rfl ⟨List.prefix_refl _, kept⟩ (by decide) (by decide) recovered
  exact ⟨second, third, back, whole, ⟨List.prefix_refl _, left⟩, again⟩

/-- Acknowledged writes survive repeated crashes as long as nothing is appended behind the part of a
record: the table shows the effect of everything that returned true, and so it does after the next
crash and Recover. -/
theorem acknowledged_survive {history : List Event} (session : Session rounds (TableOp.Appendable rounds) history store)
    (enough : maxPages + 1 < rounds) :
    (∃ map, Effects history (fun _ => none) map ∧ Shows rounds store map) ∧
      ∀ running crashed file poolSize data, (∀ op ∈ running, op.Appendable rounds store) →
        Caught rounds store running crashed → crashed.wal.Crashes file → 0 < poolSize →
        data.length / pageSize < maxPages → Finishes rounds (Table.recover true) (fun _ recovered =>
          ∃ map, Effects (history ++ [.crashed running]) (fun _ => none) map ∧ Shows rounds recovered map)
          ⟨TreeStore.open poolSize data, crashed.wal.reopen file⟩ := by
  obtain ⟨base, map, tabled, remembers⟩ := session.remembers enough
  refine ⟨⟨map, remembers.reads.1, tabled.shows enough⟩, ?_⟩
  intro running crashed file poolSize data meeting caught crashes some small
  obtain ⟨left, kept⟩ := remembers.reopened tabled (fun op inside => (meeting op inside).ready tabled enough)
    caught crashes enough
  exact (kept.recover some small enough).mono fun _ recovered done => ⟨left, kept.reads.1, done.1.shows enough⟩

theorem acknowledged_survive_insert :
    ∃ store recovered, Session (maxPages + 2) (TableOp.Appendable (maxPages + 2))
        [.returned (.insert ⟨1, [65], 7⟩) true, .crashed none] store ∧
      (∃ map, Effects [.returned (.insert ⟨1, [65], 7⟩) true, .crashed none] (fun _ => none) map ∧
        Shows (maxPages + 2) store map) ∧
      run (TableStore.handler (maxPages + 2)) (Table.recover true)
        ⟨TreeStore.open 1 [], store.wal.reopen store.wal.written⟩ = some (.ok (), recovered) ∧
      ∃ map, Effects ([.returned (.insert ⟨1, [65], 7⟩) true, .crashed none] ++ [.crashed (some (.insert ⟨2, [66], 8⟩))])
        (fun _ => none) map ∧ Shows (maxPages + 2) recovered map := by
  obtain ⟨store, recovered, session, whole, crashes, again⟩ := session_recovered
  obtain ⟨live, next⟩ := acknowledged_survive session (Nat.lt_succ_self _)
  have meeting : ∀ op ∈ some (TableOp.insert ⟨2, [66], 8⟩), op.Appendable (maxPages + 2) store := fun op _ => .inl whole
  have brings := next _ store _ 1 [] meeting (start_mem_visits _ _ _) crashes (by decide) (by decide)
  unfold Finishes Ensures at brings
  rw [again] at brings
  exact ⟨store, recovered, session, live, again, brings⟩
set_option maxRecDepth 4000 in
/-- A crash leaves the first byte of a record, and the next Insert is written behind it. -/
theorem acknowledged_survive_fails :
    ∃ history store, Session (maxPages + 2) (fun _ _ => True) history store ∧
      ¬ ∃ map, Effects history (fun _ => none) map ∧ Shows (maxPages + 2) store map := by
  have opened : Session (maxPages + 2) (fun _ _ => True) [] ⟨TreeStore.open 1 [], WALManager.openFile []⟩ :=
    .start (by decide) (by decide)
  have inside : ∃ crashed, crashed ∈ visits (TableStore.handler (maxPages + 2))
      ((TableOp.insert ⟨1, [65], 7⟩).program true) ⟨TreeStore.open 1 [], WALManager.openFile []⟩ ∧
      crashed.wal.written.take 1 = [105] ∧ crashed.wal.flushed = 0 ∧ crashed.wal.reopen [105] = ⟨[105], 0, 0⟩ :=
    ⟨_, List.mem_of_getElem? (i := 2) rfl, rfl, rfl, rfl⟩
  obtain ⟨crashed, caught, byte, unflushed, left⟩ := inside
  have crashes : crashed.wal.Crashes [105] := ⟨byte ▸ List.take_prefix 1 _, unflushed ▸ Nat.zero_le 1⟩
  have recovered : run (TableStore.handler (maxPages + 2)) (Table.recover true)
      ⟨TreeStore.open 1 [], crashed.wal.reopen [105]⟩ = some (.ok (), ⟨TreeStore.open 1 [], ⟨[105], 0, 0⟩⟩) := by
    rw [left]
    rfl
  have torn : Session (maxPages + 2) (fun _ _ => True) [.crashed (some (.insert ⟨1, [65], 7⟩))] _ :=
    opened.crash (fun _ _ => trivial) caught crashes (by decide) (by decide)
      recovered
  have ran : ∃ later, run (TableStore.handler (maxPages + 2)) ((TableOp.insert ⟨2, [66], 8⟩).program true)
      ⟨TreeStore.open 1 [], ⟨[105], 0, 0⟩⟩ = some (.ok true, later) ∧
      run (TableStore.handler (maxPages + 2)) (Table.recover true)
        ⟨TreeStore.open 1 [], later.wal.reopen later.wal.written⟩ =
          some (.ok (), ⟨TreeStore.open 1 [], later.wal.reopen later.wal.written⟩) ∧
      later.wal.flushed ≤ later.wal.written.length := ⟨_, rfl, rfl, by decide⟩
  obtain ⟨later, inserted, again, enough⟩ := ran
  have wrote := torn.write trivial inserted
  have lost : Session (maxPages + 2) (fun _ _ => True) [.crashed (some (.insert ⟨1, [65], 7⟩)),
      .returned (.insert ⟨2, [66], 8⟩) true, .crashed none] _ :=
    wrote.crash (fun _ _ => trivial) rfl ⟨List.prefix_refl _, enough⟩ (by decide)
      (by decide) again
  refine ⟨_, _, lost, ?_⟩
  rintro ⟨map, effects, shows⟩
  obtain ⟨last, ran⟩ := shows 2
  have gone : none = map 2 := Except.ok.inj (Prod.mk.inj (Option.some.inj ran)).1
  rcases effects with ⟨-, rfl⟩ | ⟨-, rfl⟩
  · cases gone
  · cases gone

end QuorumDB.Query
