import QuorumDB.Lib.Execution
import QuorumDB.Query.Phases

/-!
Selects of reader threads (`raft/raft_server.cpp`) while the state machine executes its
operations. Nothing holds a lock from the search of a Select to its read: between the two
any number of calls of the operations, and of other Selects, may come.
-/

namespace QuorumDB.Query
open Storage Program Execution

/-- The table, what is left of the operation that Apply executes, and what is left of each reader's
Select of an id. -/
structure Server where
  store : TableStore
  applying : TableProg Bool
  selecting : Nat → Option (Int64 × TableProg (Option Record))

inductive ServerStep where
  /-- Apply calls an operation, the one before having returned. -/
  | apply (op : TableOp)
  /-- One call of the operation. -/
  | write
  /-- A reader calls SelectById, which searches the index. -/
  | search (reader : Nat) (id : Int64)
  /-- The rest of a Select: fetching, decoding and unpinning the page. -/
  | read (reader : Nat)

def ServerStep.alone (op : TableOp) (calls : Nat) : List ServerStep := .apply op :: List.replicate calls .write

namespace Server

/-- What a step does. There is none where a call throws: nothing catches it, and the process ends. -/
def act (rounds : Nat) (logged : Bool) (server : Server) : ServerStep → Option Server
  | .apply op =>
      match server.applying with
      | .done _ => some { server with applying := op.program logged }
      | _ => none
  | .write => do
      let (rest, later) ← server.applying.advance (TableStore.handler rounds) server.store
      some { server with store := later, applying := rest }
  | .search reader id =>
      match server.selecting reader with
      | some _ => none
      | none => do
          let (rest, later) ← (QueryEngine.selectById id).advance (TableStore.handler rounds) server.store
          some { server with store := later, selecting := Function.update server.selecting reader (some (id, rest)) }
  | .read reader => do
      let (_, rest) ← server.selecting reader
      match ← run (TableStore.handler rounds) rest server.store with
      | (.ok _, later) => some { server with store := later, selecting := Function.update server.selecting reader none }
      | (.error _, _) => none

def Initial (server : Server) : Prop :=
  (∃ base map, Tabled base map server.store ∧ Named map) ∧ (∃ answer, server.applying = .done answer) ∧
    ∀ reader, server.selecting reader = none

abbrev Reaches (rounds : Nat) (logged : Bool) : List Server → Server → Prop :=
  Run Initial fun server step later => server.act rounds logged step = some later

/-- The moments of a reader's Select from its search on. -/
def during (server : Server) (past : List Server) (reader : Nat) : List Server :=
  (server :: past).takeWhile fun moment => (moment.selecting reader).isSome

/-- DeletePage does not give up the page that a Select is about to fetch. -/
def Spares (server : Server) : Prop :=
  ∀ reader id rest pageId, server.selecting reader = some (id, rest) → rest.request? = some (.fetchPage pageId) →
    server.applying.request? ≠ some (.deletePage pageId)

abbrev ReachesSparing (rounds : Nat) (logged : Bool) : List Server → Server → Prop :=
  Run Initial fun server step later => server.act rounds logged step = some later ∧ (step = .write → server.Spares)

end Server

namespace Server

variable {rounds : Nat} {logged : Bool} {server later : Server} {past : List Server} {reader : Nat} {id : Int64}
variable {rest : TableProg (Option Record)} {base : Multiset (PageId × Cell)} {phase reached : Phase}

theorem during_next (going : (later.selecting reader).isSome = true) :
    later.during (server :: past) reader = later :: server.during past reader :=
  List.takeWhile_cons_of_pos going

theorem now_during (going : (server.selecting reader).isSome = true) : server ∈ server.during past reader := by
  rw [during, List.takeWhile_cons, if_pos going]
  exact List.mem_cons_self

/-- A Select has found nothing, or a page whose row was the one of the id at some moment since. -/
def Seeks (rounds : Nat) (phase : Phase) (past : List Server) (server : Server) (reader : Nat) (id : Int64)
    (rest : TableProg (Option Record)) : Prop :=
  rest = .done none ∨ ∃ row ∈ phase.known, row.key = id ∧ rest = Table.readRecord row.pageId.toInt64 ∧
    ∃ moment ∈ server.during past reader, moment.store.recordOf rounds id = some row.record

/-- The operation is in a phase, and so is what the Selects are about to read. -/
structure Agrees (rounds : Nat) (base : Multiset (PageId × Cell)) (phase : Phase) (past : List Server)
    (server : Server) : Prop where
  filed : Filed base phase server.store
  works : Works rounds base server.applying (fun _ reached => ∃ rows, reached = .idle rows) phase
  seeks : ∀ reader id rest, server.selecting reader = some (id, rest) → Seeks rounds phase past server reader id rest

theorem Seeks.next (seeks : Seeks rounds phase past server reader id rest) {request : TableCall}
    (carries : phase.Carries request reached) (filed : Filed base phase server.store) (still : Filed base reached later.store)
    (enough : maxPages + 1 < rounds) (going : later.selecting reader = some (id, rest))
    (spared : ∀ pageId, rest.request? = some (.fetchPage pageId) → request ≠ .deletePage pageId) :
    Seeks rounds reached (server :: past) later reader id rest := by
  have some : (later.selecting reader).isSome = true := Option.isSome_of_eq_some going
  rcases seeks with nothing | ⟨row, member, own, reads, moment, seen, was⟩
  · exact .inl nothing
  · rcases carries row member with known | ⟨kept, inside, sameKey, samePage⟩ | gone
    · refine .inr ⟨row, known, own, reads, moment, ?_, was⟩
      rw [during_next some]
      exact List.mem_cons_of_mem _ seen
    · refine .inr ⟨kept, Phase.rows_known inside, sameKey.trans own, samePage ▸ reads, later, now_during some, ?_⟩
      have now := still.recordOf inside enough
      rwa [sameKey, own] at now
    · refine absurd gone (spared row.pageId ?_)
      rw [reads, Table.readRecord]
      simp only [Int32.toInt32_toInt64, if_neg (filed.real member)]
      rfl

theorem Seeks.same (seeks : Seeks rounds phase past server reader id rest) (going : later.selecting reader = some (id, rest)) :
    Seeks rounds phase (server :: past) later reader id rest := by
  rcases seeks with nothing | ⟨row, member, own, reads, moment, seen, was⟩
  · exact .inl nothing
  · refine .inr ⟨row, member, own, reads, moment, ?_, was⟩
    rw [during_next (Option.isSome_of_eq_some going)]
    exact List.mem_cons_of_mem _ seen

theorem Agrees.read (agrees : Agrees rounds base phase past server) (selecting : server.selecting reader = some (id, rest)) :
    ∃ found later, run (TableStore.handler rounds) rest server.store = some (.ok found, later) ∧ Filed base phase later ∧
      ∀ record, found = some record → record.id = id ∧
        ∃ moment ∈ server.during past reader, moment.store.recordOf rounds id = some record := by
  rcases agrees.seeks reader id rest selecting with rfl | ⟨row, member, own, rfl, moment, seen, was⟩
  · exact ⟨none, server.store, rfl, agrees.filed, fun record impossible => nomatch impossible⟩
  · obtain ⟨found, later, ran, none | same, still⟩ := @Filed.readRecord server.store base rounds phase row agrees.filed member
    · exact ⟨found, later, ran, still, fun record impossible => nomatch none.symm.trans impossible⟩
    · refine ⟨found, later, ran, still, fun record answered => ?_⟩
      obtain rfl := Option.some.inj (same.symm.trans answered)
      exact ⟨(agrees.filed.named row member).trans own, moment, seen, was⟩

def afterSearch : Option Storage.Value → TableProg (Option Record)
  | none => .done none
  | some recordPageId => Table.readRecord recordPageId

theorem selectById_eq (id : Int64) : QueryEngine.selectById id = .call (.search id) afterSearch := by
  unfold QueryEngine.selectById Table.select TableProg.search
  rw [Prog.ask_bind]
  congr 1

theorem selectById_advance {store after : TableStore}
    (advanced : (QueryEngine.selectById id).advance (TableStore.handler rounds) store = some (rest, after)) :
    ∃ found, TableStore.handler rounds (.search id) store = some (.ok found, after) ∧ rest = afterSearch found := by
  rw [selectById_eq] at advanced
  obtain ⟨request, next, found, asked, handled, rfl⟩ := Prog.advance_cases advanced
  cases asked
  exact ⟨found, handled, rfl⟩

theorem seeks_found (filed : Filed base phase server.store) (enough : maxPages + 1 < rounds)
    (going : (server.selecting reader).isSome = true) :
    Seeks rounds phase past server reader id (afterSearch (SearchWord.assoc (phase.rows.map Row.entry) id)) := by
  cases found : SearchWord.assoc (phase.rows.map Row.entry) id with
  | none => exact .inl rfl
  | some recordPageId =>
    obtain ⟨before, row, after, split, rfl, rfl⟩ := assoc_split found
    have member : row ∈ phase.rows := split ▸ List.mem_append_right before List.mem_cons_self
    exact .inr ⟨row, Phase.rows_known member, rfl, rfl, server, now_during going, filed.recordOf member enough⟩

theorem Agrees.step (agrees : Agrees rounds base phase past server) (enough : maxPages + 1 < rounds) {step : ServerStep}
    (acted : server.act rounds logged step = some later) (spares : step = .write → server.Spares) :
    ∃ reached, Agrees rounds base reached (server :: past) later := by
  cases step with
  | apply op =>
    rw [act] at acted
    match ended : server.applying with
    | .fail error =>
      rw [ended] at acted
      cases acted
    | .call request next =>
      rw [ended] at acted
      cases acted
    | .done answer =>
      rw [ended] at acted
      obtain rfl := Option.some.inj acted
      have works := agrees.works
      rw [ended] at works
      obtain ⟨rows, rfl⟩ := works
      exact ⟨_, agrees.filed, op.program_rests logged enough rows, fun reader id rest selecting =>
        (agrees.seeks reader id rest selecting).same selecting⟩
  | write =>
    obtain ⟨⟨program, store⟩, advanced, same⟩ := Option.bind_eq_some_iff.mp acted
    obtain rfl := Option.some.inj same
    obtain ⟨request, reached, asked, still, carries, works⟩ := agrees.works.advance agrees.filed advanced
    refine ⟨reached, still, works, fun reader id rest selecting => ?_⟩
    refine (agrees.seeks reader id rest selecting).next carries agrees.filed still enough selecting fun pageId fetches gone => ?_
    exact spares rfl reader id rest pageId selecting fetches (asked.trans (congrArg some gone))
  | search reader id =>
    rw [act] at acted
    match before : server.selecting reader with
    | some pending =>
      rw [before] at acted
      cases acted
    | none =>
      rw [before] at acted
      obtain ⟨⟨program, store⟩, advanced, same⟩ := Option.bind_eq_some_iff.mp acted
      obtain rfl := Option.some.inj same
      obtain ⟨found, handled, rfl⟩ := selectById_advance advanced
      obtain ⟨rfl, still⟩ := agrees.filed.search enough handled
      refine ⟨phase, still, agrees.works, fun other asked pending others => ?_⟩
      by_cases here : other = reader
      · rw [here] at others ⊢
        have mine := (Function.update_self reader _ server.selecting).symm.trans others
        obtain ⟨rfl, rfl⟩ := Prod.mk.inj (Option.some.inj mine)
        exact seeks_found still enough (Option.isSome_of_eq_some others)
      · have going : server.selecting other = some (asked, pending) := (Function.update_of_ne here _ _).symm.trans others
        exact (agrees.seeks other asked pending going).same others
  | read reader =>
    obtain ⟨⟨id, rest⟩, selecting, ran⟩ := Option.bind_eq_some_iff.mp acted
    obtain ⟨found, store, reads, still, -⟩ := agrees.read selecting
    simp only [reads, Option.bind_eq_bind, Option.bind_some, Option.some.injEq] at ran
    subst ran
    refine ⟨phase, still, agrees.works, fun other asked pending others => ?_⟩
    have apart : other ≠ reader := by
      rintro rfl
      cases (Function.update_self other none server.selecting).symm.trans others
    have going : server.selecting other = some (asked, pending) := (Function.update_of_ne apart _ _).symm.trans others
    exact (agrees.seeks other asked pending going).same others

theorem agrees_initial (initial : Initial server) : ∃ base phase, Agrees rounds base phase [] server := by
  obtain ⟨⟨base, map, ⟨rows, stores, rfl⟩, named⟩, ⟨answer, ended⟩, nobody⟩ := initial
  refine ⟨base, .idle rows, ⟨Represents.standing stores, fun _ => Represents.available stores, fun row member => ?_⟩, ?_,
    fun reader id rest selecting => ?_⟩
  · exact (row_named stores.sorted named member).2
  · rw [ended]
    exact ⟨rows, rfl⟩
  · exact nomatch (nobody reader).symm.trans selecting

theorem agrees (enough : maxPages + 1 < rounds) (run : ReachesSparing rounds logged past server) :
    ∃ base phase, Agrees rounds base phase past server := by
  apply @Run.invariant _ _ _ _ (fun past server => ∃ base phase, Agrees rounds base phase past server) _ _ _ _ run
  · exact fun fresh initial => agrees_initial initial
  · rintro past before step after - ⟨base, phase, agrees⟩ ⟨acted, spares⟩
    exact ⟨base, agrees.step enough acted spares⟩

def opened (poolSize : Nat) : Server :=
  ⟨⟨TreeStore.open poolSize [], WALManager.openFile []⟩, .done true, fun _ => none⟩

theorem opened_initial {poolSize : Nat} (some : 0 < poolSize) : Initial (opened poolSize) := by
  have tabled : Tabled (strays []) (fun _ => none) (opened poolSize).store := tabled_opened some (by decide)
  exact ⟨⟨_, _, tabled, fun id record impossible => nomatch impossible⟩, ⟨true, rfl⟩, fun _ => rfl⟩

theorem act_selecting {step : ServerStep} (quiet : step = .write ∨ ∃ op, step = .apply op)
    (acted : server.act rounds logged step = some later) : later.selecting = server.selecting := by
  rcases quiet with rfl | ⟨op, rfl⟩
  · obtain ⟨⟨program, store⟩, -, same⟩ := Option.bind_eq_some_iff.mp acted
    rw [← Option.some.inj same]
  · rw [act] at acted
    split at acted
    · rw [← Option.some.inj acted]
    · cases acted

theorem alone_quiet {op : TableOp} {calls : Nat} : ∀ step ∈ ServerStep.alone op calls, step = .write ∨ ∃ op, step = .apply op := by
  intro step member
  rcases List.mem_cons.mp member with rfl | behind
  · exact .inr ⟨op, rfl⟩
  · exact .inl (List.eq_of_mem_replicate behind)

theorem sparing_alone {steps : List ServerStep} (quiet : ∀ step ∈ steps, step = .write ∨ ∃ op, step = .apply op)
    {between : List Server} {final : Server} (run : ReachesSparing rounds logged past server)
    (nobody : server.selecting = fun _ => none) (played : replay (act rounds logged) server steps = some (between, final)) :
    ReachesSparing rounds logged (between ++ past) final ∧ final.selecting = fun _ => none := by
  induction steps generalizing past between server with
  | nil =>
    obtain ⟨rfl, rfl⟩ := Prod.mk.inj (Option.some.inj played)
    exact ⟨run, nobody⟩
  | cons step steps ih =>
    simp only [replay, Option.bind_eq_bind, Option.bind_eq_some_iff, Option.some.injEq, Prod.mk.injEq] at played
    obtain ⟨later, acted, ⟨tail, last⟩, rest, rfl, rfl⟩ := played
    have spares : server.Spares := fun reader id rest pageId selecting =>
      absurd (selecting.symm.trans (congrFun nobody reader)) (Option.some_ne_none (id, rest))
    have still : later.selecting = fun _ => none := (act_selecting (quiet step List.mem_cons_self) acted).trans nobody
    have further : ReachesSparing rounds logged (server :: past) later := run.next ⟨acted, fun _ => spares⟩
    have behind := ih (fun other inside => quiet other (List.mem_cons_of_mem _ inside)) further still rest
    rwa [List.append_assoc]

/-- As long as no page is given up that a Select is about to fetch, every Select returns, and what it returns is the
record its id had at some moment since its search. A Select can begin whenever a frame is available. -/
theorem select_returns_row (enough : maxPages + 1 < rounds) (run : ReachesSparing rounds logged past server) :
    (server.store.tree.storage.pool.Available → ∀ id, ∃ rest later,
      (QueryEngine.selectById id).advance (TableStore.handler rounds) server.store = some (rest, later)) ∧
    ∀ reader id rest, server.selecting reader = some (id, rest) → ∃ found later,
      Program.run (TableStore.handler rounds) rest server.store = some (.ok found, later) ∧
        ∀ record, found = some record → record.id = id ∧
          ∃ moment ∈ server.during past reader, moment.store.recordOf rounds id = some record := by
  obtain ⟨base, phase, agrees⟩ := agrees enough run
  constructor
  · intro available id
    have represents := agrees.filed.standing.represents available
    obtain ⟨tree, ran, -⟩ := represents.search_runs id (agrees.filed.few enough)
    have handled : TableStore.handler rounds (.search id) server.store =
        some (.ok (SearchWord.assoc (phase.rows.map Row.entry) id), { server.store with tree := tree }) := by
      change TableStore.onTree (BPlusTree.search rounds id) server.store = _
      rw [TableStore.onTree, ran]
      rfl
    rw [selectById_eq, Prog.advance, handled]
    exact ⟨_, _, rfl⟩
  · intro reader id rest selecting
    obtain ⟨found, later, ran, -, right⟩ := agrees.read selecting
    exact ⟨found, later, ran, right⟩

theorem select_returns_row_inserted : ∃ past server rest record later, ReachesSparing (maxPages + 2) false past server ∧
    server.selecting 0 = some (1, rest) ∧
    run (TableStore.handler (maxPages + 2)) rest server.store = some (.ok (some record), later) ∧ record.id = 1 ∧
    ∃ moment ∈ server.during past 0, moment.store.recordOf (maxPages + 2) 1 = some record := by
  have shown : ((replay (act (maxPages + 2) false) (opened 4) (ServerStep.alone (.insert ⟨1, [], 10⟩) 6)).bind fun played =>
      (played.2.act (maxPages + 2) false (.search 0 1)).bind fun server => (server.selecting 0).bind fun pending =>
        (run (TableStore.handler (maxPages + 2)) pending.2 server.store).map fun done => (pending.1, done.1)) =
          some (1, .ok (some ⟨1, [], 10⟩)) := by
    decide +kernel
  obtain ⟨⟨past, before⟩, played, behind⟩ := Option.bind_eq_some_iff.mp shown
  obtain ⟨server, searched, found⟩ := Option.bind_eq_some_iff.mp behind
  obtain ⟨⟨id, rest⟩, selecting, ran⟩ := Option.bind_eq_some_iff.mp found
  obtain ⟨⟨answer, later⟩, reads, same⟩ := Option.map_eq_some_iff.mp ran
  obtain ⟨rfl, rfl⟩ := Prod.mk.inj same
  have start : ReachesSparing (maxPages + 2) false [] (opened 4) := .start (opened_initial (by decide))
  have reached := (sparing_alone alone_quiet start rfl played).1.next ⟨searched, fun impossible => nomatch impossible⟩
  obtain ⟨answered, final, reading, right⟩ := (select_returns_row (by decide) reached).2 0 1 rest selecting
  obtain ⟨same, rfl⟩ := Prod.mk.inj (Option.some.inj (reads.symm.trans reading))
  obtain ⟨own, moment, seen, was⟩ := right _ (Except.ok.inj same).symm
  exact ⟨_, server, rest, _, later, reached, selecting, reads, own, moment, seen, was⟩

/-- Between the search of a Select and its read the record of the id is deleted and another one inserted, on the
same page. -/
theorem select_reads_reused_page : ∃ past server rest record later, Reaches (maxPages + 2) false past server ∧
    server.selecting 0 = some (1, rest) ∧
    run (TableStore.handler (maxPages + 2)) rest server.store = some (.ok (some record), later) ∧ record.id = 2 := by
  let steps : List ServerStep := ServerStep.alone (.insert ⟨1, [], 10⟩) 6 ++
    (.search 0 1 :: ServerStep.alone (.delete 1) 7 ++ ServerStep.alone (.insert ⟨2, [], 20⟩) 6)
  have shown : ((replay (act (maxPages + 2) false) (opened 4) steps).bind fun played => (played.2.selecting 0).bind fun pending =>
      (run (TableStore.handler (maxPages + 2)) pending.2 played.2.store).map fun done => (pending.1, done.1)) =
        some (1, .ok (some ⟨2, [], 20⟩)) := by
    decide +kernel
  obtain ⟨⟨past, server⟩, played, found⟩ := Option.bind_eq_some_iff.mp shown
  obtain ⟨⟨id, rest⟩, selecting, ran⟩ := Option.bind_eq_some_iff.mp found
  obtain ⟨⟨answer, later⟩, reads, same⟩ := Option.map_eq_some_iff.mp ran
  obtain ⟨rfl, rfl⟩ := Prod.mk.inj same
  have start : Reaches (maxPages + 2) false [] (opened 4) := .start (opened_initial (by decide))
  exact ⟨_, server, rest, _, later, start.append_replay played, selecting, reads, rfl⟩

end Server

end QuorumDB.Query
