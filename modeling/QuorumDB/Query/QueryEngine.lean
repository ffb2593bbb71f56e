import QuorumDB.Query.TableRun

/-!
The query engine is a map from ids to names and values. Every answer of every sequence of
calls is that of the map, with or without a log. Reads have no error branch.
-/

namespace QuorumDB.Query
open Storage Program

variable {store : TableStore} {base : Multiset (PageId × Cell)} {rounds : Nat}

inductive EngineOp where
  | insert (id : Int64) (name : Bytes) (value : Int64)
  | updateValue (id : Int64) (newValue : Int64)
  | deleteById (id : Int64)
  | selectById (id : Int64)
  | selectWhere (predicate : Record → Bool)

inductive EngineAnswer where
  | changed (succeeded : Bool)
  | found (record : Option Record)
  | rows (records : List Record)

namespace EngineOp

def program (logged : Bool) : EngineOp → TableProg EngineAnswer
  | .insert id name value => do return .changed (← QueryEngine.insert logged id name value)
  | .updateValue id newValue => do return .changed (← QueryEngine.updateValue logged id newValue)
  | .deleteById id => do return .changed (← QueryEngine.deleteById logged id)
  | .selectById id => do return .found (← QueryEngine.selectById id)
  | .selectWhere predicate => do return .rows (← QueryEngine.selectWhere predicate)

def programs (logged : Bool) : List EngineOp → TableProg (List EngineAnswer)
  | [] => return []
  | op :: ops => do
      let answer ← op.program logged
      return answer :: (← programs logged ops)

/-- What a map of records answers, and the map afterwards. -/
def Answers (map : Key → Option Record) : EngineOp → EngineAnswer → (Key → Option Record) → Prop
  | .insert id name value, answer, next =>
      (map id = none ∧ answer = .changed true ∧ next = Function.update map id (some ⟨id, cutName name, value⟩)) ∨
        (map id ≠ none ∧ answer = .changed false ∧ next = map)
  | .updateValue id newValue, answer, next =>
      (∃ record, map id = some record ∧ answer = .changed true ∧
        next = Function.update map id (some { record with value := newValue })) ∨
        (map id = none ∧ answer = .changed false ∧ next = map)
  | .deleteById id, answer, next =>
      (map id ≠ none ∧ answer = .changed true ∧ next = Function.update map id none) ∨
        (map id = none ∧ answer = .changed false ∧ next = map)
  | .selectById id, answer, next => answer = .found (map id) ∧ next = map
  | .selectWhere predicate, answer, next => ∃ found, answer = .rows found ∧ Lists map predicate found ∧ next = map

inductive Serves : (Key → Option Record) → List EngineOp → List EngineAnswer → (Key → Option Record) → Prop
  | done (map : Key → Option Record) : Serves map [] [] map
  | call {map next final : Key → Option Record} {op : EngineOp} {answer : EngineAnswer} {ops : List EngineOp}
      {answers : List EngineAnswer} (first : Answers map op answer next) (rest : Serves next ops answers final) :
      Serves map (op :: ops) (answer :: answers) final

def Reads : EngineOp → Prop
  | .selectById _ => True
  | .selectWhere _ => True
  | _ => False

variable {map : Key → Option Record} {logged : Bool}

theorem program_spec (tabled : Tabled base map store) (tidy : Tidy map) (op : EngineOp) (enough : maxPages + 1 < rounds) :
    Finishes rounds (op.program logged) (fun answer later => ∃ next, op.Answers map answer next ∧
      Tabled base next later ∧ Tidy next) store := by
  cases op with
  | insert id name value =>
    refine (TableOp.insert_spec tabled ⟨id, name, value⟩ enough).finishes.seq ?_
    rintro answer later ⟨rfl, done, -⟩
    refine finishes_pure.mpr ⟨_, ?_, done, tidy.onMap _⟩
    rw [TableOp.onMap, insertRecord, TableOp.change]
    by_cases absent : map id = none
    · rw [if_pos absent, if_pos absent]
      exact .inl ⟨absent, rfl, rfl⟩
    · rw [if_neg absent, if_neg absent]
      exact .inr ⟨absent, rfl, rfl⟩
  | updateValue id newValue =>
    refine (TableOp.update_spec tabled id _ enough).finishes.seq ?_
    rintro answer later ⟨rfl, done, -⟩
    refine finishes_pure.mpr ⟨_, ?_, done, tidy.onMap _⟩
    rw [TableOp.onMap, TableOp.change]
    cases present : map id with
    | none => exact .inr ⟨present, rfl, rfl⟩
    | some record =>
      obtain rfl := tidy.named id record present
      have cut : cutName record.name = record.name := congrArg Record.name (tidy.stored record.id record present)
      have same : Record.stored ⟨record.id, record.name, newValue⟩ = { record with value := newValue } := by
        rw [Record.stored, cut]
      exact .inl ⟨record, present, rfl, congrArg (fun changed => Function.update map record.id (some changed)) same⟩
  | deleteById id =>
    refine (TableOp.delete_spec tabled id enough).finishes.seq ?_
    rintro answer later ⟨rfl, done, -⟩
    refine finishes_pure.mpr ⟨_, ?_, done, tidy.onMap _⟩
    rw [TableOp.onMap, TableOp.change]
    cases present : map id with
    | none => exact .inr ⟨present, rfl, Function.update_eq_self_iff.mpr present.symm⟩
    | some record => exact .inl ⟨Option.some_ne_none record ∘ present.symm.trans, rfl, rfl⟩
  | selectById id =>
    refine (tabled.select id enough).seq ?_
    rintro found later ⟨rfl, -, still⟩
    exact finishes_pure.mpr ⟨map, ⟨rfl, rfl⟩, still, tidy⟩
  | selectWhere predicate =>
    refine (tabled.selectWhere tidy.named predicate enough).finishes.seq ?_
    rintro found later ⟨lists, -, still⟩
    exact finishes_pure.mpr ⟨map, ⟨found, rfl, lists, rfl⟩, still, tidy⟩

theorem read_returns (tabled : Tabled base map store) (named : Named map) {query : EngineOp} (reads : query.Reads)
    (logged : Bool) (enough : maxPages + 1 < rounds) :
    Returns rounds (query.program logged) (fun answer later => query.Answers map answer map ∧ Tabled base map later) store := by
  cases query with
  | selectById id =>
    obtain ⟨later, ran, -, still⟩ := tabled.select_runs id enough
    have found : Returns rounds (Table.select id) (fun record after => record = map id ∧ Tabled base map after) store :=
      returns_of_run ran ⟨rfl, still⟩
    refine Ensures.seq found ?_
    rintro record after ⟨rfl, kept⟩
    exact ensures_done.mpr ⟨⟨rfl, rfl⟩, kept⟩
  | selectWhere predicate =>
    refine Ensures.seq (tabled.selectWhere named predicate enough) ?_
    rintro found after ⟨lists, -, kept⟩
    exact ensures_done.mpr ⟨⟨found, rfl, lists, rfl⟩, kept⟩
  | insert id name value => exact reads.elim
  | updateValue id newValue => exact reads.elim
  | deleteById id => exact reads.elim

theorem programs_spec (tabled : Tabled base map store) (tidy : Tidy map) (ops : List EngineOp)
    (enough : maxPages + 1 < rounds) :
    Finishes rounds (programs logged ops) (fun answers later => ∃ final, Serves map ops answers final ∧
      Tabled base final later ∧ Tidy final) store := by
  induction ops generalizing store map with
  | nil => exact finishes_pure.mpr ⟨map, .done map, tabled, tidy⟩
  | cons op ops ih =>
    refine (op.program_spec tabled tidy enough).seq ?_
    rintro answer later ⟨next, first, still, tidier⟩
    refine (ih still tidier).seq ?_
    rintro answers last ⟨final, rest, done⟩
    exact finishes_pure.mpr ⟨final, .call first rest, done⟩

end EngineOp

/-- The query engine is a map of records: every answer of every sequence of calls is that of the map, and
every read behind them returns. -/
theorem engine_is_map (fresh : store.tree.rootPageId = invalidPageId) (owns : Owns store.tree.storage base) (logged : Bool)
    (ops : List EngineOp) (enough : maxPages + 1 < rounds) :
    Finishes rounds (EngineOp.programs logged ops) (fun answers later => ∃ final,
      EngineOp.Serves (fun _ => none) ops answers final ∧ ∀ query : EngineOp, query.Reads → ∃ answer last,
        run (TableStore.handler rounds) (query.program logged) later = some (.ok answer, last) ∧
          query.Answers final answer final) store := by
  refine (EngineOp.programs_spec (tabled_empty fresh owns) tidy_empty ops enough).mono ?_
  rintro answers later ⟨final, serves, tabled, tidy⟩
  refine ⟨final, serves, fun query reads => ?_⟩
  obtain ⟨answer, last, ran, same, -⟩ := (EngineOp.read_returns tabled tidy.named reads logged enough).runs
  exact ⟨answer, last, ran, same⟩

theorem engine_is_map_opened :
    Finishes (maxPages + 2) (EngineOp.programs true [.insert 5 [65, 0, 66] 1, .updateValue 5 2, .selectWhere fun _ => true])
      (fun answers later => ∃ final,
        EngineOp.Serves (fun _ => none) [.insert 5 [65, 0, 66] 1, .updateValue 5 2, .selectWhere fun _ => true] answers final ∧
          ∀ query : EngineOp, query.Reads → ∃ answer last,
            run (TableStore.handler (maxPages + 2)) (query.program true) later = some (.ok answer, last) ∧
              query.Answers final answer final)
      ⟨TreeStore.open 1 [], WALManager.openFile []⟩ :=
  engine_is_map rfl (opened_owns (by decide) (by decide)) true _ (Nat.lt_succ_self _)

end QuorumDB.Query
