import QuorumDB.Query.Crash

/-!
What Insert keeps of a record. Select finds it with its name cut at 64 bytes and at its first
zero byte, until an Update or a Delete of it, and as well after crashes.
-/

namespace QuorumDB.Query
open Storage Program

variable {store : TableStore} {base : Multiset (PageId × Cell)} {rounds : Nat} {logged : Bool}
variable {map middle final : Key → Option Record} {id : Int64} {record : Record}

theorem cutName_eq_iff (name : Bytes) : cutName name = name ↔ name.length ≤ recordNameSize ∧ 0 ∉ name := by
  constructor
  · intro same
    have short : (cutName name).length ≤ recordNameSize :=
      Nat.le_trans (List.takeWhile_sublist _).length_le (List.length_take_le _ _)
    have solid : ∀ byte ∈ cutName name, byte ≠ 0 := by
      intro byte inside
      have met := List.mem_takeWhile_imp inside
      exact of_decide_eq_true met
    rw [same] at short solid
    exact ⟨short, fun zero => solid 0 zero rfl⟩
  · rintro ⟨short, solid⟩
    rw [cutName, List.take_of_length_le short, List.takeWhile_eq_self_iff]
    intro byte inside
    exact decide_eq_true fun zero => solid (zero ▸ inside)

theorem stored_eq_iff (record : Record) : record.stored = record ↔ record.name.length ≤ recordNameSize ∧ 0 ∉ record.name := by
  rw [← cutName_eq_iff]
  constructor
  · intro same
    exact congrArg Record.name same
  · intro same
    rw [Record.stored, same]

def TableOp.Spares (id : Int64) : TableOp → Prop
  | .insert _ => True
  | .update other _ => other ≠ id
  | .delete other => other ≠ id

def Event.Spares (id : Int64) : Event → Prop
  | .returned op _ => op.Spares id
  | .crashed running => ∀ op ∈ running, op.Spares id

theorem TableOp.Spares.onMap {op : TableOp} (spares : op.Spares id) (present : map id = some record) :
    op.onMap map id = some record := by
  cases op with
  | insert other =>
    rw [TableOp.onMap, insertRecord]
    by_cases absent : map other.id = none
    · have different : id ≠ other.id := by
        rintro rfl
        rw [absent] at present
        cases present
      rw [if_pos absent, Function.update_of_ne different, present]
    · rw [if_neg absent, present]
  | update other mutator =>
    rw [TableOp.onMap]
    cases map other with
    | none => exact present
    | some before => exact (Function.update_of_ne (Ne.symm spares) _ _).trans present
  | delete other =>
    rw [TableOp.onMap, eraseRecord, Function.update_of_ne (Ne.symm spares), present]

theorem onMaps_spares {ops : List TableOp} (spares : ∀ op ∈ ops, op.Spares id) (present : map id = some record) :
    TableOp.onMaps map ops id = some record := by
  induction ops generalizing map with
  | nil => exact present
  | cons op ops ih =>
    apply ih
    · exact fun other inside => spares other (List.mem_cons_of_mem _ inside)
    · exact (spares op List.mem_cons_self).onMap present

theorem onMap_insert (accepted : (TableOp.insert record).change map ≠ none) :
    (TableOp.insert record).onMap map record.id = some record.stored := by
  have absent : map record.id = none := by
    by_contra present
    exact accepted (if_neg present)
  rw [TableOp.onMap, insertRecord, if_pos absent, Function.update_self]

theorem Effects.split {history more : List Event} (effects : Effects (history ++ more) map final) :
    ∃ middle, Effects history map middle ∧ Effects more middle final := by
  induction history generalizing map with
  | nil => exact ⟨map, rfl, effects⟩
  | cons event history ih =>
    match event with
    | .returned op true =>
      obtain ⟨middle, first, second⟩ := ih effects.2
      exact ⟨middle, ⟨effects.1, first⟩, second⟩
    | .returned op false => exact ih effects
    | .crashed none => exact ih effects
    | .crashed (some op) =>
      rcases effects with left | done
      · obtain ⟨middle, first, second⟩ := ih left
        exact ⟨middle, .inl first, second⟩
      · obtain ⟨middle, first, second⟩ := ih done
        exact ⟨middle, .inr first, second⟩

theorem Effects.spares {more : List Event} (effects : Effects more map final) (spares : ∀ event ∈ more, event.Spares id)
    (present : map id = some record) : final id = some record := by
  induction more generalizing map with
  | nil =>
    have same : final = map := effects
    rw [same, present]
  | cons event more ih =>
    have others : ∀ other ∈ more, other.Spares id := fun other inside => spares other (List.mem_cons_of_mem _ inside)
    have here := spares event List.mem_cons_self
    match event with
    | .returned op true => exact ih effects.2 others (TableOp.Spares.onMap here present)
    | .returned op false => exact ih effects others present
    | .crashed none => exact ih effects others present
    | .crashed (some op) =>
      rcases effects with left | done
      · exact ih left others present
      · exact ih done others (TableOp.Spares.onMap (here op rfl) present)

def insertAmong (logged : Bool) (before : List TableOp) (record : Record) (after : List TableOp) : TableProg Bool := do
  let _ ← TableOp.programs logged before
  let inserted ← Table.insert logged record
  let _ ← TableOp.programs logged after
  return inserted

theorem insertAmong_spec (tabled : Tabled base map store) (before : List TableOp) (record : Record)
    {after : List TableOp} (spares : ∀ op ∈ after, op.Spares record.id) (enough : maxPages + 1 < rounds) :
    Finishes rounds (insertAmong logged before record after) (fun inserted later => inserted = true →
      ∃ last, run (TableStore.handler rounds) (Table.select record.id) later = some (.ok (some record.stored), last))
      store := by
  refine (TableOp.programs_spec tabled before enough).seq fun _ first ready => ?_
  refine (TableOp.insert_spec ready record enough).finishes.seq fun inserted second done => ?_
  obtain ⟨answer, still, -⟩ := done
  refine (TableOp.programs_spec still after enough).seq fun _ third later => ?_
  apply finishes_pure.mpr
  intro accepted
  rw [answer] at accepted
  have stored := onMaps_spares spares (onMap_insert (Option.isSome_iff_ne_none.mp accepted))
  obtain ⟨last, ran, -⟩ := later.select_runs record.id enough
  rw [stored] at ran
  exact ⟨last, ran⟩

/-- After an Insert that returned true Select returns, with the record as it is stored, live and after
crashes, and that is the record itself exactly for a name of at most 64 bytes without a zero byte. -/
theorem insert_kept (record : Record) (enough : maxPages + 1 < rounds) :
    (∀ logged before after store base, store.tree.rootPageId = invalidPageId → Owns store.tree.storage base →
      (∀ op ∈ after, op.Spares record.id) →
        Finishes rounds (insertAmong logged before record after) (fun inserted later => inserted = true →
          ∃ last, run (TableStore.handler rounds) (Table.select record.id) later = some (.ok (some record.stored), last))
          store) ∧
    (∀ history more store, (∀ event ∈ more, event.Spares record.id) →
      Session rounds (TableOp.Appendable rounds) (history ++ .returned (.insert record) true :: more) store →
        ∃ later, run (TableStore.handler rounds) (Table.select record.id) store = some (.ok (some record.stored), later)) ∧
    record.stored.id = record.id ∧ record.stored.value = record.value ∧
    (record.stored = record ↔ record.name.length ≤ recordNameSize ∧ 0 ∉ record.name) := by
  refine ⟨?_, ?_, rfl, rfl, stored_eq_iff record⟩
  · intro logged before after store base fresh owns spares
    exact insertAmong_spec (tabled_empty fresh owns) before record spares enough
  · intro history more store spares session
    obtain ⟨base, final, tabled, remembers⟩ := session.remembers enough
    obtain ⟨middle, -, accepted, rest⟩ := remembers.reads.1.split
    have kept := rest.spares spares (onMap_insert accepted)
    have found := tabled.shows enough record.id
    rw [kept] at found
    exact found

set_option maxRecDepth 4000 in
/-- An Insert that returns true followed by a Delete of another id, and one followed by a crash and Recover. -/
theorem insert_kept_logged :
    (∃ later last, run (TableStore.handler (maxPages + 2)) (insertAmong true [] ⟨1, [65], 7⟩ [.delete 6])
        ⟨TreeStore.open 1 [], WALManager.openFile []⟩ = some (.ok true, later) ∧
      run (TableStore.handler (maxPages + 2)) (Table.select 1) later = some (.ok (some ⟨1, [65], 7⟩), last)) ∧
    ∃ store last, Session (maxPages + 2) (TableOp.Appendable (maxPages + 2))
        [.returned (.insert ⟨1, [65], 7⟩) true, .crashed none] store ∧
      run (TableStore.handler (maxPages + 2)) (Table.select 1) store = some (.ok (some ⟨1, [65], 7⟩), last) := by
  obtain ⟨live, recovered, -⟩ := @insert_kept (maxPages + 2) ⟨1, [65], 7⟩ (Nat.lt_succ_self _)
  constructor
  · have ran : ∃ later, run (TableStore.handler (maxPages + 2)) (insertAmong true [] ⟨1, [65], 7⟩ [.delete 6])
        ⟨TreeStore.open 1 [], WALManager.openFile []⟩ = some (.ok true, later) := ⟨_, rfl⟩
    obtain ⟨later, inserted⟩ := ran
    have spares : ∀ op ∈ [TableOp.delete 6], op.Spares (⟨1, [65], 7⟩ : Record).id := by
      intro op inside
      rw [List.mem_singleton.mp inside]
      exact (by decide : (6 : Int64) ≠ 1)
    have owns : Owns (TreeStore.open 1 []).storage (strays []) := opened_owns (by decide) (by decide)
    have kept := live true [] [.delete 6] ⟨TreeStore.open 1 [], WALManager.openFile []⟩ _ rfl owns spares
    unfold Finishes Ensures at kept
    rw [inserted] at kept
    obtain ⟨last, found⟩ := kept rfl
    exact ⟨later, last, inserted, found⟩
  · obtain ⟨store, again, session, -⟩ := session_recovered
    have spares : ∀ event ∈ [Event.crashed none], event.Spares (⟨1, [65], 7⟩ : Record).id := by
      intro event inside
      rw [List.mem_singleton.mp inside]
      exact fun op impossible => by cases impossible
    obtain ⟨last, found⟩ := recovered [] [.crashed none] store spares session
    exact ⟨store, last, session, found⟩

/-- A name with a zero byte comes back cut. -/
theorem insert_cuts_name :
    ¬ ∀ record store, Session (maxPages + 2) (fun _ _ => True) [.returned (.insert record) true] store →
      ∃ later, run (TableStore.handler (maxPages + 2)) (Table.select record.id) store = some (.ok (some record), later) := by
  intro claim
  have opened : Session (maxPages + 2) (fun _ _ => True) [] ⟨TreeStore.open 1 [], WALManager.openFile []⟩ :=
    .start (by decide) (by decide)
  have ran : ∃ later, run (TableStore.handler (maxPages + 2)) ((TableOp.insert ⟨5, [65, 0, 66], 7⟩).program true)
      ⟨TreeStore.open 1 [], WALManager.openFile []⟩ = some (.ok true, later) := ⟨_, rfl⟩
  obtain ⟨later, inserted⟩ := ran
  have tabled : Tabled (strays []) (fun _ => none) ⟨TreeStore.open 1 [], WALManager.openFile []⟩ :=
    tabled_opened (by decide) (by decide)
  have does : Finishes (maxPages + 2) ((TableOp.insert ⟨5, [65, 0, 66], 7⟩).program true) _ _ :=
    (TableOp.program_spec tabled _ (Nat.lt_succ_self _)).finishes
  unfold Finishes Ensures at does
  rw [inserted] at does
  obtain ⟨last, cut, -⟩ := does.2.1.select_runs 5 (Nat.lt_succ_self _)
  obtain ⟨other, whole⟩ := claim ⟨5, [65, 0, 66], 7⟩ later (opened.write trivial inserted)
  have same := Except.ok.inj (Prod.mk.inj (Option.some.inj (whole.symm.trans cut))).1
  exact absurd same (by decide)

end QuorumDB.Query
