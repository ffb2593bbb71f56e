import QuorumDB.Lib.Refill
import QuorumDB.Query.RecoverTwice
import QuorumDB.Raft.Replicas

/-!
Servers that are started again. The node and the state machine forget what they applied and the
table does not, so the history is applied from its start to the records it already made.
-/

namespace QuorumDB.Raft
open Storage Query Program Refill TermLog

variable {rounds : Nat} {map : Key → Option Record} {id : Key} {history : List (Bytes × Int)}

section Cells

end Cells

section Again

/-- The records when the first calls of a history are made again and again. -/
def recordsOver (history : List (Bytes × Int)) (counts : List Nat) : Key → Option Record :=
  counts.foldl (fun map count => recordsAfter map (history.take count)) fun _ => none

end Again

section Lives

variable {counts : List Nat} {store : TableStore}

/-- The table of a process that starts after others have ended, the first on an empty log. Each applied
the first calls of the history and left a log that ends with a whole record, and Recover brings
back its records in the next. -/
inductive Lives (rounds : Nat) (history : List (Bytes × Int)) : List Nat → TableStore → Prop
  | start {poolSize : Nat} {data : Bytes} (some : 0 < poolSize) (small : data.length / pageSize < maxPages) :
      Lives rounds history [] ⟨TreeStore.open poolSize data, WALManager.openFile []⟩
  | again {counts : List Nat} {store ended later : TableStore} {count poolSize : Nat} {index : Int} {file data : Bytes}
      (before : Lives rounds history counts store)
      (ran : RaftStateMachine.runCalls (engineCalls rounds true) (.new (some store)) (history.take count) =
        some ⟨ended, index⟩)
      (crashes : ended.wal.Crashes file) (whole : Whole file) (some : 0 < poolSize)
      (small : data.length / pageSize < maxPages)
      (recovers : run (TableStore.handler rounds) (Table.recover true)
        ⟨TreeStore.open poolSize data, ended.wal.reopen file⟩ = .some (.ok (), later)) :
      Lives rounds history (counts ++ [count]) later

theorem backed_recovered {base : Multiset (PageId × Cell)} {ended later : TableStore} {poolSize : Nat} {file data : Bytes}
    (backed : Backed base map ended) (crashes : ended.wal.Crashes file) (whole : Whole file) (some : 0 < poolSize)
    (small : data.length / pageSize < maxPages) (enough : maxPages + 1 < rounds)
    (recovers : run (TableStore.handler rounds) (Table.recover true)
      ⟨TreeStore.open poolSize data, ended.wal.reopen file⟩ = .some (.ok (), later)) : Backed (strays data) map later := by
  obtain ⟨left, rfl, kept⟩ := backed.logged.crash crashes
  obtain ⟨-, replayable, meaning⟩ := kept.reads
  have opened : Tabled (strays data) (fun _ => none) ⟨TreeStore.open poolSize data, ended.wal.reopen file⟩ :=
    tabled_opened some small
  have recovered := recover_spec opened replayable enough
  unfold Finishes Ensures at recovered
  rw [recovers] at recovered
  obtain ⟨same, tabled⟩ := recovered
  refine ⟨meaning ▸ tabled, ?_, ?_⟩
  · rw [same]
    exact kept
  · rw [same]
    exact whole

theorem runCalls_backed {base : Multiset (PageId × Cell)} {calls : List (Bytes × Int)} {machine : RaftStateMachine TableStore}
    (backed : Backed base map store) (enough : maxPages + 1 < rounds)
    (numbered : ∀ (position : Nat) (call : Bytes × Int), calls[position]? = some call → call.2 = position + 1)
    (ran : RaftStateMachine.runCalls (engineCalls rounds true) (.new (some store)) calls = some machine) :
    ∃ later, machine = ⟨some later, calls.length⟩ ∧ Backed base (recordsAfter map calls) later := by
  obtain ⟨later, shape, done⟩ := runCalls_keeps (fun _ _ backed => backed.tabled)
    (fun _ _ _ _ _ backed done => backed.does done) backed enough
    (fun position call found => (numbered position call found).trans (by omega)) ran
  exact ⟨later, shape.trans (by rw [Int.zero_add]), done⟩

theorem Lives.backed (lives : Lives rounds history counts store) (enough : maxPages + 1 < rounds)
    (numbered : ∀ (position : Nat) (call : Bytes × Int), history[position]? = some call → call.2 = position + 1) :
    ∃ base, Backed base (recordsOver history counts) store := by
  induction lives with
  | start some small => exact ⟨_, tabled_opened some small, logHolds_nil, rfl⟩
  | again before ran crashes whole some small recovers ih =>
    obtain ⟨base, backed⟩ := ih
    obtain ⟨later, shape, done⟩ := runCalls_backed backed enough (fun position call found => numbered position call
      (getElem?_mono (List.take_prefix _ _) found)) ran
    obtain rfl := Option.some.inj (RaftStateMachine.mk.inj shape).1
    rw [recordsOver, List.foldl_concat]
    exact ⟨_, backed_recovered done crashes whole some small enough recovers⟩

end Lives

end QuorumDB.Raft
