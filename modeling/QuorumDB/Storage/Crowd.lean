import QuorumDB.Storage.TreeRun

/-!
The tree over a crowded pool. Others hold frames, so that any FetchPage or NewPage may find
none; a plan says which do. A program that only reads loses nothing by it.
-/

namespace QuorumDB.Storage
open Program BufferedDisk SearchWord

namespace TreeStore

/-- What a call does when its FetchPage or NewPage returns `nullptr`. -/
def refusal : (request : PageCall) → Option (Except StorageError (PageCall.Answer request))
  | .readNode _ => some (.error .noEvictableFrame)
  | .writeNode _ => some (.error .noEvictableFrame)
  | .createNode _ => some (.error .noFreeFrame)
  | _ => none

def crowded : Handler PageCall PageCall.Answer StorageError (TreeStore × List Bool) := handler.refusing refusal

variable {request : PageCall} {store : TreeStore} {plan : List Bool} {answer : Except StorageError (PageCall.Answer request)}

theorem crowded_refused (can : refusal request = some answer) (refused : plan.head? = some true) :
    crowded request (store, plan) = some (answer, (store, plan.tail)) := by
  unfold crowded Handler.refusing
  rw [can]
  exact if_pos refused

theorem crowded_granted (can : refusal request = some answer) (granted : plan.head? ≠ some true) :
    crowded request (store, plan) = (handler request store).map fun done => (done.1, (done.2, plan.tail)) := by
  unfold crowded Handler.refusing
  rw [can]
  exact if_neg granted

end TreeStore

section Full

variable {storage : BufferedDisk} {pageId : PageId}

theorem fetchPage_full (real : pageId ≠ invalidPageId) (absent : storage.pool.find pageId = none)
    (full : ¬ storage.pool.Available) : fetchPage pageId storage = (.ok none, storage) := by
  unfold fetchPage
  simp only [if_neg real, absent, acquireFrame_none full, if_true]

theorem TreeStore.handler_full {store : TreeStore} {request : PageCall}
    {answer : Except StorageError (PageCall.Answer request)} (refused : TreeStore.refusal request = some answer)
    (full : ¬ store.storage.pool.Available)
    (absent : ∀ pageId, request = .readNode pageId ∨ (∃ node : BPlusTreeNode, request = .writeNode node ∧ node.pageId = pageId) →
      pageId ≠ invalidPageId ∧ store.storage.pool.find pageId = none) :
    TreeStore.handler request store = some (answer, store) := by
  cases request with
  | rootPageId => cases refused
  | setRootPageId pageId => cases refused
  | deletePage pageId => cases refused
  | readNode pageId =>
    obtain ⟨real, gone⟩ := absent pageId (.inl rfl)
    rw [← Option.some.inj refused]
    show TreeStore.accessing (Access.readNode pageId) store = _
    simp only [TreeStore.accessing, Access.readNode, Access.bind_eq, fetchPage_full real gone full, Access.throwing]
  | writeNode node =>
    obtain ⟨real, gone⟩ := absent node.pageId (.inr ⟨node, rfl, rfl⟩)
    rw [← Option.some.inj refused]
    show TreeStore.accessing (Access.writeNode node) store = _
    simp only [TreeStore.accessing, Access.writeNode, Access.bind_eq, fetchPage_full real gone full, Access.throwing]
  | createNode node =>
    rw [← Option.some.inj refused]
    show TreeStore.accessing (Access.createNode node) store = _
    simp only [TreeStore.accessing, Access.createNode, Access.bind_eq, newPage_none full, Access.throwing]

end Full

section Reading

variable {Result : Type} {store : TreeStore} {root : PageId} {nodes : Multiset BPlusTreeNode}
variable {base : Multiset (PageId × Cell)} {good : Result → Prop} {contents : List (Key × Value)}

theorem Reads.crowded {program : PageProg Result} (reads : Reads root nodes good program)
    (holding : Holding store root nodes base) (plan : List Bool) :
    ∃ result later rest, run TreeStore.crowded program (store, plan) = some (result, (later, rest)) ∧
      Holding later root nodes base ∧
        ((∃ value, result = .ok value ∧ good value) ∨ result = .error .noEvictableFrame) := by
  induction reads generalizing store plan with
  | @done value fine => exact ⟨.ok value, store, plan, rfl, holding, .inl ⟨value, rfl, fine⟩⟩
  | @root next behind ih =>
    obtain ⟨result, later, rest, ran, done⟩ := ih holding plan
    refine ⟨result, later, rest, ?_, done⟩
    rw [← holding.root] at ran
    exact ran
  | @read node next member behind ih =>
    obtain ⟨middle, access, still⟩ := holding.readNode_handled member
    by_cases refused : plan.head? = some true
    · refine ⟨.error .noEvictableFrame, store, plan.tail, ?_, holding, .inr rfl⟩
      have handled := @TreeStore.crowded_refused (.readNode node.pageId) store plan _ rfl refused
      show run TreeStore.crowded (.call (.readNode node.pageId) next) (store, plan) = _
      simp only [run, handled]
    · obtain ⟨result, later, rest, ran, done⟩ := ih still plan.tail
      have handled : TreeStore.crowded (.readNode node.pageId) (store, plan) =
          some (.ok node, (middle, plan.tail)) := by
        rw [TreeStore.crowded_granted rfl refused, access]
        rfl
      exact ⟨result, later, rest, (run_call handled next).trans ran, done⟩

theorem Represents.search_crowded (represents : Represents store base contents) (key : Key) {rounds : Nat}
    (enough : contents.length + 1 < rounds) (plan : List Bool) :
    ∃ result later rest, run TreeStore.crowded (BPlusTree.search rounds key) (store, plan) = some (result, (later, rest)) ∧
      Represents later base contents ∧
        (result = .ok (assoc contents key) ∨ result = .error .noEvictableFrame) := by
  obtain ⟨root, nodes, holding, represented, reads⟩ := represents.search_reads key enough
  obtain ⟨result, later, rest, ran, still, outcome⟩ := reads.crowded holding plan
  refine ⟨result, later, rest, ran, represented later still, outcome.imp_left ?_⟩
  rintro ⟨value, rfl, rfl⟩
  rfl

end Reading

end QuorumDB.Storage
