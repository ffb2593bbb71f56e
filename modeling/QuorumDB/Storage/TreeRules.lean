import QuorumDB.Storage.PageRules
import QuorumDB.Storage.TreeFinds
import QuorumDB.Storage.TreeShape

/-!
Rules for the programs of the tree: which pages hold its nodes before and after each
call. A program proceeds when it ends in a state that satisfies its postcondition, or
throws for want of a page identifier in a state in which there is none.
-/

namespace QuorumDB.Storage
open Program PageProg Sequence

/-- AllocatePage has no page identifier left. -/
def TreeStore.Exhausted (store : TreeStore) : Prop := store.storage.disk.allocatePage = .error .pageIdLimit

def Proceeds {Result : Type} (program : PageProg Result) (post : Result → TreeStore → Prop)
    (store : TreeStore) : Prop :=
  Ensures TreeStore.handler (fun error later => error = .pageIdLimit ∧ later.Exhausted) program post store

def nodeCell (node : BPlusTreeNode) : PageId × Cell := (node.pageId, .node node)

/-- The pages hold the nodes of the tree and, apart from them, the cells of `base`. -/
structure Holding (store : TreeStore) (root : PageId) (nodes : Multiset BPlusTreeNode)
    (base : Multiset (PageId × Cell)) : Prop where
  root : store.rootPageId = root
  holds : Owns store.storage (nodes.map nodeCell + base)

variable {Result Value : Type} {store : TreeStore} {root pageId : PageId} {nodes : Multiset BPlusTreeNode}
variable {base : Multiset (PageId × Cell)} {node : BPlusTreeNode} {post : Result → TreeStore → Prop}

@[simp] theorem proceeds_done {value : Result} : Proceeds (.done value) post store ↔ post value store := Iff.rfl

@[simp] theorem proceeds_pure {value : Result} :
    Proceeds (pure value : PageProg Result) post store ↔ post value store := Iff.rfl

@[simp] theorem checked_some {value : Value} {next : Value → PageProg Result} :
    (checked (some value) >>= next) = next value := rfl

theorem Proceeds.mono {program : PageProg Result} {wider : Result → TreeStore → Prop}
    (proceeds : Proceeds program post store) (weaker : ∀ value later, post value later → wider value later) :
    Proceeds program wider store :=
  Ensures.mono proceeds weaker

theorem Proceeds.seq {program : PageProg Value} {next : Value → PageProg Result} {middle : Value → TreeStore → Prop}
    (first : Proceeds program middle store)
    (rest : ∀ value later, middle value later → Proceeds (next value) post later) :
    Proceeds (program >>= next) post store :=
  Ensures.seq first rest

theorem Proceeds.plain {strict plain : PageProg Result} (proceeds : Proceeds strict post store)
    (finding : BPlusTree.Finding strict plain) :
    run TreeStore.handler plain store = run TreeStore.handler strict store ∧ Proceeds plain post store := by
  refine Ensures.plain proceeds finding fun error later thrown missed => ?_
  have limit : StorageError.outOfRange = .pageIdLimit := missed.symm.trans thrown.1
  cases limit

theorem proceeds_tail {program : PageProg Result} (proceeds : Proceeds (program >>= pure) post store) :
    Proceeds program post store :=
  (ensures_bind.mp proceeds).mono fun _ _ done => done

/-- The program only reads, and only these nodes, and ends with a value that is good. -/
inductive Reads (root : PageId) (nodes : Multiset BPlusTreeNode) (good : Result → Prop) : PageProg Result → Prop
  | done {value : Result} (fine : good value) : Reads root nodes good (.done value)
  | root {next : PageId → PageProg Result} (rest : Reads root nodes good (next root)) :
      Reads root nodes good (rootPageId >>= next)
  | read {node : BPlusTreeNode} {next : BPlusTreeNode → PageProg Result} (member : node ∈ nodes)
      (rest : Reads root nodes good (next node)) : Reads root nodes good (readNode node.pageId >>= next)

theorem Reads.seq {first : Value → Prop} {good : Result → Prop} {program : PageProg Value} {next : Value → PageProg Result}
    (reads : Reads root nodes first program) (rest : ∀ value, first value → Reads root nodes good (next value)) :
    Reads root nodes good (program >>= next) := by
  induction reads with
  | done fine => exact rest _ fine
  | root behind ih => exact .root ih
  | read member behind ih => exact .read member ih

namespace Holding

theorem distinct (holding : Holding store root nodes base) : (nodes.map BPlusTreeNode.pageId).Nodup := by
  have all := holding.holds.distinct
  rw [Multiset.map_add, Multiset.map_map] at all
  exact (Multiset.nodup_add.mp all).1

theorem cast {others : Multiset BPlusTreeNode} (holding : Holding store root nodes base) (same : nodes = others) :
    Holding store root others base := same ▸ holding

theorem nonneg (holding : Holding store root nodes base) (member : node ∈ nodes) : node.pageId ≠ invalidPageId := by
  have live := holding.holds.live (nodeCell node)
    (Multiset.mem_add.mpr (.inl (Multiset.mem_map_of_mem nodeCell member)))
  intro same
  have low : (0 : Int32) ≤ node.pageId := live.nonneg
  rw [same] at low
  exact absurd low (by decide)

section Calls

variable {next : Value → PageProg Result}

theorem rootCall {next : PageId → PageProg Result} (holding : Holding store root nodes base)
    (rest : Proceeds (next root) post store) : Proceeds (rootPageId >>= next) post store := by
  rw [← holding.root] at rest
  exact rest

theorem setRoot {next : Unit → PageProg Result} (holding : Holding store root nodes base)
    (rest : ∀ later, Holding later pageId nodes base → Proceeds (next ()) post later) :
    Proceeds (setRootPageId pageId >>= next) post store :=
  rest ⟨store.storage, pageId⟩ ⟨rfl, holding.holds⟩

theorem access {request : PageCall} {next : PageCall.Answer request → PageProg Result}
    {answer : PageCall.Answer request} {after : BufferedDisk} {access : Access (PageCall.Answer request)}
    (meaning : TreeStore.handler request store = TreeStore.accessing access store)
    (ran : access store.storage = (.ok answer, after))
    (rest : Proceeds (next answer) post ⟨after, store.rootPageId⟩) :
    Proceeds (Prog.ask request >>= next) post store := by
  refine (ensures_call ?_).mpr rest
  rw [meaning, TreeStore.accessing, ran]

theorem read {next : BPlusTreeNode → PageProg Result} (holding : Holding store root nodes base)
    (member : node ∈ nodes) (here : pageId = node.pageId)
    (rest : ∀ later, Holding later root nodes base → Proceeds (next node) post later) :
    Proceeds (readNode pageId >>= next) post store := by
  obtain ⟨after, ran, kept⟩ := Access.readNode_eq holding.holds
    (Multiset.mem_add.mpr (.inl (Multiset.mem_map_of_mem nodeCell member)))
  subst here
  exact access rfl ran (rest _ ⟨holding.root, kept⟩)

theorem write {next : Unit → PageProg Result} (holding : Holding store root nodes base)
    (old : BPlusTreeNode) (others : Multiset BPlusTreeNode) (split : nodes = {old} + others) (same : node.pageId = old.pageId)
    (fits : node.Fits)
    (rest : ∀ later, Holding later root ({node} + others) base → Proceeds (next ()) post later) :
    Proceeds (writeNode node >>= next) post store := by
  have holds := holding.holds
  rw [split, Multiset.map_add, Multiset.map_singleton, add_assoc, nodeCell, ← same] at holds
  obtain ⟨after, ran, kept⟩ := Access.writeNode_eq fits rfl holds
  refine access rfl ran (rest _ ⟨holding.root, ?_⟩)
  rw [Multiset.map_add, Multiset.map_singleton, add_assoc]
  exact kept

theorem writeAs {next : Unit → PageProg Result} {new : BPlusTreeNode} (holding : Holding store root nodes base)
    (fits : new.Fits) (written : node = new) (old : BPlusTreeNode) (others : Multiset BPlusTreeNode)
    (split : nodes = {old} + others) (same : new.pageId = old.pageId)
    (rest : ∀ later, Holding later root ({new} + others) base → Proceeds (next ()) post later) :
    Proceeds (writeNode node >>= next) post store := by
  subst written
  exact holding.write old others split same fits rest

theorem create {next : PageId → PageProg Result} (holding : Holding store root nodes base) (fits : node.Fits)
    (rest : ∀ pageId later, Holding later root ({{ node with pageId := pageId }} + nodes) base →
      Proceeds (next pageId) post later) :
    Proceeds (createNode node >>= next) post store := by
  rcases Access.createNode_eq holding.holds fits with ⟨left, full, exhausted, -⟩ | ⟨pageId, after, ran, kept⟩
  · have handled : TreeStore.handler (.createNode node) store =
        some (.error .pageIdLimit, ⟨left, store.rootPageId⟩) := by
      change TreeStore.accessing (Access.createNode node) store = _
      rw [TreeStore.accessing, full]
    exact (ensures_throw handled).mpr ⟨rfl, exhausted⟩
  · refine access rfl ran (rest pageId _ ⟨holding.root, ?_⟩)
    rw [Multiset.map_add, Multiset.map_singleton, add_assoc]
    exact kept

theorem delete {next : Bool → PageProg Result} (holding : Holding store root nodes base)
    (old : BPlusTreeNode) (others : Multiset BPlusTreeNode) (split : nodes = {old} + others) (here : pageId = old.pageId)
    (rest : ∀ later, Holding later root others base → Proceeds (next true) post later) :
    Proceeds (deletePage pageId >>= next) post store := by
  have holds := holding.holds
  rw [split, Multiset.map_add, Multiset.map_singleton, add_assoc] at holds
  obtain ⟨after, ran, kept⟩ := Access.deletePage_eq rfl holds
  subst here
  exact access rfl ran (rest _ ⟨holding.root, kept⟩)

end Calls

end Holding

theorem Holding.readNode_handled (holding : Holding store root nodes base) (member : node ∈ nodes) :
    ∃ later, TreeStore.handler (.readNode node.pageId) store = some (.ok node, later) ∧ Holding later root nodes base := by
  obtain ⟨after, ran, kept⟩ := Access.readNode_eq holding.holds
    (Multiset.mem_add.mpr (.inl (Multiset.mem_map_of_mem nodeCell member)))
  refine ⟨⟨after, store.rootPageId⟩, ?_, holding.root, kept⟩
  show TreeStore.accessing (Access.readNode node.pageId) store = _
  rw [TreeStore.accessing, ran]

theorem Reads.runs {good : Result → Prop} {program : PageProg Result} (reads : Reads root nodes good program)
    (holding : Holding store root nodes base) :
    ∃ value later, run TreeStore.handler program store = some (.ok value, later) ∧ good value ∧
      Holding later root nodes base := by
  induction reads generalizing store with
  | @done value fine => exact ⟨value, store, rfl, fine, holding⟩
  | root rest ih =>
    obtain ⟨value, later, ran, done⟩ := ih holding
    rw [← holding.root] at ran
    exact ⟨value, later, ran, done⟩
  | @read node next member rest ih =>
    obtain ⟨middle, handled, still⟩ := holding.readNode_handled member
    obtain ⟨value, later, ran, done⟩ := ih still
    exact ⟨value, later, (run_call handled next).trans ran, done⟩

theorem Reads.proceeds {good : Result → Prop} {program : PageProg Result} (reads : Reads root nodes good program)
    (holding : Holding store root nodes base) :
    Proceeds program (fun value later => good value ∧ Holding later root nodes base) store := by
  obtain ⟨value, later, ran, done⟩ := reads.runs holding
  unfold Proceeds Ensures
  rw [ran]
  exact done

end QuorumDB.Storage
