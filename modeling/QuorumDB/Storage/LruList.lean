import QuorumDB.Storage.FrameBook
import Mathlib.Data.List.Nodup

/-!
The LRU list of the pool as the `std::list` it is, with a table of iterators into it. Each
pool call makes at most one of the two calls that change it; what the list then holds is what
the pool model says, and every iterator points at the node of its frame.
-/

namespace QuorumDB.Storage
open BufferedDisk

/-- A node is its identity and the frame in it, the front one first. An iterator is the identity
of the node it points at, and `none` is `lru_.end()`. -/
structure LruList where
  nodes : List (Nat × Nat)
  nextNode : Nat
  lruPositions : Nat → Option Nat

namespace LruList

def new : LruList := ⟨[], 0, fun _ => none⟩

def frames (list : LruList) : List Nat := list.nodes.map Prod.snd

/-- `lru_.erase` through an iterator; it has no outcome for one that points at no node. -/
def erase (list : LruList) (node : Nat) : Option LruList :=
  if node ∈ list.nodes.map Prod.fst then some { list with nodes := list.nodes.filter fun entry => entry.1 ≠ node }
  else none

def addToLru (list : LruList) (index : Nat) : LruList :=
  if (list.lruPositions index).isSome then list
  else {
    nodes := (list.nextNode, index) :: list.nodes
    nextNode := list.nextNode + 1
    lruPositions := Function.update list.lruPositions index (some list.nextNode) }

def removeFromLru (list : LruList) (index : Nat) : Option LruList :=
  match list.lruPositions index with
  | none => some list
  | some node => do
      let erased ← list.erase node
      some { erased with lruPositions := Function.update erased.lruPositions index none }

end LruList

inductive LruCall where
  | addToLru (index : Nat)
  | removeFromLru (index : Nat)

def LruList.perform (list : LruList) : Option LruCall → Option LruList
  | none => some list
  | some (.addToLru index) => some (list.addToLru index)
  | some (.removeFromLru index) => list.removeFromLru index

namespace BufferPoolManager

def performLru (pool : BufferPoolManager) : Option LruCall → BufferPoolManager
  | none => pool
  | some (.addToLru index) => pool.addToLru index
  | some (.removeFromLru index) => pool.removeFromLru index

def acquireCall (pool : BufferPoolManager) : Option LruCall :=
  match pool.freeFrames with
  | _ :: _ => none
  | [] => pool.lru.getLast?.map .removeFromLru

def lruCall (pool : BufferPoolManager) : PoolCall → Option LruCall
  | .fetchPage pageId =>
      if pageId = invalidPageId then none
      else
        match pool.find pageId with
        | some index => if (pool.frame index).pinCount = 0 then some (.removeFromLru index) else none
        | none => pool.acquireCall
  | .newPage => pool.acquireCall
  | .unpinPage pageId _ =>
      match pool.find pageId with
      | some index => if (pool.frame index).pinCount = 1 then some (.addToLru index) else none
      | none => none
  | .deletePage pageId =>
      match pool.find pageId with
      | some index => if (pool.frame index).pinCount ≠ 0 then none else some (.removeFromLru index)
      | none => none
  | .flushPage _ | .flushAllPages | .write .. => none

end BufferPoolManager

structure SameLists (before after : BufferPoolManager) : Prop where
  lru : after.lru = before.lru
  positions : after.lruPositions = before.lruPositions

section Lists

variable {storage : BufferedDisk} {before after : BufferPoolManager} {pageId : PageId}

theorem SameLists.trans {third : BufferPoolManager} (one : SameLists before after) (two : SameLists after third) :
    SameLists before third :=
  ⟨two.lru.trans one.lru, two.positions.trans one.positions⟩

theorem install_lists (pool : BufferPoolManager) (index : Nat) (pageId : PageId) (block : Block) :
    SameLists pool (pool.install index pageId block) := by
  unfold BufferPoolManager.install BufferPoolManager.emplace
  split_ifs <;> exact ⟨rfl, rfl⟩

theorem addToLru_lists (lists : SameLists before after) (index : Nat) : SameLists (before.addToLru index) (after.addToLru index) := by
  unfold BufferPoolManager.addToLru
  rw [lists.positions]
  split_ifs
  · exact lists
  · exact ⟨congrArg (index :: ·) lists.lru, rfl⟩

theorem unpinPage_lists (pool : BufferPoolManager) (pageId : PageId) (isDirty : Bool) :
    SameLists (pool.performLru (pool.lruCall (.unpinPage pageId isDirty))) (pool.unpinPage pageId isDirty).1 := by
  simp only [BufferPoolManager.unpinPage, BufferPoolManager.lruCall]
  cases pool.find pageId with
  | none => exact ⟨rfl, rfl⟩
  | some index =>
    simp only
    by_cases unpinned : (pool.frame index).pinCount = 0
    · rw [if_pos unpinned, if_neg (unpinned ▸ Nat.zero_ne_one)]
      exact ⟨rfl, rfl⟩
    · rw [if_neg unpinned]
      split_ifs
      · refine addToLru_lists ?_ index
        exact ⟨rfl, rfl⟩
      · exact ⟨rfl, rfl⟩

theorem acquireFrame_lists (storage : BufferedDisk) :
    SameLists (storage.pool.performLru storage.pool.acquireCall) (acquireFrame storage).2.pool := by
  unfold acquireFrame BufferPoolManager.acquireCall
  cases storage.pool.freeFrames with
  | cons index rest => exact ⟨rfl, rfl⟩
  | nil =>
    cases storage.pool.lru.getLast? with
    | none => exact ⟨rfl, rfl⟩
    | some index =>
      unfold evict
      simp only [Option.map_some]
      split_ifs
      · split <;> exact ⟨rfl, rfl⟩
      · exact ⟨rfl, rfl⟩

theorem fetchPage_lists (pageId : PageId) (storage : BufferedDisk) :
    SameLists (storage.pool.performLru (storage.pool.lruCall (.fetchPage pageId))) (fetchPage pageId storage).2.pool := by
  simp only [fetchPage, BufferPoolManager.lruCall]
  by_cases invalid : pageId = invalidPageId
  · rw [if_pos invalid, if_pos invalid]
    exact ⟨rfl, rfl⟩
  · rw [if_neg invalid, if_neg invalid]
    cases storage.pool.find pageId with
    | some index =>
      simp only [BufferPoolManager.pin, BufferedDisk.withPool]
      split_ifs <;> exact ⟨rfl, rfl⟩
    | none =>
      have lists := acquireFrame_lists storage
      generalize acquireFrame storage = acquired at lists ⊢
      obtain ⟨answer, left⟩ := acquired
      cases answer with
      | error error => exact lists
      | ok index =>
        simp only
        split_ifs
        · exact lists
        · split
          · exact lists
          · exact lists.trans (install_lists _ _ _ _)

theorem newPage_lists (storage : BufferedDisk) :
    SameLists (storage.pool.performLru storage.pool.acquireCall) (newPage storage).2.pool := by
  have lists := acquireFrame_lists storage
  unfold newPage
  generalize acquireFrame storage = acquired at lists ⊢
  obtain ⟨answer, left⟩ := acquired
  cases answer with
  | error error => exact lists
  | ok index =>
    simp only
    split_ifs
    · exact lists
    · split
      · exact lists
      · exact lists.trans (install_lists _ _ _ _)

theorem flushPage_lists (pageId : PageId) (storage : BufferedDisk) : SameLists storage.pool (flushPage pageId storage).2.pool := by
  rcases flushPage_pool pageId storage with same | ⟨index, changed⟩
  · rw [same]
    exact ⟨rfl, rfl⟩
  · rw [changed]
    exact ⟨rfl, rfl⟩

theorem deletePage_lists (pageId : PageId) (storage : BufferedDisk) :
    SameLists (storage.pool.performLru (storage.pool.lruCall (.deletePage pageId))) (deletePage pageId storage).2.pool := by
  simp only [deletePage, BufferPoolManager.lruCall]
  cases storage.pool.find pageId with
  | none => exact ⟨rfl, rfl⟩
  | some index =>
    simp only
    split_ifs <;> exact ⟨rfl, rfl⟩

theorem perform_lists (call : PoolCall) (storage : BufferedDisk) :
    SameLists (storage.pool.performLru (storage.pool.lruCall call)) (call.perform storage).2.pool := by
  cases call with
  | fetchPage pageId =>
    have lists := fetchPage_lists pageId storage
    rcases ran : fetchPage pageId storage with ⟨_ | _ | index, after⟩
    all_goals
      rw [ran] at lists
      simp only [PoolCall.perform, ran]
      exact lists
  | newPage =>
    have lists := newPage_lists storage
    rcases ran : newPage storage with ⟨_ | _ | ⟨pageId, index⟩, after⟩
    all_goals
      rw [ran] at lists
      simp only [PoolCall.perform, ran]
      exact lists
  | unpinPage pageId isDirty => exact unpinPage_lists storage.pool pageId isDirty
  | flushPage pageId =>
    have lists := flushPage_lists pageId storage
    rcases ran : flushPage pageId storage with ⟨_ | _, after⟩
    all_goals
      rw [ran] at lists
      simp only [PoolCall.perform, ran]
      exact lists
  | flushAllPages =>
    have lists : SameLists storage.pool (flushAllPages storage).2.pool :=
      @flushPages_keep SameLists (fun _ => ⟨rfl, rfl⟩) SameLists.trans flushPage_lists _ storage
    rcases ran : flushAllPages storage with ⟨_ | _, after⟩
    all_goals
      rw [ran] at lists
      simp only [PoolCall.perform, ran]
      exact lists
  | deletePage pageId =>
    have lists := deletePage_lists pageId storage
    rcases ran : deletePage pageId storage with ⟨_ | _, after⟩
    all_goals
      rw [ran] at lists
      simp only [PoolCall.perform, ran]
      exact lists
  | write index block => exact ⟨rfl, rfl⟩

end Lists

/-- The list is the pool's, each frame with an iterator at the node it is in. -/
structure Tracks (list : LruList) (pool : BufferPoolManager) : Prop where
  frames : list.frames = pool.lru
  ends : ∀ index, (list.lruPositions index).isSome = pool.lruPositions index
  points : ∀ index node, list.lruPositions index = some node ↔ (node, index) ∈ list.nodes
  distinct : (list.nodes.map Prod.fst).Nodup
  fresh : ∀ entry ∈ list.nodes, entry.1 < list.nextNode

namespace Tracks

variable {list : LruList} {pool later : BufferPoolManager}

theorem new (poolSize : Nat) : Tracks LruList.new (BufferPoolManager.new poolSize) :=
  ⟨rfl, fun _ => rfl, fun _ _ => iff_of_false nofun List.not_mem_nil, List.nodup_nil, nofun⟩

theorem lists (tracks : Tracks list pool) (same : SameLists pool later) : Tracks list later :=
  ⟨tracks.frames.trans same.lru.symm, fun index => (tracks.ends index).trans (congrFun same.positions index).symm,
    tracks.points, tracks.distinct, tracks.fresh⟩

theorem addToLru (tracks : Tracks list pool) (index : Nat) : Tracks (list.addToLru index) (pool.addToLru index) := by
  unfold LruList.addToLru BufferPoolManager.addToLru
  rw [← tracks.ends]
  by_cases listed : (list.lruPositions index).isSome = true
  · rw [if_pos listed, if_pos listed]
    exact tracks
  · rw [if_neg listed, if_neg listed]
    have absent : ∀ node, (node, index) ∉ list.nodes := fun node inside => by
      rw [(tracks.points index node).mpr inside] at listed
      exact listed rfl
    have above : ∀ entry ∈ list.nodes, entry.1 ≠ list.nextNode := fun entry inside => Nat.ne_of_lt (tracks.fresh entry inside)
    refine ⟨congrArg (index :: ·) tracks.frames, fun other => ?_, fun other node => ?_, ?_, ?_⟩
    · by_cases same : other = index
      · subst same
        simp only [Function.update_self, Option.isSome_some]
      · simp only [Function.update_of_ne same, tracks.ends]
    · by_cases same : other = index
      · subst same
        simp only [Function.update_self, Option.some_inj, List.mem_cons, Prod.mk.injEq, and_true, absent node, or_false]
        exact eq_comm
      · simp only [Function.update_of_ne same, List.mem_cons, Prod.mk.injEq, same, and_false, false_or]
        exact tracks.points other node
    · refine List.nodup_cons.mpr ⟨fun inside => ?_, tracks.distinct⟩
      obtain ⟨entry, member, taken⟩ := List.mem_map.mp inside
      exact above entry member taken
    · exact List.forall_mem_cons.mpr ⟨Nat.lt_succ_self _, fun entry inside => Nat.lt_succ_of_lt (tracks.fresh entry inside)⟩

theorem same_node (tracks : Tracks list pool) {index node : Nat} (found : list.lruPositions index = some node)
    {entry : Nat × Nat} (inside : entry ∈ list.nodes) : entry.1 = node ↔ entry.2 = index := by
  have member := (tracks.points index node).mp found
  constructor
  · intro same
    exact congrArg Prod.snd (List.inj_on_of_nodup_map tracks.distinct inside member same)
  · intro same
    have here : list.lruPositions index = some entry.1 := (tracks.points index entry.1).mpr (same ▸ inside)
    exact Option.some.inj (here.symm.trans found)

theorem removeFromLru (tracks : Tracks list pool) (distinct : pool.lru.Nodup) (index : Nat) :
    ∃ after, list.removeFromLru index = some after ∧ Tracks after (pool.removeFromLru index) := by
  unfold LruList.removeFromLru BufferPoolManager.removeFromLru
  rw [← tracks.ends]
  cases found : list.lruPositions index with
  | none => exact ⟨list, rfl, tracks⟩
  | some node =>
    have member := (tracks.points index node).mp found
    have erased : list.erase node = some { list with nodes := list.nodes.filter fun entry => entry.1 ≠ node } :=
      if_pos (List.mem_map_of_mem member)
    simp only [erased, Option.bind_eq_bind, Option.bind_some, Option.isSome_some, ↓reduceIte]
    refine ⟨_, rfl, ?_, fun other => ?_, fun other kept => ?_, ?_,
      fun entry inside => tracks.fresh entry (List.mem_of_mem_filter inside)⟩
    · change (list.nodes.filter fun entry => entry.1 ≠ node).map Prod.snd = pool.lru.erase index
      rw [distinct.erase_eq_filter, ← tracks.frames, LruList.frames, List.filter_map]
      refine congrArg (List.map Prod.snd) (List.filter_congr fun entry inside => ?_)
      simp only [Function.comp_apply, bne, beq_eq_decide, ← decide_not, ne_eq, tracks.same_node found inside]
    · by_cases same : other = index
      · subst same
        simp only [Function.update_self, Option.isSome_none]
      · simp only [Function.update_of_ne same, tracks.ends]
    · simp only [List.mem_filter, ne_eq, decide_not, Bool.not_eq_eq_eq_not, Bool.not_true, decide_eq_false_iff_not]
      by_cases same : other = index
      · subst same
        simp only [Function.update_self]
        exact iff_of_false nofun fun both => both.2 ((tracks.same_node found both.1).mpr rfl)
      · simp only [Function.update_of_ne same, tracks.points]
        exact (and_iff_left_of_imp fun inside equal => same ((tracks.same_node found inside).mp equal)).symm
    · exact tracks.distinct.sublist (List.filter_sublist.map Prod.fst)

theorem perform (tracks : Tracks list pool) (distinct : pool.lru.Nodup) (call : Option LruCall) :
    ∃ after, list.perform call = some after ∧ Tracks after (pool.performLru call) := by
  cases call with
  | none => exact ⟨list, rfl, tracks⟩
  | some call =>
    cases call with
    | addToLru index => exact ⟨_, rfl, tracks.addToLru index⟩
    | removeFromLru index => exact tracks.removeFromLru distinct index

end Tracks

end QuorumDB.Storage
