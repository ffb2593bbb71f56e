import QuorumDB.Storage.Cells

/-!
What each access to a page does to the cells. A page of a ready storage can always be
read and written; only a new page can fail, and only when no page identifier is left.
-/

namespace QuorumDB.Storage
open BufferedDisk

namespace Access

theorem bind_eq {First Second : Type} (first : Access First) (next : First → Access Second)
    (storage : BufferedDisk) : (first >>= next) storage =
      match first storage with
      | (.error error, left) => (.error error, left)
      | (.ok value, left) => next value left := rfl

theorem pure_eq {Result : Type} (value : Result) (storage : BufferedDisk) :
    (pure value : Access Result) storage = (.ok value, storage) := rfl

variable {storage : BufferedDisk} {cells rest : Multiset (PageId × Cell)} {pageId : PageId}

theorem fetched (holds : Owns storage cells) {cell : Cell} (member : (pageId, cell) ∈ cells) (plain : cell.Plain) :
    ∃ index middle after, fetchPage pageId storage = (.ok (some index), middle) ∧
      cell.Shows (middle.pool.frame index).block ∧ unpinPage pageId false middle = (.ok true, after) ∧
      Owns after cells := by
  obtain ⟨rest, rfl⟩ := Multiset.exists_cons_of_mem member
  rw [← Multiset.singleton_add] at holds ⊢
  obtain ⟨live, shown⟩ := holds.first
  obtain ⟨index, middle, after, fetch, block, unpin, used, next, free⟩ :=
    read_spec holds.sound.valid holds.available live.nonneg (live.unpinned plain.pins) (live.settled plain.pins)
  refine ⟨index, middle, after, fetch, ?_, unpin, holds.rewrite used next free plain shown⟩
  rw [block]
  exact shown

theorem fetched_held (owned : Owned storage cells) {loan : Loan} (member : (pageId, .held loan) ∈ cells) (pinned : loan.pins ≠ 0) :
    ∃ middle after, fetchPage pageId storage = (.ok (some loan.frame), middle) ∧
      (middle.pool.frame loan.frame).block = loan.bytes ∧ unpinPage pageId false middle = (.ok true, after) ∧
      Owned after cells := by
  obtain ⟨rest, rfl⟩ := Multiset.exists_cons_of_mem member
  rw [← Multiset.singleton_add] at owned ⊢
  have lent : Lent storage pageId loan := owned.first.1
  rcases fetchPage_lent owned.sound.valid lent with ⟨index, middle, fetch, block, same, relent⟩ | refused
  · obtain rfl := same pinned
    have more : Owned middle ({(pageId, .held { loan with frame := loan.frame, pins := loan.pins + 1 })} + rest) :=
      owned.relend relent rfl rfl
    have notLast : ¬ (loan.pins + 1 = 1 ∧ loan.owed = true ∧ false = false) := fun last => pinned (Nat.succ.inj last.1)
    obtain ⟨after, unpin, released⟩ := relent.lent.unpinPage more.sound.valid (Nat.succ_ne_zero _) false notLast
    have back : ({ loan with pins := loan.pins + 1 - 1, owed := loan.owed && !false } : Loan) = loan := by
      rw [Nat.add_sub_cancel, Bool.not_false, Bool.and_true]
    refine ⟨middle, after, fetch, block, unpin, more.relend released ?_ ?_⟩
    · exact back.symm
    · exact rfl
  · obtain ⟨found, -, -⟩ := lent.held pinned
    unfold fetchPage at refused
    rw [if_neg lent.real] at refused
    simp only [found, Prod.mk.injEq, Except.ok.injEq, reduceCtorEq, false_and] at refused

theorem released {loan : Loan} (owned : Owned storage ({(pageId, .held loan)} + rest)) (last : loan.pins = 1) (isDirty : Bool)
    (covered : isDirty = false → loan.owed = false) {new : Cell} (plain : new.Plain) (shown : new.Shows loan.bytes) :
    ∃ after, unpinPage pageId isDirty storage = (.ok true, after) ∧ Owns after ({(pageId, new)} + rest) := by
  have lent : Lent storage pageId loan := owned.first.1
  obtain ⟨found, count, block⟩ := lent.held (last ▸ Nat.one_ne_zero)
  obtain ⟨after, unpin, valid, available, content, pins, clean, apart, disk⟩ :=
    unpinPage_spec owned.sound.valid found (count.trans last) Apart.unchanged isDirty fun unchanged => lent.clean (covered unchanged)
  have used : Used storage after pageId loan.bytes := ⟨valid, available, content.trans block, pins, clean, apart⟩
  exact ⟨after, unpin, owned.rewrite used (congrArg DiskManager.nextPageId disk) (congrArg DiskManager.freeList disk) plain shown⟩

theorem readNode_eq (holds : Owns storage cells) {node : BPlusTreeNode} (member : (pageId, .node node) ∈ cells) :
    ∃ after, readNode pageId storage = (.ok node, after) ∧ Owns after cells := by
  obtain ⟨index, middle, after, fetch, shown, unpin, kept⟩ := fetched holds member fun _ => rfl
  refine ⟨after, ?_, kept⟩
  have decoded : deserializeNode (middle.pool.frame index).block = .ok node := shown
  simp only [readNode, bind_eq, fetch, getData, ofExcept, decoded, unpin, pure_eq]

theorem changed (holds : Owns storage ({(pageId, cell)} + rest)) (unpinned : cell.pins = 0) :
    ∃ index middle, fetchPage pageId storage = (.ok (some index), middle) ∧
      ∀ (block : Block) (new : Cell), new.Plain → new.Shows block → ∃ between after,
        setBlock index block middle = (.ok (), between) ∧ unpinPage pageId true between = (.ok true, after) ∧
          Owns after ({(pageId, new)} + rest) := by
  obtain ⟨live, -⟩ := holds.first
  obtain ⟨index, middle, fetch, -, fill⟩ :=
    write_spec holds.sound.valid holds.available live.nonneg (live.unpinned unpinned)
  refine ⟨index, middle, fetch, fun block new plain shown => ?_⟩
  obtain ⟨between, after, set, unpin, used, next, free⟩ := fill block
  exact ⟨between, after, set, unpin, holds.rewrite used next free plain shown⟩

theorem writeNode_eq {cell : Cell} {node : BPlusTreeNode} (fits : node.Fits) (unpinned : cell.pins = 0)
    (holds : Owns storage ({(node.pageId, cell)} + rest)) :
    ∃ after, writeNode node storage = (.ok (), after) ∧ Owns after ({(node.pageId, .node node)} + rest) := by
  obtain ⟨index, middle, fetch, fill⟩ := changed holds unpinned
  obtain ⟨between, after, set, unpin, kept⟩ :=
    fill (nodePage node) (.node node) (fun _ => rfl) (deserializeNode_nodePage fits)
  refine ⟨after, ?_, kept⟩
  simp only [writeNode, bind_eq, fetch, ofExcept, serializeNode_eq fits, set, unpin, pure_eq]

theorem allocated (owned : Owned storage cells) {later : DiskManager} {after : BufferedDisk} {new : Cell} {loan : Loan}
    (fresh : Allocated storage pageId later) (valid : after.pool.Valid) (lent : Lent after pageId loan)
    (apart : Apart (fun other => other = pageId) storage after) (next : after.disk.nextPageId = later.nextPageId)
    (free : after.disk.freeList = later.freeList) (same : new.loan loan.bytes = loan) (shown : new.Shows loan.bytes) :
    Owned after ({(pageId, new)} + cells) := by
  have unlike : ∀ other ∈ cells, other.1 ≠ pageId := by
    intro other member same
    have live := owned.live other member
    exact fresh.unused (same ▸ ⟨live.below, live.used⟩)
  have sound : Sound after := ⟨fresh.keep owned.sound.toAllocatable apart.absent next free, valid⟩
  have kept : Holds after cells := owned.toHolds.keep sound apart (next ▸ fresh.next)
    (fun other inside => .inr (fresh.rest other (free ▸ inside))) unlike
  refine ⟨kept.insert ?_ ?_ unlike, fun other nonneg below => ?_⟩
  · rw [Live, lent.bytes, same]
    exact lent
  · rw [lent.bytes]
    exact shown
  · rw [next] at below
    rw [free, Multiset.map_add, Multiset.map_singleton, Multiset.mem_add, Multiset.mem_singleton]
    rcases fresh.covers other below with same | ⟨old, freed⟩
    · exact .inr (.inl same)
    · exact (owned.covered other nonneg old).imp freed .inr

theorem added (holds : Owns storage cells) :
    (∃ left, newPage storage = (.error .pageIdLimit, left) ∧ left.disk.allocatePage = .error .pageIdLimit ∧
        Owned left cells) ∨
      ∃ pageId index middle, newPage storage = (.ok (some (pageId, index)), middle) ∧
        ∀ (block : Block) (new : Cell), new.Plain → new.Shows block → ∃ between after,
          setBlock index block middle = (.ok (), between) ∧ unpinPage pageId true between = (.ok true, after) ∧
            Owns after ({(pageId, new)} + cells) := by
  rcases holds.sound.allocate with full | ⟨pageId, later, allocates, fresh⟩
  · obtain ⟨index, left, threw, takes, still⟩ := newPage_full holds.sound.valid holds.available full
    exact .inl ⟨left, threw, still, holds.toOwned.acquired takes.acquired⟩
  · obtain ⟨index, middle, made, -, fill⟩ :=
      newPage_spec holds.sound.valid holds.available allocates fresh.nonneg fresh.absent
    refine .inr ⟨pageId, index, middle, made, fun block new plain shown => ?_⟩
    obtain ⟨between, after, set, unpin, used, next, free⟩ := fill block
    have lent : Lent after pageId ⟨0, block, 0, false⟩ := ⟨fresh.nonneg, next ▸ fresh.below, free ▸ fresh.taken, used.pins,
      fun impossible => absurd rfl impossible, used.content, fun _ => used.clean,
      fun impossible => absurd impossible Bool.false_ne_true⟩
    exact ⟨between, after, set, unpin, allocated holds.toOwned fresh used.valid lent used.apart next free (plain block) shown,
      used.available⟩

theorem createNode_eq (holds : Owns storage cells) {node : BPlusTreeNode} (fits : node.Fits) :
    (∃ left, createNode node storage = (.error .pageIdLimit, left) ∧ left.disk.allocatePage = .error .pageIdLimit ∧
        Owned left cells) ∨
      ∃ pageId after, createNode node storage = (.ok pageId, after) ∧
        Owns after ({(pageId, .node { node with pageId := pageId })} + cells) := by
  rcases added holds with ⟨left, full, still, owned⟩ | ⟨pageId, index, middle, made, fill⟩
  · refine .inl ⟨left, ?_, still, owned⟩
    simp only [createNode, bind_eq, full]
  · have named : ({ node with pageId := pageId } : BPlusTreeNode).Fits := ⟨fits.keys, fits.leaf, fits.inner⟩
    obtain ⟨between, after, set, unpin, kept⟩ := fill _ (.node _) (fun _ => rfl) (deserializeNode_nodePage named)
    refine .inr ⟨pageId, after, ?_, kept⟩
    simp only [createNode, bind_eq, made, ofExcept, serializeNode_eq named, set, unpin, pure_eq]

theorem deleted {cell : Cell} (unpinned : cell.pins = 0) (owned : Owned storage ({(pageId, cell)} + rest)) :
    ∃ after, deletePage pageId storage = (.ok true, after) ∧ Owned after rest ∧
      (storage.pool.Available → after.pool.Available) := by
  obtain ⟨live, -⟩ := owned.first
  obtain ⟨after, ran, valid, available, find, apart, next, free⟩ :=
    deletePage_spec owned.sound.valid live.nonneg (live.unpinned unpinned)
  have sound : Sound after := ⟨owned.sound.toAllocatable.freed live.nonneg live.below live.used find next free, valid⟩
  refine ⟨after, ran, ⟨owned.others.keep sound apart ?_ (fun other inside => ?_) owned.apart_rest,
    fun other nonneg below => ?_⟩, available⟩
  · rw [next]
    exact Int32.le_refl _
  · rw [free] at inside
    exact List.mem_cons.mp inside
  · rw [next] at below
    have covered := owned.covered other nonneg below
    rw [Multiset.map_add, Multiset.map_singleton, Multiset.mem_add, Multiset.mem_singleton] at covered
    rw [free, List.mem_cons]
    rcases covered with free | here | there
    · exact .inl (.inr free)
    · exact .inl (.inl here)
    · exact .inr there

theorem deletePage_eq {cell : Cell} (unpinned : cell.pins = 0) (holds : Owns storage ({(pageId, cell)} + rest)) :
    ∃ after, deletePage pageId storage = (.ok true, after) ∧ Owns after rest := by
  obtain ⟨after, ran, owned, available⟩ := deleted unpinned holds.toOwned
  exact ⟨after, ran, owned, available holds.available⟩

end Access

end QuorumDB.Storage
