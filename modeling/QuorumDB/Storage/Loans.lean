import QuorumDB.Storage.Allocation

/-!
What a client of the buffer pool knows of a page it uses, and what each call of the pool
makes of that. Other pages in use are left alone, whatever the pool evicts.
-/

namespace QuorumDB.Storage
open BufferedDisk

/-- What the clients of a page know: the pointer they were given, the bytes they left, how
many pins they hold, and whether a dirty unpin is still owed for a change or for the page
being new. -/
structure Loan where
  frame : Nat
  bytes : Block
  pins : Nat
  owed : Bool

structure Lent (storage : BufferedDisk) (pageId : PageId) (loan : Loan) : Prop where
  nonneg : 0 ≤ pageId
  below : pageId < storage.disk.nextPageId
  used : pageId ∉ storage.disk.freeList
  pins : storage.pins pageId = loan.pins
  placed : loan.pins ≠ 0 → storage.pool.find pageId = some loan.frame
  bytes : storage.content pageId = loan.bytes
  clean : loan.owed = false → storage.Clean pageId
  owed : loan.owed = true → loan.pins ≠ 0

variable {before after storage : BufferedDisk} {pageId other : PageId} {loan : Loan}

theorem pins_some {index : Nat} (found : storage.pool.find pageId = some index) :
    storage.pins pageId = (storage.pool.frame index).pinCount := by
  unfold BufferedDisk.pins
  rw [found]

theorem content_some {index : Nat} (found : storage.pool.find pageId = some index) :
    storage.content pageId = (storage.pool.frame index).block := by
  unfold BufferedDisk.content
  rw [found]

theorem Lent.held (lent : Lent storage pageId loan) (pinned : loan.pins ≠ 0) :
    storage.pool.find pageId = some loan.frame ∧ (storage.pool.frame loan.frame).pinCount = loan.pins ∧
      (storage.pool.frame loan.frame).block = loan.bytes := by
  have found := lent.placed pinned
  exact ⟨found, (pins_some found).symm.trans lent.pins, (content_some found).symm.trans lent.bytes⟩

theorem Lent.keep (lent : Lent before pageId loan) {touched : PageId → Prop} (apart : Apart touched before after)
    (untouched : ¬ touched pageId) (next : before.disk.nextPageId ≤ after.disk.nextPageId)
    (free : pageId ∉ after.disk.freeList) : Lent after pageId loan := by
  refine ⟨lent.nonneg, Int32.lt_of_lt_of_le lent.below next, free, ?_, fun pinned => ?_, ?_, fun notOwed => ?_, lent.owed⟩
  · rw [apart.pins pageId untouched]
    exact lent.pins
  · obtain ⟨found, count, -⟩ := lent.held pinned
    exact (apart.placed pageId _ untouched found (count ▸ pinned)).1
  · by_cases pinned : loan.pins = 0
    · have notOwed : loan.owed = false := by
        cases owed : loan.owed with
        | false => rfl
        | true => exact absurd pinned (lent.owed owed)
      rw [(apart.content pageId lent.nonneg untouched (lent.clean notOwed)).1]
      exact lent.bytes
    · obtain ⟨found, count, block⟩ := lent.held pinned
      obtain ⟨located, frame⟩ := apart.placed pageId _ untouched found (count ▸ pinned)
      rw [content_some located, frame]
      exact block
  · exact (apart.content pageId lent.nonneg untouched (lent.clean notOwed)).2

/-- The call changed what is known of one page in use, and nothing else. -/
structure Relent (before after : BufferedDisk) (pageId : PageId) (loan : Loan) : Prop where
  valid : after.pool.Valid
  lent : Lent after pageId loan
  apart : Apart (fun other => other = pageId) before after
  nextPageId : after.disk.nextPageId = before.disk.nextPageId
  freeList : after.disk.freeList = before.disk.freeList

theorem Apart.unchanged {touched : PageId → Prop} : Apart touched storage storage :=
  .of_same (fun _ _ => rfl) (fun _ _ _ _ => rfl) fun _ _ _ => rfl

theorem acquireFrame_none (unavailable : ¬ storage.pool.Available) :
    acquireFrame storage = (.ok storage.pool.frames.length, storage) := by
  rw [BufferPoolManager.Available, not_or, not_not, not_not] at unavailable
  simp only [acquireFrame, unavailable.1, unavailable.2, List.getLast?_nil]

theorem Lent.absent_of_full (lent : Lent storage pageId loan) (valid : storage.pool.Valid) (unpinned : loan.pins = 0)
    (full : ¬ storage.pool.Available) : storage.pool.find pageId = none := by
  cases found : storage.pool.find pageId with
  | none => rfl
  | some index =>
    have zero : (storage.pool.frame index).pinCount = 0 := (pins_some found).symm.trans (lent.pins.trans unpinned)
    have listed := (valid.listed index).mpr ⟨pageId, found, zero⟩
    exact absurd (.inr (List.ne_nil_of_mem listed)) full

theorem Lent.reframe (lent : Lent storage pageId loan) (valid : storage.pool.Valid) (pinned : loan.pins ≠ 0) (frame : Frame)
    (named : frame.pageId = (storage.pool.frame loan.frame).pageId) (renewed : Loan) (same : renewed.frame = loan.frame)
    (count : frame.pinCount = renewed.pins) (block : frame.block = renewed.bytes) (more : renewed.pins ≠ 0)
    (clean : renewed.owed = false → frame.isDirty = false → frame.block = storage.disk.stored pageId) :
    Relent storage (storage.withPool (storage.pool.setFrame loan.frame frame)) pageId renewed := by
  obtain ⟨located, held, -⟩ := lent.held pinned
  obtain ⟨kept, here, apart⟩ := @reframe_spec storage pageId loan.frame valid located frame named
    (iff_of_false (count ▸ more) (held ▸ pinned))
  have still : (storage.withPool (storage.pool.setFrame loan.frame frame)).pool.find pageId = some loan.frame := located
  have shown : (storage.withPool (storage.pool.setFrame loan.frame frame)).pool.frame loan.frame = frame := here
  refine ⟨kept, ⟨lent.nonneg, lent.below, lent.used, ?_, fun _ => same ▸ still, ?_, fun notOwed place at_place notDirty => ?_,
    fun _ => more⟩, apart, rfl, rfl⟩
  · rw [pins_some still, shown]
    exact count
  · rw [content_some still, shown]
    exact block
  · obtain rfl : place = loan.frame := Option.some.inj (at_place.symm.trans still)
    rw [shown] at notDirty ⊢
    exact clean notOwed notDirty

theorem Lent.real (lent : Lent storage pageId loan) : pageId ≠ invalidPageId := by
  intro same
  have nonneg := lent.nonneg
  rw [same] at nonneg
  exact absurd nonneg (by decide)

theorem Lent.fetchPage_full (lent : Lent storage pageId loan) (valid : storage.pool.Valid) (unpinned : loan.pins = 0)
    (full : ¬ storage.pool.Available) : fetchPage pageId storage = (.ok none, storage) := by
  have absent := lent.absent_of_full valid unpinned full
  unfold fetchPage
  simp only [if_neg lent.real, absent, acquireFrame_none full, if_true]

theorem fetchPage_lent (valid : storage.pool.Valid) (lent : Lent storage pageId loan) :
    (∃ index after, fetchPage pageId storage = (.ok (some index), after) ∧
      (after.pool.frame index).block = loan.bytes ∧ (loan.pins ≠ 0 → index = loan.frame) ∧
      Relent storage after pageId { loan with frame := index, pins := loan.pins + 1 }) ∨
    fetchPage pageId storage = (.ok none, storage) := by
  by_cases pinned : loan.pins = 0
  · by_cases available : storage.pool.Available
    · obtain ⟨index, after, fetched, held⟩ := fetchPage_spec valid available lent.nonneg (lent.pins.trans pinned)
      have block := held.block.trans lent.bytes
      refine .inl ⟨index, after, fetched, block, fun more => absurd pinned more, held.valid, ?_, held.apart,
        held.nextPageId, held.freeList⟩
      refine ⟨lent.nonneg, held.nextPageId ▸ lent.below, held.freeList ▸ lent.used, ?_, fun _ => held.found, ?_,
        fun notOwed => held.clean (lent.clean notOwed), fun _ => Nat.succ_ne_zero _⟩
      · rw [pins_some held.found, held.count]
        change 1 = loan.pins + 1
        rw [pinned]
      · rw [content_some held.found]
        exact block
    · exact .inr (lent.fetchPage_full valid pinned available)
  · obtain ⟨found, count, block⟩ := lent.held pinned
    have more : storage.pool.pin loan.frame = storage.pool.setFrame loan.frame
        { storage.pool.frame loan.frame with pinCount := (storage.pool.frame loan.frame).pinCount + 1 } := by
      unfold BufferPoolManager.pin
      rw [if_neg (count ▸ pinned)]
    have relent : Relent storage (storage.withPool (storage.pool.pin loan.frame)) pageId
        { loan with frame := loan.frame, pins := loan.pins + 1 } := by
      rw [more]
      exact lent.reframe valid pinned
        { storage.pool.frame loan.frame with pinCount := (storage.pool.frame loan.frame).pinCount + 1 } rfl
        { loan with frame := loan.frame, pins := loan.pins + 1 } rfl (congrArg (· + 1) count) block (Nat.succ_ne_zero _)
        fun notOwed notDirty => lent.clean notOwed loan.frame found notDirty
    refine .inl ⟨loan.frame, storage.withPool (storage.pool.pin loan.frame), ?_, ?_, fun _ => rfl, relent⟩
    · unfold fetchPage
      simp only [if_neg lent.real, found]
    · exact (relent.lent.held (Nat.succ_ne_zero _)).2.2

theorem Lent.write (lent : Lent storage pageId loan) (valid : storage.pool.Valid) (pinned : loan.pins ≠ 0) (block : Block) :
    Relent storage (setBlock loan.frame block storage).2 pageId { loan with bytes := block, owed := true } := by
  obtain ⟨-, held, -⟩ := lent.held pinned
  have same : (setBlock loan.frame block storage).2 =
      storage.withPool (storage.pool.setFrame loan.frame { storage.pool.frame loan.frame with block := block }) := rfl
  rw [same]
  exact lent.reframe valid pinned { storage.pool.frame loan.frame with block := block } rfl
    { loan with bytes := block, owed := true } rfl held rfl pinned fun impossible => absurd impossible.symm Bool.false_ne_true

theorem Lent.unpinPage (lent : Lent storage pageId loan) (valid : storage.pool.Valid) (pinned : loan.pins ≠ 0) (isDirty : Bool)
    (covered : ¬ (loan.pins = 1 ∧ loan.owed = true ∧ isDirty = false)) :
    ∃ after, BufferedDisk.unpinPage pageId isDirty storage = (.ok true, after) ∧
      Relent storage after pageId { loan with pins := loan.pins - 1, owed := loan.owed && !isDirty } := by
  obtain ⟨located, held, block⟩ := lent.held pinned
  by_cases last : loan.pins = 1
  · have kept : isDirty = false → storage.Clean pageId := fun unchanged => lent.clean <| by
      cases owed : loan.owed with
      | false => rfl
      | true => exact absurd ⟨last, owed, unchanged⟩ covered
    obtain ⟨after, ran, valid, -, content, pins, clean, apart, disk⟩ :=
      unpinPage_spec valid located (held.trans last) Apart.unchanged isDirty kept
    have zero : loan.pins - 1 = 0 := by rw [last]
    refine ⟨after, ran, valid, ?_, apart, disk ▸ rfl, disk ▸ rfl⟩
    refine ⟨lent.nonneg, disk ▸ lent.below, disk ▸ lent.used, pins.trans zero.symm, fun some => absurd zero some,
      content.trans block, fun _ => clean, fun owed => ?_⟩
    obtain ⟨owing, notDirty⟩ := Bool.and_eq_true_iff.mp owed
    exact absurd ⟨last, owing, Bool.not_eq_true' _ |>.mp notDirty⟩ covered
  · let frame : Frame := { storage.pool.frame loan.frame with
      pinCount := (storage.pool.frame loan.frame).pinCount - 1
      isDirty := (storage.pool.frame loan.frame).isDirty || isDirty }
    have ran : BufferedDisk.unpinPage pageId isDirty storage =
        (.ok true, storage.withPool (storage.pool.setFrame loan.frame frame)) := by
      unfold BufferedDisk.unpinPage BufferPoolManager.unpinPage
      simp only [located, held, if_neg pinned, if_neg last, frame]
    have count : frame.pinCount = loan.pins - 1 := congrArg (· - 1) held
    have more : loan.pins - 1 ≠ 0 := by omega
    refine ⟨_, ran, lent.reframe valid pinned frame rfl { loan with pins := loan.pins - 1, owed := loan.owed && !isDirty } rfl count
      block more fun notOwed notDirty => ?_⟩
    obtain ⟨wasClean, unchanged⟩ := Bool.or_eq_false_iff.mp notDirty
    have owed : loan.owed = false := by
      change (loan.owed && !isDirty) = false at notOwed
      rw [unchanged] at notOwed
      exact (Bool.and_true _).symm.trans notOwed
    exact lent.clean owed loan.frame located wasClean

theorem Lent.unpinPage_none (lent : Lent storage pageId loan) (unpinned : loan.pins = 0) (isDirty : Bool) :
    BufferedDisk.unpinPage pageId isDirty storage = (.ok false, storage) := by
  unfold BufferedDisk.unpinPage BufferPoolManager.unpinPage
  cases located : storage.pool.find pageId with
  | none => rfl
  | some index =>
    have zero := (pins_some located).symm.trans (lent.pins.trans unpinned)
    simp only [zero, ↓reduceIte]
    rfl

theorem Lent.deletePage_pinned (lent : Lent storage pageId loan) (pinned : loan.pins ≠ 0) :
    BufferedDisk.deletePage pageId storage = (.ok false, storage) := by
  obtain ⟨located, held, -⟩ := lent.held pinned
  unfold BufferedDisk.deletePage
  simp only [located, held, ne_eq, pinned, not_false_eq_true, ↓reduceIte]

theorem newPage_none (unavailable : ¬ storage.pool.Available) : newPage storage = (.ok none, storage) := by
  unfold newPage
  simp only [acquireFrame_none unavailable, if_true]

theorem newPage_lent (valid : storage.pool.Valid) (allocatable : Allocatable storage) :
    (∃ index left, newPage storage = (.error .pageIdLimit, left) ∧ Acquired storage left index) ∨
    newPage storage = (.ok none, storage) ∨
    ∃ pageId index after later, newPage storage = (.ok (some (pageId, index)), after) ∧
      Allocated storage pageId later ∧ after.pool.Valid ∧ Lent after pageId ⟨index, Block.zero, 1, true⟩ ∧
      Apart (fun other => other = pageId) storage after ∧ after.disk.nextPageId = later.nextPageId ∧
      after.disk.freeList = later.freeList := by
  by_cases available : storage.pool.Available
  · rcases allocatable.allocate with full | ⟨pageId, later, allocates, fresh⟩
    · obtain ⟨index, left, ran, takes, -⟩ := newPage_full valid available full
      exact .inl ⟨index, left, ran, takes.acquired⟩
    · obtain ⟨index, after, ran, kept, found, count, zeros, apart, next, list⟩ :=
        newPage_held valid available allocates fresh.nonneg fresh.absent
      refine .inr (.inr ⟨pageId, index, after, later, ran, fresh, kept, ?_, apart, next, list⟩)
      exact ⟨fresh.nonneg, next ▸ fresh.below, list ▸ fresh.taken, (pins_some found).trans count, fun _ => found,
        (content_some found).trans zeros, fun impossible => absurd impossible.symm Bool.false_ne_true,
        fun _ => Nat.one_ne_zero⟩
  · exact .inr (.inl (newPage_none available))

end QuorumDB.Storage
