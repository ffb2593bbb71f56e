import QuorumDB.Storage.PoolClient

/-!
Runs of the buffer pool under any calls of any clients. Beside the pool stands what its
clients could note down: which pages NewPage has given out, how often a page was taken
and returned, and which new pages nobody has changed.
-/

namespace QuorumDB.Storage
open BufferedDisk Execution

/-- The calls of the pool, and a change of the bytes behind a page pointer. -/
inductive PoolCall where
  | fetchPage (pageId : PageId)
  | newPage
  | unpinPage (pageId : PageId) (isDirty : Bool)
  | flushPage (pageId : PageId)
  | flushAllPages
  | deletePage (pageId : PageId)
  | write (index : Nat) (block : Block)

/-- What a call gives back: a page with its pointer, `nullptr`, a flag, nothing, or an exception. -/
inductive PoolAnswer where
  | page (pageId : PageId) (index : Nat)
  | nullptr
  | flag (success : Bool)
  | done
  | thrown (error : StorageError)
  deriving DecidableEq, Repr

def PoolAnswer.givesNone : PoolAnswer → Bool
  | .nullptr | .thrown _ => true
  | .page .. | .flag _ | .done => false

namespace PoolCall

def givesPage : PoolCall → Bool
  | .fetchPage _ | .newPage => true
  | .unpinPage .. | .flushPage _ | .flushAllPages | .deletePage _ | .write .. => false

def perform (call : PoolCall) (storage : BufferedDisk) : PoolAnswer × BufferedDisk :=
  match call with
  | .fetchPage pageId =>
      match BufferedDisk.fetchPage pageId storage with
      | (.ok (some index), after) => (.page pageId index, after)
      | (.ok none, after) => (.nullptr, after)
      | (.error error, after) => (.thrown error, after)
  | .newPage =>
      match BufferedDisk.newPage storage with
      | (.ok (some (pageId, index)), after) => (.page pageId index, after)
      | (.ok none, after) => (.nullptr, after)
      | (.error error, after) => (.thrown error, after)
  | .unpinPage pageId isDirty =>
      match BufferedDisk.unpinPage pageId isDirty storage with
      | (.ok success, after) => (.flag success, after)
      | (.error error, after) => (.thrown error, after)
  | .flushPage pageId =>
      match BufferedDisk.flushPage pageId storage with
      | (.ok success, after) => (.flag success, after)
      | (.error error, after) => (.thrown error, after)
  | .flushAllPages =>
      match BufferedDisk.flushAllPages storage with
      | (.ok _, after) => (.done, after)
      | (.error error, after) => (.thrown error, after)
  | .deletePage pageId =>
      match BufferedDisk.deletePage pageId storage with
      | (.ok success, after) => (.flag success, after)
      | (.error error, after) => (.thrown error, after)
  | .write index block => (.done, (BufferedDisk.setBlock index block storage).2)

end PoolCall

/-- The pool keeps its books and its disk manager hands out no negative page. -/
structure Steady (storage : BufferedDisk) : Prop where
  valid : storage.pool.Valid
  next : 0 ≤ storage.disk.nextPageId
  free : ∀ pageId ∈ storage.disk.freeList, 0 ≤ pageId

theorem Steady.allocate {storage : BufferedDisk} (steady : Steady storage) :
    storage.disk.allocatePage = .error .pageIdLimit ∨
      ∃ pageId later, storage.disk.allocatePage = .ok (pageId, later) ∧ 0 ≤ pageId ∧ 0 ≤ later.nextPageId ∧
        (∀ other ∈ later.freeList, 0 ≤ other) ∧ later.file = storage.disk.file := by
  have low := steady.next
  have nonneg := steady.free
  unfold DiskManager.allocatePage
  cases free : storage.disk.freeList with
  | cons first rest =>
    rw [free] at nonneg
    exact .inr ⟨first, _, rfl, nonneg first List.mem_cons_self, low,
      fun other inside => nonneg other (List.mem_cons_of_mem _ inside), rfl⟩
  | nil =>
    by_cases full : storage.disk.nextPageId = Int32.maxValue
    · exact .inl (if_pos full)
    · exact .inr ⟨_, _, if_neg full, low, Int32.le_of_lt (Int32.lt_of_le_of_lt low (int32_lt_succ full)),
        fun other impossible => absurd impossible List.not_mem_nil, rfl⟩

/-- A page put into a frame that was taken for it; a page that had a frame keeps that one in the table. -/
structure Installs (before after : BufferPoolManager) (index : Nat) (pageId : PageId) (block : Block) : Prop where
  valid : after.Valid
  find : ∀ asked, after.find asked =
    if asked = pageId ∧ before.find pageId = none then some index else before.find asked
  here : after.frame index = ⟨block, pageId, 1, false⟩
  others : ∀ other, other ≠ index → after.frame other = before.frame other
  free : after.freeFrames = before.freeFrames
  length : after.frames.length = before.frames.length

theorem Installs.keeps {before after : BufferPoolManager} {index place : Nat} {pageId asked : PageId} {block : Block}
    (installs : Installs before after index pageId block) (found : before.find asked = some place) :
    after.find asked = some place := by
  rw [installs.find, if_neg]
  · exact found
  · rintro ⟨rfl, absent⟩
    cases absent.symm.trans found

theorem Takes.earlier {before left : BufferedDisk} {index place : Nat} {asked : PageId} (takes : BufferedDisk.Takes before left index)
    (found : left.pool.find asked = some place) : before.pool.find asked = some place := by
  rw [takes.find] at found
  split_ifs at found
  exact found

theorem install_installs {pool : BufferPoolManager} (valid : pool.Valid) {pageId : PageId} {index : Nat}
    (nonneg : 0 ≤ pageId) (inside : index < pool.frames.length) (busy : index ∉ pool.freeFrames)
    (loose : ∀ asked, pool.find asked ≠ some index) (block : Block) :
    Installs pool (pool.install index pageId block) index pageId block := by
  cases found : pool.find pageId with
  | none =>
    obtain ⟨pinned, here⟩ := BufferedDisk.install_pinned valid found inside loose block
    refine ⟨pinned.valid valid nonneg inside busy (.inl found) fun asked _ => loose asked, fun asked => ?_, here,
      pinned.frame, pinned.free, pinned.length⟩
    rw [pinned.find]
    simp only [found, and_true]
  | some place =>
    have shape : pool.install index pageId block = pool.setFrame index ⟨block, pageId, 1, false⟩ := by
      unfold BufferPoolManager.install BufferPoolManager.emplace
      have still : (pool.setFrame index ⟨block, pageId, 1, false⟩).find pageId = some place := found
      rw [still]
      rfl
    have others : ∀ other, other ≠ index → (pool.setFrame index ⟨block, pageId, 1, false⟩).frame other = pool.frame other :=
      fun other different => BufferPoolManager.frame_setFrame_other different
    have length : (pool.setFrame index ⟨block, pageId, 1, false⟩).frames.length = pool.frames.length := List.length_set
    have apart : ∀ {asked other}, pool.find asked = some other →
        (pool.setFrame index ⟨block, pageId, 1, false⟩).frame other = pool.frame other :=
      fun {asked other} located => others other fun same => loose asked (same ▸ located)
    rw [shape]
    refine ⟨⟨fun asked other located => ?_, fun other => (valid.listed other).trans ?_, valid.positions, valid.lru_nodup,
      valid.free_nodup, fun other free => ?_⟩, fun asked => ?_, BufferPoolManager.frame_setFrame_same inside, others, rfl, length⟩
    · obtain ⟨bound, named, low⟩ := valid.framed asked other located
      exact ⟨length ▸ bound, (congrArg Frame.pageId (apart located)).trans named, low⟩
    · refine exists_congr fun asked => and_congr_right fun located => ?_
      rw [apart located]
    · exact ⟨length ▸ (valid.free_apart other free).1, (valid.free_apart other free).2⟩
    · rw [if_neg fun both => Option.some_ne_none place (found.symm.trans both.2)]
      rfl

structure Deletes (before after : BufferedDisk) (pageId : PageId) : Prop where
  valid : after.pool.Valid
  unpinned : before.pins pageId = 0
  find : ∀ asked, after.pool.find asked = if asked = pageId then none else before.pool.find asked
  frame : ∀ other, before.pool.find pageId ≠ some other → after.pool.frame other = before.pool.frame other
  vacated : ∀ index, before.pool.find pageId = some index → after.pool.frame index = Frame.fresh
  free : ∀ other, other ∈ after.pool.freeFrames ↔ other ∈ before.pool.freeFrames ∨ before.pool.find pageId = some other
  length : after.pool.frames.length = before.pool.frames.length
  file : after.disk.file = before.disk.file
  nextPageId : after.disk.nextPageId = before.disk.nextPageId
  freeList : after.disk.freeList = if pageId < 0 then before.disk.freeList else pageId :: before.disk.freeList

theorem deletePage_deletes {storage : BufferedDisk} (valid : storage.pool.Valid) {pageId : PageId}
    (unpinned : storage.pins pageId = 0) :
    ∃ after, deletePage pageId storage = (.ok true, after) ∧ Deletes storage after pageId := by
  have file : (storage.disk.deallocatePage pageId).file = storage.disk.file := by
    unfold DiskManager.deallocatePage
    split_ifs <;> rfl
  have nextPageId : (storage.disk.deallocatePage pageId).nextPageId = storage.disk.nextPageId := by
    unfold DiskManager.deallocatePage
    split_ifs <;> rfl
  have freeList : (storage.disk.deallocatePage pageId).freeList =
      if pageId < 0 then storage.disk.freeList else pageId :: storage.disk.freeList := by
    unfold DiskManager.deallocatePage
    split_ifs <;> rfl
  cases found : storage.pool.find pageId with
  | none =>
    unfold deletePage
    rw [found]
    refine ⟨_, rfl, valid, unpinned, fun asked => ?_, fun _ _ => rfl, fun index located => (nomatch found.symm.trans located),
      fun other => ?_, rfl, file, nextPageId, freeList⟩
    · by_cases same : asked = pageId
      · rw [if_pos same, same]
        exact found
      · rw [if_neg same]
        rfl
    · rw [found]
      exact ⟨.inl, fun either => either.resolve_right nofun⟩
  | some index =>
    have zero : (storage.pool.frame index).pinCount = 0 := (pins_some found).symm.trans unpinned
    obtain ⟨pool, ran, dropped, free, emptied⟩ := deletePage_resident valid found zero
    refine ⟨_, ran, dropped.valid valid found (.inr free), unpinned, dropped.find, fun other different => ?_,
      fun place located => ?_, fun other => ?_, dropped.length, file, nextPageId, freeList⟩
    · exact dropped.frame other fun same => different (same ▸ found)
    · obtain rfl : place = index := Option.some.inj (located.symm.trans found)
      exact emptied
    · rw [found, Option.some.injEq, free]
      exact List.mem_cons.trans (or_comm.trans (or_congr_right eq_comm))

structure SameFrames (before after : BufferPoolManager) : Prop where
  named : ∀ index, (after.frame index).pageId = (before.frame index).pageId
  length : after.frames.length = before.frames.length
  free : after.freeFrames = before.freeFrames

theorem SameFrames.trans {first second third : BufferPoolManager} (one : SameFrames first second)
    (two : SameFrames second third) : SameFrames first third :=
  ⟨fun index => (two.named index).trans (one.named index), two.length.trans one.length, two.free.trans one.free⟩

theorem setFrame_sameFrames {pool : BufferPoolManager} {index : Nat} {frame : Frame}
    (named : frame.pageId = (pool.frame index).pageId) : SameFrames pool (pool.setFrame index frame) := by
  refine ⟨fun other => ?_, List.length_set, rfl⟩
  by_cases same : other = index
  · subst same
    by_cases inside : other < pool.frames.length
    · rw [BufferPoolManager.frame_setFrame_same inside, named]
    · have still : pool.setFrame other frame = pool := by
        unfold BufferPoolManager.setFrame
        rw [List.set_eq_of_length_le (Nat.le_of_not_lt inside)]
      rw [still]
  · rw [BufferPoolManager.frame_setFrame_other same]

theorem flushPage_pool (pageId : PageId) (storage : BufferedDisk) :
    (flushPage pageId storage).2.pool = storage.pool ∨
      ∃ index, (flushPage pageId storage).2.pool =
        storage.pool.setFrame index { storage.pool.frame index with isDirty := false } := by
  unfold flushPage
  split
  · exact .inl rfl
  next index found =>
    split_ifs
    · split
      · exact .inl rfl
      · exact .inr ⟨index, rfl⟩
    · exact .inl rfl

theorem flushPages_keep {same : BufferPoolManager → BufferPoolManager → Prop} (refl : ∀ pool, same pool pool)
    (trans : ∀ {first second third}, same first second → same second third → same first third)
    (one : ∀ pageId storage, same storage.pool (flushPage pageId storage).2.pool) (pages : List PageId) (storage : BufferedDisk) :
    same storage.pool (flushPages pages storage).2.pool := by
  induction pages generalizing storage with
  | nil => exact refl storage.pool
  | cons first rest ih =>
    have flushed := one first storage
    unfold flushPages
    split
    next ran =>
      rw [ran] at flushed
      exact flushed
    next ran =>
      rw [ran] at flushed
      exact trans flushed (ih _)

theorem flushPage_sameFrames (pageId : PageId) (storage : BufferedDisk) :
    SameFrames storage.pool (flushPage pageId storage).2.pool := by
  rcases flushPage_pool pageId storage with same | ⟨index, changed⟩
  · rw [same]
    exact ⟨fun _ => rfl, rfl, rfl⟩
  · rw [changed]
    exact setFrame_sameFrames rfl

theorem flushPages_sameFrames (pages : List PageId) (storage : BufferedDisk) :
    SameFrames storage.pool (flushPages pages storage).2.pool :=
  @flushPages_keep SameFrames (fun _ => ⟨fun _ => rfl, rfl, rfl⟩) SameFrames.trans flushPage_sameFrames pages storage

/-- The calls that throw once they have a frame: of a page the disk manager does not read, or has no number for. -/
def Refused (before : BufferedDisk) : PoolCall → Prop
  | .fetchPage pageId => pageId < 0 ∧ pageId ≠ invalidPageId
  | .newPage => before.disk.allocatePage = .error .pageIdLimit
  | _ => False

/-- The calls that give no page for want of a page or of a frame. -/
def Withheld (before : BufferedDisk) (call : PoolCall) : Prop :=
  call = .fetchPage invalidPageId ∨ ¬ before.pool.Available

inductive PoolEffect (before : BufferedDisk) : PoolCall → PoolAnswer → BufferedDisk → Prop where
  | idle {call : PoolCall} {answer : PoolAnswer}
      (quiet : Withheld before call ∧ answer = .nullptr ∨ call.givesPage = false ∧ answer = .flag false) :
      PoolEffect before call answer before
  | hit {pageId : PageId} {index : Nat} {after : BufferPoolManager} (found : before.pool.find pageId = some index)
      (reframes : BufferedDisk.Reframes before.pool after index
        { before.pool.frame index with pinCount := (before.pool.frame index).pinCount + 1 }) :
      PoolEffect before (.fetchPage pageId) (.page pageId index) (before.withPool after)
  | loaded {pageId : PageId} {index : Nat} {left : BufferedDisk} {after : BufferPoolManager} (nonneg : 0 ≤ pageId)
      (absent : before.pool.find pageId = none) (takes : Takes before left index)
      (installs : Installs left.pool after index pageId (left.disk.stored pageId)) :
      PoolEffect before (.fetchPage pageId) (.page pageId index) (left.withPool after)
  | created {pageId : PageId} {index : Nat} {left : BufferedDisk} {after : BufferPoolManager} {disk later : DiskManager}
      (nonneg : 0 ≤ pageId) (allocates : before.disk.allocatePage = .ok (pageId, later)) (takes : Takes before left index)
      (installs : Installs left.pool after index pageId Block.zero) (file : disk.file = left.disk.file)
      (next : disk.nextPageId = later.nextPageId) (free : disk.freeList = later.freeList) :
      PoolEffect before .newPage (.page pageId index) ⟨after, disk⟩
  | lost {call : PoolCall} {error : StorageError} {index : Nat} {left : BufferedDisk} (refused : Refused before call)
      (takes : Takes before left index) : PoolEffect before call (.thrown error) left
  | released {pageId : PageId} {isDirty : Bool} {index : Nat} {after : BufferPoolManager}
      (found : before.pool.find pageId = some index) (pinned : (before.pool.frame index).pinCount ≠ 0)
      (reframes : BufferedDisk.Reframes before.pool after index { before.pool.frame index with
        pinCount := (before.pool.frame index).pinCount - 1
        isDirty := (before.pool.frame index).isDirty || isDirty }) :
      PoolEffect before (.unpinPage pageId isDirty) (.flag true) (before.withPool after)
  | flushedPage {pageId : PageId} {success : Bool} {after : BufferedDisk} (settled : Settled before after)
      (frames : SameFrames before.pool after.pool) : PoolEffect before (.flushPage pageId) (.flag success) after
  | flushed {after : BufferedDisk} (settled : Settled before after) (frames : SameFrames before.pool after.pool) :
      PoolEffect before .flushAllPages .done after
  | deleted {pageId : PageId} {after : BufferedDisk} (deletes : Deletes before after pageId) :
      PoolEffect before (.deletePage pageId) (.flag true) after
  | wrote {index : Nat} {block : Block} :
      PoolEffect before (.write index block) .done (before.withPool (before.pool.setBlock index block))

section Effects

variable {storage : BufferedDisk} {pageId : PageId}

theorem fetchPage_effect (steady : Steady storage) (pageId : PageId) :
    PoolEffect storage (.fetchPage pageId) ((PoolCall.fetchPage pageId).perform storage).1
      ((PoolCall.fetchPage pageId).perform storage).2 := by
  unfold PoolCall.perform BufferedDisk.fetchPage
  by_cases invalid : pageId = invalidPageId
  · simp only [if_pos invalid]
    exact .idle (.inl ⟨.inl (congrArg PoolCall.fetchPage invalid), rfl⟩)
  · simp only [if_neg invalid]
    cases found : storage.pool.find pageId with
    | some index => exact .hit found (pin_reframes steady.valid found)
    | none =>
      by_cases available : storage.pool.Available
      · obtain ⟨index, left, ran, takes⟩ := acquireFrame_takes steady.valid available
        have inside := Nat.ne_of_lt takes.acquired.inside
        simp only [ran, if_neg inside]
        by_cases nonneg : 0 ≤ pageId
        · simp only [DiskManager.readPage_eq nonneg]
          exact .loaded nonneg found takes
            (install_installs takes.acquired.valid nonneg takes.acquired.inside takes.acquired.busy takes.acquired.loose _)
        · simp only [DiskManager.readPage, if_pos (Int32.not_le.mp nonneg)]
          exact .lost ⟨Int32.not_le.mp nonneg, invalid⟩ takes
      · simp only [acquireFrame_none available, ↓reduceIte]
        exact .idle (.inl ⟨.inr available, rfl⟩)

theorem newPage_effect (steady : Steady storage) :
    PoolEffect storage .newPage (PoolCall.newPage.perform storage).1 (PoolCall.newPage.perform storage).2 := by
  unfold PoolCall.perform
  by_cases available : storage.pool.Available
  · rcases steady.allocate with full | ⟨pageId, later, allocates, nonneg, -, -, -⟩
    · obtain ⟨index, left, ran, takes, -⟩ := newPage_full steady.valid available full
      simp only [ran]
      exact .lost full takes
    · obtain ⟨index, left, ran, takes⟩ := acquireFrame_takes steady.valid available
      obtain ⟨last, allocated, next, free, file⟩ :=
        allocatePage_congr allocates takes.acquired.nextPageId takes.acquired.freeList
      simp only [BufferedDisk.newPage, ran, if_neg (Nat.ne_of_lt takes.acquired.inside), allocated]
      exact .created nonneg allocates takes (install_installs takes.acquired.valid nonneg takes.acquired.inside
        takes.acquired.busy takes.acquired.loose _) file next free
  · simp only [newPage_none available]
    exact .idle (.inl ⟨.inr available, rfl⟩)

theorem perform_effect (steady : Steady storage) (call : PoolCall) :
    PoolEffect storage call (call.perform storage).1 (call.perform storage).2 := by
  cases call with
  | fetchPage pageId => exact fetchPage_effect steady pageId
  | newPage => exact newPage_effect steady
  | unpinPage pageId isDirty =>
    have refused : storage.pool.unpinPage pageId isDirty = (storage.pool, false) →
        PoolEffect storage (.unpinPage pageId isDirty) ((PoolCall.unpinPage pageId isDirty).perform storage).1
          ((PoolCall.unpinPage pageId isDirty).perform storage).2 := by
      intro ran
      simp only [PoolCall.perform, BufferedDisk.unpinPage, ran]
      exact .idle (.inr ⟨rfl, rfl⟩)
    cases found : storage.pool.find pageId with
    | none => exact refused (by simp only [BufferPoolManager.unpinPage, found])
    | some index =>
      by_cases unpinned : (storage.pool.frame index).pinCount = 0
      · exact refused (by simp only [BufferPoolManager.unpinPage, found, if_pos unpinned])
      · obtain ⟨after, ran, reframes, -⟩ := unpinPage_reframes steady.valid found unpinned isDirty
        simp only [PoolCall.perform, BufferedDisk.unpinPage, ran]
        exact .released found unpinned reframes
  | flushPage pageId =>
    obtain ⟨success, after, ran, settled, -⟩ := flushPage_spec steady.valid pageId
    have frames := flushPage_sameFrames pageId storage
    rw [ran] at frames
    simp only [PoolCall.perform, ran]
    exact .flushedPage settled frames
  | flushAllPages =>
    obtain ⟨after, ran, settled, -⟩ := flushAllPages_spec steady.valid
    have frames : SameFrames storage.pool (BufferedDisk.flushAllPages storage).2.pool := flushPages_sameFrames _ storage
    rw [ran] at frames
    simp only [PoolCall.perform, ran]
    exact .flushed settled frames
  | deletePage pageId =>
    by_cases unpinned : storage.pins pageId = 0
    · obtain ⟨after, ran, deletes⟩ := deletePage_deletes steady.valid unpinned
      simp only [PoolCall.perform, ran]
      exact .deleted deletes
    · have refused : BufferedDisk.deletePage pageId storage = (.ok false, storage) := by
        unfold BufferedDisk.pins at unpinned
        unfold BufferedDisk.deletePage
        cases found : storage.pool.find pageId with
        | none => simp only [found, not_true_eq_false] at unpinned
        | some index =>
          simp only [found] at unpinned
          simp only [ne_eq, unpinned, not_false_eq_true, ↓reduceIte]
      simp only [PoolCall.perform, refused]
      exact .idle (.inr ⟨rfl, rfl⟩)
  | write index block => exact .wrote

theorem setBlock_pinCount (pool : BufferPoolManager) (index other : Nat) (block : Block) :
    ((pool.setBlock index block).frame other).pinCount = (pool.frame other).pinCount := by
  by_cases same : other = index
  · subst same
    by_cases inside : other < pool.frames.length
    · have here : (pool.setBlock other block).frame other = { pool.frame other with block := block } :=
        BufferPoolManager.frame_setFrame_same inside
      rw [here]
    · unfold BufferPoolManager.setBlock BufferPoolManager.setFrame
      rw [List.set_eq_of_length_le (Nat.le_of_not_lt inside)]
  · exact congrArg Frame.pinCount (BufferPoolManager.frame_setFrame_other same)

theorem setBlock_valid {pool : BufferPoolManager} (valid : pool.Valid) (index : Nat) (block : Block) :
    (pool.setBlock index block).Valid := by
  have frames : SameFrames pool (pool.setBlock index block) := setFrame_sameFrames rfl
  refine ⟨fun asked other located => ?_, fun other => (valid.listed other).trans ?_, valid.positions, valid.lru_nodup,
    valid.free_nodup, fun other free => ?_⟩
  · obtain ⟨bound, named, nonneg⟩ := valid.framed asked other located
    exact ⟨frames.length ▸ bound, (frames.named other).trans named, nonneg⟩
  · rw [setBlock_pinCount]
    exact Iff.rfl
  · exact ⟨frames.length ▸ (valid.free_apart other free).1, (valid.free_apart other free).2⟩

theorem PoolEffect.steady {call : PoolCall} {answer : PoolAnswer} {after : BufferedDisk}
    (effect : PoolEffect storage call answer after) (steady : Steady storage) : Steady after := by
  obtain ⟨valid, next, free⟩ := steady
  cases effect with
  | idle => exact ⟨valid, next, free⟩
  | hit found reframes => exact ⟨reframes.valid, next, free⟩
  | loaded nonneg absent takes installs =>
    exact ⟨installs.valid, takes.acquired.nextPageId ▸ next, takes.acquired.freeList ▸ free⟩
  | created nonneg allocates takes installs file sameNext sameFree =>
    obtain full | ⟨_, _, allocated, -, laterNext, laterFree, -⟩ := Steady.allocate ⟨valid, next, free⟩
    · cases full.symm.trans allocates
    · obtain ⟨-, rfl⟩ := Prod.mk.inj (Except.ok.inj (allocated.symm.trans allocates))
      exact ⟨installs.valid, sameNext ▸ laterNext, sameFree ▸ laterFree⟩
  | lost refused takes => exact ⟨takes.acquired.valid, takes.acquired.nextPageId ▸ next, takes.acquired.freeList ▸ free⟩
  | released found pinned reframes => exact ⟨reframes.valid, next, free⟩
  | flushedPage settled frames => exact ⟨settled.valid, settled.nextPageId ▸ next, settled.freeList ▸ free⟩
  | flushed settled frames => exact ⟨settled.valid, settled.nextPageId ▸ next, settled.freeList ▸ free⟩
  | deleted deletes =>
    refine ⟨deletes.valid, deletes.nextPageId ▸ next, fun pageId inside => ?_⟩
    rw [deletes.freeList] at inside
    split_ifs at inside with negative
    · exact free pageId inside
    · rcases List.mem_cons.mp inside with rfl | old
      · exact Int32.not_lt.mp negative
      · exact free pageId old
  | wrote => exact ⟨setBlock_valid valid _ _, next, free⟩

theorem PoolEffect.stays {call : PoolCall} {answer : PoolAnswer} {after : BufferedDisk}
    (effect : PoolEffect storage call answer after) {asked : PageId} {index : Nat}
    (found : storage.pool.find asked = some index) (pinned : (storage.pool.frame index).pinCount ≠ 0) :
    after.pool.find asked = some index := by
  have taken : ∀ {left : BufferedDisk} {place : Nat}, Takes storage left place → left.pool.find asked = some index :=
    fun takes => (takes.acquired.apart.placed asked index id found pinned).1
  cases effect with
  | idle => exact found
  | hit located reframes => exact (reframes.find asked).trans found
  | loaded nonneg absent takes installs => exact installs.keeps (taken takes)
  | created nonneg allocates takes installs => exact installs.keeps (taken takes)
  | lost refused takes => exact taken takes
  | released located some reframes => exact (reframes.find asked).trans found
  | flushedPage settled => exact (settled.find asked).trans found
  | flushed settled => exact (settled.find asked).trans found
  | deleted deletes =>
    rw [deletes.find, if_neg]
    · exact found
    · rintro rfl
      exact pinned ((pins_some found).symm.trans deletes.unpinned)
  | wrote => exact found

end Effects

/-- A pool with what its clients noted down: the pages NewPage gave out and nobody deleted since,
how often each page was taken and returned since it came into its frame, and which of the new
pages were not changed. -/
structure PoolHistory where
  storage : BufferedDisk
  given : PageId → Bool
  taken : PageId → Nat
  returned : PageId → Nat
  blank : PageId → Bool

namespace PoolHistory

def record (history : PoolHistory) (call : PoolCall) (answer : PoolAnswer) (after : BufferedDisk) : PoolHistory :=
  match call, answer with
  | .newPage, .page pageId _ => {
      storage := after
      given := Function.update history.given pageId true
      taken := Function.update history.taken pageId 1
      returned := Function.update history.returned pageId 0
      blank := Function.update history.blank pageId true }
  | .fetchPage _, .page pageId _ =>
      if (history.storage.pool.find pageId).isSome then { history with
        storage := after
        taken := Function.update history.taken pageId (history.taken pageId + 1) }
      else { history with
        storage := after
        taken := Function.update history.taken pageId 1
        returned := Function.update history.returned pageId 0 }
  | .unpinPage pageId _, .flag true => { history with
      storage := after
      returned := Function.update history.returned pageId (history.returned pageId + 1) }
  | .deletePage pageId, .flag true => { history with
      storage := after
      given := Function.update history.given pageId false
      blank := Function.update history.blank pageId false }
  | .write index _, .done => { history with
      storage := after
      blank := fun pageId => history.blank pageId && decide (history.storage.pool.find pageId ≠ some index) }
  | _, _ => { history with storage := after }

def act (history : PoolHistory) (call : PoolCall) : PoolHistory :=
  history.record call (call.perform history.storage).1 (call.perform history.storage).2

def opened (poolSize : Nat) (file : Bytes) : PoolHistory where
  storage := ⟨BufferPoolManager.new poolSize, DiskManager.openFile file⟩
  given := fun _ => false
  taken := fun _ => 0
  returned := fun _ => 0
  blank := fun _ => false

/-- The file is one that a disk manager can have left: identifiers end at the largest `int32`. -/
def Initial (history : PoolHistory) : Prop :=
  ∃ poolSize file, file.length / pageSize < 2147483648 ∧ history = opened poolSize file

def StepWhen (allowed : PoolHistory → PoolCall → Prop) (history : PoolHistory) (call : PoolCall) (later : PoolHistory) : Prop :=
  allowed history call ∧ history.act call = later

abbrev ReachesWhen (allowed : PoolHistory → PoolCall → Prop) : List PoolHistory → PoolHistory → Prop :=
  Run Initial (StepWhen allowed)

abbrev Reaches : List PoolHistory → PoolHistory → Prop := ReachesWhen fun _ _ => True

theorem ReachesWhen.reaches {allowed : PoolHistory → PoolCall → Prop} {past : List PoolHistory} {history : PoolHistory}
    (run : ReachesWhen allowed past history) : Reaches past history :=
  run.mono fun _ call _ step => ⟨call, trivial, step.2⟩

theorem record_storage (history : PoolHistory) (call : PoolCall) (answer : PoolAnswer) (after : BufferedDisk) :
    (history.record call answer after).storage = after := by
  unfold record
  split
  · rfl
  · split_ifs <;> rfl
  · rfl
  · rfl
  · rfl
  · rfl

theorem record_quiet (history : PoolHistory) (call : PoolCall) {answer : PoolAnswer} (after : BufferedDisk)
    (quiet : answer = .nullptr ∨ answer = .flag false ∨ ∃ error, answer = .thrown error) :
    history.record call answer after = { history with storage := after } := by
  rcases quiet with rfl | rfl | ⟨error, rfl⟩ <;> cases call <;> rfl

theorem record_hit {history : PoolHistory} {asked pageId : PageId} {place : Nat}
    (found : history.storage.pool.find pageId = some place) (index : Nat) (after : BufferedDisk) :
    history.record (.fetchPage asked) (.page pageId index) after = { history with
      storage := after
      taken := Function.update history.taken pageId (history.taken pageId + 1) } := by
  have resident : (history.storage.pool.find pageId).isSome = true := found ▸ rfl
  exact if_pos resident

theorem record_loaded {history : PoolHistory} {asked pageId : PageId} (absent : history.storage.pool.find pageId = none)
    (index : Nat) (after : BufferedDisk) :
    history.record (.fetchPage asked) (.page pageId index) after = { history with
      storage := after
      taken := Function.update history.taken pageId 1
      returned := Function.update history.returned pageId 0 } := by
  have missing : ¬ (history.storage.pool.find pageId).isSome = true := absent ▸ Bool.false_ne_true
  exact if_neg missing

theorem act_effect {history : PoolHistory} (steady : Steady history.storage) (call : PoolCall) :
    ∃ answer after, call.perform history.storage = (answer, after) ∧ history.act call = history.record call answer after ∧
      PoolEffect history.storage call answer after :=
  ⟨_, _, rfl, rfl, perform_effect steady call⟩

theorem steady {past : List PoolHistory} {history : PoolHistory} (run : Reaches past history) : Steady history.storage := by
  refine @Run.invariant _ _ Initial (StepWhen fun _ _ => True) (fun _ state => Steady state.storage) ?_ ?_ _ _ run
  · rintro state ⟨poolSize, file, small, rfl⟩
    exact ⟨valid_new, ofNat_nonneg small, fun _ impossible => absurd impossible List.not_mem_nil⟩
  · rintro past state call later - known ⟨-, rfl⟩
    rw [act, record_storage]
    exact (perform_effect known call).steady known

def actWhen (allowed : PoolHistory → PoolCall → Prop) [∀ history call, Decidable (allowed history call)]
    (history : PoolHistory) (call : PoolCall) : Option PoolHistory :=
  if allowed history call then some (history.act call) else none

theorem replay_reaches {allowed : PoolHistory → PoolCall → Prop} [∀ history call, Decidable (allowed history call)]
    {poolSize : Nat} {calls : List PoolCall} {visited : List PoolHistory × PoolHistory}
    (played : replay (actWhen allowed) (opened poolSize []) calls = some visited) : ReachesWhen allowed visited.1 visited.2 := by
  have fresh : Initial (opened poolSize []) := ⟨poolSize, [], by decide, rfl⟩
  have run := Run.append_replay (.start fresh) played
  rw [List.append_nil] at run
  refine run.mono fun history call later moved => ⟨call, ?_⟩
  unfold actWhen at moved
  split_ifs at moved with allows
  exact ⟨allows, Option.some.inj moved⟩

end PoolHistory

end QuorumDB.Storage
