import QuorumDB.Storage.BufferPool

/-!
What the pool and the disk hold together: the bytes of a page are those of its frame,
or those of the file when it has none. An operation on one page leaves every other
page that is in order as it was, whatever it evicts.
-/

namespace QuorumDB.Storage

namespace BufferPoolManager

variable {pool : BufferPoolManager} {index other : Nat} {pageId : PageId}

theorem frame_setFrame_same {frame : Frame} (inside : index < pool.frames.length) :
    (pool.setFrame index frame).frame index = frame := by
  rw [BufferPoolManager.frame, setFrame, List.getD_eq_getElem?_getD, List.getElem?_set_self inside,
    Option.getD_some]

theorem frame_setFrame_other {frame : Frame} (different : other ≠ index) :
    (pool.setFrame index frame).frame other = pool.frame other := by
  rw [BufferPoolManager.frame, setFrame, List.getD_eq_getElem?_getD, List.getElem?_set_ne different.symm,
    ← List.getD_eq_getElem?_getD]
  rfl

theorem find_emplace (absent : pool.find pageId = none) (asked : PageId) :
    (pool.emplace pageId index).find asked = if asked = pageId then some index else pool.find asked := by
  unfold emplace
  rw [absent, Option.isSome_none, if_neg Bool.false_ne_true]
  unfold find
  by_cases same : asked = pageId
  · subst same
    simp
  · rw [List.find?_cons_of_neg (by simpa using Ne.symm same), if_neg same]

theorem find_erase (asked : PageId) :
    (pool.erase pageId).find asked = if asked = pageId then none else pool.find asked := by
  unfold find erase
  by_cases same : asked = pageId
  · subst same
    rw [if_pos rfl, List.find?_filter, Option.map_eq_none_iff, List.find?_eq_none]
    simp
  · rw [if_neg same, List.find?_filter]
    congr 2
    funext entry
    by_cases here : entry.1 = asked
    · simp [here, same]
    · simp [here]

structure Valid (pool : BufferPoolManager) : Prop where
  framed : ∀ pageId index, pool.find pageId = some index →
    index < pool.frames.length ∧ (pool.frame index).pageId = pageId ∧ 0 ≤ pageId
  listed : ∀ index, index ∈ pool.lru ↔
    ∃ pageId, pool.find pageId = some index ∧ (pool.frame index).pinCount = 0
  positions : ∀ index, pool.lruPositions index = true ↔ index ∈ pool.lru
  lru_nodup : pool.lru.Nodup
  free_nodup : pool.freeFrames.Nodup
  free_apart : ∀ index ∈ pool.freeFrames, index < pool.frames.length ∧ ∀ pageId, pool.find pageId ≠ some index

def Available (pool : BufferPoolManager) : Prop := pool.freeFrames ≠ [] ∨ pool.lru ≠ []

theorem not_available {pool : BufferPoolManager} (free : pool.freeFrames = []) (lru : pool.lru = []) : ¬ pool.Available :=
  fun available => available.elim (fun some => some free) fun some => some lru

theorem Valid.inj (valid : pool.Valid) {first second : PageId} (one : pool.find first = some index)
    (two : pool.find second = some index) : first = second := by
  rw [← (valid.framed _ _ one).2.1, (valid.framed _ _ two).2.1]

theorem removeFromLru_cases (positions : ∀ index, pool.lruPositions index = true ↔ index ∈ pool.lru)
    (distinct : pool.lru.Nodup) (index : Nat) :
    ∃ lruPositions, pool.removeFromLru index =
        { pool with lru := pool.lru.erase index, lruPositions := lruPositions } ∧
      ∀ other, lruPositions other = true ↔ other ∈ pool.lru.erase index := by
  unfold removeFromLru
  by_cases present : pool.lruPositions index = true
  · rw [if_pos present]
    refine ⟨_, rfl, fun other => ?_⟩
    rw [distinct.mem_erase_iff]
    by_cases same : other = index
    · simp [same]
    · rw [Function.update_of_ne same, positions]
      exact ⟨fun listed => ⟨same, listed⟩, fun both => both.2⟩
  · rw [if_neg present]
    have absent : index ∉ pool.lru := fun listed => present ((positions index).mpr listed)
    rw [List.erase_of_not_mem absent]
    exact ⟨_, rfl, positions⟩

theorem addToLru_cases (positions : ∀ index, pool.lruPositions index = true ↔ index ∈ pool.lru)
    (absent : index ∉ pool.lru) :
    ∃ lruPositions, pool.addToLru index =
        { pool with lru := index :: pool.lru, lruPositions := lruPositions } ∧
      ∀ other, lruPositions other = true ↔ other ∈ index :: pool.lru := by
  unfold addToLru
  rw [if_neg fun present => absent ((positions index).mp present)]
  refine ⟨_, rfl, fun other => ?_⟩
  by_cases same : other = index
  · simp [same]
  · rw [Function.update_of_ne same, positions, List.mem_cons]
    simp [same]

end BufferPoolManager

namespace BufferedDisk

open BufferPoolManager

def content (storage : BufferedDisk) (pageId : PageId) : Block :=
  match storage.pool.find pageId with
  | some index => (storage.pool.frame index).block
  | none => storage.disk.stored pageId

def pins (storage : BufferedDisk) (pageId : PageId) : Nat :=
  match storage.pool.find pageId with
  | some index => (storage.pool.frame index).pinCount
  | none => 0

/-- A page in a frame that is not dirty is in the file as it is. -/
def Clean (storage : BufferedDisk) (pageId : PageId) : Prop :=
  ∀ index, storage.pool.find pageId = some index → (storage.pool.frame index).isDirty = false →
    (storage.pool.frame index).block = storage.disk.stored pageId

/-- Between the two states nothing happened to the pages that were not touched. -/
structure Apart (touched : PageId → Prop) (before after : BufferedDisk) : Prop where
  content : ∀ other, 0 ≤ other → ¬ touched other → before.Clean other →
    after.content other = before.content other ∧ after.Clean other
  pins : ∀ other, ¬ touched other → after.pins other = before.pins other
  absent : ∀ other, ¬ touched other → before.pool.find other = none → after.pool.find other = none
  placed : ∀ other index, ¬ touched other → before.pool.find other = some index →
    (before.pool.frame index).pinCount ≠ 0 →
      after.pool.find other = some index ∧ after.pool.frame index = before.pool.frame index

theorem Apart.trans {touched : PageId → Prop} {first second third : BufferedDisk}
    (one : Apart touched first second) (two : Apart touched second third) : Apart touched first third := by
  refine ⟨fun other valid different clean => ?_, fun other different => ?_, fun other different gone => ?_,
    fun other index different found pinned => ?_⟩
  · obtain ⟨same, kept⟩ := one.content other valid different clean
    obtain ⟨again, last⟩ := two.content other valid different kept
    exact ⟨again.trans same, last⟩
  · exact (two.pins other different).trans (one.pins other different)
  · exact two.absent other different (one.absent other different gone)
  · obtain ⟨located, frame⟩ := one.placed other index different found pinned
    obtain ⟨again, last⟩ := two.placed other index different located (by rw [frame]; exact pinned)
    exact ⟨again, last.trans frame⟩

theorem Apart.mono {touched wider : PageId → Prop} {before after : BufferedDisk}
    (apart : Apart touched before after) (more : ∀ pageId, touched pageId → wider pageId) :
    Apart wider before after :=
  ⟨fun other valid different => apart.content other valid fun here => different (more other here),
    fun other different => apart.pins other fun here => different (more other here),
    fun other different => apart.absent other fun here => different (more other here),
    fun other index different => apart.placed other index fun here => different (more other here)⟩

theorem content_of_same {before after : BufferedDisk} {pageId : PageId}
    (find : after.pool.find pageId = before.pool.find pageId)
    (frame : ∀ index, before.pool.find pageId = some index → after.pool.frame index = before.pool.frame index)
    (stored : after.disk.stored pageId = before.disk.stored pageId) : after.content pageId = before.content pageId := by
  unfold BufferedDisk.content
  rw [find, stored]
  cases found : before.pool.find pageId with
  | none => rfl
  | some index => exact congrArg Frame.block (frame index found)

theorem Apart.of_same {touched : PageId → Prop} {before after : BufferedDisk}
    (find : ∀ other, ¬ touched other → after.pool.find other = before.pool.find other)
    (frame : ∀ other index, ¬ touched other → before.pool.find other = some index →
      after.pool.frame index = before.pool.frame index)
    (stored : ∀ other, 0 ≤ other → ¬ touched other → after.disk.stored other = before.disk.stored other) :
    Apart touched before after := by
  refine ⟨fun other valid different clean => ?_, fun other different => ?_,
    fun other different => (find other different).trans,
    fun other index different found _ => ⟨(find other different).trans found, frame other index different found⟩⟩
  · have located := find other different
    have kept := stored other valid different
    refine ⟨content_of_same located (fun index => frame other index different) kept, fun index found notDirty => ?_⟩
    rw [located] at found
    rw [frame other index different found] at notDirty ⊢
    rw [kept]
    exact clean index found notDirty
  · unfold BufferedDisk.pins
    rw [find other different]
    cases found : before.pool.find other with
    | none => rfl
    | some index =>
      simp only
      rw [frame other index different found]

structure Dropped (before after : BufferPoolManager) (pageId : PageId) (index : Nat) : Prop where
  find : ∀ asked, after.find asked = if asked = pageId then none else before.find asked
  frame : ∀ other, other ≠ index → after.frame other = before.frame other
  length : after.frames.length = before.frames.length
  lru : after.lru = before.lru.erase index
  positions : ∀ other, after.lruPositions other = true ↔ other ∈ after.lru

theorem Dropped.valid {before after : BufferPoolManager} {pageId : PageId} {index : Nat}
    (dropped : Dropped before after pageId index) (valid : before.Valid)
    (found : before.find pageId = some index)
    (free : after.freeFrames = before.freeFrames ∨ after.freeFrames = index :: before.freeFrames) :
    after.Valid := by
  have others : ∀ asked other, after.find asked = some other →
      before.find asked = some other ∧ other ≠ index := by
    intro asked other located
    rw [dropped.find] at located
    by_cases same : asked = pageId
    · rw [if_pos same] at located
      cases located
    · rw [if_neg same] at located
      refine ⟨located, fun here => same ?_⟩
      subst here
      exact valid.inj located found
  refine ⟨?_, ?_, dropped.positions, ?_, ?_, ?_⟩
  · intro asked other located
    obtain ⟨earlier, different⟩ := others asked other located
    rw [dropped.length, dropped.frame other different]
    exact valid.framed asked other earlier
  · intro other
    rw [dropped.lru, valid.lru_nodup.mem_erase_iff, valid.listed]
    constructor
    · rintro ⟨different, asked, located, unpinned⟩
      refine ⟨asked, ?_, by rw [dropped.frame other different]; exact unpinned⟩
      rw [dropped.find, if_neg]
      · exact located
      · intro same
        subst same
        exact different (Option.some.inj (located.symm.trans found))
    · rintro ⟨asked, located, unpinned⟩
      obtain ⟨earlier, different⟩ := others asked other located
      rw [dropped.frame other different] at unpinned
      exact ⟨different, asked, earlier, unpinned⟩
  · rw [dropped.lru]
    exact valid.lru_nodup.erase index
  · rcases free with same | added
    · rw [same]
      exact valid.free_nodup
    · rw [added, List.nodup_cons]
      exact ⟨fun inside => (valid.free_apart index inside).2 pageId found, valid.free_nodup⟩
  · intro other inside
    have loose : ∀ asked, other = index ∨ other ∈ before.freeFrames → after.find asked ≠ some other := by
      intro asked either located
      obtain ⟨earlier, different⟩ := others asked other located
      rcases either with same | old
      · exact different same
      · exact (valid.free_apart other old).2 asked earlier
    rw [dropped.length]
    rcases free with same | added
    · rw [same] at inside
      exact ⟨(valid.free_apart other inside).1, fun asked => loose asked (.inr inside)⟩
    · rw [added] at inside
      rcases List.mem_cons.mp inside with rfl | old
      · exact ⟨(valid.framed pageId other found).1, fun asked => loose asked (.inl rfl)⟩
      · exact ⟨(valid.free_apart other old).1, fun asked => loose asked (.inr old)⟩

/-- A frame that belongs to no page and is on no list. -/
structure Acquired (before after : BufferedDisk) (index : Nat) : Prop where
  valid : after.pool.Valid
  inside : index < after.pool.frames.length
  loose : ∀ pageId, after.pool.find pageId ≠ some index
  busy : index ∉ after.pool.freeFrames
  apart : Apart (fun _ => False) before after
  nextPageId : after.disk.nextPageId = before.disk.nextPageId
  freeList : after.disk.freeList = before.disk.freeList

theorem dropped_erase {pool removed : BufferPoolManager} {pageId : PageId} {index : Nat}
    (shape : ∃ lruPositions, removed = { pool with lru := pool.lru.erase index, lruPositions := lruPositions } ∧
      ∀ other, lruPositions other = true ↔ other ∈ pool.lru.erase index) :
    Dropped pool ((removed.erase pageId).resetFrame index) pageId index := by
  obtain ⟨lruPositions, rfl, positions⟩ := shape
  exact ⟨find_erase, fun other different => frame_setFrame_other different, List.length_set, rfl, positions⟩

theorem Dropped.apart {before after : BufferedDisk} {pageId : PageId} {index : Nat}
    (dropped : Dropped before.pool after.pool pageId index) (valid : before.pool.Valid)
    (found : before.pool.find pageId = some index) (unpinned : (before.pool.frame index).pinCount = 0)
    (saved : before.Clean pageId → after.disk.stored pageId = (before.pool.frame index).block)
    (stored : ∀ other, 0 ≤ other → other ≠ pageId → after.disk.stored other = before.disk.stored other) :
    Apart (fun _ => False) before after := by
  have gone : after.pool.find pageId = none := by rw [dropped.find, if_pos rfl]
  have rest : Apart (fun other => other = pageId) before after := by
    refine .of_same (fun other different => ?_) (fun other place different located => ?_) stored
    · rw [dropped.find, if_neg different]
    · apply dropped.frame
      intro same
      subst same
      exact different (valid.inj located found)
  refine ⟨fun other nonneg _ clean => ?_, fun other _ => ?_, fun other _ absent => ?_,
    fun other place _ located pinned => ?_⟩
  · by_cases same : other = pageId
    · subst same
      refine ⟨?_, fun place located => ?_⟩
      · unfold BufferedDisk.content
        rw [gone, found]
        exact saved clean
      · rw [gone] at located
        cases located
    · exact rest.content other nonneg same clean
  · by_cases same : other = pageId
    · subst same
      unfold BufferedDisk.pins
      rw [gone, found]
      exact unpinned.symm
    · exact rest.pins other same
  · rw [dropped.find, absent, ite_self]
  · have different : other ≠ pageId := by
      intro same
      rw [same, found] at located
      rw [← Option.some.inj located] at pinned
      exact pinned unpinned
    exact rest.placed other place different located pinned

theorem Dropped.acquired {before after : BufferedDisk} {pageId : PageId} {index : Nat}
    (dropped : Dropped before.pool after.pool pageId index) (valid : before.pool.Valid)
    (found : before.pool.find pageId = some index) (unpinned : (before.pool.frame index).pinCount = 0)
    (free : after.pool.freeFrames = before.pool.freeFrames)
    (saved : before.Clean pageId → after.disk.stored pageId = (before.pool.frame index).block)
    (stored : ∀ other, 0 ≤ other → other ≠ pageId → after.disk.stored other = before.disk.stored other)
    (nextPageId : after.disk.nextPageId = before.disk.nextPageId)
    (freeList : after.disk.freeList = before.disk.freeList) : Acquired before after index := by
  refine ⟨dropped.valid valid found (.inl free), ?_, fun asked located => ?_, ?_,
    dropped.apart valid found unpinned saved stored, nextPageId, freeList⟩
  · rw [dropped.length]
    exact (valid.framed pageId index found).1
  · rw [dropped.find] at located
    by_cases same : asked = pageId
    · rw [if_pos same] at located
      cases located
    · rw [if_neg same] at located
      exact same (valid.inj located found)
  · rw [free]
    exact fun inside => (valid.free_apart index inside).2 pageId found

/-- What taking a frame for a page to come does: the frame leaves its list, and its page leaves it. -/
structure Takes (before after : BufferedDisk) (index : Nat) : Prop where
  acquired : Acquired before after index
  source : index ∈ before.pool.freeFrames ∨ before.pool.freeFrames = [] ∧ before.pool.lru.getLast? = some index
  find : ∀ asked, after.pool.find asked = if before.pool.find asked = some index then none else before.pool.find asked
  frame : ∀ other, other ≠ index → after.pool.frame other = before.pool.frame other
  vacant : after.pool.frame index = Frame.fresh ∨
    index ∈ before.pool.freeFrames ∧ after.pool.frame index = before.pool.frame index
  length : after.pool.frames.length = before.pool.frames.length
  free : ∀ other, other ∈ after.pool.freeFrames ↔ other ∈ before.pool.freeFrames ∧ other ≠ index
  content : ∀ asked, 0 ≤ asked → (before.pool.find asked = some index → before.Clean asked) →
    after.content asked = before.content asked

theorem evict_takes {storage : BufferedDisk} (valid : storage.pool.Valid) {index : Nat}
    (none : storage.pool.freeFrames = []) (last : storage.pool.lru.getLast? = some index) :
    ∃ after, evict index storage = (.ok index, after) ∧ Takes storage after index := by
  obtain ⟨pageId, found, unpinned⟩ := (valid.listed index).mp (List.mem_of_getLast? last)
  obtain ⟨inside, named, nonneg⟩ := valid.framed pageId index found
  have removed := removeFromLru_cases valid.positions valid.lru_nodup index
  have dropped := @dropped_erase storage.pool (storage.pool.removeFromLru index) pageId index removed
  obtain ⟨lruPositions, shape, -⟩ := removed
  have free : ((storage.pool.removeFromLru index).erase pageId |>.resetFrame index).freeFrames =
      storage.pool.freeFrames := by
    rw [shape]
    rfl
  have fresh : ((storage.pool.removeFromLru index).erase pageId |>.resetFrame index).frame index = Frame.fresh := by
    apply frame_setFrame_same
    rw [shape]
    exact inside
  -- what the two branches do to the file is all that differs between them
  have takes : ∀ disk : DiskManager, (storage.Clean pageId → disk.stored pageId = (storage.pool.frame index).block) →
      (∀ other, 0 ≤ other → other ≠ pageId → disk.stored other = storage.disk.stored other) →
      disk.nextPageId = storage.disk.nextPageId → disk.freeList = storage.disk.freeList →
      Takes storage ⟨(storage.pool.removeFromLru index).erase pageId |>.resetFrame index, disk⟩ index := by
    intro disk saved others next list
    refine ⟨Dropped.acquired dropped valid found unpinned free saved others next list, .inr ⟨none, last⟩, fun asked => ?_,
      dropped.frame, .inl fresh, dropped.length, fun other => ?_, fun asked asked_nonneg clean => ?_⟩
    · refine (dropped.find asked).trans ?_
      by_cases same : asked = pageId
      · rw [if_pos same, same, if_pos found]
      · rw [if_neg same, if_neg fun here => same (valid.inj here found)]
    · rw [free, none]
      exact ⟨fun impossible => absurd impossible List.not_mem_nil, fun both => absurd both.1 List.not_mem_nil⟩
    · by_cases same : asked = pageId
      · subst same
        exact ((dropped.apart valid found unpinned saved others).content asked asked_nonneg id (clean found)).1
      · refine content_of_same ?_ (fun place located => dropped.frame place ?_) (others asked asked_nonneg same)
        · exact (dropped.find asked).trans (if_neg same)
        · intro here
          subst here
          exact same (valid.inj located found)
  unfold evict
  rw [named]
  cases dirty : (storage.pool.frame index).isDirty with
  | true =>
    obtain ⟨disk, wrote, next, list, same, others⟩ :=
      @DiskManager.writePage_eq storage.disk _ (storage.pool.frame index).block nonneg
    simp only [↓reduceIte, wrote]
    exact ⟨_, rfl, takes disk (fun _ => same) others next list⟩
  | false =>
    simp only [Bool.false_eq_true, ↓reduceIte]
    exact ⟨_, rfl, takes storage.disk (fun clean => (clean index found dirty).symm) (fun _ _ _ => rfl) rfl rfl⟩

theorem acquireFrame_takes {storage : BufferedDisk} (valid : storage.pool.Valid)
    (available : storage.pool.Available) :
    ∃ index after, acquireFrame storage = (.ok index, after) ∧ Takes storage after index := by
  unfold acquireFrame
  cases free : storage.pool.freeFrames with
  | cons index rest =>
    have distinct := valid.free_nodup
    rw [free] at distinct
    obtain ⟨absent, distinct⟩ := List.nodup_cons.mp distinct
    have member : index ∈ storage.pool.freeFrames := by
      rw [free]
      exact List.mem_cons_self
    have here := valid.free_apart index member
    have same : Apart (fun _ => False) storage (storage.withPool { storage.pool with freeFrames := rest }) :=
      .of_same (fun _ _ => rfl) (fun _ _ _ _ => rfl) fun _ _ _ => rfl
    refine ⟨index, _, rfl, ⟨⟨valid.framed, valid.listed, valid.positions, valid.lru_nodup, distinct, ?_⟩, here.1, here.2,
      absent, same, rfl, rfl⟩, .inl member, fun asked => ?_, fun _ _ => rfl, .inr ⟨member, rfl⟩, rfl, fun other => ?_,
      fun _ _ _ => rfl⟩
    · exact fun other inside => valid.free_apart other (by rw [free]; exact List.mem_cons_of_mem _ inside)
    · rw [if_neg (here.2 asked)]
      rfl
    · rw [free]
      constructor
      · exact fun inside => ⟨List.mem_cons_of_mem _ inside, fun equal => absent (equal ▸ inside)⟩
      · rintro ⟨inside, different⟩
        exact (List.mem_cons.mp inside).resolve_left different
  | nil =>
    cases last : storage.pool.lru.getLast? with
    | none =>
      rw [List.getLast?_eq_none_iff] at last
      exact absurd available (by simp [Available, free, last])
    | some index =>
      obtain ⟨after, ran, takes⟩ := evict_takes valid free last
      exact ⟨index, after, ran, takes⟩

theorem acquireFrame_spec {storage : BufferedDisk} (valid : storage.pool.Valid)
    (available : storage.pool.Available) :
    ∃ index after, acquireFrame storage = (.ok index, after) ∧ Acquired storage after index := by
  obtain ⟨index, after, ran, takes⟩ := acquireFrame_takes valid available
  exact ⟨index, after, ran, takes.acquired⟩

/-- The pool after page `pageId` was pinned in the frame `index`, its only holder. -/
structure Pinned (before after : BufferPoolManager) (pageId : PageId) (index : Nat) : Prop where
  find : ∀ asked, after.find asked = if asked = pageId then some index else before.find asked
  frame : ∀ other, other ≠ index → after.frame other = before.frame other
  named : (after.frame index).pageId = pageId
  count : (after.frame index).pinCount = 1
  length : after.frames.length = before.frames.length
  lru : after.lru = before.lru.erase index
  positions : ∀ other, after.lruPositions other = true ↔ other ∈ after.lru
  free : after.freeFrames = before.freeFrames

theorem Pinned.valid {before after : BufferPoolManager} {pageId : PageId} {index : Nat}
    (pinned : Pinned before after pageId index) (valid : before.Valid) (nonneg : 0 ≤ pageId)
    (inside : index < before.frames.length) (busy : index ∉ before.freeFrames)
    (own : before.find pageId = none ∨ before.find pageId = some index)
    (loose : ∀ asked, asked ≠ pageId → before.find asked ≠ some index) : after.Valid := by
  have cases : ∀ asked other, after.find asked = some other →
      (asked = pageId ∧ other = index) ∨ (asked ≠ pageId ∧ other ≠ index ∧ before.find asked = some other) := by
    intro asked other located
    rw [pinned.find] at located
    by_cases same : asked = pageId
    · rw [if_pos same] at located
      exact .inl ⟨same, (Option.some.inj located).symm⟩
    · rw [if_neg same] at located
      exact .inr ⟨same, fun here => loose asked same (here ▸ located), located⟩
  refine ⟨?_, ?_, pinned.positions, ?_, ?_, ?_⟩
  · intro asked other located
    rw [pinned.length]
    rcases cases asked other located with ⟨rfl, rfl⟩ | ⟨-, different, earlier⟩
    · exact ⟨inside, pinned.named, nonneg⟩
    · rw [pinned.frame other different]
      exact valid.framed asked other earlier
  · intro other
    rw [pinned.lru, valid.lru_nodup.mem_erase_iff, valid.listed]
    constructor
    · rintro ⟨different, asked, located, unpinned⟩
      refine ⟨asked, ?_, by rw [pinned.frame other different]; exact unpinned⟩
      rw [pinned.find, if_neg]
      · exact located
      · intro same
        subst same
        rcases own with absent | here
        · rw [absent] at located
          cases located
        · exact different (Option.some.inj (located.symm.trans here))
    · rintro ⟨asked, located, unpinned⟩
      rcases cases asked other located with ⟨rfl, rfl⟩ | ⟨-, different, earlier⟩
      · rw [pinned.count] at unpinned
        cases unpinned
      · rw [pinned.frame other different] at unpinned
        exact ⟨different, asked, earlier, unpinned⟩
  · rw [pinned.lru]
    exact valid.lru_nodup.erase index
  · rw [pinned.free]
    exact valid.free_nodup
  · rw [pinned.free, pinned.length]
    intro other free
    refine ⟨(valid.free_apart other free).1, fun asked located => ?_⟩
    rcases cases asked other located with ⟨rfl, rfl⟩ | ⟨-, -, earlier⟩
    · exact busy free
    · exact (valid.free_apart other free).2 asked earlier

/-- A page held in a frame by one pin, ready to be read or changed. -/
structure Held (before after : BufferedDisk) (pageId : PageId) (index : Nat) : Prop where
  valid : after.pool.Valid
  found : after.pool.find pageId = some index
  count : (after.pool.frame index).pinCount = 1
  block : (after.pool.frame index).block = before.content pageId
  clean : before.Clean pageId → after.Clean pageId
  apart : Apart (fun other => other = pageId) before after
  nextPageId : after.disk.nextPageId = before.disk.nextPageId
  freeList : after.disk.freeList = before.disk.freeList

theorem pin_pinned {pool : BufferPoolManager} (valid : pool.Valid) {pageId : PageId} {index : Nat}
    (found : pool.find pageId = some index) (unpinned : (pool.frame index).pinCount = 0) :
    Pinned pool (pool.pin index) pageId index ∧
      ((pool.pin index).frame index).block = (pool.frame index).block ∧
      ((pool.pin index).frame index).isDirty = (pool.frame index).isDirty := by
  obtain ⟨inside, named, -⟩ := valid.framed pageId index found
  obtain ⟨lruPositions, removed, positions⟩ := removeFromLru_cases valid.positions valid.lru_nodup index
  have shape : pool.pin index = { pool with
      frames := pool.frames.set index { pool.frame index with pinCount := (pool.frame index).pinCount + 1 }
      lru := pool.lru.erase index
      lruPositions := lruPositions } := by
    unfold pin
    rw [if_pos unpinned, removed]
    rfl
  have here : (pool.pin index).frame index =
      { pool.frame index with pinCount := (pool.frame index).pinCount + 1 } := by
    rw [shape]
    exact @frame_setFrame_same pool index _ inside
  refine ⟨⟨fun asked => ?_, fun other different => ?_, ?_, ?_, ?_, ?_, ?_, ?_⟩, ?_, ?_⟩
  · rw [shape]
    change pool.find asked = _
    by_cases same : asked = pageId
    · rw [same, found, if_pos rfl]
    · rw [if_neg same]
  · rw [shape]
    exact @frame_setFrame_other pool index other _ different
  · rw [here]
    exact named
  · rw [here]
    change (pool.frame index).pinCount + 1 = 1
    rw [unpinned]
  · rw [shape]
    exact List.length_set
  · rw [shape]
  · rw [shape]
    exact positions
  · rw [shape]
  · rw [here]
  · rw [here]

theorem install_pinned {pool : BufferPoolManager} (valid : pool.Valid) {pageId : PageId} {index : Nat}
    (absent : pool.find pageId = none) (inside : index < pool.frames.length)
    (loose : ∀ asked, pool.find asked ≠ some index) (block : Block) :
    Pinned pool (pool.install index pageId block) pageId index ∧
      (pool.install index pageId block).frame index = ⟨block, pageId, 1, false⟩ := by
  have shape : pool.install index pageId block = { pool with
      frames := pool.frames.set index ⟨block, pageId, 1, false⟩
      pageTable := (pageId, index) :: pool.pageTable } := by
    unfold install emplace
    have still : (pool.setFrame index ⟨block, pageId, 1, false⟩).find pageId = none := absent
    rw [still, Option.isSome_none, if_neg Bool.false_ne_true]
    rfl
  have here : (pool.install index pageId block).frame index = ⟨block, pageId, 1, false⟩ := by
    rw [shape]
    exact @frame_setFrame_same pool index _ inside
  have outside : index ∉ pool.lru := by
    intro listed
    obtain ⟨asked, located, -⟩ := (valid.listed index).mp listed
    exact loose asked located
  refine ⟨⟨fun asked => ?_, fun other different => ?_, ?_, ?_, ?_, ?_, ?_, ?_⟩, here⟩
  · exact @find_emplace (pool.setFrame index ⟨block, pageId, 1, false⟩) index pageId absent asked
  · rw [shape]
    exact @frame_setFrame_other pool index other _ different
  · rw [here]
  · rw [here]
  · rw [shape]
    exact List.length_set
  · rw [shape, List.erase_of_not_mem outside]
  · rw [shape]
    exact valid.positions
  · rw [shape]

theorem Pinned.apart {before after : BufferedDisk} {pageId : PageId} {index : Nat}
    (pinned : Pinned before.pool after.pool pageId index)
    (loose : ∀ asked, asked ≠ pageId → before.pool.find asked ≠ some index)
    (disk : after.disk.file = before.disk.file) : Apart (fun other => other = pageId) before after := by
  refine .of_same (fun other different => ?_) (fun other place different located => ?_) fun other _ _ => ?_
  · rw [pinned.find, if_neg different]
  · apply pinned.frame
    intro same
    subst same
    exact loose other different located
  · simp only [DiskManager.stored, disk]

theorem fetchPage_spec {storage : BufferedDisk} (valid : storage.pool.Valid)
    (available : storage.pool.Available) {pageId : PageId} (nonneg : 0 ≤ pageId)
    (unpinned : storage.pins pageId = 0) :
    ∃ index after, fetchPage pageId storage = (.ok (some index), after) ∧ Held storage after pageId index := by
  have real : pageId ≠ invalidPageId := by
    intro same
    rw [same] at nonneg
    exact absurd nonneg (by decide)
  unfold fetchPage
  rw [if_neg real]
  cases found : storage.pool.find pageId with
  | some index =>
    have zero : (storage.pool.frame index).pinCount = 0 := by
      unfold BufferedDisk.pins at unpinned
      rw [found] at unpinned
      exact unpinned
    obtain ⟨inside, -, -⟩ := valid.framed pageId index found
    obtain ⟨pinned, block, dirty⟩ := pin_pinned valid found zero
    have loose : ∀ asked, asked ≠ pageId → storage.pool.find asked ≠ some index :=
      fun asked different located => different (valid.inj located found)
    have located : (storage.pool.pin index).find pageId = some index := by rw [pinned.find, if_pos rfl]
    refine ⟨index, _, rfl, pinned.valid valid nonneg inside ?_ (.inr found) loose, located, pinned.count, ?_, ?_,
      @Pinned.apart storage (storage.withPool _) pageId index pinned loose rfl, rfl, rfl⟩
    · exact fun free => (valid.free_apart index free).2 pageId found
    · unfold BufferedDisk.content
      rw [found]
      exact block
    · intro clean place here notDirty
      have same : place = index := Option.some.inj (here.symm.trans located)
      subst same
      change ((storage.pool.pin place).frame place).isDirty = false at notDirty
      change ((storage.pool.pin place).frame place).block = _
      rw [dirty] at notDirty
      rw [block]
      exact clean place found notDirty
  | none =>
    obtain ⟨index, left, ran, acquired⟩ := acquireFrame_spec valid available
    have inside := acquired.inside
    have absent := acquired.apart.absent pageId id found
    obtain ⟨pinned, here⟩ := install_pinned acquired.valid absent inside acquired.loose (left.disk.stored pageId)
    have loose : ∀ asked, asked ≠ pageId → left.pool.find asked ≠ some index := fun asked _ => acquired.loose asked
    have located : (left.pool.install index pageId (left.disk.stored pageId)).find pageId = some index := by
      rw [pinned.find, if_pos rfl]
    simp only [ran, if_neg (Nat.ne_of_lt inside), DiskManager.readPage_eq nonneg]
    refine ⟨index, _, rfl, pinned.valid acquired.valid nonneg inside acquired.busy (.inl absent) loose, located,
      pinned.count, ?_, ?_, ?_, acquired.nextPageId, acquired.freeList⟩
    · have vacuous : storage.Clean pageId := fun place located => by
        rw [found] at located
        cases located
      have same := (acquired.apart.content pageId nonneg id vacuous).1
      unfold BufferedDisk.content at same
      rw [absent] at same
      change ((left.pool.install index pageId (left.disk.stored pageId)).frame index).block = _
      rw [here]
      exact same
    · intro _ place at_place notDirty
      have same : place = index := Option.some.inj (at_place.symm.trans located)
      subst same
      change ((left.pool.install place pageId (left.disk.stored pageId)).frame place).block = _
      rw [here]
      rfl
    · exact (acquired.apart.mono fun _ impossible => impossible.elim).trans
        (@Pinned.apart left (left.withPool _) pageId index pinned loose rfl)

theorem reframe_spec {storage : BufferedDisk} {pageId : PageId} {index : Nat} (valid : storage.pool.Valid)
    (found : storage.pool.find pageId = some index) {frame : Frame}
    (named : frame.pageId = (storage.pool.frame index).pageId)
    (pinned : frame.pinCount = 0 ↔ (storage.pool.frame index).pinCount = 0) :
    (storage.pool.setFrame index frame).Valid ∧ (storage.pool.setFrame index frame).frame index = frame ∧
      Apart (fun other => other = pageId) storage (storage.withPool (storage.pool.setFrame index frame)) := by
  obtain ⟨inside, -, -⟩ := valid.framed pageId index found
  have here : (storage.pool.setFrame index frame).frame index = frame := frame_setFrame_same inside
  have others : ∀ other, other ≠ index → (storage.pool.setFrame index frame).frame other = storage.pool.frame other :=
    fun other different => frame_setFrame_other different
  have fields : ∀ other, ((storage.pool.setFrame index frame).frame other).pageId = (storage.pool.frame other).pageId ∧
      (((storage.pool.setFrame index frame).frame other).pinCount = 0 ↔ (storage.pool.frame other).pinCount = 0) := by
    intro other
    by_cases same : other = index
    · subst same
      rw [here]
      exact ⟨named, pinned⟩
    · rw [others other same]
      exact ⟨rfl, Iff.rfl⟩
  have length : (storage.pool.setFrame index frame).frames.length = storage.pool.frames.length := List.length_set
  refine ⟨⟨?_, ?_, valid.positions, valid.lru_nodup, valid.free_nodup, ?_⟩, here, ?_⟩
  · intro asked other located
    have old := valid.framed asked other located
    refine ⟨length ▸ old.1, ?_, old.2.2⟩
    exact (fields other).1.trans old.2.1
  · intro other
    refine (valid.listed other).trans ?_
    constructor
    · rintro ⟨asked, located, unpinned⟩
      exact ⟨asked, located, (fields other).2.mpr unpinned⟩
    · rintro ⟨asked, located, unpinned⟩
      exact ⟨asked, located, (fields other).2.mp unpinned⟩
  · exact fun other free => ⟨length ▸ (valid.free_apart other free).1, (valid.free_apart other free).2⟩
  · refine .of_same (fun _ _ => rfl) (fun other place different located => ?_) fun _ _ _ => rfl
    apply others
    intro same
    subst same
    exact different (valid.inj located found)

/-- One frame changed, still with the same page, and the lists follow its pin count. -/
structure Reframes (before after : BufferPoolManager) (index : Nat) (frame : Frame) : Prop where
  valid : after.Valid
  find : ∀ asked, after.find asked = before.find asked
  here : after.frame index = frame
  others : ∀ other, other ≠ index → after.frame other = before.frame other
  free : after.freeFrames = before.freeFrames
  length : after.frames.length = before.frames.length

theorem Reframes.apart {storage : BufferedDisk} {after : BufferPoolManager} {pageId : PageId} {index : Nat} {frame : Frame}
    (reframes : Reframes storage.pool after index frame) (valid : storage.pool.Valid)
    (found : storage.pool.find pageId = some index) :
    Apart (fun other => other = pageId) storage (storage.withPool after) := by
  refine .of_same (fun other _ => reframes.find other) (fun other place different located => ?_) fun _ _ _ => rfl
  apply reframes.others
  intro same
  subst same
  exact different (valid.inj located found)

section Reframed

variable {pool : BufferPoolManager} {pageId : PageId} {index : Nat}

theorem setFrame_reframes (valid : pool.Valid) (found : pool.find pageId = some index) {frame : Frame}
    (named : frame.pageId = (pool.frame index).pageId) (pinned : frame.pinCount = 0 ↔ (pool.frame index).pinCount = 0) :
    Reframes pool (pool.setFrame index frame) index frame := by
  obtain ⟨kept, here, -⟩ := @reframe_spec ⟨pool, DiskManager.openFile []⟩ pageId index valid found frame named pinned
  exact ⟨kept, fun _ => rfl, here, fun other different => frame_setFrame_other different, rfl, List.length_set⟩

theorem pin_reframes (valid : pool.Valid) (found : pool.find pageId = some index) :
    Reframes pool (pool.pin index) index { pool.frame index with pinCount := (pool.frame index).pinCount + 1 } := by
  obtain ⟨inside, named, nonneg⟩ := valid.framed pageId index found
  by_cases unpinned : (pool.frame index).pinCount = 0
  · obtain ⟨pinned, block, dirty⟩ := pin_pinned valid found unpinned
    have loose : ∀ asked, asked ≠ pageId → pool.find asked ≠ some index :=
      fun asked different located => different (valid.inj located found)
    refine ⟨pinned.valid valid nonneg inside (fun free => (valid.free_apart index free).2 pageId found) (.inr found) loose,
      fun asked => ?_, ?_, pinned.frame, pinned.free, pinned.length⟩
    · rw [pinned.find]
      by_cases same : asked = pageId
      · rw [if_pos same, same, found]
      · rw [if_neg same]
    · have count := pinned.count
      have name := pinned.named
      generalize (pool.pin index).frame index = frame at block dirty count name ⊢
      cases frame
      simp only at block dirty count name
      simp only [block, dirty, count, name, named, unpinned]
  · have more : pool.pin index = pool.setFrame index { pool.frame index with pinCount := (pool.frame index).pinCount + 1 } := by
      unfold pin
      rw [if_neg unpinned]
    rw [more]
    exact setFrame_reframes valid found rfl (iff_of_false (Nat.succ_ne_zero _) unpinned)

theorem unpinPage_reframes (valid : pool.Valid) (found : pool.find pageId = some index)
    (pinned : (pool.frame index).pinCount ≠ 0) (isDirty : Bool) :
    ∃ after, pool.unpinPage pageId isDirty = (after, true) ∧
      Reframes pool after index { pool.frame index with
        pinCount := (pool.frame index).pinCount - 1
        isDirty := (pool.frame index).isDirty || isDirty } ∧
      ((pool.frame index).pinCount = 1 → after.lru = index :: pool.lru) := by
  obtain ⟨inside, named, nonneg⟩ := valid.framed pageId index found
  let lowered := pool.setFrame index { pool.frame index with
    pinCount := (pool.frame index).pinCount - 1
    isDirty := (pool.frame index).isDirty || isDirty }
  have ran : pool.unpinPage pageId isDirty =
      (if (pool.frame index).pinCount = 1 then lowered.addToLru index else lowered, true) := by
    unfold BufferPoolManager.unpinPage
    rw [found]
    simp only [if_neg pinned]
    rfl
  have here : lowered.frame index = { pool.frame index with
      pinCount := (pool.frame index).pinCount - 1
      isDirty := (pool.frame index).isDirty || isDirty } := frame_setFrame_same inside
  have others : ∀ other, other ≠ index → lowered.frame other = pool.frame other :=
    fun other different => frame_setFrame_other different
  have length : lowered.frames.length = pool.frames.length := List.length_set
  by_cases last : (pool.frame index).pinCount = 1
  · have unlisted : index ∉ pool.lru := by
      intro listed
      obtain ⟨-, -, unpinned⟩ := (valid.listed index).mp listed
      exact pinned unpinned
    obtain ⟨lruPositions, added, positions⟩ := @addToLru_cases lowered index valid.positions unlisted
    rw [ran, if_pos last, added]
    refine ⟨_, rfl, ⟨⟨fun asked other located => ?_, fun other => ?_, positions, ?_, valid.free_nodup, fun other free => ?_⟩,
      fun _ => rfl, here, others, rfl, length⟩, fun _ => rfl⟩
    · obtain ⟨bound, same, valid_id⟩ := valid.framed asked other located
      refine ⟨length ▸ bound, ?_, valid_id⟩
      change (lowered.frame other).pageId = asked
      by_cases at_index : other = index
      · subst at_index
        rw [here]
        exact same
      · rw [others other at_index]
        exact same
    · change other ∈ index :: pool.lru ↔ ∃ asked, pool.find asked = some other ∧ (lowered.frame other).pinCount = 0
      rw [List.mem_cons]
      by_cases at_index : other = index
      · subst at_index
        rw [here]
        exact ⟨fun _ => ⟨pageId, found, by rw [last]⟩, fun _ => .inl rfl⟩
      · rw [others other at_index, valid.listed]
        exact ⟨fun either => either.resolve_left at_index, .inr⟩
    · exact List.nodup_cons.mpr ⟨unlisted, valid.lru_nodup⟩
    · exact ⟨length ▸ (valid.free_apart other free).1, (valid.free_apart other free).2⟩
  · rw [ran, if_neg last]
    refine ⟨_, rfl, setFrame_reframes valid found rfl (iff_of_false ?_ pinned), fun one => absurd one last⟩
    change (pool.frame index).pinCount - 1 ≠ 0
    omega

end Reframed

theorem setBlock_spec {before storage : BufferedDisk} {pageId : PageId} {index : Nat}
    (valid : storage.pool.Valid) (found : storage.pool.find pageId = some index)
    (count : (storage.pool.frame index).pinCount = 1)
    (apart : Apart (fun other => other = pageId) before storage) (block : Block) :
    ∃ after, setBlock index block storage = (.ok (), after) ∧ after.pool.Valid ∧
      after.pool.find pageId = some index ∧ (after.pool.frame index).pinCount = 1 ∧
      (after.pool.frame index).block = block ∧ Apart (fun other => other = pageId) before after ∧
      after.disk = storage.disk := by
  obtain ⟨kept, here, one⟩ := @reframe_spec storage pageId index valid found
    { storage.pool.frame index with block := block } rfl Iff.rfl
  refine ⟨_, rfl, kept, found, ?_, ?_, apart.trans one, rfl⟩
  · change ((storage.pool.setFrame index _).frame index).pinCount = 1
    rw [here]
    exact count
  · change ((storage.pool.setFrame index _).frame index).block = block
    rw [here]

theorem unpinPage_spec {before storage : BufferedDisk} {pageId : PageId} {index : Nat}
    (valid : storage.pool.Valid) (found : storage.pool.find pageId = some index)
    (count : (storage.pool.frame index).pinCount = 1)
    (apart : Apart (fun other => other = pageId) before storage) (isDirty : Bool)
    (clean : isDirty = false → storage.Clean pageId) :
    ∃ after, unpinPage pageId isDirty storage = (.ok true, after) ∧ after.pool.Valid ∧ after.pool.Available ∧
      after.content pageId = (storage.pool.frame index).block ∧ after.pins pageId = 0 ∧ after.Clean pageId ∧
      Apart (fun other => other = pageId) before after ∧ after.disk = storage.disk := by
  obtain ⟨pool, ran, reframes, listed⟩ := unpinPage_reframes valid found (by rw [count]; decide) isDirty
  have located : (storage.withPool pool).pool.find pageId = some index := (reframes.find pageId).trans found
  unfold unpinPage
  rw [ran]
  refine ⟨_, rfl, reframes.valid, .inr ?_, ?_, ?_, fun place at_place notDirty => ?_,
    apart.trans (reframes.apart valid found), rfl⟩
  · change pool.lru ≠ []
    rw [listed count]
    exact List.cons_ne_nil _ _
  · unfold BufferedDisk.content
    rw [located]
    change (pool.frame index).block = _
    rw [reframes.here]
  · unfold BufferedDisk.pins
    rw [located]
    change (pool.frame index).pinCount = 0
    rw [reframes.here, count]
  · obtain rfl : place = index := Option.some.inj (at_place.symm.trans located)
    change (pool.frame place).isDirty = false at notDirty
    change (pool.frame place).block = storage.disk.stored pageId
    rw [reframes.here] at notDirty ⊢
    obtain ⟨wasClean, unchanged⟩ := Bool.or_eq_false_iff.mp notDirty
    exact clean unchanged place found wasClean

structure Used (before after : BufferedDisk) (pageId : PageId) (block : Block) : Prop where
  valid : after.pool.Valid
  available : after.pool.Available
  content : after.content pageId = block
  pins : after.pins pageId = 0
  clean : after.Clean pageId
  apart : Apart (fun other => other = pageId) before after

theorem fill_spec {before storage : BufferedDisk} {pageId : PageId} {index : Nat}
    (valid : storage.pool.Valid) (found : storage.pool.find pageId = some index)
    (count : (storage.pool.frame index).pinCount = 1)
    (apart : Apart (fun other => other = pageId) before storage) (block : Block) :
    ∃ changed after, setBlock index block storage = (.ok (), changed) ∧
      unpinPage pageId true changed = (.ok true, after) ∧ Used before after pageId block ∧
      after.disk = storage.disk := by
  obtain ⟨changed, set, changedValid, located, pinned, holds, still, disk⟩ :=
    setBlock_spec valid found count apart block
  obtain ⟨after, released, ok, free, content, pins, kept, last, same⟩ :=
    unpinPage_spec changedValid located pinned still true fun impossible => nomatch impossible
  exact ⟨changed, after, set, released, ⟨ok, free, content.trans holds, pins, kept, last⟩, same.trans disk⟩

theorem read_spec {storage : BufferedDisk} (valid : storage.pool.Valid) (available : storage.pool.Available)
    {pageId : PageId} (nonneg : 0 ≤ pageId) (unpinned : storage.pins pageId = 0) (clean : storage.Clean pageId) :
    ∃ index middle after, fetchPage pageId storage = (.ok (some index), middle) ∧
      (middle.pool.frame index).block = storage.content pageId ∧
      unpinPage pageId false middle = (.ok true, after) ∧ Used storage after pageId (storage.content pageId) ∧
      after.disk.nextPageId = storage.disk.nextPageId ∧ after.disk.freeList = storage.disk.freeList := by
  obtain ⟨index, middle, fetched, held⟩ := fetchPage_spec valid available nonneg unpinned
  obtain ⟨after, released, ok, free, content, pins, kept, apart, disk⟩ :=
    unpinPage_spec held.valid held.found held.count held.apart false fun _ => held.clean clean
  refine ⟨index, middle, after, fetched, held.block, released, ⟨ok, free, content.trans held.block, pins, kept, apart⟩, ?_, ?_⟩
  · rw [disk, held.nextPageId]
  · rw [disk, held.freeList]

theorem write_spec {storage : BufferedDisk} (valid : storage.pool.Valid) (available : storage.pool.Available)
    {pageId : PageId} (nonneg : 0 ≤ pageId) (unpinned : storage.pins pageId = 0) :
    ∃ index middle, fetchPage pageId storage = (.ok (some index), middle) ∧
      (middle.pool.frame index).block = storage.content pageId ∧
      ∀ block, ∃ changed after, setBlock index block middle = (.ok (), changed) ∧
        unpinPage pageId true changed = (.ok true, after) ∧ Used storage after pageId block ∧
        after.disk.nextPageId = storage.disk.nextPageId ∧ after.disk.freeList = storage.disk.freeList := by
  obtain ⟨index, middle, fetched, held⟩ := fetchPage_spec valid available nonneg unpinned
  refine ⟨index, middle, fetched, held.block, fun block => ?_⟩
  obtain ⟨changed, after, set, released, used, disk⟩ :=
    fill_spec held.valid held.found held.count held.apart block
  refine ⟨changed, after, set, released, used, ?_, ?_⟩
  · rw [disk, held.nextPageId]
  · rw [disk, held.freeList]

theorem allocatePage_congr {disk other later : DiskManager} {pageId : PageId}
    (allocated : disk.allocatePage = .ok (pageId, later)) (nextPageId : other.nextPageId = disk.nextPageId)
    (freeList : other.freeList = disk.freeList) :
    ∃ last, other.allocatePage = .ok (pageId, last) ∧ last.nextPageId = later.nextPageId ∧
      last.freeList = later.freeList ∧ last.file = other.file := by
  unfold DiskManager.allocatePage at allocated ⊢
  rw [freeList, nextPageId]
  cases free : disk.freeList with
  | cons first rest =>
    rw [free] at allocated
    obtain ⟨rfl, rfl⟩ := Prod.mk.inj (Except.ok.inj allocated)
    exact ⟨_, rfl, rfl, rfl, rfl⟩
  | nil =>
    rw [free] at allocated
    by_cases full : disk.nextPageId = Int32.maxValue
    · simp only [if_pos full] at allocated
      cases allocated
    · simp only [if_neg full] at allocated ⊢
      obtain ⟨rfl, rfl⟩ := Prod.mk.inj (Except.ok.inj allocated)
      exact ⟨_, rfl, rfl, rfl, rfl⟩

theorem newPage_full {storage : BufferedDisk} (valid : storage.pool.Valid) (available : storage.pool.Available)
    (full : storage.disk.allocatePage = .error .pageIdLimit) :
    ∃ index left, newPage storage = (.error .pageIdLimit, left) ∧ Takes storage left index ∧
      left.disk.allocatePage = .error .pageIdLimit := by
  obtain ⟨index, left, ran, takes⟩ := acquireFrame_takes valid available
  have still : left.disk.allocatePage = .error .pageIdLimit := by
    unfold DiskManager.allocatePage at full ⊢
    rw [takes.acquired.freeList, takes.acquired.nextPageId]
    cases free : storage.disk.freeList with
    | cons first others =>
      rw [free] at full
      cases full
    | nil =>
      rw [free] at full
      by_cases limit : storage.disk.nextPageId = Int32.maxValue
      · exact if_pos limit
      · rw [if_neg limit] at full
        cases full
  refine ⟨index, left, ?_, takes, still⟩
  unfold newPage
  simp only [ran, if_neg (Nat.ne_of_lt takes.acquired.inside), still]

theorem newPage_held {storage : BufferedDisk} (valid : storage.pool.Valid) (available : storage.pool.Available)
    {pageId : PageId} {later : DiskManager} (allocated : storage.disk.allocatePage = .ok (pageId, later))
    (nonneg : 0 ≤ pageId) (absent : storage.pool.find pageId = none) :
    ∃ index middle, newPage storage = (.ok (some (pageId, index)), middle) ∧ middle.pool.Valid ∧
      middle.pool.find pageId = some index ∧ (middle.pool.frame index).pinCount = 1 ∧
      (middle.pool.frame index).block = Block.zero ∧ Apart (fun other => other = pageId) storage middle ∧
      middle.disk.nextPageId = later.nextPageId ∧ middle.disk.freeList = later.freeList := by
  obtain ⟨index, left, ran, acquired⟩ := acquireFrame_spec valid available
  obtain ⟨last, allocates, next, list, file⟩ :=
    allocatePage_congr allocated acquired.nextPageId acquired.freeList
  have gone := acquired.apart.absent pageId id absent
  obtain ⟨pinned, here⟩ := install_pinned acquired.valid gone acquired.inside acquired.loose Block.zero
  have loose : ∀ asked, asked ≠ pageId → left.pool.find asked ≠ some index := fun asked _ => acquired.loose asked
  have apart : Apart (fun other => other = pageId) left ⟨left.pool.install index pageId Block.zero, last⟩ :=
    @Pinned.apart left ⟨left.pool.install index pageId Block.zero, last⟩ pageId index pinned loose file
  have pool := pinned.valid acquired.valid nonneg acquired.inside acquired.busy (.inl gone) loose
  have located : (left.pool.install index pageId Block.zero).find pageId = some index := by
    rw [pinned.find, if_pos rfl]
  have shown : newPage storage = (.ok (some (pageId, index)), ⟨left.pool.install index pageId Block.zero, last⟩) := by
    simp only [newPage, ran, if_neg (Nat.ne_of_lt acquired.inside), allocates]
  refine ⟨index, _, shown, pool, located, pinned.count, by rw [here],
    (acquired.apart.mono fun _ impossible => impossible.elim).trans apart, next, list⟩

theorem newPage_spec {storage : BufferedDisk} (valid : storage.pool.Valid) (available : storage.pool.Available)
    {pageId : PageId} {later : DiskManager} (allocated : storage.disk.allocatePage = .ok (pageId, later))
    (nonneg : 0 ≤ pageId) (absent : storage.pool.find pageId = none) :
    ∃ index middle, newPage storage = (.ok (some (pageId, index)), middle) ∧
      (middle.pool.frame index).block = Block.zero ∧
      ∀ block, ∃ changed after, setBlock index block middle = (.ok (), changed) ∧
        unpinPage pageId true changed = (.ok true, after) ∧ Used storage after pageId block ∧
        after.disk.nextPageId = later.nextPageId ∧ after.disk.freeList = later.freeList := by
  obtain ⟨index, middle, shown, pool, located, count, zeros, apart, next, list⟩ :=
    newPage_held valid available allocated nonneg absent
  refine ⟨index, middle, shown, zeros, fun block => ?_⟩
  obtain ⟨changed, after, set, released, used, disk⟩ := fill_spec pool located count apart block
  refine ⟨changed, after, set, released, used, ?_, ?_⟩
  · rw [disk]
    exact next
  · rw [disk]
    exact list

theorem deallocatePage_eq (disk : DiskManager) {pageId : PageId} (nonneg : 0 ≤ pageId) :
    disk.deallocatePage pageId = { disk with freeList := pageId :: disk.freeList } :=
  if_neg (Int32.not_lt.mpr nonneg)

theorem deletePage_resident {storage : BufferedDisk} (valid : storage.pool.Valid) {pageId : PageId} {index : Nat}
    (found : storage.pool.find pageId = some index) (zero : (storage.pool.frame index).pinCount = 0) :
    ∃ pool, deletePage pageId storage = (.ok true, ⟨pool, storage.disk.deallocatePage pageId⟩) ∧
      Dropped storage.pool pool pageId index ∧ pool.freeFrames = index :: storage.pool.freeFrames ∧
      pool.frame index = Frame.fresh := by
  obtain ⟨inside, -, -⟩ := valid.framed pageId index found
  obtain ⟨lruPositions, removed, positions⟩ := removeFromLru_cases valid.positions valid.lru_nodup index
  unfold deletePage
  simp only [found, zero, ne_eq, not_true_eq_false, ↓reduceIte]
  rw [removed]
  refine ⟨_, rfl, ⟨find_erase, fun other different => frame_setFrame_other different, List.length_set, rfl, positions⟩, rfl, ?_⟩
  exact @frame_setFrame_same { storage.pool with
    lru := storage.pool.lru.erase index
    lruPositions := lruPositions } index Frame.fresh inside

theorem deletePage_spec {storage : BufferedDisk} (valid : storage.pool.Valid)
    {pageId : PageId} (nonneg : 0 ≤ pageId) (unpinned : storage.pins pageId = 0) :
    ∃ after, deletePage pageId storage = (.ok true, after) ∧ after.pool.Valid ∧
      (storage.pool.Available → after.pool.Available) ∧
      (∀ asked, after.pool.find asked = if asked = pageId then none else storage.pool.find asked) ∧
      Apart (fun other => other = pageId) storage after ∧ after.disk.nextPageId = storage.disk.nextPageId ∧
      after.disk.freeList = pageId :: storage.disk.freeList := by
  cases found : storage.pool.find pageId with
  | none =>
    unfold deletePage
    rw [deallocatePage_eq storage.disk nonneg, found]
    refine ⟨_, rfl, valid, id, fun asked => ?_, .of_same (fun _ _ => rfl) (fun _ _ _ _ => rfl)
      fun _ _ _ => rfl, rfl, rfl⟩
    by_cases same : asked = pageId
    · rw [if_pos same, same]
      exact found
    · rw [if_neg same]
      rfl
  | some index =>
    have zero : (storage.pool.frame index).pinCount = 0 := by
      unfold BufferedDisk.pins at unpinned
      rw [found] at unpinned
      exact unpinned
    obtain ⟨pool, ran, dropped, free, -⟩ := deletePage_resident valid found zero
    rw [deallocatePage_eq storage.disk nonneg] at ran
    have available : pool.Available := .inl (free ▸ List.cons_ne_nil _ _)
    refine ⟨_, ran, dropped.valid valid found (.inr free), fun _ => available, dropped.find, ?_, rfl, rfl⟩
    refine .of_same (fun other different => ?_) (fun other place different located => ?_) fun _ _ _ => rfl
    · refine (dropped.find other).trans ?_
      rw [if_neg different]
    · apply dropped.frame
      intro same
      subst same
      exact different (valid.inj located found)

end BufferedDisk

end QuorumDB.Storage
