import QuorumDB.Storage.PoolView

/-!
The page allocator together with the pool: it hands out no page that is in a frame or
in use, and every page it ever handed out stays accounted for.
-/

namespace QuorumDB.Storage

/-- The free list has pages handed out before, none twice and none that is in a frame. -/
structure Allocatable (storage : BufferedDisk) : Prop where
  next : 0 ≤ storage.disk.nextPageId
  free_nodup : storage.disk.freeList.Nodup
  free_range : ∀ pageId ∈ storage.disk.freeList, 0 ≤ pageId ∧ pageId < storage.disk.nextPageId
  resident : ∀ pageId index, storage.pool.find pageId = some index →
    pageId < storage.disk.nextPageId ∧ pageId ∉ storage.disk.freeList

theorem int32_lt_succ_cases {number other : Int32} (small : number ≠ Int32.maxValue) (less : other < number + 1) :
    other = number ∨ other < number := by
  have top : number.toInt ≠ 2147483647 := fun same => small (Int32.toInt_inj.mp same)
  have high := number.toInt_lt
  have low := number.le_toInt
  have one : (1 : Int32).toInt = 1 := rfl
  rw [Int32.lt_iff_toInt_lt, Int32.toInt_add, one, Int.bmod_eq_of_le] at less
  · rw [← Int32.toInt_inj, Int32.lt_iff_toInt_lt]
    omega
  · omega
  · omega

structure Allocated (storage : BufferedDisk) (pageId : PageId) (later : DiskManager) : Prop where
  nonneg : 0 ≤ pageId
  absent : storage.pool.find pageId = none
  unused : ¬ (pageId < storage.disk.nextPageId ∧ pageId ∉ storage.disk.freeList)
  next : storage.disk.nextPageId ≤ later.nextPageId
  below : pageId < later.nextPageId
  taken : pageId ∉ later.freeList
  nodup : later.freeList.Nodup
  rest : ∀ other ∈ later.freeList, other ∈ storage.disk.freeList
  covers : ∀ other, other < later.nextPageId → other = pageId ∨
    other < storage.disk.nextPageId ∧ (other ∈ storage.disk.freeList → other ∈ later.freeList)

theorem Allocatable.allocate {storage : BufferedDisk} (ready : Allocatable storage) :
    storage.disk.allocatePage = .error .pageIdLimit ∨
      ∃ pageId later, storage.disk.allocatePage = .ok (pageId, later) ∧ Allocated storage pageId later := by
  have resident := ready.resident
  have distinct := ready.free_nodup
  have range := ready.free_range
  unfold DiskManager.allocatePage
  cases free : storage.disk.freeList with
  | cons first others =>
    rw [free] at resident distinct range
    obtain ⟨nonneg, below⟩ := range first List.mem_cons_self
    obtain ⟨taken, nodup⟩ := List.nodup_cons.mp distinct
    refine .inr ⟨first, _, rfl, nonneg, ?_, ?_, Int32.le_refl _, below, taken, nodup, ?_, fun other less => ?_⟩
    · cases found : storage.pool.find first with
      | none => rfl
      | some index => exact absurd List.mem_cons_self (resident first index found).2
    · intro both
      rw [free] at both
      exact both.2 List.mem_cons_self
    · intro other inside
      rw [free]
      exact List.mem_cons_of_mem _ inside
    · rw [free]
      by_cases same : other = first
      · exact .inl same
      · exact .inr ⟨less, fun inside => (List.mem_cons.mp inside).resolve_left same⟩
  | nil =>
    by_cases full : storage.disk.nextPageId = Int32.maxValue
    · exact .inl (if_pos full)
    · have up := int32_lt_succ full
      refine .inr ⟨storage.disk.nextPageId, _, if_neg full, ready.next, ?_, ?_, Int32.le_of_lt up, up, ?_, ?_, ?_,
        fun other less => ?_⟩
      · cases found : storage.pool.find storage.disk.nextPageId with
        | none => rfl
        | some index => exact absurd (resident _ index found).1 Int32.lt_irrefl
      · exact fun both => Int32.lt_irrefl both.1
      · exact List.not_mem_nil
      · exact List.nodup_nil
      · exact fun other inside => absurd inside List.not_mem_nil
      · rw [free]
        refine (int32_lt_succ_cases full less).imp_right fun below => ⟨below, fun inside => inside⟩

section Keep

variable {before after : BufferedDisk} {pageId : PageId}

theorem Allocatable.keep (allocatable : Allocatable before) {touched : PageId → Prop}
    (inUse : ∀ other, touched other → other < before.disk.nextPageId ∧ other ∉ before.disk.freeList)
    (absent : ∀ other, ¬ touched other → before.pool.find other = none → after.pool.find other = none)
    (sameNext : after.disk.nextPageId = before.disk.nextPageId)
    (sameFree : after.disk.freeList = before.disk.freeList) : Allocatable after := by
  refine ⟨sameNext ▸ allocatable.next, sameFree ▸ allocatable.free_nodup, ?_, fun other index found => ?_⟩
  · rw [sameFree, sameNext]
    exact allocatable.free_range
  · rw [sameNext, sameFree]
    by_cases here : touched other
    · exact inUse other here
    · cases earlier : before.pool.find other with
      | some place => exact allocatable.resident other place earlier
      | none =>
        rw [absent other here earlier] at found
        cases found

theorem Allocated.keep {later : DiskManager} (allocated : Allocated before pageId later) (allocatable : Allocatable before)
    (absent : ∀ other, other ≠ pageId → before.pool.find other = none → after.pool.find other = none)
    (next : after.disk.nextPageId = later.nextPageId) (free : after.disk.freeList = later.freeList) : Allocatable after := by
  refine ⟨next ▸ Int32.le_trans allocatable.next allocated.next, free ▸ allocated.nodup, fun other inside => ?_,
    fun other place found => ?_⟩
  · obtain ⟨nonneg, below⟩ := allocatable.free_range other (allocated.rest other (free ▸ inside))
    exact ⟨nonneg, next ▸ Int32.lt_of_lt_of_le below allocated.next⟩
  · rw [next, free]
    by_cases same : other = pageId
    · exact same ▸ ⟨allocated.below, allocated.taken⟩
    · cases earlier : before.pool.find other with
      | none =>
        rw [absent other same earlier] at found
        cases found
      | some index =>
        obtain ⟨below, unfree⟩ := allocatable.resident other index earlier
        exact ⟨Int32.lt_of_lt_of_le below allocated.next, fun inside => unfree (allocated.rest other inside)⟩

theorem Allocatable.freed (allocatable : Allocatable before) (nonneg : 0 ≤ pageId) (below : pageId < before.disk.nextPageId)
    (used : pageId ∉ before.disk.freeList)
    (find : ∀ asked, after.pool.find asked = if asked = pageId then none else before.pool.find asked)
    (next : after.disk.nextPageId = before.disk.nextPageId) (free : after.disk.freeList = pageId :: before.disk.freeList) :
    Allocatable after := by
  refine ⟨next ▸ allocatable.next, ?_, fun other inside => ?_, fun other index found => ?_⟩
  · rw [free]
    exact List.nodup_cons.mpr ⟨used, allocatable.free_nodup⟩
  · rw [free] at inside
    rw [next]
    rcases List.mem_cons.mp inside with rfl | old
    · exact ⟨nonneg, below⟩
    · exact allocatable.free_range other old
  · rw [find] at found
    by_cases same : other = pageId
    · rw [if_pos same] at found
      cases found
    · rw [if_neg same] at found
      obtain ⟨inside, unfree⟩ := allocatable.resident other index found
      rw [next, free, List.mem_cons]
      exact ⟨inside, fun either => either.elim same unfree⟩

end Keep

section Opened

variable {poolSize count index : Nat} {file : Bytes}

theorem frame_new : (BufferPoolManager.new poolSize).frame index = Frame.fresh := by
  unfold BufferPoolManager.frame BufferPoolManager.new
  rw [List.getD_eq_getElem?_getD, List.getElem?_replicate]
  split_ifs <;> rfl

theorem valid_new : (BufferPoolManager.new poolSize).Valid := by
  refine ⟨(fun pageId index impossible => nomatch impossible), fun index => ?_, fun index => ?_, List.nodup_nil,
    List.nodup_range, fun index inside => ⟨?_, (fun pageId impossible => nomatch impossible)⟩⟩
  · exact ⟨fun impossible => absurd impossible List.not_mem_nil, (fun ⟨_, impossible, _⟩ => nomatch impossible)⟩
  · exact ⟨(fun impossible => nomatch impossible), fun impossible => absurd impossible List.not_mem_nil⟩
  · change index < (List.replicate poolSize Frame.fresh).length
    rw [List.length_replicate]
    exact List.mem_range.mp inside

theorem toInt_ofNat (small : count < 2147483648) : (Int32.ofNat count).toInt = count := Int32.toInt_ofNat_of_lt small

theorem ofNat_nonneg (small : count < 2147483648) : 0 ≤ Int32.ofNat count := by
  rw [Int32.le_iff_toInt_le, toInt_ofNat small]
  exact Int.natCast_nonneg count

theorem ofNat_lt (small : count < 2147483648) (less : index < count) : Int32.ofNat index < Int32.ofNat count := by
  rw [Int32.lt_iff_toInt_lt, toInt_ofNat small, toInt_ofNat (Nat.lt_trans less small)]
  exact Int.ofNat_lt.mpr less

theorem opened_allocatable (small : file.length / pageSize < 2147483648) :
    Allocatable ⟨BufferPoolManager.new poolSize, DiskManager.openFile file⟩ :=
  ⟨ofNat_nonneg small, List.nodup_nil, (fun _ impossible => absurd impossible List.not_mem_nil),
    (fun _ _ impossible => nomatch impossible)⟩

end Opened

end QuorumDB.Storage
