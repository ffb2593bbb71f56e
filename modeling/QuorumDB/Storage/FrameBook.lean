import QuorumDB.Storage.PageOwners

/-!
Where the frames of the pool are. A frame is free, holds a page nobody uses, or holds a
page in use, unless the call that took it threw before it registered the page.
-/

namespace QuorumDB.Storage
open BufferedDisk Execution

inductive FramePlace where
  | freeList
  | lruList
  | pinned
  deriving DecidableEq, Repr

namespace BufferPoolManager

def Holds (pool : BufferPoolManager) (index : Nat) : FramePlace → Prop
  | .freeList => index ∈ pool.freeFrames
  | .lruList => index ∈ pool.lru ∧ pool.find (pool.frame index).pageId = some index ∧ (pool.frame index).pinCount = 0
  | .pinned => pool.find (pool.frame index).pageId = some index ∧ 0 < (pool.frame index).pinCount

/-- The frame is in one of its places, and so can still be handed out or be given back. -/
def Accounted (pool : BufferPoolManager) (index : Nat) : Prop := ∃ place, pool.Holds index place

instance (pool : BufferPoolManager) (index : Nat) : (place : FramePlace) → Decidable (pool.Holds index place)
  | .freeList => inferInstanceAs (Decidable (_ ∈ _))
  | .lruList => inferInstanceAs (Decidable (_ ∧ _ ∧ _))
  | .pinned => inferInstanceAs (Decidable (_ ∧ _))

instance (pool : BufferPoolManager) (index : Nat) : Decidable (pool.Accounted index) :=
  decidable_of_iff (pool.Holds index .freeList ∨ pool.Holds index .lruList ∨ pool.Holds index .pinned)
    ⟨fun either => either.elim (⟨_, ·⟩) (Or.elim · (⟨_, ·⟩) (⟨_, ·⟩)), fun ⟨place, holds⟩ =>
      match place, holds with
      | .freeList, free => .inl free
      | .lruList, old => .inr (.inl old)
      | .pinned, pinned => .inr (.inr pinned)⟩

def capacity (pool : BufferPoolManager) : Nat :=
  ((List.range pool.frames.length).filter fun index => pool.Accounted index).length

variable {pool : BufferPoolManager} {index : Nat} {pageId : PageId}

theorem Valid.lru_holds (valid : pool.Valid) (listed : index ∈ pool.lru) : pool.Holds index .lruList := by
  obtain ⟨pageId, found, unpinned⟩ := (valid.listed index).mp listed
  refine ⟨listed, ?_, unpinned⟩
  rw [(valid.framed pageId index found).2.1]
  exact found

theorem Valid.resident_holds (valid : pool.Valid) (found : pool.find pageId = some index) :
    pool.Holds index .lruList ∨ pool.Holds index .pinned := by
  have named := (valid.framed pageId index found).2.1
  by_cases unpinned : (pool.frame index).pinCount = 0
  · exact .inl (valid.lru_holds ((valid.listed index).mpr ⟨pageId, found, unpinned⟩))
  · exact .inr ⟨named.symm ▸ found, Nat.pos_of_ne_zero unpinned⟩

theorem Valid.accounted_iff (valid : pool.Valid) :
    pool.Accounted index ↔ index ∈ pool.freeFrames ∨ ∃ pageId, pool.find pageId = some index := by
  constructor
  · rintro ⟨_ | _ | _, holds⟩
    · exact .inl holds
    · exact .inr ⟨_, holds.2.1⟩
    · exact .inr ⟨_, holds.1⟩
  · rintro (free | ⟨pageId, found⟩)
    · exact ⟨.freeList, free⟩
    · exact (valid.resident_holds found).elim (⟨_, ·⟩) (⟨_, ·⟩)

theorem Valid.place_unique (valid : pool.Valid) {one two : FramePlace} (first : pool.Holds index one)
    (second : pool.Holds index two) : one = two := by
  have free : index ∈ pool.freeFrames → ∀ pageId, pool.find pageId ≠ some index := fun inside => (valid.free_apart index inside).2
  cases one <;> cases two
  case freeList.freeList | lruList.lruList | pinned.pinned => rfl
  case freeList.lruList => exact absurd second.2.1 (free first _)
  case freeList.pinned => exact absurd second.1 (free first _)
  case lruList.freeList => exact absurd first.2.1 (free second _)
  case pinned.freeList => exact absurd first.1 (free second _)
  case lruList.pinned => exact absurd first.2.2 (Nat.ne_of_gt second.2)
  case pinned.lruList => exact absurd second.2.2 (Nat.ne_of_gt first.2)

theorem Valid.unavailable_iff (valid : pool.Valid) (whole : ∀ index < pool.frames.length, pool.Accounted index) :
    ¬ pool.Available ↔ ∀ index < pool.frames.length, pool.Holds index .pinned := by
  constructor
  · intro unavailable index inside
    rw [Available, not_or, not_not, not_not] at unavailable
    obtain ⟨_ | _ | _, holds⟩ := whole index inside
    · exact absurd (unavailable.1 ▸ holds : index ∈ []) List.not_mem_nil
    · exact absurd (unavailable.2 ▸ holds.1 : index ∈ []) List.not_mem_nil
    · exact holds
  · rintro pinned (free | listed)
    · obtain ⟨index, inside⟩ := List.exists_mem_of_ne_nil _ free
      have here : pool.Holds index .freeList := inside
      cases valid.place_unique here (pinned index (valid.free_apart index inside).1)
    · obtain ⟨index, inside⟩ := List.exists_mem_of_ne_nil _ listed
      have here := valid.lru_holds inside
      cases valid.place_unique here (pinned index (valid.framed _ index here.2.1).1)

end BufferPoolManager

section Effects

variable {before after left : BufferedDisk} {pool : BufferPoolManager} {index other : Nat} {pageId : PageId} {block : Block}
  {call : PoolCall} {answer : PoolAnswer}

theorem Takes.loses (takes : BufferedDisk.Takes before left index) : ¬ left.pool.Accounted index := by
  rw [takes.acquired.valid.accounted_iff]
  rintro (free | ⟨pageId, found⟩)
  · exact takes.acquired.busy free
  · exact takes.acquired.loose pageId found

theorem Takes.accounted (takes : BufferedDisk.Takes before left index) (valid : before.pool.Valid) (different : other ≠ index) :
    left.pool.Accounted other ↔ before.pool.Accounted other := by
  rw [takes.acquired.valid.accounted_iff, valid.accounted_iff, takes.free]
  refine or_congr (and_iff_left different) (exists_congr fun pageId => ?_)
  constructor
  · exact Takes.earlier takes
  · intro found
    rw [takes.find, if_neg fun same => different (Option.some.inj (found.symm.trans same))]
    exact found

theorem Takes.from_place (takes : BufferedDisk.Takes before left index) (valid : before.pool.Valid) :
    index < before.pool.frames.length ∧ before.pool.Accounted index := by
  refine ⟨takes.length ▸ takes.acquired.inside, ?_⟩
  rcases takes.source with free | ⟨-, last⟩
  · exact ⟨.freeList, free⟩
  · exact ⟨.lruList, valid.lru_holds (List.mem_of_getLast? last)⟩

theorem Installs.accounted (installs : Installs left.pool pool index pageId block) (valid : left.pool.Valid)
    (absent : left.pool.find pageId = none) (whole : ∀ other < left.pool.frames.length, other ≠ index → left.pool.Accounted other) :
    ∀ other < pool.frames.length, pool.Accounted other := by
  intro other inside
  rw [installs.valid.accounted_iff, installs.free]
  by_cases same : other = index
  · subst same
    refine .inr ⟨pageId, ?_⟩
    rw [installs.find, if_pos ⟨rfl, absent⟩]
  · rcases valid.accounted_iff.mp (whole other (installs.length ▸ inside) same) with free | ⟨asked, found⟩
    · exact .inl free
    · exact .inr ⟨asked, installs.keeps found⟩

theorem same_places {later : BufferPoolManager} (valid : pool.Valid) (still : later.Valid)
    (free : later.freeFrames = pool.freeFrames) (find : ∀ asked, later.find asked = pool.find asked) :
    later.Accounted index ↔ pool.Accounted index := by
  rw [still.accounted_iff, valid.accounted_iff, free]
  simp only [find]

/-- A call that does not throw leaves no frame out. -/
theorem PoolEffect.accounted (effect : PoolEffect before call answer after) (steady : Steady before) (kept : ¬ Refused before call)
    (fresh : call = .newPage → ∀ pageId index, answer = .page pageId index → before.pool.find pageId = none)
    (whole : ∀ index < before.pool.frames.length, before.pool.Accounted index) :
    ∀ index < after.pool.frames.length, after.pool.Accounted index := by
  have valid := steady.valid
  have still := (effect.steady steady).valid
  have rest : ∀ {left : BufferedDisk} {index : Nat}, BufferedDisk.Takes before left index →
      ∀ other < left.pool.frames.length, other ≠ index → left.pool.Accounted other :=
    fun takes other inside different => (Takes.accounted takes valid different).mpr (whole other (takes.length ▸ inside))
  cases effect with
  | idle => exact whole
  | hit found reframes =>
    exact fun index inside => (same_places valid still reframes.free reframes.find).mpr (whole index (reframes.length ▸ inside))
  | loaded nonneg absent takes installs =>
    exact installs.accounted takes.acquired.valid (Takes.absent takes absent) (rest takes)
  | created nonneg allocates takes installs =>
    exact installs.accounted takes.acquired.valid (Takes.absent takes (fresh rfl _ _ rfl)) (rest takes)
  | lost refused => exact absurd refused kept
  | released found pinned reframes =>
    exact fun index inside => (same_places valid still reframes.free reframes.find).mpr (whole index (reframes.length ▸ inside))
  | flushedPage settled frames =>
    exact fun index inside => (same_places valid still frames.free settled.find).mpr (whole index (frames.length ▸ inside))
  | flushed settled frames =>
    exact fun index inside => (same_places valid still frames.free settled.find).mpr (whole index (frames.length ▸ inside))
  | @deleted pageId _ deletes =>
    intro index inside
    rw [still.accounted_iff, deletes.free]
    rcases valid.accounted_iff.mp (whole index (deletes.length ▸ inside)) with free | ⟨asked, found⟩
    · exact .inl (.inl free)
    · by_cases same : asked = pageId
      · exact .inl (.inr (same ▸ found))
      · exact .inr ⟨asked, (deletes.find asked).trans ((if_neg same).trans found)⟩
  | @wrote place block =>
    have frames : SameFrames before.pool (before.pool.setBlock place block) := setFrame_sameFrames rfl
    exact fun index inside => (same_places valid still frames.free fun _ => rfl).mpr (whole index (frames.length ▸ inside))

theorem Takes.installed (takes : BufferedDisk.Takes before left index) (installs : Installs left.pool pool index pageId block)
    (absent : before.pool.find pageId = none) {asked : PageId} {place : Nat} (found : pool.find asked = some place) :
    asked = pageId ∧ place = index ∨
      asked ≠ pageId ∧ before.pool.find asked = some place ∧ pool.frame place = before.pool.frame place := by
  rw [installs.find] at found
  split_ifs at found with here
  · exact .inl ⟨here.1, (Option.some.inj found).symm⟩
  · have different : asked ≠ pageId := fun same => here ⟨same, Takes.absent takes absent⟩
    have other : place ≠ index := fun same => takes.acquired.loose asked (same ▸ found)
    exact .inr ⟨different, Takes.earlier takes found, (installs.others place other).trans (takes.frame place other)⟩

end Effects

namespace PoolHistory

variable {history : PoolHistory} {call : PoolCall}

/-- A page's pin count is how often it was taken less how often it was given back. -/
def Counted (history : PoolHistory) : Prop :=
  ∀ pageId index, history.storage.pool.find pageId = some index →
    (history.storage.pool.frame index).pinCount + history.returned pageId = history.taken pageId

theorem counted_record {answer : PoolAnswer} {after : BufferedDisk} (effect : PoolEffect history.storage call answer after)
    (valid : history.storage.pool.Valid)
    (fresh : call = .newPage → ∀ pageId index, answer = .page pageId index → history.storage.pool.find pageId = none)
    (counted : Counted history) : Counted (history.record call answer after) := by
  intro asked place located
  rw [record_storage] at located ⊢
  -- in the two cases that bring in a page, its counts start anew
  have brought : ∀ {left : BufferedDisk} {index : Nat} {pageId : PageId} {block : Block} {pool : BufferPoolManager},
      BufferedDisk.Takes history.storage left index → Installs left.pool pool index pageId block →
      history.storage.pool.find pageId = none → pool.find asked = some place →
      (pool.frame place).pinCount + Function.update history.returned pageId 0 asked =
        Function.update history.taken pageId 1 asked := by
    intro left index pageId block pool takes installs absent found
    rcases Takes.installed takes installs absent found with ⟨rfl, rfl⟩ | ⟨different, earlier, frame⟩
    · rw [installs.here, Function.update_self, Function.update_self]
    · rw [frame, Function.update_of_ne different, Function.update_of_ne different]
      exact counted asked place earlier
  cases effect with
  | idle quiet =>
    rw [record_quiet history call _ (quiet.imp And.right (.inl ·.2))]
    exact counted asked place located
  | @hit pageId index later found reframes =>
    have earlier := (reframes.find asked).symm.trans located
    have count := counted asked place earlier
    rw [record_hit found]
    by_cases same : asked = pageId
    · subst same
      obtain rfl : place = index := Option.some.inj (earlier.symm.trans found)
      change (later.frame place).pinCount + history.returned asked = Function.update history.taken asked _ asked
      rw [reframes.here, Function.update_self, ← count]
      exact Nat.add_right_comm _ _ _
    · have different : place ≠ index := fun equal => same (valid.inj earlier (equal ▸ found))
      change (later.frame place).pinCount + history.returned asked = Function.update history.taken pageId _ asked
      rw [reframes.others place different, Function.update_of_ne same]
      exact count
  | loaded nonneg absent takes installs =>
    rw [record_loaded absent]
    exact brought takes installs absent located
  | created nonneg allocates takes installs => exact brought takes installs (fresh rfl _ _ rfl) located
  | @lost _ _ index _ refused takes =>
    rw [record_quiet history call _ (.inr (.inr ⟨_, rfl⟩))]
    have other : place ≠ index := fun same => takes.acquired.loose asked (same ▸ located)
    rw [takes.frame place other]
    exact counted asked place (Takes.earlier takes located)
  | @released pageId isDirty index later found pinned reframes =>
    have earlier := (reframes.find asked).symm.trans located
    have count := counted asked place earlier
    by_cases same : asked = pageId
    · subst same
      obtain rfl : place = index := Option.some.inj (earlier.symm.trans found)
      change (later.frame place).pinCount + Function.update history.returned asked _ asked = history.taken asked
      have positive := Nat.pos_of_ne_zero pinned
      rw [reframes.here, Function.update_self, ← count]
      change (history.storage.pool.frame place).pinCount - 1 + (history.returned asked + 1) = _
      omega
    · have different : place ≠ index := fun equal => same (valid.inj earlier (equal ▸ found))
      change (later.frame place).pinCount + Function.update history.returned pageId _ asked = history.taken asked
      rw [reframes.others place different, Function.update_of_ne same]
      exact count
  | @flushedPage _ success _ settled =>
    have earlier := (settled.find asked).symm.trans located
    rw [settled.pinCount]
    cases success <;> exact counted asked place earlier
  | flushed settled =>
    rw [settled.pinCount]
    exact counted asked place ((settled.find asked).symm.trans located)
  | @deleted pageId _ deletes =>
    rw [deletes.find] at located
    split_ifs at located with same
    rw [deletes.frame place fun found => same (valid.inj located found)]
    exact counted asked place located
  | @wrote index block =>
    change ((history.storage.pool.setBlock index block).frame place).pinCount + history.returned asked = history.taken asked
    rw [setBlock_pinCount]
    exact counted asked place located

/-- Calls with pages that NewPage gave out and nobody deleted since, while page identifiers are left. -/
def OwnPages (history : PoolHistory) : PoolCall → Prop
  | .fetchPage pageId | .unpinPage pageId _ | .flushPage pageId | .deletePage pageId => history.given pageId = true
  | .newPage => history.storage.disk.allocatePage.isOk = true
  | .flushAllPages | .write .. => True

instance (history : PoolHistory) : (call : PoolCall) → Decidable (OwnPages history call)
  | .fetchPage _ | .unpinPage .. | .flushPage _ | .deletePage _ | .newPage => inferInstanceAs (Decidable (_ = true))
  | .flushAllPages | .write .. => inferInstanceAs (Decidable True)

theorem minds_of_own (owners : Owners history) (own : OwnPages history call) : Minds history call := by
  cases call with
  | fetchPage pageId => exact fun _ _ _ => (owners.given pageId own).2
  | deletePage pageId => exact fun _ _ => (owners.given pageId own).2
  | newPage | unpinPage | flushPage | flushAllPages | write => trivial

theorem not_refused (owners : Owners history) (own : OwnPages history call) : ¬ Refused history.storage call := by
  cases call with
  | fetchPage pageId => exact fun refused => Int32.not_lt.mpr (owners.given pageId own).1 refused.1
  | newPage =>
    intro full
    have left : history.storage.disk.allocatePage.isOk = true := own
    rw [full] at left
    cases left
  | unpinPage | flushPage | flushAllPages | deletePage | write => exact id

structure Booked (history : PoolHistory) : Prop where
  owners : Owners history
  accounted : ∀ index < history.storage.pool.frames.length, history.storage.pool.Accounted index
  counted : Counted history

theorem booked_act (booked : Booked history) (own : OwnPages history call) : Booked (history.act call) := by
  have owners := booked.owners
  obtain ⟨answer, after, -, acted, effect⟩ := act_effect owners.steady call
  have fresh : call = .newPage → ∀ pageId index, answer = .page pageId index → history.storage.pool.find pageId = none := by
    intro made pageId index page
    subst made page
    exact (effect.allocated owners.allocatable).1
  refine ⟨owners_act owners (minds_of_own owners own), ?_, ?_⟩ <;> rw [acted]
  · rw [record_storage]
    exact effect.accounted owners.steady (not_refused owners own) fresh booked.accounted
  · exact counted_record effect owners.steady.valid fresh booked.counted

theorem booked {past : List PoolHistory} (run : ReachesWhen OwnPages past history) : Booked history := by
  refine @Run.invariant _ _ Initial (StepWhen OwnPages) (fun _ state => Booked state) ?_ ?_ _ _ run
  · rintro state ⟨poolSize, file, small, rfl⟩
    refine ⟨owners (.start ⟨poolSize, file, small, rfl⟩), fun index inside => ⟨.freeList, ?_⟩, nofun⟩
    change index < (List.replicate poolSize Frame.fresh).length at inside
    rw [List.length_replicate] at inside
    exact List.mem_range.mpr inside
  · rintro past state call later - known ⟨own, rfl⟩
    exact booked_act known own

theorem nullptr_iff (steady : Steady history.storage) (kept : ¬ Refused history.storage call) (gives : call.givesPage = true)
    (absent : ∀ pageId, call = .fetchPage pageId → pageId ≠ invalidPageId ∧ history.storage.pool.find pageId = none) :
    (call.perform history.storage).1 = .nullptr ↔ ¬ history.storage.pool.Available := by
  obtain ⟨answer, after, ran, -, effect⟩ := act_effect steady call
  rw [ran]
  cases effect with
  | idle quiet =>
    rcases quiet with ⟨invalid | unavailable, rfl⟩ | ⟨silent, rfl⟩
    · exact absurd rfl (absent _ invalid).1
    · exact iff_of_true rfl unavailable
    · cases silent.symm.trans gives
  | hit found => cases found.symm.trans (absent _ rfl).2
  | loaded nonneg missing takes => exact iff_of_false nofun (not_not_intro (Takes.available takes))
  | created nonneg allocates takes => exact iff_of_false nofun (not_not_intro (Takes.available takes))
  | lost refused => exact absurd refused kept
  | released | flushedPage | flushed | deleted | wrote => cases gives

/-- Every frame is in one place, and the page table and the pin counts tell which. -/
structure FrameBook (history : PoolHistory) : Prop where
  placed : ∀ index < history.storage.pool.frames.length, ∃! place, history.storage.pool.Holds index place
  distinct : history.storage.pool.freeFrames.Nodup ∧ history.storage.pool.lru.Nodup
  table : ∀ pageId index, pageId ≠ invalidPageId → (history.storage.pool.find pageId = some index ↔
    index < history.storage.pool.frames.length ∧ (history.storage.pool.frame index).pageId = pageId)
  counted : Counted history
  stays : ∀ call pageId index, history.storage.pool.find pageId = some index →
    0 < (history.storage.pool.frame index).pinCount → (history.act call).storage.pool.find pageId = some index
  fetched : ∀ pageId, history.given pageId = true → history.storage.pool.find pageId = none →
    (((PoolCall.fetchPage pageId).perform history.storage).1 = .nullptr ↔
      ∀ index < history.storage.pool.frames.length, history.storage.pool.Holds index .pinned)
  created : history.storage.disk.allocatePage.isOk = true →
    ((PoolCall.newPage.perform history.storage).1 = .nullptr ↔
      ∀ index < history.storage.pool.frames.length, history.storage.pool.Holds index .pinned)

theorem frame_book {past : List PoolHistory} (run : ReachesWhen OwnPages past history) : FrameBook history := by
  obtain ⟨owners, accounted, counted⟩ := booked run
  have valid := owners.steady.valid
  have full := valid.unavailable_iff accounted
  refine ⟨fun index inside => ?_, ⟨valid.free_nodup, valid.lru_nodup⟩, fun pageId index real => ⟨fun found => ?_, ?_⟩, counted,
    fun call pageId index found pinned => ?_, fun pageId given absent => ?_, fun left => ?_⟩
  · obtain ⟨place, holds⟩ := accounted index inside
    exact ⟨place, holds, fun other there => valid.place_unique there holds⟩
  · obtain ⟨inside, named, -⟩ := valid.framed pageId index found
    exact ⟨inside, named⟩
  · rintro ⟨inside, rfl⟩
    exact owners.carried index inside real
  · rw [act, record_storage]
    exact (perform_effect owners.steady call).stays found (Nat.ne_of_gt pinned)
  · have own : OwnPages history (.fetchPage pageId) := given
    have real : pageId ≠ invalidPageId := by
      rintro rfl
      exact absurd (owners.given _ given).1 (by decide)
    have missing : ∀ asked, PoolCall.fetchPage pageId = .fetchPage asked →
        asked ≠ invalidPageId ∧ history.storage.pool.find asked = none := fun asked same =>
      PoolCall.fetchPage.inj same ▸ ⟨real, absent⟩
    exact (nullptr_iff owners.steady (not_refused owners own) rfl missing).trans full
  · have own : OwnPages history .newPage := left
    refine (nullptr_iff owners.steady (not_refused owners own) rfl fun pageId impossible => ?_).trans full
    cases impossible

theorem frame_book_pair :
    ∃ past history, ReachesWhen OwnPages past history ∧ history.storage.pool.Holds 0 .lruList ∧
      history.storage.pool.Holds 1 .pinned ∧ FrameBook history := by
  have shared : ∃ visited ∈ replay (actWhen OwnPages) (opened 2 [])
      [.newPage, .unpinPage 0 true, .newPage, .newPage, .unpinPage 1 true, .fetchPage 0, .unpinPage 2 false, .fetchPage 0],
      visited.2.storage.pool.Holds 0 .lruList ∧ visited.2.storage.pool.Holds 1 .pinned := by
    decide +kernel
  obtain ⟨visited, played, old, pinned⟩ := shared
  have run := replay_reaches played
  exact ⟨visited.1, visited.2, run, old, pinned, frame_book run⟩

def acts (history : PoolHistory) (calls : List PoolCall) : PoolHistory := calls.foldl act history

def Fails (history : PoolHistory) : List PoolCall → Prop
  | [] => True
  | call :: rest => call.givesPage = true ∧ (call.perform history.storage).1.givesNone = true ∧ Fails (history.act call) rest

instance decidableFails : (history : PoolHistory) → (calls : List PoolCall) → Decidable (Fails history calls)
  | _, [] => inferInstanceAs (Decidable True)
  | history, call :: rest => @instDecidableAnd _ _ _ (@instDecidableAnd _ _ _ (decidableFails (history.act call) rest))

theorem fails_cases (steady : Steady history.storage) (gives : call.givesPage = true)
    (fails : (call.perform history.storage).1.givesNone = true) :
    Withheld history.storage call ∧ (history.act call).storage = history.storage ∨
      Refused history.storage call ∧ ∃ index, BufferedDisk.Takes history.storage (history.act call).storage index := by
  obtain ⟨answer, after, ran, acted, effect⟩ := act_effect steady call
  rw [ran] at fails
  rw [acted, record_storage]
  cases effect with
  | idle quiet =>
    rcases quiet with ⟨withheld, -⟩ | ⟨silent, -⟩
    · exact .inl ⟨withheld, rfl⟩
    · cases silent.symm.trans gives
  | @lost _ _ index _ refused takes => exact .inr ⟨refused, index, takes⟩
  | hit | loaded | created | released | flushedPage | flushed | deleted | wrote => cases fails

theorem steady_act (steady : Steady history.storage) (call : PoolCall) : Steady (history.act call).storage := by
  rw [act, record_storage]
  exact (perform_effect steady call).steady steady

theorem fails_shrink {calls : List PoolCall} (steady : Steady history.storage) (fails : Fails history calls) :
    (history.acts calls).storage.pool.frames.length = history.storage.pool.frames.length ∧
      ∀ index, (history.acts calls).storage.pool.Accounted index → history.storage.pool.Accounted index := by
  induction calls generalizing history with
  | nil => exact ⟨rfl, fun _ => id⟩
  | cons call rest ih =>
    obtain ⟨gives, none, others⟩ := fails
    obtain ⟨length, shrinks⟩ := ih (steady_act steady call) others
    rcases fails_cases steady gives none with ⟨-, same⟩ | ⟨-, taken, takes⟩
    · rw [same] at length shrinks
      exact ⟨length, shrinks⟩
    · refine ⟨length.trans takes.length, fun index still => ?_⟩
      have accounted := shrinks index still
      have different : index ≠ taken := fun equal => Takes.loses takes (equal ▸ accounted)
      exact (Takes.accounted takes steady.valid different).mp accounted

/-- With a frame to be had, the first call that asks for a page loses one for good. -/
theorem fails_lose {calls : List PoolCall} (steady : Steady history.storage) (fails : Fails history calls)
    (available : history.storage.pool.Available) (asks : ∃ call ∈ calls, call ≠ .fetchPage invalidPageId) :
    ∃ index < history.storage.pool.frames.length,
      history.storage.pool.Accounted index ∧ ¬ (history.acts calls).storage.pool.Accounted index := by
  induction calls generalizing history with
  | nil =>
    obtain ⟨_, impossible, -⟩ := asks
    cases impossible
  | cons call rest ih =>
    obtain ⟨gives, none, others⟩ := fails
    have next := steady_act steady call
    rcases fails_cases steady gives none with ⟨invalid | unavailable, same⟩ | ⟨-, index, takes⟩
    · obtain ⟨asked, inside, real⟩ := asks
      have later : asked ∈ rest := (List.mem_cons.mp inside).resolve_left fun equal => real (equal.trans invalid)
      have found := ih next others (same ▸ available) ⟨asked, later, real⟩
      rw [same] at found
      exact found
    · exact absurd available unavailable
    · obtain ⟨inside, accounted⟩ := Takes.from_place takes steady.valid
      exact ⟨index, inside, accounted, fun still => Takes.loses takes ((fails_shrink next others).2 index still)⟩

theorem fails_idle {calls : List PoolCall} (steady : Steady history.storage) (fails : Fails history calls)
    (idle : ¬ history.storage.pool.Available ∨ ∀ call ∈ calls, call = .fetchPage invalidPageId) :
    (history.acts calls).storage = history.storage := by
  induction calls generalizing history with
  | nil => rfl
  | cons call rest ih =>
    obtain ⟨gives, none, others⟩ := fails
    have same : (history.act call).storage = history.storage := by
      rcases fails_cases steady gives none with ⟨-, same⟩ | ⟨refused, index, takes⟩
      · exact same
      · rcases idle with unavailable | invalid
        · exact absurd (Takes.available takes) unavailable
        · rw [invalid call List.mem_cons_self] at refused
          exact absurd rfl refused.2
    have rested := ih (steady_act steady call) others (same.symm ▸ idle.imp_right fun invalid asked inside =>
      invalid asked (List.mem_cons_of_mem _ inside))
    exact rested.trans same

/-- Failing calls lose a frame unless none was to be had, or no page was asked for. -/
theorem failing_calls_lose_no_frame {past : List PoolHistory} (run : Reaches past history) {calls : List PoolCall}
    (fails : Fails history calls) :
    ((∀ index < history.storage.pool.frames.length, history.storage.pool.Accounted index →
        (history.acts calls).storage.pool.Accounted index) ∧
      (history.acts calls).storage.pool.capacity = history.storage.pool.capacity) ↔
    ¬ history.storage.pool.Available ∨ ∀ call ∈ calls, call = .fetchPage invalidPageId := by
  have steady := steady run
  constructor
  · rintro ⟨kept, -⟩
    by_contra neither
    rw [not_or, not_not] at neither
    obtain ⟨available, some⟩ := neither
    simp only [not_forall] at some
    obtain ⟨call, inside, real⟩ := some
    obtain ⟨index, bound, accounted, lost⟩ := fails_lose steady fails available ⟨call, inside, real⟩
    exact lost (kept index bound accounted)
  · intro idle
    rw [fails_idle steady fails idle]
    exact ⟨fun _ _ accounted => accounted, rfl⟩

theorem failing_calls_lose_no_frame_full :
    ∃ past history, Reaches past history ∧ history.storage.pool.capacity = 1 ∧
      (history.acts [.fetchPage 7, .newPage, .fetchPage (-1)]).storage.pool.capacity = 1 := by
  have pinned : ∃ visited ∈ replay (actWhen fun _ _ => True) (opened 1 []) [.newPage],
      visited.2.storage.pool.capacity = 1 ∧ Fails visited.2 [.fetchPage 7, .newPage, .fetchPage (-1)] ∧
        ¬ visited.2.storage.pool.Available := by
    decide +kernel
  obtain ⟨visited, played, one, fails, unavailable⟩ := pinned
  have run := replay_reaches played
  exact ⟨visited.1, visited.2, run, one, ((failing_calls_lose_no_frame run fails).mpr (.inl unavailable)).2.trans one⟩

/-- FetchPage of a negative page throws with the only frame in hand. -/
theorem failing_calls_lose_no_frame_fails :
    ¬ ∀ past history calls, Reaches past history → Fails history calls →
      (∀ index < history.storage.pool.frames.length, history.storage.pool.Accounted index →
        (history.acts calls).storage.pool.Accounted index) ∧
      (history.acts calls).storage.pool.capacity = history.storage.pool.capacity := by
  intro kept
  have lost : (opened 1 []).storage.pool.capacity = 1 ∧ Fails (opened 1 []) [.fetchPage (-2)] ∧
      ((opened 1 []).acts [.fetchPage (-2)]).storage.pool.capacity = 0 := by
    decide +kernel
  obtain ⟨one, fails, zero⟩ := lost
  have same := (kept [] (opened 1 []) _ (.start ⟨1, [], by decide, rfl⟩) fails).2
  rw [zero, one] at same
  cases same

end PoolHistory

end QuorumDB.Storage
