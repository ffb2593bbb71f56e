import QuorumDB.Storage.LruList
import QuorumDB.Lib.Recency

/-!
Which page the pool evicts. The LRU list has the pages in frames that nobody holds by the
moment their pin count last dropped to 0, and AcquireFrame takes the one at its back.
-/

namespace QuorumDB.Storage
open BufferedDisk Execution

namespace BufferPoolManager

/-- The page is in a frame, and its pin count is 0. -/
def Idle (pool : BufferPoolManager) (pageId : PageId) : Prop :=
  ∃ index, pool.find pageId = some index ∧ (pool.frame index).pinCount = 0

def idlePages (pool : BufferPoolManager) : List PageId := pool.lru.map fun index => (pool.frame index).pageId

variable {pool : BufferPoolManager} {index : Nat} {pageId : PageId}

theorem Valid.mem_idlePages (valid : pool.Valid) : pageId ∈ pool.idlePages ↔ pool.Idle pageId := by
  constructor
  · intro inside
    obtain ⟨index, listed, rfl⟩ := List.mem_map.mp inside
    obtain ⟨-, found, unpinned⟩ := valid.lru_holds listed
    exact ⟨index, found, unpinned⟩
  · rintro ⟨index, found, unpinned⟩
    exact List.mem_map.mpr ⟨index, (valid.listed index).mpr ⟨pageId, found, unpinned⟩, (valid.framed pageId index found).2.1⟩

theorem Valid.last_idlePage (valid : pool.Valid) (found : pool.find pageId = some index) (last : pool.lru.getLast? = some index) :
    pool.idlePages.getLast? = some pageId := by
  rw [idlePages, List.getLast?_map, last, Option.map_some, (valid.framed pageId index found).2.1]

theorem acquireCall_takes {call : LruCall} (made : pool.acquireCall = some call) : ∃ taken, call = .removeFromLru taken := by
  unfold acquireCall at made
  split at made
  · cases made
  · obtain ⟨taken, -, rfl⟩ := Option.map_eq_some_iff.mp made
    exact ⟨taken, rfl⟩

theorem lruCall_adds {call : PoolCall} (made : pool.lruCall call = some (.addToLru index)) :
    ∃ pageId, pool.find pageId = some index ∧ (pool.frame index).pinCount = 1 := by
  cases call with
  | fetchPage pageId =>
    simp only [lruCall] at made
    split_ifs at made
    split at made
    · split_ifs at made
      cases made
    · obtain ⟨taken, impossible⟩ := acquireCall_takes made
      cases impossible
  | newPage =>
    obtain ⟨taken, impossible⟩ := acquireCall_takes made
    cases impossible
  | unpinPage pageId isDirty =>
    simp only [lruCall] at made
    split at made
    next place found =>
      split_ifs at made with one
      cases made
      exact ⟨pageId, found, one⟩
    next => cases made
  | deletePage pageId =>
    simp only [lruCall] at made
    split at made
    · split_ifs at made
      cases made
    · cases made
  | flushPage | flushAllPages | write => cases made

end BufferPoolManager

section Effects

variable {before after left : BufferedDisk} {pool : BufferPoolManager} {index place : Nat} {pageId asked : PageId} {block : Block}
  {call : PoolCall} {answer : PoolAnswer}

theorem BufferPoolManager.Idle.pins (idle : before.pool.Idle pageId) : before.pins pageId = 0 := by
  obtain ⟨index, found, unpinned⟩ := idle
  exact (pins_some found).trans unpinned

theorem Installs.idle (installs : Installs left.pool pool index pageId block) (found : pool.find asked = some place)
    (unpinned : (pool.frame place).pinCount = 0) : left.pool.find asked = some place := by
  rw [installs.find] at found
  split_ifs at found with here
  · obtain rfl := Option.some.inj found
    rw [installs.here] at unpinned
    cases unpinned
  · exact found

theorem PoolEffect.unpinned (effect : PoolEffect before call answer after) (found : after.pool.find asked = some place)
    (unpinned : (after.pool.frame place).pinCount = 0) : before.pool.find asked = some place := by
  cases effect with
  | idle | wrote => exact found
  | hit located reframes => exact (reframes.find asked).symm.trans found
  | loaded nonneg absent takes installs => exact Takes.earlier takes (installs.idle found unpinned)
  | created nonneg allocates takes installs => exact Takes.earlier takes (installs.idle found unpinned)
  | lost refused takes => exact Takes.earlier takes found
  | released located pinned reframes => exact (reframes.find asked).symm.trans found
  | flushedPage settled => exact (settled.find asked).symm.trans found
  | flushed settled => exact (settled.find asked).symm.trans found
  | deleted deletes =>
    rw [deletes.find] at found
    split_ifs at found
    exact found

theorem PoolEffect.leaves (effect : PoolEffect before call answer after) (kept : call ≠ .deletePage asked)
    (found : before.pool.find asked = some place) (gone : after.pool.find asked = none) :
    ∃ left index, BufferedDisk.Takes before left index ∧ left.pool.find asked = none := by
  have installed : ∀ {left : BufferedDisk} {index : Nat} {pageId : PageId} {block : Block} {pool : BufferPoolManager},
      Installs left.pool pool index pageId block → pool.find asked = none → left.pool.find asked = none := by
    intro left index pageId block pool installs missing
    by_contra still
    obtain ⟨other, located⟩ := Option.ne_none_iff_exists'.mp still
    cases missing.symm.trans (installs.keeps located)
  cases effect with
  | idle | wrote => cases found.symm.trans gone
  | hit located reframes => cases found.symm.trans ((reframes.find asked).symm.trans gone)
  | loaded nonneg absent takes installs => exact ⟨_, _, takes, installed installs gone⟩
  | created nonneg allocates takes installs => exact ⟨_, _, takes, installed installs gone⟩
  | lost refused takes => exact ⟨_, _, takes, gone⟩
  | released located pinned reframes => cases found.symm.trans ((reframes.find asked).symm.trans gone)
  | flushedPage settled => cases found.symm.trans ((settled.find asked).symm.trans gone)
  | flushed settled => cases found.symm.trans ((settled.find asked).symm.trans gone)
  | deleted deletes =>
    rw [deletes.find, found] at gone
    split_ifs at gone with same
    exact absurd (congrArg PoolCall.deletePage same.symm) kept

theorem Takes.evicts (takes : BufferedDisk.Takes before left index) (valid : before.pool.Valid)
    (found : before.pool.find asked = some place) (gone : left.pool.find asked = none) :
    before.pool.freeFrames = [] ∧ before.pool.idlePages.getLast? = some asked := by
  have here : before.pool.find asked = some index := by
    by_contra elsewhere
    rw [takes.find, if_neg elsewhere] at gone
    cases found.symm.trans gone
  rcases takes.source with free | ⟨none, last⟩
  · exact absurd here ((valid.free_apart index free).2 asked)
  · exact ⟨none, valid.last_idlePage here last⟩

theorem idlePages_turn (steady : Steady before) (call : PoolCall) :
    Turn (fun pageId => before.pins pageId ≠ 0 ∧ (call.perform before).2.pins pageId = 0)
      before.pool.idlePages (call.perform before).2.pool.idlePages := by
  have valid := steady.valid
  have effect := perform_effect steady call
  have still := (effect.steady steady).valid
  have lists := perform_lists call before
  generalize (call.perform before).2 = after at effect still lists ⊢
  have quiet : ∀ pageId ∈ before.pool.idlePages, ¬ (before.pins pageId ≠ 0 ∧ after.pins pageId = 0) :=
    fun pageId inside drops => drops.1 (valid.mem_idlePages.mp inside).pins
  -- a frame that is still on the list has the page it had
  have pages : after.pool.idlePages = after.pool.lru.map fun index => (before.pool.frame index).pageId := by
    refine List.map_congr_left fun index listed => ?_
    obtain ⟨pageId, found, unpinned⟩ := (still.listed index).mp listed
    rw [(still.framed pageId index found).2.1, (valid.framed pageId index (effect.unpinned found unpinned)).2.1]
  have leave : after.pool.lru.Sublist before.pool.lru →
      Turn (fun pageId => before.pins pageId ≠ 0 ∧ after.pins pageId = 0) before.pool.idlePages after.pool.idlePages := by
    intro sublist
    have fewer : after.pool.idlePages.Sublist before.pool.idlePages := pages ▸ sublist.map _
    exact .leave fewer fun other inside => quiet other (fewer.subset inside)
  cases made : before.pool.lruCall call with
  | none =>
    rw [made] at lists
    exact leave (lists.lru ▸ List.Sublist.refl _)
  | some lruCall =>
    rw [made] at lists
    cases lruCall with
    | removeFromLru index =>
      obtain ⟨lruPositions, shape, -⟩ := BufferPoolManager.removeFromLru_cases valid.positions valid.lru_nodup index
      have shorter := lists.lru
      rw [BufferPoolManager.performLru, shape] at shorter
      exact leave (shorter ▸ List.erase_sublist)
    | addToLru index =>
      obtain ⟨pageId, found, one⟩ := BufferPoolManager.lruCall_adds made
      have absent : index ∉ before.pool.lru := by
        intro listed
        obtain ⟨-, -, unpinned⟩ := valid.lru_holds listed
        cases one.symm.trans unpinned
      obtain ⟨lruPositions, shape, -⟩ := BufferPoolManager.addToLru_cases valid.positions absent
      have longer := lists.lru
      rw [BufferPoolManager.performLru, shape] at longer
      have named := (valid.framed pageId index found).2.1
      have front : after.pool.idlePages = pageId :: before.pool.idlePages := by
        rw [pages, longer, List.map_cons, named]
        rfl
      refine .front pageId ⟨?_, ?_⟩ quiet front
      · rw [pins_some found, one]
        exact Nat.one_ne_zero
      · exact (still.mem_idlePages.mp (front ▸ List.mem_cons_self)).pins

end Effects

/-- A pool in the hands of its clients, and its LRU list as the `std::list` it is. -/
structure LinkedPool where
  history : PoolHistory
  list : LruList

namespace LinkedPool

abbrev storage (state : LinkedPool) : BufferedDisk := state.history.storage

abbrev pool (state : LinkedPool) : BufferPoolManager := state.storage.pool

/-- There is no outcome if the call erases through an iterator that points at no node. -/
def act (state : LinkedPool) (call : PoolCall) : Option LinkedPool := do
  let list ← state.list.perform (state.pool.lruCall call)
  some ⟨state.history.act call, list⟩

def Initial (state : LinkedPool) : Prop := PoolHistory.Initial state.history ∧ state.list = LruList.new

abbrev Reaches : List LinkedPool → LinkedPool → Prop := Run Initial fun state call later => state.act call = some later

def Drops (pageId : PageId) (before later : LinkedPool) : Prop :=
  before.storage.pins pageId ≠ 0 ∧ later.storage.pins pageId = 0

instance (pageId : PageId) : DecidableRel (Drops pageId) := fun _ _ => inferInstanceAs (Decidable (_ ∧ _))

/-- Of the pages in frames with pin count 0, it is the one whose pin count dropped to 0 longest ago. -/
def LeastRecent (states : List LinkedPool) (state : LinkedPool) (pageId : PageId) : Prop :=
  state.pool.Idle pageId ∧ ∀ other, state.pool.Idle other → other ≠ pageId → Earlier Drops states pageId other

variable {past : List LinkedPool} {state later : LinkedPool} {call : PoolCall}

theorem act_tracks (steady : Steady state.storage) (tracks : Tracks state.list state.pool) (call : PoolCall) :
    ∃ list, state.act call = some ⟨state.history.act call, list⟩ ∧ Tracks list (state.history.act call).storage.pool := by
  obtain ⟨list, ran, kept⟩ := tracks.perform steady.valid.lru_nodup (state.pool.lruCall call)
  refine ⟨list, ?_, ?_⟩
  · rw [act, ran]
    rfl
  · rw [PoolHistory.act, PoolHistory.record_storage]
    exact kept.lists (perform_lists call state.storage)

theorem linked (run : Reaches past state) : Steady state.storage ∧ Tracks state.list state.pool := by
  refine @Run.invariant _ _ Initial (fun state call later => state.act call = some later)
    (fun _ state => Steady state.storage ∧ Tracks state.list state.pool) ?_ ?_ _ _ run
  · rintro ⟨history, list⟩ ⟨fresh, rfl⟩
    refine ⟨PoolHistory.steady (.start fresh), ?_⟩
    obtain ⟨poolSize, file, -, rfl⟩ := fresh
    exact Tracks.new poolSize
  · rintro past state call later - ⟨steady, tracks⟩ moved
    obtain ⟨list, ran, kept⟩ := act_tracks steady tracks call
    obtain rfl := Option.some.inj (ran.symm.trans moved)
    exact ⟨PoolHistory.steady_act steady call, kept⟩

theorem byRecency (run : Reaches past state) : ByRecency Drops (state :: past) state.pool.idlePages := by
  refine @Run.byRecency _ _ _ Drops _ Initial (fun state call later => state.act call = some later) (fun state => state.pool.idlePages)
    ?_ ?_ _ _ run
  · rintro ⟨history, list⟩ ⟨⟨poolSize, file, -, rfl⟩, -⟩
    rfl
  · intro past state call later run moved
    obtain ⟨steady, tracks⟩ := linked run
    obtain ⟨list, ran, -⟩ := act_tracks steady tracks call
    obtain rfl := Option.some.inj (ran.symm.trans moved)
    have same : (state.history.act call).storage = (call.perform state.storage).2 := PoolHistory.record_storage _ _ _ _
    have turn := idlePages_turn steady call
    rw [← same] at turn
    exact turn

/-- What leaves through a taken frame is the page out of use longest. -/
theorem leastRecent (run : Reaches past state) {left : BufferedDisk} {index place : Nat} {pageId : PageId}
    (takes : Takes state.storage left index) (found : state.pool.find pageId = some place) (gone : left.pool.find pageId = none) :
    state.pool.freeFrames = [] ∧ LeastRecent (state :: past) state pageId := by
  have valid := (linked run).1.valid
  obtain ⟨none, last⟩ := Takes.evicts takes valid found gone
  refine ⟨none, valid.mem_idlePages.mp (List.mem_of_getLast? last), fun other idle different => ?_⟩
  exact (byRecency run).oldest last (valid.mem_idlePages.mpr idle) different

/-- The LRU list has each frame with an unpinned page once, in the order in which the pages came
out of use, its iterators point at their frames, and what AcquireFrame evicts is the page out of use longest. -/
structure LruOrder (past : List LinkedPool) (state : LinkedPool) : Prop where
  lru : state.list.frames = state.pool.lru
  listed : ∀ index, index ∈ state.list.frames ↔
    ∃ pageId, state.pool.find pageId = some index ∧ (state.pool.frame index).pinCount = 0
  once : state.list.frames.Nodup
  ordered : ByRecency Drops (state :: past) (state.list.frames.map fun index => (state.pool.frame index).pageId)
  points : ∀ index node, state.list.lruPositions index = some node ↔ (node, index) ∈ state.list.nodes
  performs : ∀ call, ∃ list, state.act call = some ⟨state.history.act call, list⟩
  evicts : ∀ pageId index, state.pool.find pageId = some index → (acquireFrame state.storage).2.pool.find pageId = none →
    state.pool.freeFrames = [] ∧ LeastRecent (state :: past) state pageId
  leaves : ∀ call later pageId index, state.act call = some later → call ≠ .deletePage pageId →
    state.pool.find pageId = some index → later.pool.find pageId = none →
      state.pool.freeFrames = [] ∧ LeastRecent (state :: past) state pageId

theorem evicts_least_recent (run : Reaches past state) : LruOrder past state := by
  obtain ⟨steady, tracks⟩ := linked run
  have valid := steady.valid
  refine ⟨tracks.frames, fun index => ?_, ?_, ?_, tracks.points, fun call => ?_, fun pageId index found gone => ?_,
    fun call later pageId index moved kept found gone => ?_⟩
  · rw [tracks.frames]
    exact valid.listed index
  · rw [tracks.frames]
    exact valid.lru_nodup
  · rw [tracks.frames]
    exact byRecency run
  · obtain ⟨list, ran, -⟩ := act_tracks steady tracks call
    exact ⟨list, ran⟩
  · by_cases available : state.pool.Available
    · obtain ⟨taken, left, ran, takes⟩ := acquireFrame_takes valid available
      rw [ran] at gone
      exact leastRecent run takes found gone
    · rw [acquireFrame_none available] at gone
      cases found.symm.trans gone
  · obtain ⟨list, ran, -⟩ := act_tracks steady tracks call
    obtain rfl := Option.some.inj (ran.symm.trans moved)
    obtain ⟨answer, after, -, acted, effect⟩ := PoolHistory.act_effect steady call
    have missing : after.pool.find pageId = none := by
      rw [← PoolHistory.record_storage state.history call answer after, ← acted]
      exact gone
    obtain ⟨left, taken, takes, missed⟩ := effect.leaves kept found missing
    exact leastRecent run takes found missed

/-- Page 0 was used again after page 1 was given back. -/
theorem evicts_least_recent_again :
    ∃ past state, Reaches past state ∧ state.pool.Idle 0 ∧ (acquireFrame state.storage).2.pool.find 1 = none ∧
      LeastRecent (state :: past) state 1 ∧ Earlier Drops (state :: past) 1 0 := by
  have full : ∃ visited ∈ replay act ⟨PoolHistory.opened 2 [], LruList.new⟩
      [.newPage, .newPage, .unpinPage 0 true, .unpinPage 1 false, .fetchPage 0, .unpinPage 0 false],
      (visited.2.pool.find 0 = some 0 ∧ (visited.2.pool.frame 0).pinCount = 0) ∧ visited.2.pool.find 1 = some 1 ∧
        (acquireFrame visited.2.storage).2.pool.find 1 = none := by
    decide +kernel
  obtain ⟨visited, played, idle, found, gone⟩ := full
  have fresh : Initial ⟨PoolHistory.opened 2 [], LruList.new⟩ := ⟨⟨2, [], by decide, rfl⟩, rfl⟩
  have run : Reaches visited.1 visited.2 := by
    have longer := Run.append_replay (.start fresh) played
    rw [List.append_nil] at longer
    exact longer
  obtain ⟨-, least⟩ := (evicts_least_recent run).evicts 1 1 found gone
  exact ⟨visited.1, visited.2, run, ⟨0, idle⟩, gone, least, least.2 0 ⟨0, idle⟩ (by decide)⟩

end LinkedPool

end QuorumDB.Storage
