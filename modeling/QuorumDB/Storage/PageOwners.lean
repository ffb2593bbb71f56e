import QuorumDB.Storage.PoolCalls

/-!
Who owns a page. The allocator's counter and free list and the pool's page table agree as
long as no page is freed twice and none is brought in that was not allocated; neither
DeletePage nor FetchPage looks.
-/

namespace QuorumDB.Storage
open BufferedDisk Execution

def InUse (storage : BufferedDisk) (pageId : PageId) : Prop :=
  pageId < storage.disk.nextPageId ∧ pageId ∉ storage.disk.freeList

instance (storage : BufferedDisk) (pageId : PageId) : Decidable (InUse storage pageId) :=
  inferInstanceAs (Decidable (_ ∧ _))

instance (pool : BufferPoolManager) : Decidable pool.Available :=
  inferInstanceAs (Decidable (_ ∨ _))

/-- A frame that carries a page is the one the table has for it. -/
def Carried (pool : BufferPoolManager) : Prop :=
  ∀ index < pool.frames.length, (pool.frame index).pageId ≠ invalidPageId →
    pool.find (pool.frame index).pageId = some index

/-- No page that is not in use is deleted or brought into a frame. -/
def Minds (history : PoolHistory) : PoolCall → Prop
  | .fetchPage pageId => 0 ≤ pageId → history.storage.pool.find pageId = none → history.storage.pool.Available →
      InUse history.storage pageId
  | .deletePage pageId => 0 ≤ pageId → history.storage.pins pageId = 0 → InUse history.storage pageId
  | _ => True

instance (history : PoolHistory) : (call : PoolCall) → Decidable (Minds history call)
  | .fetchPage _ | .deletePage _ => inferInstanceAs (Decidable (_ → _))
  | .newPage | .unpinPage .. | .flushPage _ | .flushAllPages | .write .. => inferInstanceAs (Decidable True)

/-- Every page given out is in use, every page in a frame is in use, and the frames carry different pages. -/
structure Owners (history : PoolHistory) : Prop where
  steady : Steady history.storage
  allocatable : Allocatable history.storage
  given : ∀ pageId, history.given pageId = true → 0 ≤ pageId ∧ InUse history.storage pageId
  carried : Carried history.storage.pool

section Effects

variable {before after left : BufferedDisk} {pool : BufferPoolManager} {index : Nat} {pageId : PageId} {block : Block}
  {call : PoolCall} {answer : PoolAnswer}

theorem Takes.carried (takes : BufferedDisk.Takes before after index) (valid : before.pool.Valid)
    (carried : Carried before.pool) : Carried after.pool := by
  intro other inside real
  rw [takes.length] at inside
  by_cases same : other = index
  · subst same
    rcases takes.vacant with fresh | ⟨free, kept⟩
    · rw [fresh] at real
      exact absurd rfl real
    · rw [kept] at real
      exact absurd (carried other inside real) ((valid.free_apart other free).2 _)
  · rw [takes.frame other same] at real ⊢
    have found := carried other inside real
    rw [takes.find, found, if_neg fun equal => same (Option.some.inj equal)]

theorem Installs.carried (installs : Installs left.pool pool index pageId block) (absent : left.pool.find pageId = none)
    (carried : Carried left.pool) : Carried pool := by
  intro other inside real
  rw [installs.length] at inside
  by_cases same : other = index
  · subst same
    rw [installs.here, installs.find, if_pos ⟨rfl, absent⟩]
  · rw [installs.others other same] at real ⊢
    exact installs.keeps (carried other inside real)

theorem SameFrames.carried {pool later : BufferPoolManager} (frames : SameFrames pool later)
    (find : ∀ asked, later.find asked = pool.find asked) (carried : Carried pool) : Carried later := by
  intro other inside real
  rw [frames.length] at inside
  rw [frames.named] at real ⊢
  rw [find]
  exact carried other inside real

theorem Reframes.sameFrames {pool later : BufferPoolManager} {frame : Frame} (reframes : BufferedDisk.Reframes pool later index frame)
    (named : frame.pageId = (pool.frame index).pageId) : SameFrames pool later := by
  refine ⟨fun other => ?_, reframes.length, reframes.free⟩
  by_cases same : other = index
  · rw [same, reframes.here, named]
  · rw [reframes.others other same]

theorem Deletes.carried (deletes : Deletes before after pageId) (carried : Carried before.pool) : Carried after.pool := by
  intro other inside real
  rw [deletes.length] at inside
  by_cases same : before.pool.find pageId = some other
  · rw [deletes.vacated other same] at real
    exact absurd rfl real
  · rw [deletes.frame other same] at real ⊢
    have found := carried other inside real
    have different : (before.pool.frame other).pageId ≠ pageId := fun equal => same (equal ▸ found)
    rw [deletes.find, if_neg different]
    exact found

/-- A new page that had no frame is the only way to a second frame for a page. -/
theorem PoolEffect.carried (effect : PoolEffect before call answer after) (valid : before.pool.Valid)
    (fresh : call = .newPage → ∀ pageId index, answer = .page pageId index → before.pool.find pageId = none)
    (carried : Carried before.pool) : Carried after.pool := by
  cases effect with
  | idle => exact carried
  | hit found reframes => exact (Reframes.sameFrames reframes rfl).carried reframes.find carried
  | loaded nonneg gone takes installs =>
    refine installs.carried ?_ (Takes.carried takes valid carried)
    rw [takes.find, gone, ite_self]
  | created nonneg allocates takes installs =>
    refine installs.carried ?_ (Takes.carried takes valid carried)
    rw [takes.find, fresh rfl _ _ rfl, ite_self]
  | lost refused takes => exact Takes.carried takes valid carried
  | released found pinned reframes => exact (Reframes.sameFrames reframes rfl).carried reframes.find carried
  | flushedPage settled frames => exact frames.carried settled.find carried
  | flushed settled frames => exact frames.carried settled.find carried
  | deleted deletes => exact deletes.carried carried
  | @wrote index block =>
    have frames : SameFrames before.pool (before.pool.setBlock index block) := setFrame_sameFrames rfl
    exact frames.carried (fun _ => rfl) carried

theorem Takes.available (takes : BufferedDisk.Takes before after index) : before.pool.Available := by
  rcases takes.source with free | ⟨-, last⟩
  · exact .inl (List.ne_nil_of_mem free)
  · exact .inr (List.ne_nil_of_mem (List.mem_of_getLast? last))

theorem Takes.absent (takes : BufferedDisk.Takes before after index) {asked : PageId} (gone : before.pool.find asked = none) :
    after.pool.find asked = none := by
  rw [takes.find, gone, ite_self]

theorem Installs.absent (installs : Installs left.pool pool index pageId block) {asked : PageId} (different : asked ≠ pageId)
    (gone : left.pool.find asked = none) : pool.find asked = none := by
  rw [installs.find, if_neg fun both => different both.1]
  exact gone

theorem PoolEffect.allocatable {history : PoolHistory} (effect : PoolEffect history.storage call answer after)
    (minds : Minds history call) (allocatable : Allocatable history.storage) : Allocatable after := by
  have same : ∀ {later : BufferedDisk}, (∀ asked, history.storage.pool.find asked = none → later.pool.find asked = none) →
      later.disk.nextPageId = history.storage.disk.nextPageId →
      later.disk.freeList = history.storage.disk.freeList → Allocatable later :=
    fun absent next free => @Allocatable.keep _ _ allocatable (fun _ => False) nofun (fun other _ => absent other) next free
  cases effect with
  | idle => exact allocatable
  | hit found reframes => exact same (fun asked gone => (reframes.find asked).trans gone) rfl rfl
  | @loaded pageId _ _ _ nonneg gone takes installs =>
    have inUse := minds nonneg gone (Takes.available takes)
    refine @Allocatable.keep _ _ allocatable (fun other => other = pageId) (fun other here => here ▸ inUse)
      (fun other different absent => ?_) takes.acquired.nextPageId takes.acquired.freeList
    exact installs.absent different (Takes.absent takes absent)
  | created nonneg allocates takes installs file next free =>
    rcases allocatable.allocate with full | ⟨_, _, allocated, outcome⟩
    · cases full.symm.trans allocates
    · obtain ⟨rfl, rfl⟩ := Prod.mk.inj (Except.ok.inj (allocated.symm.trans allocates))
      exact outcome.keep allocatable (fun other different absent => installs.absent different (Takes.absent takes absent)) next free
  | lost refused takes => exact same (fun _ gone => Takes.absent takes gone) takes.acquired.nextPageId takes.acquired.freeList
  | released found pinned reframes => exact same (fun asked gone => (reframes.find asked).trans gone) rfl rfl
  | flushedPage settled => exact same (fun asked gone => (settled.find asked).trans gone) settled.nextPageId settled.freeList
  | flushed settled => exact same (fun asked gone => (settled.find asked).trans gone) settled.nextPageId settled.freeList
  | @deleted pageId _ deletes =>
    have list := deletes.freeList
    by_cases negative : pageId < 0
    · rw [if_pos negative] at list
      refine same (fun asked gone => ?_) deletes.nextPageId list
      rw [deletes.find, gone, ite_self]
    · rw [if_neg negative] at list
      have nonneg := Int32.not_lt.mp negative
      obtain ⟨below, used⟩ := minds nonneg deletes.unpinned
      exact allocatable.freed nonneg below used deletes.find deletes.nextPageId list
  | wrote => exact same (fun _ gone => gone) rfl rfl

theorem PoolEffect.allocated (effect : PoolEffect before .newPage (.page pageId index) after) (allocatable : Allocatable before) :
    before.pool.find pageId = none ∧ ¬ InUse before pageId ∧ 0 ≤ pageId ∧ InUse after pageId := by
  cases effect with
  | idle quiet => rcases quiet with ⟨-, impossible⟩ | ⟨-, impossible⟩ <;> cases impossible
  | created nonneg allocates takes installs file next free =>
    rcases allocatable.allocate with full | ⟨_, _, allocated, outcome⟩
    · cases full.symm.trans allocates
    · obtain ⟨rfl, rfl⟩ := Prod.mk.inj (Except.ok.inj (allocated.symm.trans allocates))
      exact ⟨outcome.absent, outcome.unused, nonneg, next ▸ outcome.below, free ▸ outcome.taken⟩

theorem PoolEffect.inUse (effect : PoolEffect before call answer after) (allocatable : Allocatable before)
    (kept : ¬ (call = .deletePage pageId ∧ answer = .flag true)) (inUse : InUse before pageId) : InUse after pageId := by
  have same : ∀ {later : BufferedDisk}, later.disk.nextPageId = before.disk.nextPageId →
      later.disk.freeList = before.disk.freeList → InUse later pageId :=
    fun next free => ⟨next ▸ inUse.1, free ▸ inUse.2⟩
  cases effect with
  | idle => exact inUse
  | hit => exact inUse
  | loaded nonneg gone takes => exact same takes.acquired.nextPageId takes.acquired.freeList
  | created nonneg allocates takes installs file next free =>
    rcases allocatable.allocate with full | ⟨_, _, allocated, outcome⟩
    · cases full.symm.trans allocates
    · obtain ⟨rfl, rfl⟩ := Prod.mk.inj (Except.ok.inj (allocated.symm.trans allocates))
      refine ⟨next ▸ Int32.lt_of_lt_of_le inUse.1 outcome.next, fun inside => ?_⟩
      exact inUse.2 (outcome.rest pageId (free ▸ inside))
  | lost refused takes => exact same takes.acquired.nextPageId takes.acquired.freeList
  | released => exact inUse
  | flushedPage settled => exact same settled.nextPageId settled.freeList
  | flushed settled => exact same settled.nextPageId settled.freeList
  | @deleted other _ deletes =>
    refine ⟨deletes.nextPageId ▸ inUse.1, fun inside => ?_⟩
    rw [deletes.freeList] at inside
    split_ifs at inside with negative
    · exact inUse.2 inside
    · rcases List.mem_cons.mp inside with rfl | old
      · exact kept ⟨rfl, rfl⟩
      · exact inUse.2 old
  | wrote => exact inUse

end Effects

namespace PoolHistory

variable {history : PoolHistory} {call : PoolCall}

theorem given_record {answer : PoolAnswer} {after : BufferedDisk} (effect : PoolEffect history.storage call answer after)
    {pageId : PageId} (given : (history.record call answer after).given pageId = true) :
    history.given pageId = true ∧ ¬ (call = .deletePage pageId ∧ answer = .flag true) ∨
      call = .newPage ∧ ∃ index, answer = .page pageId index := by
  cases effect with
  | idle quiet =>
    have silent : answer = .nullptr ∨ answer = .flag false ∨ ∃ error, answer = .thrown error := 
      quiet.imp And.right (.inl ·.2)
    rw [record_quiet history call _ silent] at given
    refine .inl ⟨given, ?_⟩
    rcases quiet with ⟨-, rfl⟩ | ⟨-, rfl⟩ <;> nofun
  | hit found =>
    rw [record_hit found] at given
    exact .inl ⟨given, nofun⟩
  | loaded nonneg absent =>
    rw [record_loaded absent] at given
    exact .inl ⟨given, nofun⟩
  | @created other index =>
    by_cases same : pageId = other
    · exact .inr ⟨rfl, index, congrArg (PoolAnswer.page · index) same.symm⟩
    · exact .inl ⟨(Function.update_of_ne same _ _).symm.trans given, nofun⟩
  | lost =>
    rw [record_quiet history call _ (.inr (.inr ⟨_, rfl⟩))] at given
    exact .inl ⟨given, nofun⟩
  | released => exact .inl ⟨given, nofun⟩
  | @flushedPage _ success => cases success <;> exact .inl ⟨given, nofun⟩
  | flushed => exact .inl ⟨given, nofun⟩
  | @deleted other =>
    by_cases same : pageId = other
    · subst same
      exact nomatch (Function.update_self _ _ _).symm.trans given
    · refine .inl ⟨(Function.update_of_ne same _ _).symm.trans given, fun both => same ?_⟩
      exact (PoolCall.deletePage.inj both.1).symm
  | wrote => exact .inl ⟨given, nofun⟩

theorem owners_act (owners : Owners history) (minds : Minds history call) : Owners (history.act call) := by
  obtain ⟨answer, after, -, acted, effect⟩ := act_effect owners.steady call
  rw [acted]
  have storage := history.record_storage call answer after
  refine ⟨?_, ?_, fun pageId given => ?_, ?_⟩ <;> rw [storage]
  · exact effect.steady owners.steady
  · exact effect.allocatable minds owners.allocatable
  · rcases given_record effect given with ⟨known, kept⟩ | ⟨rfl, index, rfl⟩
    · obtain ⟨nonneg, inUse⟩ := owners.given pageId known
      exact ⟨nonneg, effect.inUse owners.allocatable kept inUse⟩
    · exact (effect.allocated owners.allocatable).2.2
  · refine effect.carried owners.steady.valid (fun made pageId index page => ?_) owners.carried
    subst made page
    exact (effect.allocated owners.allocatable).1

theorem owners {past : List PoolHistory} (run : ReachesWhen Minds past history) : Owners history := by
  refine @Run.invariant _ _ Initial (StepWhen Minds) (fun _ state => Owners state) ?_ ?_ _ _ run
  · rintro state ⟨poolSize, file, small, rfl⟩
    exact ⟨steady (.start ⟨poolSize, file, small, rfl⟩), opened_allocatable small, nofun,
      fun index _ real => absurd (congrArg Frame.pageId frame_new) real⟩
  · rintro past state call later - known ⟨minds, rfl⟩
    exact owners_act known minds

/-- NewPage gives out no page that somebody has or that is in a frame, and no two frames carry one page. -/
structure OneOwner (history : PoolHistory) : Prop where
  fresh : ∀ pageId index, (PoolCall.newPage.perform history.storage).1 = .page pageId index →
    history.given pageId = false ∧
      ∀ other < history.storage.pool.frames.length, (history.storage.pool.frame other).pageId ≠ pageId
  apart : ∀ first second, first < history.storage.pool.frames.length → second < history.storage.pool.frames.length →
    (history.storage.pool.frame first).pageId = (history.storage.pool.frame second).pageId →
      first = second ∨ (history.storage.pool.frame first).pageId = invalidPageId

theorem oneOwner (owners : Owners history) : OneOwner history := by
  refine ⟨fun pageId index page => ?_, fun first second one two same => ?_⟩
  · have effect := perform_effect owners.steady .newPage
    rw [page] at effect
    obtain ⟨absent, unused, nonneg, -⟩ := effect.allocated owners.allocatable
    refine ⟨Bool.eq_false_iff.mpr fun given => unused (owners.given pageId given).2, fun other inside named => ?_⟩
    have real : (history.storage.pool.frame other).pageId ≠ invalidPageId := by
      rw [named]
      rintro rfl
      exact absurd nonneg (by decide)
    have found := owners.carried other inside real
    rw [named, absent] at found
    cases found
  · by_cases real : (history.storage.pool.frame first).pageId = invalidPageId
    · exact .inr real
    · have here := owners.carried first one real
      have there := owners.carried second two (same ▸ real)
      exact .inl (Option.some.inj (here.symm.trans (same ▸ there)))

/-- As long as no page is freed twice, freed before it was allocated, or brought in unallocated. -/
theorem no_two_owners {past : List PoolHistory} (run : ReachesWhen Minds past history) : OneOwner history :=
  oneOwner (owners run)

theorem no_two_owners_pair :
    ∃ past history, ReachesWhen Minds past history ∧ history.given 0 = true ∧ history.given 1 = true ∧ OneOwner history := by
  have shared : ∃ visited ∈ replay (actWhen Minds) (opened 2 [])
      [.newPage, .unpinPage 0 true, .newPage, .unpinPage 1 false, .deletePage 0, .newPage],
      visited.2.given 0 = true ∧ visited.2.given 1 = true := by
    decide +kernel
  obtain ⟨visited, played, one, two⟩ := shared
  have run := replay_reaches played
  exact ⟨visited.1, visited.2, run, one, two, no_two_owners run⟩

/-- A page deleted twice is given out twice, into two frames. -/
theorem no_two_owners_fails : ¬ ∀ past history, Reaches past history → OneOwner history := by
  intro alone
  have doubled : ∃ visited ∈ replay (actWhen fun _ _ => True) (opened 2 [])
      [.newPage, .unpinPage 0 false, .deletePage 0, .deletePage 0, .newPage],
      visited.2.given 0 = true ∧ (PoolCall.newPage.perform visited.2.storage).1 = .page 0 1 := by
    decide +kernel
  obtain ⟨visited, played, given, again⟩ := doubled
  have fresh := (alone _ _ (replay_reaches played)).fresh 0 1 again
  exact Bool.noConfusion (given.symm.trans fresh.1)

end PoolHistory

end QuorumDB.Storage
