import QuorumDB.Storage.PageOwners

/-!
What a page from NewPage reads as before anybody writes to it. NewPage clears the frame
but does not mark it dirty, so an eviction drops the zeros and a later FetchPage reads
whatever the file has at that place.
-/

namespace QuorumDB.Storage
open BufferedDisk Execution

section Effects

variable {before after left : BufferedDisk} {pool : BufferPoolManager} {index : Nat} {asked pageId : PageId} {block : Block}
  {call : PoolCall} {answer : PoolAnswer}

theorem Reframes.content {later : BufferPoolManager} {frame : Frame} (reframes : BufferedDisk.Reframes before.pool later index frame)
    (same : frame.block = (before.pool.frame index).block) : (before.withPool later).content asked = before.content asked := by
  have find : (before.withPool later).pool.find asked = before.pool.find asked := reframes.find asked
  unfold BufferedDisk.content
  rw [find]
  cases found : before.pool.find asked with
  | none => rfl
  | some place =>
    change (later.frame place).block = (before.pool.frame place).block
    by_cases here : place = index
    · rw [here, reframes.here, same]
    · rw [reframes.others place here]

theorem Installs.content {disk : DiskManager} (installs : Installs left.pool pool index pageId block)
    (loose : ∀ other, left.pool.find other ≠ some index) (different : asked ≠ pageId) (file : disk.file = left.disk.file) :
    (⟨pool, disk⟩ : BufferedDisk).content asked = left.content asked := by
  refine content_of_same ?_ (fun place found => installs.others place ?_) ?_
  · exact (installs.find asked).trans (if_neg fun both => different both.1)
  · rintro rfl
    exact loose asked found
  · unfold DiskManager.stored
    simp only [file]

theorem Installs.content_here {disk : DiskManager} (installs : Installs left.pool pool index pageId block)
    (absent : left.pool.find pageId = none) : (⟨pool, disk⟩ : BufferedDisk).content pageId = block := by
  have found : pool.find pageId = some index := by
    rw [installs.find, if_pos ⟨rfl, absent⟩]
  unfold BufferedDisk.content
  simp only [found, installs.here]

/-- A new page is zero unless a frame that stays has other bytes for its identifier. -/
theorem Installs.content_new {disk : DiskManager} (installs : Installs left.pool pool index pageId Block.zero)
    (takes : BufferedDisk.Takes before left index)
    (zero : ∀ old, before.pool.find pageId = some old → old = index ∨ (before.pool.frame old).block = Block.zero) :
    (⟨pool, disk⟩ : BufferedDisk).content pageId = Block.zero := by
  by_cases taken : before.pool.find pageId = some index
  · exact installs.content_here ((takes.find pageId).trans (if_pos taken))
  · have same := (takes.find pageId).trans (if_neg taken)
    cases found : before.pool.find pageId with
    | none => exact installs.content_here (same.trans found)
    | some old =>
      have apart : old ≠ index := fun equal => taken (equal ▸ found)
      have kept := installs.keeps (same.trans found)
      unfold BufferedDisk.content
      simp only [kept]
      rw [installs.others old apart, takes.frame old apart]
      exact (zero old found).resolve_left apart

/-- The page is not the call's new page, not the one it deletes and not the one it writes to. -/
structure Untouched (before : BufferedDisk) (call : PoolCall) (answer : PoolAnswer) (pageId : PageId) : Prop where
  old : ∀ index, answer = .page pageId index → call ≠ .newPage
  undeleted : answer = .flag true → call ≠ .deletePage pageId
  unwritten : answer = .done → ∀ index block, call = .write index block → before.pool.find pageId ≠ some index

theorem Untouched.of_quiet (quiet : answer = .nullptr ∨ answer = .flag false ∨ ∃ error, answer = .thrown error) :
    Untouched before call answer pageId := by
  rcases quiet with rfl | rfl | ⟨error, rfl⟩ <;> exact ⟨nofun, nofun, nofun⟩

/-- The calls that take a frame if there is one. -/
def TakesFrame (before : BufferedDisk) : PoolCall → Prop
  | .fetchPage pageId => pageId ≠ invalidPageId ∧ before.pool.find pageId = none
  | .newPage => True
  | .unpinPage .. | .flushPage _ | .flushAllPages | .deletePage _ | .write .. => False

theorem Refused.takesFrame (refused : Refused before call) (valid : before.pool.Valid) : TakesFrame before call := by
  cases call with
  | fetchPage pageId =>
    refine ⟨refused.2, ?_⟩
    cases found : before.pool.find pageId with
    | none => rfl
    | some index => exact absurd refused.1 (Int32.not_lt.mpr (valid.framed pageId index found).2.2)
  | newPage => trivial
  | unpinPage | flushPage | flushAllPages | deletePage | write => exact refused.elim

theorem real_of_nonneg (nonneg : 0 ≤ pageId) : pageId ≠ invalidPageId := by
  rintro rfl
  exact absurd nonneg (by decide)

/-- A page reads as before unless it is touched, or evicted unmarked with other bytes than the file's. -/
theorem PoolEffect.content (effect : PoolEffect before call answer after) (valid : before.pool.Valid) (nonneg : 0 ≤ asked)
    (untouched : Untouched before call answer asked)
    (saved : TakesFrame before call → ∀ left index, BufferedDisk.Takes before left index →
      before.pool.find asked = some index → before.Clean asked) :
    after.content asked = before.content asked := by
  cases effect with
  | idle => rfl
  | hit found reframes => exact Reframes.content reframes rfl
  | @loaded pageId index left _ low absent takes installs =>
    have kept := takes.content asked nonneg (saved ⟨real_of_nonneg low, absent⟩ left index takes)
    by_cases same : asked = pageId
    · subst same
      rw [← kept]
      refine (installs.content_here (Takes.absent takes absent)).trans ?_
      unfold BufferedDisk.content
      rw [Takes.absent takes absent]
    · exact (installs.content takes.acquired.loose same rfl).trans kept
  | @created pageId index left _ disk later low allocates takes installs file =>
    have different : asked ≠ pageId := fun same =>
      untouched.old index (congrArg (PoolAnswer.page · index) same.symm) rfl
    exact (installs.content takes.acquired.loose different file).trans
      (takes.content asked nonneg (saved trivial left index takes))
  | @lost _ _ index _ refused takes => 
    exact takes.content asked nonneg (saved (refused.takesFrame valid) after index takes)
  | released found pinned reframes => exact Reframes.content reframes rfl
  | flushedPage settled => exact settled.content nonneg
  | flushed settled => exact settled.content nonneg
  | @deleted pageId _ deletes =>
    have different : asked ≠ pageId := fun same =>
      untouched.undeleted rfl (congrArg PoolCall.deletePage same.symm)
    refine content_of_same ((deletes.find asked).trans (if_neg different)) (fun place found => deletes.frame place ?_) ?_
    · exact fun same => different (valid.inj found same)
    · unfold DiskManager.stored
      simp only [deletes.file]
  | @wrote index block =>
    refine content_of_same rfl (fun place found => ?_) rfl
    exact BufferPoolManager.frame_setFrame_other fun same =>
      untouched.unwritten rfl index block rfl (same ▸ found)

end Effects

namespace PoolHistory

variable {history : PoolHistory} {call : PoolCall}

/-- Whoever fetches a new page that nobody changed finds zeros. -/
def ReadsZero (history : PoolHistory) : Prop :=
  ∀ pageId index after, history.blank pageId = true →
    (PoolCall.fetchPage pageId).perform history.storage = (.page pageId index, after) →
      (after.pool.frame index).block = Block.zero

/-- The frame that would be taken next holds no new page that nobody changed, unless the file has zeros for it too
or the page is written back. -/
def EvictsZero (history : PoolHistory) : Prop :=
  history.storage.pool.freeFrames = [] → ∀ index ∈ history.storage.pool.lru.getLast?,
    history.blank (history.storage.pool.frame index).pageId = true → (history.storage.pool.frame index).isDirty = false →
      history.storage.disk.stored (history.storage.pool.frame index).pageId = Block.zero

/-- The page that NewPage is about to hand out is in no frame, or in the one that is taken for it, or in
one with nothing but zeros. -/
def NewIsZero (history : PoolHistory) : Prop :=
  history.storage.pool.Available → ∀ allocated ∈ history.storage.disk.allocatePage.toOption,
    ∀ index ∈ history.storage.pool.find allocated.1,
      (history.storage.pool.freeFrames = [] ∧ history.storage.pool.lru.getLast? = some index) ∨
        (history.storage.pool.frame index).block = Block.zero

def KeepsZero (history : PoolHistory) : PoolCall → Prop
  | .fetchPage pageId => pageId ≠ invalidPageId → history.storage.pool.find pageId = none → EvictsZero history
  | .newPage => EvictsZero history ∧ NewIsZero history
  | .unpinPage .. | .flushPage _ | .flushAllPages | .deletePage _ | .write .. => True

instance : Decidable (EvictsZero history) := inferInstanceAs (Decidable (_ → _))

instance : Decidable (NewIsZero history) := inferInstanceAs (Decidable (_ → _))

instance (history : PoolHistory) : (call : PoolCall) → Decidable (KeepsZero history call)
  | .fetchPage _ => inferInstanceAs (Decidable (_ → _))
  | .newPage => inferInstanceAs (Decidable (_ ∧ _))
  | .unpinPage .. | .flushPage _ | .flushAllPages | .deletePage _ | .write .. => inferInstanceAs (Decidable True)

/-- The new pages that nobody changed are zero, in their frames and out of them. -/
def BlankIsZero (history : PoolHistory) : Prop :=
  ∀ pageId, history.blank pageId = true → 0 ≤ pageId ∧ history.storage.content pageId = Block.zero

theorem blank_record {answer : PoolAnswer} {after : BufferedDisk} (effect : PoolEffect history.storage call answer after)
    {pageId : PageId} (blank : (history.record call answer after).blank pageId = true) :
    (call = .newPage ∧ ∃ index, answer = .page pageId index) ∨
      history.blank pageId = true ∧ Untouched history.storage call answer pageId := by
  have silent : ∀ {answer : PoolAnswer}, (answer = .nullptr ∨ answer = .flag false ∨ ∃ error, answer = .thrown error) →
      (history.record call answer after).blank pageId = true →
        history.blank pageId = true ∧ Untouched history.storage call answer pageId := by
    intro answer quiet blank
    rw [record_quiet history call after quiet] at blank
    exact ⟨blank, .of_quiet quiet⟩
  cases effect with
  | idle quiet => exact .inr (silent (quiet.imp And.right (.inl ·.2)) blank)
  | hit found =>
    rw [record_hit found] at blank
    exact .inr ⟨blank, nofun, nofun, nofun⟩
  | loaded nonneg absent =>
    rw [record_loaded absent] at blank
    exact .inr ⟨blank, nofun, nofun, nofun⟩
  | @created other index =>
    by_cases same : pageId = other
    · exact .inl ⟨rfl, index, congrArg (PoolAnswer.page · index) same.symm⟩
    · refine .inr ⟨(Function.update_of_ne same _ _).symm.trans blank, fun place page => ?_, nofun, nofun⟩
      exact absurd (PoolAnswer.page.inj page).1.symm same
  | lost => exact .inr (silent (.inr (.inr ⟨_, rfl⟩)) blank)
  | released => exact .inr ⟨blank, nofun, nofun, nofun⟩
  | @flushedPage _ success => cases success <;> exact .inr ⟨blank, nofun, nofun, nofun⟩
  | flushed => exact .inr ⟨blank, nofun, nofun, nofun⟩
  | @deleted other =>
    by_cases same : pageId = other
    · subst same
      exact nomatch (Function.update_self _ _ _).symm.trans blank
    · refine .inr ⟨(Function.update_of_ne same _ _).symm.trans blank, nofun, fun _ deletes => same ?_, nofun⟩
      exact (PoolCall.deletePage.inj deletes).symm
  | @wrote index block =>
    obtain ⟨old, apart⟩ := Bool.and_eq_true_iff.mp blank
    refine .inr ⟨old, nofun, nofun, fun _ place other written => ?_⟩
    rw [← (PoolCall.write.inj written).1]
    exact of_decide_eq_true apart

theorem EvictsZero.clean (evicts : EvictsZero history) (valid : history.storage.pool.Valid) (known : BlankIsZero history)
    {left : BufferedDisk} {index : Nat} (takes : BufferedDisk.Takes history.storage left index) {pageId : PageId}
    (blank : history.blank pageId = true) (found : history.storage.pool.find pageId = some index) :
    history.storage.Clean pageId := by
  intro place located unmarked
  obtain rfl : place = index := Option.some.inj (located.symm.trans found)
  rcases takes.source with free | ⟨none, last⟩
  · exact absurd found ((valid.free_apart place free).2 pageId)
  · have named := (valid.framed pageId place found).2.1
    have zero := (known pageId blank).2
    unfold BufferedDisk.content at zero
    simp only [found] at zero
    rw [zero, ← named]
    exact (evicts none place last (named.symm ▸ blank) unmarked).symm

theorem KeepsZero.evictsZero (keeps : KeepsZero history call) (takes : TakesFrame history.storage call) : EvictsZero history := by
  cases call with
  | fetchPage pageId => exact keeps takes.1 takes.2
  | newPage => exact keeps.1
  | unpinPage | flushPage | flushAllPages | deletePage | write => exact takes.elim

theorem blankIsZero_act (steady : Steady history.storage) (known : BlankIsZero history) (keeps : KeepsZero history call) :
    BlankIsZero (history.act call) := by
  obtain ⟨answer, after, -, acted, effect⟩ := act_effect steady call
  rw [acted]
  intro pageId blank
  rw [record_storage]
  rcases blank_record effect blank with ⟨rfl, index, rfl⟩ | ⟨old, untouched⟩
  · cases effect with
    | idle quiet => rcases quiet with ⟨-, impossible⟩ | ⟨-, impossible⟩ <;> cases impossible
    | @created _ _ _ _ _ later nonneg allocates takes installs =>
      have member : (pageId, later) ∈ history.storage.disk.allocatePage.toOption := by
        rw [allocates]
        exact rfl
      refine ⟨nonneg, installs.content_new takes fun old found => ?_⟩
      rcases keeps.2 (Takes.available takes) _ member old found with ⟨none, last⟩ | zero
      · rcases takes.source with free | ⟨-, taken⟩
        · rw [none] at free
          cases free
        · exact .inl (Option.some.inj (last.symm.trans taken))
      · exact .inr zero
  · obtain ⟨nonneg, zero⟩ := known pageId old
    refine ⟨nonneg, (effect.content steady.valid nonneg untouched fun taking left index takes found => ?_).trans zero⟩
    exact (keeps.evictsZero taking).clean steady.valid known takes old found

theorem blankIsZero {past : List PoolHistory} (run : ReachesWhen KeepsZero past history) : BlankIsZero history := by
  refine @Run.invariant _ _ Initial (StepWhen KeepsZero) (fun _ state => BlankIsZero state) ?_ ?_ _ _ run
  · rintro state ⟨poolSize, file, small, rfl⟩
    nofun
  · rintro past state call later before known ⟨keeps, rfl⟩
    exact blankIsZero_act (steady (ReachesWhen.reaches before)) known keeps

theorem fetched_content {after : BufferedDisk} (steady : Steady history.storage) {pageId : PageId} {index : Nat}
    (fetched : (PoolCall.fetchPage pageId).perform history.storage = (.page pageId index, after)) :
    (after.pool.frame index).block = history.storage.content pageId := by
  have effect := perform_effect steady (.fetchPage pageId)
  rw [fetched] at effect
  unfold BufferedDisk.content
  cases effect with
  | idle quiet => rcases quiet with ⟨-, impossible⟩ | ⟨-, impossible⟩ <;> cases impossible
  | hit found reframes =>
    simp only [found]
    have here := congrArg Frame.block reframes.here
    exact here
  | loaded nonneg absent takes installs =>
    have same := takes.content pageId nonneg fun found => nomatch absent.symm.trans found
    unfold BufferedDisk.content at same
    rw [Takes.absent takes absent, absent] at same
    simp only [absent]
    exact (congrArg Frame.block installs.here).trans same

/-- As long as no new page is evicted over other bytes and none is handed out that a frame has other
bytes for. -/
theorem new_page_stays_zero {past : List PoolHistory} (run : ReachesWhen KeepsZero past history) : ReadsZero history := by
  intro pageId index after blank fetched
  rw [fetched_content (steady run.reaches) fetched]
  exact (blankIsZero run pageId blank).2

/-- A new page that was evicted reads as zeros when it comes back. -/
theorem new_page_stays_zero_evicted :
    ∃ past history, ReachesWhen KeepsZero past history ∧ history.blank 0 = true ∧
      history.storage.pool.find 0 = none ∧ ReadsZero history := by
  have unpinned : ∃ visited ∈ replay (actWhen KeepsZero) (opened 1 []) [.newPage, .unpinPage 0 false],
      visited.2.storage.disk.file = [] ∧ NewIsZero visited.2 ∧ (visited.2.act .newPage).blank 0 = true ∧
        (visited.2.act .newPage).storage.pool.find 0 = none := by
    decide +kernel
  obtain ⟨visited, played, empty, fresh, blank, absent⟩ := unpinned
  have past : ∀ pageId, visited.2.storage.disk.file.length ≤ DiskManager.offset pageId := fun pageId => by
    rw [empty]
    exact Nat.zero_le _
  have zeros : EvictsZero visited.2 := fun _ _ _ _ _ => DiskManager.stored_past (past _)
  have keeps : KeepsZero visited.2 .newPage := ⟨zeros, fresh⟩
  have run := (replay_reaches played).next ⟨keeps, rfl⟩
  exact ⟨_, _, run, blank, absent, new_page_stays_zero run⟩

theorem fetch_loads (steady : Steady history.storage) {pageId : PageId} (nonneg : 0 ≤ pageId)
    (absent : history.storage.pool.find pageId = none) (available : history.storage.pool.Available) :
    ∃ index after, (PoolCall.fetchPage pageId).perform history.storage = (.page pageId index, after) := by
  have effect := perform_effect steady (.fetchPage pageId)
  generalize ran : (PoolCall.fetchPage pageId).perform history.storage = outcome at effect ⊢
  obtain ⟨answer, after⟩ := outcome
  cases effect with
  | idle quiet =>
    rcases quiet with ⟨invalid | unavailable, -⟩ | ⟨silent, -⟩
    · exact absurd (PoolCall.fetchPage.inj invalid) (real_of_nonneg nonneg)
    · exact absurd available unavailable
    · cases silent
  | hit found => cases absent.symm.trans found
  | loaded => exact ⟨_, _, rfl⟩
  | lost refused => exact absurd refused.1 (Int32.not_lt.mpr nonneg)

/-- A page that was written, deleted and handed out again comes back with its old bytes. -/
theorem new_page_stays_zero_fails : ¬ ∀ past history, Reaches past history → ReadsZero history := by
  intro zero
  have recycled : ∃ visited ∈ replay (actWhen fun _ _ => True) (opened 1 [])
      [.newPage, .write 0 (Block.zero.write [0x78]), .unpinPage 0 true, .flushPage 0, .deletePage 0,
        .newPage, .unpinPage 0 false, .newPage, .unpinPage 1 false],
      visited.2.blank 0 = true ∧ visited.2.storage.pool.find 0 = none ∧ visited.2.storage.pool.Available ∧
        (visited.2.storage.disk.stored 0).bytes.head? = some 0x78 := by
    decide +kernel
  obtain ⟨visited, played, blank, absent, available, old⟩ := recycled
  have run := replay_reaches played
  obtain ⟨index, after, fetched⟩ := fetch_loads (steady run) (by decide) absent available
  have read := zero _ _ run 0 index after blank fetched
  rw [fetched_content (steady run) fetched] at read
  unfold BufferedDisk.content at read
  simp only [absent] at read
  rw [read] at old
  cases old

end PoolHistory

end QuorumDB.Storage
