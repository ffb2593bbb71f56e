import QuorumDB.Lib.Execution
import QuorumDB.Storage.Loans

/-!
Clients of the buffer pool. A ledger keeps, for every page in use, what the clients left
in it; the pool agrees with the ledger after any sequence of calls that keep the rules:
a page is used only between NewPage and DeletePage, its bytes change only while it is
pinned, and the last pin is not given up before a dirty unpin has covered every change.
-/

namespace QuorumDB.Storage
open BufferedDisk Execution

structure PoolUse where
  storage : BufferedDisk
  ledger : PageId → Option Loan

inductive PoolAction where
  | newPage
  | fetchPage (pageId : PageId)
  | write (pageId : PageId) (block : Block)
  | unpinPage (pageId : PageId) (isDirty : Bool)
  | flushPage (pageId : PageId)
  | flushAllPages
  | deletePage (pageId : PageId)

namespace PoolUse

def lend (use : PoolUse) (storage : BufferedDisk) (pageId : PageId) (loan : Option Loan) : PoolUse :=
  ⟨storage, Function.update use.ledger pageId loan⟩

/-- One call of a client; `none` when it breaks the rules. -/
def act (use : PoolUse) : PoolAction → Option PoolUse
  | .newPage =>
      match newPage use.storage with
      | (.ok (some (pageId, index)), after) => some (use.lend after pageId (some ⟨index, Block.zero, 1, true⟩))
      | (_, after) => some ⟨after, use.ledger⟩
  | .fetchPage pageId => do
      let loan ← use.ledger pageId
      match fetchPage pageId use.storage with
      | (.ok (some index), after) =>
          some (use.lend after pageId (some { loan with frame := index, pins := loan.pins + 1 }))
      | (_, after) => some ⟨after, use.ledger⟩
  | .write pageId block => do
      let loan ← use.ledger pageId
      if loan.pins = 0 then none
      else some (use.lend (setBlock loan.frame block use.storage).2 pageId
        (some { loan with bytes := block, owed := true }))
  | .unpinPage pageId isDirty => do
      let loan ← use.ledger pageId
      if loan.pins = 1 ∧ loan.owed = true ∧ isDirty = false then none
      else
        match unpinPage pageId isDirty use.storage with
        | (.ok true, after) =>
            some (use.lend after pageId (some { loan with pins := loan.pins - 1, owed := loan.owed && !isDirty }))
        | (_, after) => some ⟨after, use.ledger⟩
  | .flushPage pageId => do
      let _ ← use.ledger pageId
      some ⟨(flushPage pageId use.storage).2, use.ledger⟩
  | .flushAllPages => some ⟨(flushAllPages use.storage).2, use.ledger⟩
  | .deletePage pageId => do
      let _ ← use.ledger pageId
      match deletePage pageId use.storage with
      | (.ok true, after) => some (use.lend after pageId none)
      | (_, after) => some ⟨after, use.ledger⟩

def opened (poolSize : Nat) (file : Bytes) : PoolUse :=
  ⟨⟨BufferPoolManager.new poolSize, DiskManager.openFile file⟩, fun _ => none⟩

/-- The file is one that a disk manager can have left: identifiers end at the largest `int32`. -/
def Initial (use : PoolUse) : Prop :=
  ∃ poolSize file, file.length / pageSize < 2147483648 ∧ use = opened poolSize file

def Step (use : PoolUse) (action : PoolAction) (later : PoolUse) : Prop := use.act action = some later

abbrev Reaches : List PoolUse → PoolUse → Prop := Run Initial Step

end PoolUse

structure PoolUse.Agrees (use : PoolUse) : Prop where
  valid : use.storage.pool.Valid
  allocatable : Allocatable use.storage
  lent : ∀ pageId loan, use.ledger pageId = some loan → Lent use.storage pageId loan

variable {use : PoolUse} {before after storage : BufferedDisk} {pageId other : PageId} {loan : Loan}

theorem PoolUse.Agrees.lend (agrees : use.Agrees) (valid : after.pool.Valid) (allocatable : Allocatable after)
    (apart : Apart (fun other => other = pageId) use.storage after)
    (next : use.storage.disk.nextPageId ≤ after.disk.nextPageId)
    (free : ∀ other ∈ after.disk.freeList, other = pageId ∨ other ∈ use.storage.disk.freeList)
    {renewed : Option Loan} (lent : ∀ loan, renewed = some loan → Lent after pageId loan) :
    (use.lend after pageId renewed).Agrees := by
  refine ⟨valid, allocatable, fun other loan found => ?_⟩
  change Function.update use.ledger pageId renewed other = some loan at found
  by_cases same : other = pageId
  · rw [same, Function.update_self] at found
    exact same ▸ lent loan found
  · rw [Function.update_of_ne same] at found
    have old := agrees.lent other loan found
    exact old.keep apart same next fun inside => (free other inside).elim same old.used

theorem PoolUse.Agrees.unchanged (agrees : use.Agrees) (valid : after.pool.Valid) (allocatable : Allocatable after)
    (apart : Apart (fun _ => False) use.storage after) (next : after.disk.nextPageId = use.storage.disk.nextPageId)
    (free : after.disk.freeList = use.storage.disk.freeList) : (⟨after, use.ledger⟩ : PoolUse).Agrees := by
  refine ⟨valid, allocatable, fun other loan found => ?_⟩
  have old := agrees.lent other loan found
  exact old.keep apart id (next ▸ Int32.le_refl _) (free ▸ old.used)

/-- A write of one frame to the file, or of several: every page stays in its frame with its
bytes and pins, and what was in order is in order. -/
structure Settled (before after : BufferedDisk) : Prop where
  valid : after.pool.Valid
  find : ∀ asked, after.pool.find asked = before.pool.find asked
  block : ∀ index, (after.pool.frame index).block = (before.pool.frame index).block
  pinCount : ∀ index, (after.pool.frame index).pinCount = (before.pool.frame index).pinCount
  dirty : ∀ index, (after.pool.frame index).isDirty = true → (before.pool.frame index).isDirty = true
  stored : ∀ asked, 0 ≤ asked → before.pool.find asked = none → after.disk.stored asked = before.disk.stored asked
  clean : ∀ asked, 0 ≤ asked → before.Clean asked → after.Clean asked
  nextPageId : after.disk.nextPageId = before.disk.nextPageId
  freeList : after.disk.freeList = before.disk.freeList

theorem Settled.refl (valid : storage.pool.Valid) : Settled storage storage :=
  ⟨valid, fun _ => rfl, fun _ => rfl, fun _ => rfl, fun _ => id, fun _ _ _ => rfl, fun _ _ => id, rfl, rfl⟩

theorem Settled.trans {middle : BufferedDisk} (one : Settled before middle) (two : Settled middle after) :
    Settled before after where
  valid := two.valid
  find asked := (two.find asked).trans (one.find asked)
  block index := (two.block index).trans (one.block index)
  pinCount index := (two.pinCount index).trans (one.pinCount index)
  dirty index isDirty := one.dirty index (two.dirty index isDirty)
  stored asked nonneg absent :=
    (two.stored asked nonneg ((one.find asked).trans absent)).trans (one.stored asked nonneg absent)
  clean asked nonneg clean := two.clean asked nonneg (one.clean asked nonneg clean)
  nextPageId := two.nextPageId.trans one.nextPageId
  freeList := two.freeList.trans one.freeList

theorem Settled.pins (settled : Settled before after) (asked : PageId) : after.pins asked = before.pins asked := by
  unfold BufferedDisk.pins
  rw [settled.find]
  cases before.pool.find asked with
  | none => rfl
  | some index => exact settled.pinCount index

theorem Settled.content (settled : Settled before after) {asked : PageId} (nonneg : 0 ≤ asked) :
    after.content asked = before.content asked := by
  unfold BufferedDisk.content
  rw [settled.find]
  cases found : before.pool.find asked with
  | none => exact settled.stored asked nonneg found
  | some index => exact settled.block index

theorem Settled.allocatable (settled : Settled before after) (allocatable : Allocatable before) : Allocatable after := by
  refine ⟨settled.nextPageId ▸ allocatable.next, settled.freeList ▸ allocatable.free_nodup, ?_, fun asked index found => ?_⟩
  · rw [settled.freeList, settled.nextPageId]
    exact allocatable.free_range
  · rw [settled.freeList, settled.nextPageId]
    exact allocatable.resident asked index (settled.find asked ▸ found)

theorem Lent.settled (lent : Lent before pageId loan) (settled : Settled before after) : Lent after pageId loan where
  nonneg := lent.nonneg
  below := settled.nextPageId ▸ lent.below
  used := settled.freeList ▸ lent.used
  pins := (settled.pins pageId).trans lent.pins
  placed pinned := (settled.find pageId).trans (lent.placed pinned)
  bytes := (settled.content lent.nonneg).trans lent.bytes
  clean notOwed := settled.clean pageId lent.nonneg (lent.clean notOwed)
  owed := lent.owed

theorem PoolUse.Agrees.settled (agrees : use.Agrees) (settled : Settled use.storage after) :
    (⟨after, use.ledger⟩ : PoolUse).Agrees :=
  ⟨settled.valid, settled.allocatable agrees.allocatable,
    fun pageId loan found => (agrees.lent pageId loan found).settled settled⟩

theorem flushPage_spec (valid : storage.pool.Valid) (pageId : PageId) :
    ∃ flushed after, flushPage pageId storage = (.ok flushed, after) ∧ Settled storage after ∧
      ∀ index, after.pool.find pageId = some index → (after.pool.frame index).isDirty = false := by
  unfold flushPage
  cases found : storage.pool.find pageId with
  | none => exact ⟨_, _, rfl, .refl valid, fun index located => nomatch found.symm.trans located⟩
  | some index =>
    obtain ⟨inside, -, nonneg⟩ := valid.framed pageId index found
    cases isDirty : (storage.pool.frame index).isDirty with
    | false =>
      simp only [isDirty, Bool.false_eq_true, ↓reduceIte]
      refine ⟨_, _, rfl, .refl valid, fun place located => ?_⟩
      rw [← Option.some.inj (found.symm.trans located)]
      exact isDirty
    | true =>
      obtain ⟨disk, wrote, next, list, same, others⟩ :=
        @DiskManager.writePage_eq storage.disk pageId (storage.pool.frame index).block nonneg
      obtain ⟨kept, here, apart⟩ := @reframe_spec storage pageId index valid found
        { storage.pool.frame index with isDirty := false } rfl Iff.rfl
      simp only [isDirty, ↓reduceIte, wrote]
      have elsewhere : ∀ other, other ≠ index → (storage.pool.setFrame index
          { storage.pool.frame index with isDirty := false }).frame other = storage.pool.frame other :=
        fun other different => BufferPoolManager.frame_setFrame_other different
      refine ⟨_, _, rfl, ⟨kept, fun _ => rfl, fun place => ?_, fun place => ?_, fun place => ?_, fun asked nonneg absent => ?_,
        fun asked nonneg clean place located notDirty => ?_, next, list⟩, fun place located => ?_⟩
      · by_cases at_index : place = index
        · rw [at_index, here]
        · rw [elsewhere place at_index]
      · by_cases at_index : place = index
        · rw [at_index, here]
        · rw [elsewhere place at_index]
      · by_cases at_index : place = index
        · rw [at_index]
          exact fun _ => isDirty
        · rw [elsewhere place at_index]
          exact id
      · refine others asked nonneg fun equal => ?_
        rw [equal, found] at absent
        cases absent
      · change storage.pool.find asked = some place at located
        change ((storage.pool.setFrame index _).frame place).isDirty = false at notDirty
        change ((storage.pool.setFrame index _).frame place).block = disk.stored asked
        by_cases at_index : place = index
        · rw [at_index] at located ⊢
          rw [here, valid.inj located found]
          exact same.symm
        · rw [elsewhere place at_index] at notDirty ⊢
          have different : asked ≠ pageId := fun equal =>
            at_index (Option.some.inj (located.symm.trans (equal ▸ found)))
          rw [others asked nonneg different]
          exact clean place located notDirty
      · rw [← Option.some.inj (found.symm.trans located), here]

theorem flushPages_spec (pages : List PageId) (valid : storage.pool.Valid) :
    ∃ after, flushPages pages storage = (.ok (), after) ∧ Settled storage after ∧
      ∀ pageId ∈ pages, ∀ index, after.pool.find pageId = some index → (after.pool.frame index).isDirty = false := by
  induction pages generalizing storage with
  | nil => exact ⟨storage, rfl, .refl valid, fun pageId impossible => absurd impossible List.not_mem_nil⟩
  | cons first rest ih =>
    obtain ⟨flushed, middle, ran, one, saved⟩ := flushPage_spec valid first
    obtain ⟨after, looped, two, others⟩ := ih one.valid
    refine ⟨after, ?_, one.trans two, fun pageId inside index located => ?_⟩
    · simp only [flushPages, ran]
      exact looped
    · rcases List.mem_cons.mp inside with rfl | later
      · have earlier := (two.find pageId).symm.trans located
        cases isDirty : (after.pool.frame index).isDirty with
        | false => rfl
        | true => exact (two.dirty index isDirty).symm.trans (saved index earlier)
      · exact others pageId later index located

theorem mem_keys_of_find {pool : BufferPoolManager} {index : Nat} (found : pool.find pageId = some index) :
    pageId ∈ pool.pageTable.map Prod.fst := by
  obtain ⟨entry, located, -⟩ := Option.map_eq_some_iff.mp found
  have named := List.find?_some located
  rw [← of_decide_eq_true named]
  exact List.mem_map_of_mem (List.mem_of_find?_eq_some located)

theorem flushAllPages_spec (valid : storage.pool.Valid) :
    ∃ after, flushAllPages storage = (.ok (), after) ∧ Settled storage after ∧
      ∀ pageId index, after.pool.find pageId = some index → (after.pool.frame index).isDirty = false := by
  obtain ⟨after, ran, settled, saved⟩ := flushPages_spec (storage.pool.pageTable.map Prod.fst) valid
  refine ⟨after, ran, settled, fun pageId index located => ?_⟩
  exact saved pageId (mem_keys_of_find ((settled.find pageId).symm.trans located)) index located

namespace PoolUse.Agrees

theorem relend (agrees : use.Agrees) (found : use.ledger pageId = some loan) {renewed : Loan}
    (relent : Relent use.storage after pageId renewed) : (use.lend after pageId (some renewed)).Agrees := by
  have lent := agrees.lent pageId loan found
  refine agrees.lend relent.valid (agrees.allocatable.keep (fun other same => ?_) relent.apart.absent relent.nextPageId relent.freeList)
    relent.apart (relent.nextPageId ▸ Int32.le_refl _) (fun other inside => .inr (relent.freeList ▸ inside)) fun loan given => ?_
  · exact same ▸ ⟨lent.below, lent.used⟩
  · exact Option.some.inj given ▸ relent.lent

theorem newPage (agrees : use.Agrees) :
    ∃ later, use.act .newPage = some later ∧ later.Agrees := by
  rcases newPage_lent agrees.valid agrees.allocatable with ⟨index, left, threw, acquired⟩ | ran |
    ⟨pageId, index, after, later, ran, fresh, valid, lent, apart, next, list⟩
  · refine ⟨⟨left, use.ledger⟩, by simp only [act, threw], ?_⟩
    exact agrees.unchanged acquired.valid (agrees.allocatable.keep (fun _ impossible => impossible.elim)
      acquired.apart.absent acquired.nextPageId acquired.freeList) acquired.apart acquired.nextPageId acquired.freeList
  · exact ⟨use, by simp only [act, ran], agrees⟩
  · refine ⟨use.lend after pageId (some ⟨index, Block.zero, 1, true⟩), by simp only [act, ran], ?_⟩
    refine agrees.lend valid (fresh.keep agrees.allocatable apart.absent next list) apart (next ▸ fresh.next)
      (fun other inside => .inr (fresh.rest other (list ▸ inside))) fun loan given => ?_
    exact Option.some.inj given ▸ lent

theorem fetchPage (agrees : use.Agrees) (found : use.ledger pageId = some loan) :
    ∃ later, use.act (.fetchPage pageId) = some later ∧ later.Agrees := by
  rcases fetchPage_lent agrees.valid (agrees.lent pageId loan found) with ⟨index, after, ran, -, -, relent⟩ | ran
  · refine ⟨use.lend after pageId (some { loan with frame := index, pins := loan.pins + 1 }),
      by simp only [act, found, Option.bind_eq_bind, Option.bind_some, ran], agrees.relend found relent⟩
  · exact ⟨use, by simp only [act, found, Option.bind_eq_bind, Option.bind_some, ran], agrees⟩

theorem write (agrees : use.Agrees) (found : use.ledger pageId = some loan) (pinned : loan.pins ≠ 0) (block : Block) :
    ∃ later, use.act (.write pageId block) = some later ∧ later.Agrees := by
  refine ⟨use.lend (setBlock loan.frame block use.storage).2 pageId (some { loan with bytes := block, owed := true }),
    by simp only [act, found, Option.bind_eq_bind, Option.bind_some, if_neg pinned], ?_⟩
  exact agrees.relend found ((agrees.lent pageId loan found).write agrees.valid pinned block)

theorem unpinPage (agrees : use.Agrees) (found : use.ledger pageId = some loan) (isDirty : Bool)
    (covered : ¬ (loan.pins = 1 ∧ loan.owed = true ∧ isDirty = false)) :
    ∃ later, use.act (.unpinPage pageId isDirty) = some later ∧ later.Agrees := by
  have lent := agrees.lent pageId loan found
  by_cases none : loan.pins = 0
  · have refused := lent.unpinPage_none none isDirty
    exact ⟨use, by simp only [act, found, Option.bind_eq_bind, Option.bind_some, if_neg covered, refused], agrees⟩
  · obtain ⟨after, ran, relent⟩ := lent.unpinPage agrees.valid none isDirty covered
    refine ⟨use.lend after pageId (some { loan with pins := loan.pins - 1, owed := loan.owed && !isDirty }), ?_,
      agrees.relend found relent⟩
    simp only [act, found, Option.bind_eq_bind, Option.bind_some, if_neg covered, ran]

theorem deletePage (agrees : use.Agrees) (found : use.ledger pageId = some loan) :
    ∃ later, use.act (.deletePage pageId) = some later ∧ later.Agrees := by
  have lent := agrees.lent pageId loan found
  by_cases pinned : loan.pins = 0
  · obtain ⟨after, ran, valid, -, find, apart, next, list⟩ :=
      deletePage_spec agrees.valid lent.nonneg (lent.pins.trans pinned)
    refine ⟨use.lend after pageId none, by simp only [act, found, Option.bind_eq_bind, Option.bind_some, ran], ?_⟩
    refine agrees.lend valid (agrees.allocatable.freed lent.nonneg lent.below lent.used find next list) apart
      (next ▸ Int32.le_refl _) (fun other inside => List.mem_cons.mp (list ▸ inside)) fun loan given => nomatch given
  · have refused := lent.deletePage_pinned pinned
    exact ⟨use, by simp only [act, found, Option.bind_eq_bind, Option.bind_some, refused], agrees⟩

theorem step (agrees : use.Agrees) {action : PoolAction} {later : PoolUse} (moved : use.act action = some later) :
    later.Agrees := by
  have same : ∀ {reached}, (∃ later, use.act action = some later ∧ later.Agrees) →
      use.act action = some reached → reached.Agrees := fun ⟨later, acted, agreed⟩ moved =>
    Option.some.inj (acted.symm.trans moved) ▸ agreed
  have lent : ∀ {pageId} {next : Loan → Option PoolUse}, (use.ledger pageId >>= next) = some later →
      ∃ loan, use.ledger pageId = some loan ∧ next loan = some later := fun bound => Option.bind_eq_some_iff.mp bound
  cases action with
  | newPage => exact same agrees.newPage moved
  | fetchPage pageId =>
    obtain ⟨loan, found, -⟩ := lent moved
    exact same (agrees.fetchPage found) moved
  | write pageId block =>
    obtain ⟨loan, found, wrote⟩ := lent moved
    by_cases pinned : loan.pins = 0
    · rw [if_pos pinned] at wrote
      cases wrote
    · exact same (agrees.write found pinned block) moved
  | unpinPage pageId isDirty =>
    obtain ⟨loan, found, released⟩ := lent moved
    by_cases covered : loan.pins = 1 ∧ loan.owed = true ∧ isDirty = false
    · rw [if_pos covered] at released
      cases released
    · exact same (agrees.unpinPage found isDirty covered) moved
  | flushPage pageId =>
    obtain ⟨flushed, after, ran, settled, -⟩ := flushPage_spec agrees.valid pageId
    obtain ⟨loan, found, reached⟩ := lent moved
    rw [ran] at reached
    exact Option.some.inj reached ▸ agrees.settled settled
  | flushAllPages =>
    obtain ⟨after, ran, settled, -⟩ := flushAllPages_spec agrees.valid
    have reached : (⟨(BufferedDisk.flushAllPages use.storage).2, use.ledger⟩ : PoolUse) = later := Option.some.inj moved
    rw [ran] at reached
    exact reached ▸ agrees.settled settled
  | deletePage pageId =>
    obtain ⟨loan, found, -⟩ := lent moved
    exact same (agrees.deletePage found) moved

end PoolUse.Agrees

/-- The pool agrees with the ledger in every state of every run. -/
theorem PoolUse.agrees {past : List PoolUse} (run : Reaches past use) : use.Agrees := by
  refine @Run.invariant _ _ Initial Step (fun _ state => state.Agrees) ?_
    (fun _ _ _ _ _ agrees moved => agrees.step moved) _ _ run
  rintro state ⟨poolSize, file, small, rfl⟩
  exact ⟨valid_new, opened_allocatable small, fun pageId loan impossible => nomatch impossible⟩

/-- The buffer pool loses no write: a fetched page holds the bytes last left in it, and once
everything is flushed with no page pinned the file alone holds them. -/
theorem pool_loses_no_write {past : List PoolUse} (run : PoolUse.Reaches past use) :
    (∀ pageId loan, use.ledger pageId = some loan → ∀ index after,
      fetchPage pageId use.storage = (.ok (some index), after) → (after.pool.frame index).block = loan.bytes) ∧
    ((∀ pageId loan, use.ledger pageId = some loan → use.storage.pins pageId = 0) → ∃ after,
      flushAllPages use.storage = (.ok (), after) ∧
        ∀ pageId loan, use.ledger pageId = some loan → after.disk.readPage pageId = .ok loan.bytes) := by
  have agrees := PoolUse.agrees run
  constructor
  · intro pageId loan found index after fetched
    rcases fetchPage_lent agrees.valid (agrees.lent pageId loan found) with ⟨place, later, ran, block, -, -⟩ | ran
    · obtain ⟨same, rfl⟩ := Prod.mk.inj (ran.symm.trans fetched)
      rw [← Option.some.inj (Except.ok.inj same)]
      exact block
    · cases (ran.symm.trans fetched)
  · intro unpinned
    obtain ⟨after, ran, settled, saved⟩ := flushAllPages_spec agrees.valid
    refine ⟨after, ran, fun pageId loan found => ?_⟩
    have lent := agrees.lent pageId loan found
    have notOwed : loan.owed = false := by
      cases owed : loan.owed with
      | false => rfl
      | true => exact absurd (lent.pins.symm.trans (unpinned pageId loan found)) (lent.owed owed)
    rw [DiskManager.readPage_eq lent.nonneg, ← (lent.settled settled).bytes]
    congr 1
    unfold BufferedDisk.content
    cases located : after.pool.find pageId with
    | none => rfl
    | some index => exact (settled.clean pageId lent.nonneg (lent.clean notOwed) index located (saved pageId index located)).symm

/-- A page written and released, whose frame another page takes. It is fetched again, or all pages are written out. -/
theorem pool_loses_no_write_again :
    let seven : Block := ⟨List.replicate pageSize 7, List.length_replicate⟩
    let nine : Block := ⟨List.replicate pageSize 9, List.length_replicate⟩
    ∃ past use index fetched flushed, replay PoolUse.act (PoolUse.opened 1 [])
        [.newPage, .write 0 seven, .unpinPage 0 true, .newPage, .write 1 nine, .unpinPage 1 true] = some (past, use) ∧
      use.storage.pool.find 0 = none ∧ fetchPage 0 use.storage = (.ok (some index), fetched) ∧
      (fetched.pool.frame index).block = seven ∧ flushAllPages use.storage = (.ok (), flushed) ∧
      flushed.disk.readPage 0 = .ok seven ∧ flushed.disk.readPage 1 = .ok nine := by
  intro seven nine
  have shown : ∃ done ∈ replay PoolUse.act (PoolUse.opened 1 [])
        [.newPage, .write 0 seven, .unpinPage 0 true, .newPage, .write 1 nine, .unpinPage 1 true],
      done.2.storage.pool.find 0 = none ∧ (fetchPage 0 done.2.storage).1 = .ok (some 0) ∧
      (done.2.ledger 0).map (fun loan => loan.bytes.bytes.all (· == 7)) = some true ∧
      (done.2.ledger 1).map (fun loan => loan.bytes.bytes.all (· == 9)) = some true ∧
      ∀ frame ∈ done.2.storage.pool.frames, frame.pinCount = 0 := by
    decide +kernel
  obtain ⟨⟨past, use⟩, played, evicted, ran, first, second, unpinned⟩ := shown
  obtain ⟨one, lentOne, allSeven⟩ := Option.map_eq_some_iff.mp first
  obtain ⟨two, lentTwo, allNine⟩ := Option.map_eq_some_iff.mp second
  have filled : ∀ {block : Block} {byte : UInt8}, block.bytes.all (· == byte) = true →
      block = ⟨List.replicate pageSize byte, List.length_replicate⟩ := by
    intro block byte all
    rw [List.all_eq_true] at all
    exact Block.ext (List.eq_replicate_iff.mpr ⟨block.size, fun other inside => eq_of_beq (all other inside)⟩)
  have atOne : one.bytes = seven := filled allSeven
  have atTwo : two.bytes = nine := filled allNine
  have fresh : PoolUse.Reaches [] (PoolUse.opened 1 []) := .start ⟨1, [], by decide, rfl⟩
  have released : ∀ pageId loan, use.ledger pageId = some loan → use.storage.pins pageId = 0 := by
    intro pageId loan _
    unfold pins
    split
    next index _ =>
      unfold BufferPoolManager.frame
      rw [List.getD_eq_getElem?_getD]
      cases found : use.storage.pool.frames[index]? with
      | none => rfl
      | some frame => exact unpinned frame (List.mem_of_getElem? found)
    · rfl
  obtain ⟨kept, flushes⟩ := pool_loses_no_write (fresh.append_replay played)
  obtain ⟨flushed, wrote, saved⟩ := flushes released
  have fetches : fetchPage 0 use.storage = (.ok (some 0), (fetchPage 0 use.storage).2) := Prod.ext ran rfl
  refine ⟨past, use, 0, _, flushed, played, evicted, fetches, ?_, wrote, ?_, ?_⟩
  · rw [← atOne]
    exact kept 0 one lentOne _ _ fetches
  · rw [← atOne]
    exact saved 0 one lentOne
  · rw [← atTwo]
    exact saved 1 two lentTwo

end QuorumDB.Storage
