import QuorumDB.Query.Record
import QuorumDB.Storage.Loans
import QuorumDB.Storage.PageCalls
import Mathlib.Data.Multiset.AddSub
import Mathlib.Data.Multiset.MapFold
import Mathlib.Data.Multiset.UnionInter

/-!
What the live pages hold: a multiset of cells, each on a page of its own. Reading
finds a cell, writing replaces one, a new page adds one and a deleted page removes
one; the rest stay as they are, whatever the pool evicts on the way.
-/

namespace QuorumDB.Storage
open BufferedDisk Query

inductive Cell where
  | node (value : BPlusTreeNode)
  | record (value : Record)
  /-- A page of the file that was there before. -/
  | stray
  /-- A page that others use, and what they know of it. -/
  | held (loan : Loan)

def Cell.Shows : Cell → Block → Prop
  | .node value, block => deserializeNode block = .ok value
  | .record value, block => deserializeRecord block.bytes = value
  | .stray, _ => True
  | .held loan, block => block = loan.bytes

def Cell.pins : Cell → Nat
  | .held loan => loan.pins
  | _ => 0

/-- What is known of a page with these bytes. -/
def Cell.loan (block : Block) : Cell → Loan
  | .held loan => loan
  | _ => ⟨0, block, 0, false⟩

def Cell.Plain (cell : Cell) : Prop := ∀ block, cell.loan block = ⟨0, block, 0, false⟩

theorem Cell.loan_pins (cell : Cell) (block : Block) : (cell.loan block).pins = cell.pins := by
  cases cell <;> rfl

theorem Cell.Plain.pins {cell : Cell} (plain : cell.Plain) : cell.pins = 0 :=
  (cell.loan_pins Block.zero).symm.trans (congrArg Loan.pins (plain Block.zero))

theorem Cell.loan_bytes {cell : Cell} {block : Block} (shown : cell.Shows block) : (cell.loan block).bytes = block := by
  cases cell with
  | held loan => exact Eq.symm shown
  | node value => rfl
  | record value => rfl
  | stray => rfl

theorem shows_serializeRecord (block : Block) (record : Record) :
    Cell.Shows (.record record.stored) (block.write (serializeRecord record)) := by
  have fits : (serializeRecord record).length ≤ pageSize := by
    rw [serializeRecord_length]
    decide
  change deserializeRecord (block.write (serializeRecord record)).bytes = record.stored
  rw [Block.write_bytes fits, deserializeRecord_append]

structure Sound (storage : BufferedDisk) : Prop extends Allocatable storage where
  valid : storage.pool.Valid

/-- A page in use with as many pins as its cell says. -/
abbrev Live (storage : BufferedDisk) (pageId : PageId) (cell : Cell) : Prop :=
  Lent storage pageId (cell.loan (storage.content pageId))

structure Holds (storage : BufferedDisk) (cells : Multiset (PageId × Cell)) : Prop where
  sound : Sound storage
  live : ∀ cell ∈ cells, Live storage cell.1 cell.2
  shown : ∀ cell ∈ cells, cell.2.Shows (storage.content cell.1)
  distinct : (cells.map Prod.fst).Nodup

structure Owned (storage : BufferedDisk) (cells : Multiset (PageId × Cell)) : Prop extends Holds storage cells where
  covered : ∀ pageId, 0 ≤ pageId → pageId < storage.disk.nextPageId →
    pageId ∈ storage.disk.freeList ∨ pageId ∈ cells.map Prod.fst

structure Owns (storage : BufferedDisk) (cells : Multiset (PageId × Cell)) : Prop extends Owned storage cells where
  available : storage.pool.Available

variable {before after storage : BufferedDisk} {cells rest : Multiset (PageId × Cell)}
variable {pageId : PageId} {cell new : Cell} {block : Block} {loan : Loan}

theorem Holds.others (holds : Holds storage ({(pageId, cell)} + rest)) : Holds storage rest := by
  refine ⟨holds.sound, fun other member => holds.live other (Multiset.mem_add.mpr (.inr member)),
    fun other member => holds.shown other (Multiset.mem_add.mpr (.inr member)), ?_⟩
  have distinct := holds.distinct
  rw [Multiset.map_add] at distinct
  exact (Multiset.nodup_add.mp distinct).2.1

theorem Holds.apart_rest (holds : Holds storage ({(pageId, cell)} + rest)) :
    ∀ other ∈ rest, other.1 ≠ pageId := by
  intro other member same
  have distinct := holds.distinct
  rw [Multiset.map_add, Multiset.map_singleton, Multiset.singleton_add, Multiset.nodup_cons] at distinct
  exact distinct.1 (Multiset.mem_map.mpr ⟨other, member, same⟩)

theorem Holds.first (holds : Holds storage ({(pageId, cell)} + rest)) :
    Live storage pageId cell ∧ cell.Shows (storage.content pageId) :=
  have member : (pageId, cell) ∈ ({(pageId, cell)} : Multiset (PageId × Cell)) + rest :=
    Multiset.mem_add.mpr (.inl (Multiset.mem_singleton_self _))
  ⟨holds.live _ member, holds.shown _ member⟩

theorem Holds.insert (holds : Holds storage rest) (live : Live storage pageId cell)
    (shown : cell.Shows (storage.content pageId)) (fresh : ∀ other ∈ rest, other.1 ≠ pageId) :
    Holds storage ({(pageId, cell)} + rest) := by
  refine ⟨holds.sound, fun other member => ?_, fun other member => ?_, ?_⟩
  · rcases Multiset.mem_add.mp member with here | there
    · rw [Multiset.mem_singleton.mp here]
      exact live
    · exact holds.live other there
  · rcases Multiset.mem_add.mp member with here | there
    · rw [Multiset.mem_singleton.mp here]
      exact shown
    · exact holds.shown other there
  · rw [Multiset.map_add, Multiset.map_singleton, Multiset.singleton_add, Multiset.nodup_cons]
    refine ⟨fun inside => ?_, holds.distinct⟩
    obtain ⟨other, member, same⟩ := Multiset.mem_map.mp inside
    exact fresh other member same

theorem Live.settled (live : Live storage pageId cell) (unpinned : cell.pins = 0) : storage.Clean pageId := by
  apply live.clean
  cases owed : (cell.loan (storage.content pageId)).owed with
  | false => rfl
  | true => exact absurd ((cell.loan_pins _).trans unpinned) (live.owed owed)

theorem Live.unpinned (live : Live storage pageId cell) (unpinned : cell.pins = 0) : storage.pins pageId = 0 :=
  live.pins.trans ((cell.loan_pins _).trans unpinned)

theorem Live.keep (live : Live before pageId cell) (shown : cell.Shows (before.content pageId)) {touched : PageId → Prop}
    (apart : Apart touched before after) (untouched : ¬ touched pageId)
    (next : before.disk.nextPageId ≤ after.disk.nextPageId) (free : pageId ∉ after.disk.freeList) :
    Live after pageId cell ∧ after.content pageId = before.content pageId := by
  have kept := Lent.keep live apart untouched next free
  have same : after.content pageId = before.content pageId := kept.bytes.trans (cell.loan_bytes shown)
  rw [Live, same]
  exact ⟨kept, rfl⟩

/-- Cells on other pages survive whatever happens to some pages. -/
theorem Holds.keep {touched : PageId → Prop} (holds : Holds before rest) (sound : Sound after)
    (apart : Apart touched before after) (next : before.disk.nextPageId ≤ after.disk.nextPageId)
    (free : ∀ other ∈ after.disk.freeList, touched other ∨ other ∈ before.disk.freeList)
    (fresh : ∀ other ∈ rest, ¬ touched other.1) : Holds after rest := by
  have kept : ∀ other ∈ rest, Live after other.1 other.2 ∧ after.content other.1 = before.content other.1 := by
    intro other member
    have live := holds.live other member
    apply live.keep (holds.shown other member) apart (fresh other member) next
    exact fun inside => (free other.1 inside).elim (fresh other member) live.used
  refine ⟨sound, fun other member => (kept other member).1, fun other member => ?_, holds.distinct⟩
  rw [(kept other member).2]
  exact holds.shown other member

theorem Owned.acquired {index : Nat} (owned : Owned before cells) (acquired : Acquired before after index) :
    Owned after cells := by
  have allocatable : Allocatable after := owned.sound.toAllocatable.keep (fun _ impossible => impossible.elim)
    acquired.apart.absent acquired.nextPageId acquired.freeList
  refine ⟨owned.toHolds.keep ⟨allocatable, acquired.valid⟩ acquired.apart ?_ (fun other inside => ?_) (fun _ _ => id),
    fun other nonneg below => ?_⟩
  · rw [acquired.nextPageId]
    exact Int32.le_refl _
  · rw [acquired.freeList] at inside
    exact .inr inside
  · rw [acquired.nextPageId] at below
    rw [acquired.freeList]
    exact owned.covered other nonneg below

theorem Sound.relent (sound : Sound before) (below : pageId < before.disk.nextPageId)
    (free : pageId ∉ before.disk.freeList) (relent : Relent before after pageId loan) : Sound after := by
  refine ⟨sound.toAllocatable.keep (fun other same => ?_) relent.apart.absent relent.nextPageId relent.freeList, relent.valid⟩
  exact same ▸ ⟨below, free⟩

theorem Owned.relend (owned : Owned before ({(pageId, cell)} + rest)) (relent : Relent before after pageId loan)
    (same : new.loan loan.bytes = loan) (shown : new.Shows loan.bytes) : Owned after ({(pageId, new)} + rest) := by
  obtain ⟨live, -⟩ := owned.first
  have sound := owned.sound.relent live.below live.used relent
  have kept : Holds after rest := by
    refine owned.others.keep sound relent.apart ?_ (fun other inside => ?_) owned.apart_rest
    · rw [relent.nextPageId]
      exact Int32.le_refl _
    · rw [relent.freeList] at inside
      exact .inr inside
  refine ⟨kept.insert ?_ ?_ owned.apart_rest, fun other nonneg below => ?_⟩
  · rw [Live, relent.lent.bytes, same]
    exact relent.lent
  · rw [relent.lent.bytes]
    exact shown
  · rw [relent.nextPageId] at below
    rw [relent.freeList]
    have covered := owned.covered other nonneg below
    rw [Multiset.map_add, Multiset.map_singleton] at covered ⊢
    exact covered

theorem BufferedDisk.Used.relent (used : Used before after pageId block) (live : Live before pageId cell)
    (next : after.disk.nextPageId = before.disk.nextPageId) (free : after.disk.freeList = before.disk.freeList) :
    Relent before after pageId ⟨0, block, 0, false⟩ := by
  refine ⟨used.valid, ⟨live.nonneg, next ▸ live.below, free ▸ live.used, used.pins, fun impossible => absurd rfl impossible,
    used.content, fun _ => used.clean, fun impossible => absurd impossible Bool.false_ne_true⟩, used.apart, next, free⟩

theorem Owned.rewrite (owned : Owned before ({(pageId, cell)} + rest)) (used : Used before after pageId block)
    (next : after.disk.nextPageId = before.disk.nextPageId) (free : after.disk.freeList = before.disk.freeList)
    (plain : new.Plain) (shown : new.Shows block) : Owns after ({(pageId, new)} + rest) :=
  ⟨owned.relend (used.relent owned.first.1 next free) (plain block) shown, used.available⟩

end QuorumDB.Storage
