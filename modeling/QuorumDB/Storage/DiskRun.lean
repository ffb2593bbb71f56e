import QuorumDB.Storage.DiskManager
import Mathlib.Logic.Function.Basic

/-!
Any calls of the disk manager on one file, with clean reopenings in between. The file holds
what a map from page identifiers to pages holds, and after a reopening the allocator goes on
behind what was written before it.
-/

namespace QuorumDB.Storage
open ByteFile

/-- A call of the disk manager; `reopen` closes the file and opens it again. -/
inductive DiskCall where
  | readPage (pageId : PageId)
  | writePage (pageId : PageId) (block : Block)
  | allocatePage
  | deallocatePage (pageId : PageId)
  | reopen

namespace DiskCall

def InRange (pageId : PageId) : Prop := 0 ≤ pageId ∧ pageId < Int32.maxValue

def Valid : DiskCall → Prop
  | .readPage pageId => InRange pageId
  | .writePage pageId _ => InRange pageId
  | .allocatePage => True
  | .deallocatePage pageId => InRange pageId
  | .reopen => True

def Plain : DiskCall → Prop
  | .deallocatePage _ => False
  | .reopen => False
  | _ => True

def effect (pages : PageId → Block) : DiskCall → PageId → Block
  | .writePage pageId block => Function.update pages pageId block
  | _ => pages

end DiskCall

/-- The map after some calls: the last block written to each page, zeros before the first. -/
def pagesAfter (calls : List DiskCall) : PageId → Block := calls.foldl DiskCall.effect fun _ => Block.zero

namespace DiskManager
open DiskCall

/-- A call that throws leaves the disk manager as it was. -/
def call (disk : DiskManager) : DiskCall → DiskManager
  | .readPage _ => disk
  | .writePage pageId block =>
      match disk.writePage pageId block with
      | .ok later => later
      | .error _ => disk
  | .allocatePage =>
      match disk.allocatePage with
      | .ok (_, later) => later
      | .error _ => disk
  | .deallocatePage pageId => disk.deallocatePage pageId
  | .reopen => openFile disk.file

def callAll (disk : DiskManager) (calls : List DiskCall) : DiskManager := calls.foldl call disk

/-- The file holds the pages of the map, the first `count` of them and zeros behind. -/
structure Holds (disk : DiskManager) (pages : PageId → Block) (count : Nat) : Prop where
  stored : ∀ pageId, 0 ≤ pageId → disk.stored pageId = pages pageId
  length : disk.file.length = count * pageSize
  limit : count ≤ Int32.maxValue.toInt.toNat

variable {disk later : DiskManager} {pages : PageId → Block} {count : Nat} {floor : Int}

theorem call_file {call : DiskCall} (other : ∀ pageId block, call ≠ .writePage pageId block) :
    (disk.call call).file = disk.file := by
  cases call with
  | readPage pageId => rfl
  | writePage pageId block => exact absurd rfl (other pageId block)
  | allocatePage =>
    unfold DiskManager.call allocatePage
    cases disk.freeList with
    | nil =>
      by_cases full : disk.nextPageId = Int32.maxValue
      · simp only [if_pos full]
      · simp only [if_neg full]
    | cons pageId rest => rfl
  | deallocatePage pageId =>
    rw [DiskManager.call, DiskManager.deallocatePage]
    by_cases negative : pageId < 0
    · rw [if_pos negative]
    · rw [if_neg negative]
  | reopen => rfl

theorem Holds.write (holds : disk.Holds pages count) {pageId : PageId} (range : InRange pageId) (block : Block) :
    (disk.call (.writePage pageId block)).Holds (Function.update pages pageId block) (max count (pageId.toInt.toNat + 1)) := by
  obtain ⟨later, ran, -, -, same, others⟩ := @writePage_eq disk pageId block range.1
  have written : disk.call (.writePage pageId block) = later := by
    rw [DiskManager.call, ran]
  have file : later.file = splice disk.file (offset pageId) block.bytes := by
    rw [DiskManager.writePage, if_neg (Int32.not_lt.mpr range.1)] at ran
    rw [← Except.ok.inj ran]
  rw [written]
  apply Holds.mk
  · intro other valid
    by_cases here : other = pageId
    · rw [here, Function.update_self, same]
    · rw [Function.update_of_ne here, others other valid here, holds.stored other valid]
  · rw [file, splice_length, holds.length, block.size, offset]
    unfold pageSize
    omega
  · have below := Int32.lt_iff_toInt_lt.mp range.2
    have nonneg := Int32.le_iff_toInt_le.mp range.1
    have zero : (0 : Int32).toInt = 0 := rfl
    exact Nat.max_le.mpr ⟨holds.limit, by omega⟩

theorem Holds.other (holds : disk.Holds pages count) {call : DiskCall} (other : ∀ pageId block, call ≠ .writePage pageId block) :
    (disk.call call).Holds pages count := by
  have file := @call_file disk call other
  apply Holds.mk
  · intro pageId valid
    rw [← holds.stored pageId valid]
    apply Block.ext
    simp only [DiskManager.stored, file]
  · rw [file, holds.length]
  · exact holds.limit

theorem holds_empty : (openFile []).Holds (fun _ => Block.zero) 0 where
  stored _ _ := stored_past (Nat.zero_le _)
  length := rfl
  limit := Nat.zero_le _

theorem Holds.callAll (calls : List DiskCall) (holds : disk.Holds pages count) (valid : ∀ call ∈ calls, call.Valid) :
    ∃ more, (disk.callAll calls).Holds (calls.foldl effect pages) more ∧ count ≤ more ∧
      ∀ pageId block, .writePage pageId block ∈ calls → pageId.toInt < (more : Int) := by
  induction calls generalizing disk pages count with
  | nil => exact ⟨count, holds, Nat.le_refl _, fun pageId block inside => nomatch inside⟩
  | cons call calls ih =>
    have later : ∀ other ∈ calls, other.Valid := fun other inside => valid other (List.mem_cons_of_mem _ inside)
    by_cases write : ∃ pageId block, call = .writePage pageId block
    · obtain ⟨pageId, block, rfl⟩ := write
      obtain ⟨more, stands, above, below⟩ := ih (holds.write (valid _ List.mem_cons_self) block) later
      refine ⟨more, stands, Nat.le_trans (Nat.le_max_left _ _) above, fun other written inside => ?_⟩
      rcases List.mem_cons.mp inside with same | further
      · obtain ⟨rfl, rfl⟩ := DiskCall.writePage.inj same
        have here := Nat.le_trans (Nat.le_max_right _ _) above
        omega
      · exact below other written further
    · have other : ∀ pageId block, call ≠ .writePage pageId block := fun pageId block same => write ⟨pageId, block, same⟩
      have pages_same : call.effect pages = pages := by
        cases call with
        | writePage pageId block => exact absurd rfl (other pageId block)
        | _ => rfl
      obtain ⟨more, stands, above, below⟩ := ih (holds.other other) later
      refine ⟨more, ?_, above, fun pageId block inside => ?_⟩
      · rw [List.foldl_cons, pages_same]
        exact stands
      · rcases List.mem_cons.mp inside with same | further
        · exact absurd same.symm (other pageId block)
        · exact below pageId block further

/-- Nothing is given back, and the identifiers below `floor` are behind the allocator. -/
structure Fresh (disk : DiskManager) (floor : Int) : Prop where
  empty : disk.freeList = []
  next : floor ≤ disk.nextPageId.toInt

theorem Holds.fresh (holds : disk.Holds pages count) : (openFile disk.file).Fresh count where
  empty := rfl
  next := by
    have limit := holds.limit
    have size : Int32.maxValue.toInt.toNat = 2 ^ 31 - 1 := by decide
    have pagesInFile : disk.file.length / pageSize = count := by
      rw [holds.length]
      exact Nat.mul_div_cancel count (by decide)
    have count_toInt : (Int32.ofNat count).toInt = count := Int32.toInt_ofNat_of_lt (by omega)
    rw [openFile, pagesInFile]
    exact Int.le_of_eq count_toInt.symm

theorem Fresh.allocatePage (fresh : disk.Fresh floor) {pageId : PageId} (ran : disk.allocatePage = .ok (pageId, later)) :
    floor ≤ pageId.toInt ∧ later.Fresh (pageId.toInt + 1) := by
  unfold DiskManager.allocatePage at ran
  rw [fresh.empty] at ran
  simp only at ran
  split_ifs at ran with full
  obtain ⟨rfl, rfl⟩ := Prod.mk.inj (Except.ok.inj ran)
  have up := Int32.lt_iff_toInt_lt.mp (int32_lt_succ full)
  exact ⟨fresh.next, rfl, up⟩

theorem Fresh.call (fresh : disk.Fresh floor) {call : DiskCall} (plain : call.Plain) : (disk.call call).Fresh floor := by
  cases call with
  | readPage pageId => exact fresh
  | writePage pageId block =>
    rw [DiskManager.call, DiskManager.writePage]
    by_cases negative : pageId < 0
    · rw [if_pos negative]
      exact fresh
    · rw [if_neg negative]
      exact ⟨fresh.empty, fresh.next⟩
  | allocatePage =>
    rw [DiskManager.call]
    match ran : disk.allocatePage with
    | .error error => exact fresh
    | .ok (pageId, later) =>
      obtain ⟨above, behind⟩ := fresh.allocatePage ran
      exact ⟨behind.empty, Int.le_trans (Int.le_trans above (Int.le_add_one (Int.le_refl _))) behind.next⟩
  | deallocatePage pageId => exact plain.elim
  | reopen => exact plain.elim

theorem Fresh.callAll (calls : List DiskCall) (fresh : disk.Fresh floor) (plain : ∀ call ∈ calls, call.Plain) :
    (disk.callAll calls).Fresh floor := by
  induction calls generalizing disk with
  | nil => exact fresh
  | cons call calls ih =>
    exact ih (fresh.call (plain call List.mem_cons_self)) fun other inside => plain other (List.mem_cons_of_mem _ inside)

theorem callAll_append (disk : DiskManager) (first second : List DiskCall) :
    disk.callAll (first ++ second) = (disk.callAll first).callAll second := List.foldl_append

/-- What the allocator returns after a reopening is behind all that was written before it, and
behind what it returned since. -/
theorem allocatePage_reopened {before after : List DiskCall} (valid : ∀ call ∈ before, call.Valid)
    (plain : ∀ call ∈ after, call.Plain) {pageId : PageId}
    (ran : ((openFile []).callAll (before ++ .reopen :: after)).allocatePage = .ok (pageId, later)) :
    (∀ written block, .writePage written block ∈ before → written < pageId) ∧
    ∀ first rest earlier between, after = first ++ .allocatePage :: rest →
      ((openFile []).callAll (before ++ .reopen :: first)).allocatePage = .ok (earlier, between) → earlier < pageId := by
  obtain ⟨count, holds, -, below⟩ := holds_empty.callAll before valid
  have fresh := holds.fresh
  have reopened : ∀ calls, (openFile []).callAll (before ++ .reopen :: calls) =
      (openFile ((openFile []).callAll before).file).callAll calls := fun calls => callAll_append _ _ _
  constructor
  · intro written block inside
    rw [reopened] at ran
    have above := ((fresh.callAll after plain).allocatePage ran).1
    have less := below written block inside
    rw [Int32.lt_iff_toInt_lt]
    omega
  · rintro first rest earlier between rfl answered
    rw [reopened] at answered
    rw [reopened, callAll_append] at ran
    have first_plain : ∀ call ∈ first, call.Plain := fun call inside => plain call (List.mem_append_left _ inside)
    have rest_plain : ∀ call ∈ rest, call.Plain := fun call inside =>
      plain call (List.mem_append_right _ (List.mem_cons_of_mem _ inside))
    have behind := ((fresh.callAll first first_plain).allocatePage answered).2
    have step : ((openFile ((openFile []).callAll before).file).callAll first).call .allocatePage = between := by
      rw [DiskManager.call, answered]
    rw [callAll, List.foldl_cons, step] at ran
    have above := ((behind.callAll rest rest_plain).allocatePage ran).1
    rw [Int32.lt_iff_toInt_lt]
    omega

/-- Every page reads as what was last written to it, a write changes no other page, and the
allocator goes on behind what was written before the last reopening. -/
theorem pages_array (calls : List DiskCall) (valid : ∀ call ∈ calls, call.Valid) :
    (∀ pageId, InRange pageId → ((openFile []).callAll calls).readPage pageId = .ok (pagesAfter calls pageId)) ∧
    (∀ pageId block, InRange pageId → ∃ later, ((openFile []).callAll calls).writePage pageId block = .ok later ∧
      later.readPage pageId = .ok block ∧
      ∀ other, InRange other → other ≠ pageId → later.readPage other = ((openFile []).callAll calls).readPage other) ∧
    ∀ before after pageId later, calls = before ++ .reopen :: after → (∀ call ∈ after, call.Plain) →
      ((openFile []).callAll calls).allocatePage = .ok (pageId, later) →
        (∀ written block, .writePage written block ∈ before → written < pageId) ∧
        ∀ first rest earlier between, after = first ++ .allocatePage :: rest →
          ((openFile []).callAll (before ++ .reopen :: first)).allocatePage = .ok (earlier, between) → earlier < pageId := by
  obtain ⟨count, holds, -, -⟩ := holds_empty.callAll calls valid
  refine ⟨fun pageId range => ?_, fun pageId block range => ?_, fun before after pageId later split plain ran => ?_⟩
  · rw [readPage_eq range.1, holds.stored pageId range.1]
    rfl
  · obtain ⟨later, ran, -, -, same, others⟩ := @writePage_eq ((openFile []).callAll calls) pageId block range.1
    refine ⟨later, ran, ?_, fun other valid different => ?_⟩
    · rw [readPage_eq range.1, same]
    · rw [readPage_eq valid.1, readPage_eq valid.1, others other valid.1 different]
  · subst split
    exact allocatePage_reopened (fun call inside => valid call (List.mem_append_left _ inside)) plain ran

theorem pages_array_reopened :
    let calls : List DiskCall := [.writePage 3 (Block.zero.write [7]), .reopen]
    ((openFile []).callAll calls).readPage 3 = .ok (Block.zero.write [7]) ∧
      ∀ pageId later, ((openFile []).callAll calls).allocatePage = .ok (pageId, later) → 3 < pageId := by
  intro calls
  have range : InRange 3 := ⟨by decide, by decide⟩
  have valid : ∀ call ∈ calls, call.Valid := by
    intro call inside
    rcases List.mem_cons.mp inside with rfl | later
    · exact range
    · rw [List.mem_singleton.mp later]
      trivial
  obtain ⟨reads, -, allocates⟩ := pages_array calls valid
  constructor
  · have last : pagesAfter calls 3 = Block.zero.write [7] := by
      simp only [calls, pagesAfter, List.foldl_cons, List.foldl_nil, effect, Function.update_self]
    rw [reads 3 range, last]
  · intro pageId later ran
    exact (allocates [.writePage 3 (Block.zero.write [7])] [] pageId later rfl (fun call none => nomatch none) ran).1 3 _
      List.mem_cons_self

/-- Page 7 is written after the reopening without having been allocated; the allocator returns 0. -/
theorem allocates_below_written :
    ¬ ∀ before after pageId later, (∀ call ∈ before ++ DiskCall.reopen :: after, call.Valid) →
      (∀ call ∈ after, call.Plain) →
      ((openFile []).callAll (before ++ .reopen :: after)).allocatePage = .ok (pageId, later) →
        ∀ written block, .writePage written block ∈ before ++ .reopen :: after → written < pageId := by
  intro claim
  have range : InRange 7 := ⟨by decide, by decide⟩
  have valid : ∀ call ∈ [] ++ DiskCall.reopen :: [.writePage 7 Block.zero], call.Valid := by
    intro call inside
    rcases List.mem_cons.mp inside with rfl | later
    · trivial
    · rw [List.mem_singleton.mp later]
      exact range
  have plain : ∀ call ∈ [DiskCall.writePage 7 Block.zero], call.Plain := by
    intro call inside
    rw [List.mem_singleton.mp inside]
    trivial
  have less := claim [] [.writePage 7 Block.zero] 0 _ valid plain rfl 7 Block.zero
    (List.mem_cons_of_mem _ List.mem_cons_self)
  exact absurd less (by decide)

end DiskManager

end QuorumDB.Storage
