import QuorumDB.Storage.TreeStanding
import Mathlib.Data.Multiset.Range

/-!
Runs of the tree. Any sequence of calls from an empty tree answers as a finite map, and
a scan at any moment agrees with the searches.
-/

namespace QuorumDB.Storage
open Program PageProg SearchWord BPlusTree

variable {store : TreeStore} {base : Multiset (PageId × Cell)} {contents : List (Key × Value)} {rounds : Nat}

def TreeStore.open (poolSize : Nat) (file : Bytes) : TreeStore :=
  ⟨⟨BufferPoolManager.new poolSize, DiskManager.openFile file⟩, invalidPageId⟩

def strays (file : Bytes) : Multiset (PageId × Cell) :=
  Multiset.map (fun index => (Int32.ofNat index, Cell.stray)) (Multiset.range (file.length / pageSize))

section Opened

variable {poolSize count : Nat} {file : Bytes}

theorem exists_ofNat (small : count < 2147483648) {pageId : PageId} (nonneg : 0 ≤ pageId)
    (below : pageId < Int32.ofNat count) : ∃ index < count, Int32.ofNat index = pageId := by
  rw [Int32.lt_iff_toInt_lt, toInt_ofNat small] at below
  rw [Int32.le_iff_toInt_le] at nonneg
  have zero : (0 : Int32).toInt = 0 := rfl
  have less : pageId.toInt.toNat < count := by omega
  refine ⟨pageId.toInt.toNat, less, Int32.toInt_inj.mp ?_⟩
  rw [toInt_ofNat (less.trans small)]
  omega

theorem opened_owns (some : 0 < poolSize) (small : file.length / pageSize < 2147483648) :
    Owns (TreeStore.open poolSize file).storage (strays file) := by
  have next : (TreeStore.open poolSize file).storage.disk.nextPageId = Int32.ofNat (file.length / pageSize) := rfl
  have available : (TreeStore.open poolSize file).storage.pool.Available :=
    .inl fun empty => some.ne' (List.range_eq_nil.mp empty)
  refine ⟨⟨⟨⟨opened_allocatable small, valid_new⟩, fun cell member => ?_, fun cell member => ?_, ?_⟩,
    fun pageId nonneg below => ?_⟩, available⟩
  · obtain ⟨index, inside, rfl⟩ := Multiset.mem_map.mp member
    have less := Multiset.mem_range.mp inside
    exact ⟨ofNat_nonneg (less.trans small), ofNat_lt small less, List.not_mem_nil, rfl, fun impossible => absurd rfl impossible,
      rfl, fun _ index impossible => absurd impossible.symm (Option.some_ne_none index),
      fun impossible => absurd impossible Bool.false_ne_true⟩
  · obtain ⟨index, inside, rfl⟩ := Multiset.mem_map.mp member
    trivial
  · rw [strays, Multiset.map_map]
    refine (Multiset.nodup_range _).map_on fun one inOne two inTwo same => ?_
    have ints := congrArg Int32.toInt same
    change (Int32.ofNat one).toInt = (Int32.ofNat two).toInt at ints
    rw [toInt_ofNat ((Multiset.mem_range.mp inOne).trans small), toInt_ofNat ((Multiset.mem_range.mp inTwo).trans small)] at ints
    exact Int.ofNat.inj ints
  · obtain ⟨index, less, same⟩ := exists_ofNat small nonneg (next ▸ below)
    refine .inr ?_
    rw [strays, Multiset.map_map]
    exact Multiset.mem_map.mpr ⟨index, Multiset.mem_range.mpr less, same⟩

end Opened

def maxPages : Nat := 2147483648

theorem Holds.card_le {storage : BufferedDisk} {cells : Multiset (PageId × Cell)} (holds : Holds storage cells) :
    Multiset.card cells ≤ maxPages := by
  have distinct : ((cells.map Prod.fst).map fun pageId => pageId.toInt.toNat).Nodup := by
    refine holds.distinct.map_on fun one inOne two inTwo same => Int32.toInt_inj.mp ?_
    obtain ⟨first, inside, rfl⟩ := Multiset.mem_map.mp inOne
    obtain ⟨second, within, rfl⟩ := Multiset.mem_map.mp inTwo
    have low := Int32.le_iff_toInt_le.mp (holds.live first inside).nonneg
    have next := Int32.le_iff_toInt_le.mp (holds.live second within).nonneg
    have zero : (0 : Int32).toInt = 0 := rfl
    omega
  have small : (cells.map Prod.fst).map (fun pageId => pageId.toInt.toNat) ⊆ Multiset.range maxPages := by
    intro number member
    obtain ⟨pageId, -, rfl⟩ := Multiset.mem_map.mp member
    have high := pageId.toInt_lt
    rw [Multiset.mem_range, maxPages]
    omega
  have le := Multiset.card_le_card ((Multiset.le_iff_subset distinct).mpr small)
  rwa [Multiset.card_map, Multiset.card_map, Multiset.card_range] at le

inductive TreeOp where
  | insert (key : Key) (value : Value)
  | delete (key : Key)
  | search (key : Key)

inductive TreeAnswer where
  | changed (succeeded : Bool)
  | found (value : Option Value)
  deriving DecidableEq, Repr

namespace TreeOp

def program (rounds : Nat) : TreeOp → PageProg TreeAnswer
  | .insert key value => do return .changed (← BPlusTree.insert rounds key value)
  | .delete key => do return .changed (← BPlusTree.delete rounds key)
  | .search key => do return .found (← BPlusTree.search rounds key)

def programs (rounds : Nat) : List TreeOp → PageProg (List TreeAnswer)
  | [] => return []
  | op :: ops => do
      let answer ← op.program rounds
      return answer :: (← programs rounds ops)

/-- What a map answers, and the map afterwards. -/
def onMap (map : Key → Option Value) : TreeOp → TreeAnswer × (Key → Option Value)
  | .insert key value =>
      if map key = none then (.changed true, Function.update map key (some value)) else (.changed false, map)
  | .delete key =>
      if map key = none then (.changed false, map) else (.changed true, Function.update map key none)
  | .search key => (.found (map key), map)

def onMaps (map : Key → Option Value) : List TreeOp → List TreeAnswer × (Key → Option Value)
  | [] => ([], map)
  | op :: ops => ((op.onMap map).1 :: (onMaps (op.onMap map).2 ops).1, (onMaps (op.onMap map).2 ops).2)

end TreeOp

theorem Represents.search_runs (represents : Represents store base contents) (key : Key)
    (enough : contents.length + 1 < rounds) :
    ∃ later, run TreeStore.handler (BPlusTree.search rounds key) store = some (.ok (assoc contents key), later) ∧
      Represents later base contents := by
  obtain ⟨root, nodes, holding, represented, reads⟩ := represents.search_reads key enough
  obtain ⟨found, later, ran, rfl, still⟩ := reads.runs holding
  exact ⟨later, ran, represented later still⟩

theorem Standing.search_ran (standing : Standing store base contents) (key : Key) (enough : contents.length + 1 < rounds)
    {found : Option Value} {later : TreeStore}
    (ran : run TreeStore.handler (BPlusTree.search rounds key) store = some (.ok found, later)) :
    found = assoc contents key ∧ Standing later base contents ∧
      (store.storage.pool.Available → later.storage.pool.Available) := by
  by_cases available : store.storage.pool.Available
  · obtain ⟨after, searched, still⟩ := (standing.represents available).search_runs key enough
    rw [searched] at ran
    obtain ⟨same, rfl⟩ := Prod.mk.inj (Option.some.inj ran)
    exact ⟨(Except.ok.inj same).symm, still.standing, fun _ => still.available⟩
  · obtain ⟨nodes, contains, owned⟩ := standing
    have reads := contains.search_reads (fun node member => (owned.node_shown member).1) key enough
    obtain ⟨rfl, rfl⟩ := reads.full owned rfl available ran
    exact ⟨rfl, ⟨nodes, contains, owned⟩, id⟩

theorem Represents.search (represents : Represents store base contents) (key : Key)
    (enough : contents.length + 1 < rounds) :
    Proceeds (BPlusTree.search rounds key) (fun found later => found = assoc contents key ∧
      Represents later base contents) store := by
  obtain ⟨later, ran, still⟩ := represents.search_runs key enough
  unfold Proceeds Ensures
  rw [ran]
  exact ⟨rfl, still⟩

theorem Represents.rangeScan_runs (represents : Represents store base contents) (start stop : Key)
    (out : List (Key × Value)) (enough : contents.length + 1 < rounds) :
    ∃ later, run TreeStore.handler (BPlusTree.rangeScan rounds start stop out) store =
        some (.ok (out ++ contents.filter (inRange start stop)), later) ∧
      Represents later base contents := by
  obtain ⟨root, nodes, holding, represented, reads⟩ := represents.rangeScan_reads start stop out enough
  obtain ⟨result, later, ran, rfl, still⟩ := reads.runs holding
  exact ⟨later, ran, represented later still⟩

theorem Represents.rangeScan (represents : Represents store base contents) (start stop : Key)
    (out : List (Key × Value)) (enough : contents.length + 1 < rounds) :
    Proceeds (BPlusTree.rangeScan rounds start stop out) (fun result later =>
      result = out ++ contents.filter (inRange start stop) ∧ Represents later base contents) store := by
  obtain ⟨later, ran, still⟩ := represents.rangeScan_runs start stop out enough
  unfold Proceeds Ensures
  rw [ran]
  exact ⟨rfl, still⟩

theorem TreeOp.program_spec (represents : Represents store base contents) (op : TreeOp)
    (enough : contents.length + 1 < rounds) :
    Proceeds (op.program rounds) (fun answer later => ∃ next, Represents later base next ∧
      answer = (op.onMap (assoc contents)).1 ∧ assoc next = (op.onMap (assoc contents)).2 ∧
        next.length ≤ contents.length + 1) store := by
  cases op with
  | search key =>
    refine (represents.search key enough).seq ?_
    rintro found later ⟨rfl, still⟩
    exact ⟨contents, still, rfl, rfl, Nat.le_succ _⟩
  | insert key value =>
    refine (insert_spec represents key value enough).seq ?_
    rintro inserted later (⟨rfl, still, present⟩ | ⟨rfl, before, after, rfl, grown, below, above⟩)
    · rw [onMap, if_neg present]
      exact ⟨contents, still, rfl, rfl, Nat.le_succ _⟩
    · have absent : assoc (before ++ after) key = none := assoc_none.mpr fun pair member =>
        (List.mem_append.mp member).elim (fun inside => (below pair inside).ne) fun inside => (above pair inside).ne'
      rw [onMap, if_pos absent]
      refine ⟨_, grown, rfl, assoc_insert fun pair member => (below pair member).ne, ?_⟩
      rw [List.length_append, List.length_append, List.length_cons]
      rfl
  | delete key =>
    refine (delete_spec represents key enough).seq ?_
    rintro deleted later (⟨rfl, still, absent⟩ | ⟨rfl, before, value, after, rfl, shrunk, below, above⟩)
    · rw [onMap, if_pos absent]
      exact ⟨contents, still, rfl, rfl, Nat.le_succ _⟩
    · have left : ∀ pair ∈ before, pair.1 ≠ key := fun pair member => (below pair member).ne
      have right : ∀ pair ∈ after, pair.1 ≠ key := fun pair member => (above pair member).ne'
      have removed := @assoc_remove _ _ _ before after key value left right
      have present : assoc (before ++ (key, value) :: after) key ≠ none := by
        rw [assoc_insert left, Function.update_self]
        exact Option.some_ne_none value
      rw [onMap, if_neg present]
      refine ⟨_, shrunk, rfl, removed, ?_⟩
      simp only [List.length_append, List.length_cons]
      omega

theorem TreeOp.programs_spec (represents : Represents store base contents) (ops : List TreeOp)
    (enough : contents.length + ops.length + 1 < rounds) :
    Proceeds (programs rounds ops) (fun answers later => ∃ next, Represents later base next ∧
      answers = (onMaps (assoc contents) ops).1 ∧ assoc next = (onMaps (assoc contents) ops).2 ∧
        next.length ≤ contents.length + ops.length) store := by
  induction ops generalizing store contents with
  | nil => exact ⟨contents, represents, rfl, rfl, Nat.le_refl _⟩
  | cons op ops ih =>
    rw [List.length_cons] at enough
    refine (op.program_spec represents (by omega)).seq ?_
    rintro answer later ⟨next, still, rfl, map, size⟩
    refine (ih still (by omega)).seq ?_
    rintro answers final ⟨last, kept, rfl, finalMap, total⟩
    rw [onMaps, ← map]
    refine ⟨last, kept, rfl, finalMap, ?_⟩
    rw [List.length_cons]
    omega

/-- The B+ tree is a map: every answer of every sequence of calls is that of a finite map, and a search
behind them always has an answer. -/
theorem tree_is_map (fresh : store.rootPageId = invalidPageId) (owns : Owns store.storage base) (ops : List TreeOp)
    (enough : ops.length + 1 < rounds) :
    Proceeds (TreeOp.programs rounds ops) (fun answers later => answers = (TreeOp.onMaps (fun _ => none) ops).1 ∧
      ∀ key, ∃ final, run TreeStore.handler (BPlusTree.search rounds key) later =
        some (.ok ((TreeOp.onMaps (fun _ => none) ops).2 key), final)) store := by
  have empty : Represents store base [] := .empty fresh owns
  refine (TreeOp.programs_spec empty ops (by rw [List.length_nil]; omega)).mono ?_
  rintro answers later ⟨next, represents, rfl, map, size⟩
  rw [List.length_nil] at size
  have few : next.length + 1 < rounds := by omega
  refine ⟨rfl, fun key => ?_⟩
  obtain ⟨final, ran, -⟩ := represents.search_runs key few
  rw [map] at ran
  exact ⟨final, ran⟩

theorem tree_is_map_opened :
    Proceeds (TreeOp.programs 6 [.insert 5 1, .insert 5 2, .delete 5, .search 5]) (fun answers later => answers =
      [.changed true, .changed false, .changed true, .found none] ∧
        ∀ key, ∃ final, run TreeStore.handler (BPlusTree.search 6 key) later =
          some (.ok ((TreeOp.onMaps (fun _ => none) [.insert 5 1, .insert 5 2, .delete 5, .search 5]).2 key), final))
      (TreeStore.open 1 []) := by
  have answers : (TreeOp.onMaps (fun _ => none) [.insert 5 1, .insert 5 2, .delete 5, .search 5]).1 =
      [.changed true, .changed false, .changed true, .found none] := by decide
  have owns : Owns (TreeStore.open 1 []).storage (strays []) := opened_owns (by decide) (by decide)
  rw [← answers]
  exact tree_is_map rfl owns [.insert 5 1, .insert 5 2, .delete 5, .search 5] (by decide)

/-- A scan after any sequence of calls runs to its end and finds what searches find, once each and in order. -/
theorem rangeScan_agrees (fresh : store.rootPageId = invalidPageId) (owns : Owns store.storage base) (ops : List TreeOp)
    (enough : ops.length + 1 < rounds) :
    Proceeds (TreeOp.programs rounds ops) (fun _ later => ∀ start stop out, ∃ scanned scannedStore,
      run TreeStore.handler (BPlusTree.rangeScan rounds start stop out) later = some (.ok (out ++ scanned), scannedStore) ∧
        (scanned.Pairwise fun one two => one.1 < two.1) ∧
        ∀ key, ∃ found searchedStore,
          run TreeStore.handler (BPlusTree.search rounds key) later = some (.ok found, searchedStore) ∧
            ∀ value, (key, value) ∈ scanned ↔ start ≤ key ∧ key ≤ stop ∧ found = some value) store := by
  have empty : Represents store base [] := .empty fresh owns
  refine (TreeOp.programs_spec empty ops (by rw [List.length_nil]; omega)).mono ?_
  rintro answers later ⟨contents, represents, -, -, size⟩ start stop out
  rw [List.length_nil] at size
  have few : contents.length + 1 < rounds := by omega
  obtain ⟨scannedStore, scans, -⟩ := represents.rangeScan_runs start stop out few
  refine ⟨contents.filter (inRange start stop), scannedStore, scans, represents.sorted.filter _, fun key => ?_⟩
  obtain ⟨searchedStore, searches, -⟩ := represents.search_runs key few
  refine ⟨assoc contents key, searchedStore, searches, fun value => ?_⟩
  rw [List.mem_filter, mem_iff_assoc represents.sorted]
  simp only [inRange, decide_eq_true_eq]
  exact and_comm.trans and_assoc

theorem rangeScan_agrees_opened :
    Proceeds (TreeOp.programs 4 [.insert 5 1, .insert 3 2]) (fun _ later => ∀ start stop out, ∃ scanned scannedStore,
      run TreeStore.handler (BPlusTree.rangeScan 4 start stop out) later = some (.ok (out ++ scanned), scannedStore) ∧
        (scanned.Pairwise fun one two => one.1 < two.1) ∧
        ∀ key, ∃ found searchedStore,
          run TreeStore.handler (BPlusTree.search 4 key) later = some (.ok found, searchedStore) ∧
            ∀ value, (key, value) ∈ scanned ↔ start ≤ key ∧ key ≤ stop ∧ found = some value) (TreeStore.open 1 []) :=
  rangeScan_agrees rfl (opened_owns (by decide) (by decide)) _ (by decide)

end QuorumDB.Storage
