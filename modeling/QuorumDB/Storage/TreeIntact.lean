import QuorumDB.Storage.TreeThrows

/-!
Trees after calls that threw. As long as every call returned or threw before it wrote a node, whoever
held frames meanwhile, the pages hold a tree, and an early throw changes none of its answers.
-/

namespace QuorumDB.Storage
open Program PageProg SearchWord BPlusTree

variable {Result Middle : Type} {store later : TreeStore} {nodes : Multiset BPlusTreeNode} {rounds count : Nat}
variable {base : Multiset (PageId × Cell)} {contents : List (Key × Value)} {plan rest : List Bool}

section Blocked

/-- The program throws, whatever it is refused, and changes nothing. -/
def Blocked (program : PageProg Result) (store : TreeStore) : Prop :=
  ∀ plan result later rest, run TreeStore.crowded program (store, plan) = some (result, (later, rest)) →
    later = store ∧ ∃ error, result = .error error

theorem Blocked.bind {program : PageProg Middle} (blocked : Blocked program store) (next : Middle → PageProg Result) :
    Blocked (program >>= next) store := by
  intro plan result later rest ran
  rcases run_bind_cases ran with ⟨value, middle, first, -⟩ | ⟨error, same, first⟩
  · obtain ⟨-, error, impossible⟩ := blocked plan _ middle.1 middle.2 first
    cases impossible
  · exact ⟨(blocked plan _ later rest first).1, error, same⟩

theorem Blocked.root {next : PageId → PageProg Result} (blocked : Blocked (next store.rootPageId) store) :
    Blocked (rootPageId >>= next) store := blocked

theorem blocked_call {request : PageCall} {why : StorageError} (can : TreeStore.refusal request = some (.error why))
    (handled : TreeStore.handler request store = some (.error why, store)) :
    Blocked (Prog.ask request : PageProg (PageCall.Answer request)) store := by
  intro plan result later rest ran
  have thrown : TreeStore.crowded request (store, plan) = some (.error why, (store, plan.tail)) := by
    by_cases head : plan.head? = some true
    · exact TreeStore.crowded_refused can head
    · rw [TreeStore.crowded_granted can head, handled]
      rfl
  change run TreeStore.crowded (.call request .done) (store, plan) = _ at ran
  simp only [run, thrown] at ran
  obtain ⟨rfl, same⟩ := Prod.mk.inj (Option.some.inj ran)
  exact ⟨(Prod.mk.inj same).1.symm, why, rfl⟩

theorem blocked_create (taken : ¬ store.storage.pool.Available) (node : BPlusTreeNode) : Blocked (createNode node) store := by
  refine blocked_call rfl (TreeStore.handler_full rfl taken fun pageId asks => ?_)
  rcases asks with impossible | ⟨other, impossible, -⟩
  · cases impossible
  · cases impossible

theorem Reads.blocked {root : PageId} {good : Middle → Prop} {program : PageProg Middle} (reads : Reads root nodes good program)
    (owned : Owned store.storage (nodes.map nodeCell + base)) (named : store.rootPageId = root)
    (taken : ¬ store.storage.pool.Available) {next : Middle → PageProg Result}
    (behind : ∀ value, good value → Blocked (next value) store) : Blocked (program >>= next) store := by
  induction reads with
  | done fine => exact behind _ fine
  | @root follow later ih =>
    subst named
    exact ih
  | @read node follow member later ih =>
    have read : Blocked (readNode node.pageId) store := blocked_call rfl (owned.readNode_full taken member)
    exact (read.bind follow).bind next

theorem Standing.full (standing : Standing store base contents) (taken : ¬ store.storage.pool.Available) (op : TreeOp)
    (enough : contents.length + 1 < rounds) {result : Except StorageError TreeAnswer}
    (ran : run TreeStore.crowded (op.program rounds) (store, plan) = some (result, (later, rest))) : later = store := by
  obtain ⟨nodes, contains, owned⟩ := standing
  have real : ∀ node ∈ nodes, node.pageId ≠ invalidPageId := fun node member => (owned.node_shown member).1
  cases contains with
  | empty none =>
    cases op with
    | insert key value =>
      have blocked : Blocked (TreeOp.program rounds (.insert key value)) store := by
        refine Blocked.bind (Blocked.root ?_) _
        rw [if_pos none]
        exact (blocked_create taken _).bind _
      exact (blocked plan result later rest ran).1
    | delete key =>
      change run TreeStore.crowded ((if store.rootPageId = invalidPageId then _ else _) >>= _) (store, plan) = _ at ran
      rw [if_pos none] at ran
      cases ran
      rfl
    | search key =>
      change run TreeStore.crowded ((if store.rootPageId = invalidPageId then _ else _) >>= _) (store, plan) = _ at ran
      rw [if_pos none] at ran
      cases ran
      rfl
  | @tree height tree good ordered named =>
    have low := good.height_le
    have rooted : store.rootPageId ≠ invalidPageId := by
      rw [← named, ← Tree.node_pageId tree]
      exact real _ (tree.mem_nodes invalidPageId)
    have leads : ∀ key {Final : Type} (next : BPlusTreeNode → PageProg Final),
        Blocked (findLeaf rounds key >>= fun id => readNode id >>= next) store := by
      intro key Final next
      refine (@findLeaf_reads key _ tree good ordered rounds (by omega) real).blocked owned named.symm taken ?_
      rintro id ⟨context, leaf, rfl, located⟩
      have read : Blocked (readNode (Leaf.id leaf)) store := blocked_call rfl (owned.readNode_full taken located.mem_nodes)
      exact read.bind next
    have blocked : Blocked (op.program rounds) store := by
      cases op with
      | insert key value =>
        refine Blocked.bind (Blocked.root ?_) _
        rw [if_neg rooted]
        exact leads key _
      | delete key =>
        refine Blocked.bind (Blocked.root ?_) _
        rw [if_neg rooted]
        exact leads key _
      | search key =>
        refine Blocked.bind (Blocked.root ?_) _
        rw [if_neg rooted]
        exact leads key _
    exact (blocked plan result later rest ran).1

end Blocked

/-- Runs of a tree over a pool whose frames others take and give back. Each call returned, or it threw
before any WriteNode of it had gone through. -/
inductive Intact (rounds : Nat) : Nat → TreeStore → Prop
  | start {store : TreeStore} {base : Multiset (PageId × Cell)} (fresh : store.rootPageId = invalidPageId)
      (owns : Owns store.storage base) : Intact rounds 0 store
  | call {count : Nat} {store later : TreeStore} {op : TreeOp} {plan rest : List Bool}
      {result : Except StorageError TreeAnswer} (before : Intact rounds count store)
      (ran : run TreeStore.crowded (op.program rounds) (store, plan) = some (result, (later, rest)))
      (early : ∀ error, result = .error error → Along TreeStore.crowded Unwritten (op.program rounds) (store, plan)) :
      Intact rounds (count + 1) later

theorem refusal_throws (request : PageCall) (answer : Except StorageError (PageCall.Answer request))
    (refused : TreeStore.refusal request = some answer) : ∃ error, answer = .error error := by
  cases request with
  | readNode pageId => exact ⟨_, (Option.some.inj refused).symm⟩
  | writeNode node => exact ⟨_, (Option.some.inj refused).symm⟩
  | createNode node => exact ⟨_, (Option.some.inj refused).symm⟩
  | rootPageId => cases refused
  | setRootPageId pageId => cases refused
  | deletePage pageId => cases refused

theorem Intact.standing (intact : Intact rounds count store) (enough : count < rounds) :
    ∃ base contents, Standing store base contents ∧ contents.length ≤ count := by
  induction intact with
  | start fresh owns => exact ⟨_, [], (Represents.empty fresh owns).standing, Nat.le_refl _⟩
  | @call count store later op plan rest result before ran early ih =>
    obtain ⟨base, contents, standing, size⟩ := ih (by omega)
    have small : contents.length + 1 < rounds := by omega
    by_cases available : store.storage.pool.Available
    · have represents := standing.represents available
      cases result with
      | ok answer =>
        have served : run TreeStore.handler (op.program rounds) store = some (.ok answer, later) := refusing_ok refusal_throws ran
        have spec := op.program_spec represents small
        unfold Proceeds Ensures at spec
        rw [served] at spec
        obtain ⟨next, still, -, -, grown⟩ := spec
        exact ⟨base, next, still.standing, grown.trans (Nat.succ_le_succ size)⟩
      | error error =>
        obtain ⟨others, still⟩ := represents.throw_early op small ran (early error rfl)
        exact ⟨others, contents, still, size.trans (Nat.le_succ _)⟩
    · obtain rfl := standing.full available op small ran
      exact ⟨base, contents, standing, size.trans (Nat.le_succ _)⟩

theorem Intact.programs (intact : Intact rounds count store) {ops : List TreeOp} {answers : List TreeAnswer}
    (ran : run TreeStore.handler (TreeOp.programs rounds ops) store = some (.ok answers, later)) :
    Intact rounds (count + ops.length) later := by
  induction ops generalizing count store answers with
  | nil =>
    cases ran
    exact intact
  | cons op ops ih =>
    rcases run_bind_cases ran with ⟨answer, middle, first, second⟩ | ⟨error, impossible, -⟩
    · rcases run_bind_cases second with ⟨others, last, behind, same⟩ | ⟨error, impossible, -⟩
      · cases same
        have served : run TreeStore.crowded (op.program rounds) (store, []) = some (.ok answer, (middle, [])) := by
          have unrefused := refusing_nil TreeStore.handler TreeStore.refusal
          have fixed := (@run_fixed _ _ _ _ _ _ _ _ [] unrefused (fun _ _ => True) (fun _ _ => trivial) (op.program rounds) store).1
          rw [first] at fixed
          exact fixed
        have next := ih (intact.call served fun error impossible => by cases impossible) behind
        rwa [Nat.add_right_comm, Nat.add_assoc] at next
      · cases impossible
    · cases impossible

/-- A call that throws before any WriteNode of it has gone through changes no answer: once a frame is available
again all searches and scans reply as before it. -/
theorem early_throw_changes_nothing {reached : TreeStore} (intact : Intact rounds count reached) (enough : count + 1 < rounds)
    (op : TreeOp) {error : StorageError}
    (threw : run TreeStore.crowded (op.program rounds) (reached, plan) = some (.error error, (later, rest)))
    (early : Along TreeStore.crowded Unwritten (op.program rounds) (reached, plan))
    (available : later.storage.pool.Available) {calls : List TreeCall} (reading : ∀ call ∈ calls, call.Reading) :
    ∃ replies, reached.replies rounds calls = some (.ok replies) ∧ later.replies rounds calls = some (.ok replies) := by
  obtain ⟨base, contents, standing, size⟩ := intact.standing (by omega)
  have small : contents.length + 1 < rounds := by omega
  by_cases ready : reached.storage.pool.Available
  · have represents := standing.represents ready
    obtain ⟨others, still⟩ := represents.throw_early op small threw early
    exact ⟨_, represents.replies_eq reading small, (still.represents available).replies_eq reading small⟩
  · obtain rfl := standing.full ready op small threw
    exact absurd available ready

set_option maxRecDepth 4000 in
/-- Four keys, an Insert of a fifth that makes the new half of the root and is refused a frame to write the old
one, and a Delete that is refused one as well. A pool whose one frame another client holds refuses in this way. -/
theorem early_throw_changes_nothing_split :
    ∃ answers full reached later, run TreeStore.handler
        (TreeOp.programs 8 [.insert 1 10, .insert 2 20, .insert 3 30, .insert 4 40]) (TreeStore.open 1 []) =
          some (.ok answers, full) ∧
      run TreeStore.crowded (TreeOp.program 8 (.insert 5 50)) (full, [false, false, false, true]) =
        some (.error .noEvictableFrame, (reached, [])) ∧
      run TreeStore.crowded (TreeOp.program 8 (.delete 2)) (reached, [false, false, true]) =
        some (.error .noEvictableFrame, (later, [])) ∧
      reached.replies 8 [.search 4, .rangeScan 2 9 []] =
        some (.ok [.found (some 40), .scanned [(2, 20), (3, 30), (4, 40)]]) ∧
      later.replies 8 [.search 4, .rangeScan 2 9 []] =
        some (.ok [.found (some 40), .scanned [(2, 20), (3, 30), (4, 40)]]) ∧
      TreeStore.handler (.readNode full.rootPageId) ⟨(BufferedDisk.newPage full.storage).2, full.rootPageId⟩ =
        some (.error .noEvictableFrame, ⟨(BufferedDisk.newPage full.storage).2, full.rootPageId⟩) := by
  have shown : ∃ done ∈ run TreeStore.handler (TreeOp.programs 8 [.insert 1 10, .insert 2 20, .insert 3 30, .insert 4 40])
        (TreeStore.open 1 []), done.1 = .ok [.changed true, .changed true, .changed true, .changed true] ∧
      (BufferedDisk.newPage done.2.storage).2.pool.freeFrames = [] ∧ (BufferedDisk.newPage done.2.storage).2.pool.lru = [] ∧
      done.2.rootPageId ≠ invalidPageId ∧
      (BufferedDisk.newPage done.2.storage).2.pool.find done.2.rootPageId = none ∧
      Along TreeStore.crowded Unwritten (TreeOp.program 8 (.insert 5 50)) (done.2, [false, false, false, true]) ∧
      ∃ middle ∈ run TreeStore.crowded (TreeOp.program 8 (.insert 5 50)) (done.2, [false, false, false, true]),
      middle.1 = .error .noEvictableFrame ∧ middle.2.2 = [] ∧
      middle.2.1.replies 8 [.search 4, .rangeScan 2 9 []] =
        some (.ok [.found (some 40), .scanned [(2, 20), (3, 30), (4, 40)]]) ∧
      Along TreeStore.crowded Unwritten (TreeOp.program 8 (.delete 2)) (middle.2.1, [false, false, true]) ∧
      ∃ last ∈ run TreeStore.crowded (TreeOp.program 8 (.delete 2)) (middle.2.1, [false, false, true]),
      last.1 = .error .noEvictableFrame ∧ last.2.2 = [] ∧
      (last.2.1.storage.pool.freeFrames ≠ [] ∨ last.2.1.storage.pool.lru ≠ []) := by
    decide +kernel
  obtain ⟨⟨answers, full⟩, inserted, same, free, lru, real, absent, unwritten, ⟨result, reached, left⟩, split, failed, empty,
    replied, early, ⟨final, later, none⟩, deleted, threw, drained, available⟩ := shown
  obtain rfl : answers = _ := same
  obtain rfl : result = _ := failed
  obtain rfl : left = _ := empty
  obtain rfl : final = _ := threw
  obtain rfl : none = _ := drained
  have intact : Intact 8 4 full :=
    (Intact.start rfl (opened_owns (by decide) (by decide))).programs inserted
  have reading : ∀ call ∈ [TreeCall.search 4, .rangeScan 2 9 []], call.Reading := by
    intro call member
    rcases List.mem_cons.mp member with rfl | other
    · trivial
    · rw [List.mem_singleton.mp other]
      trivial
  have kept := early_throw_changes_nothing (intact.call split fun error _ => unwritten) (by decide) (.delete 2) deleted early
    available reading
  obtain ⟨replies, before, after⟩ := kept
  rw [replied] at before
  cases before
  refine ⟨_, full, reached, later, inserted, split, deleted, replied, after, ?_⟩
  refine TreeStore.handler_full rfl (BufferPoolManager.not_available free lru) fun pageId asks => ?_
  rcases asks with same | ⟨node, impossible, -⟩
  · cases same
    exact ⟨real, absent⟩
  · cases impossible

/-- The fifth key splits the root. When no frame is left for the page of the new root, the old one has lost its
last keys. -/
theorem late_throw_loses_keys :
    ∃ answers reached later rest, run TreeStore.handler (TreeOp.programs 8 [.insert 1 10, .insert 2 20, .insert 3 30, .insert 4 40])
        (TreeStore.open 1 []) = some (.ok answers, reached) ∧
      run TreeStore.crowded (TreeOp.program 8 (.insert 5 50)) (reached, [false, false, false, false, true]) =
        some (.error .noFreeFrame, (later, rest)) ∧
      reached.replies 8 [.search 4] = some (.ok [.found (some 40)]) ∧ later.replies 8 [.search 4] = some (.ok [.found none]) := by
  have answered : (run TreeStore.handler (TreeOp.programs 8 [.insert 1 10, .insert 2 20, .insert 3 30, .insert 4 40])
      (TreeStore.open 1 [])).map Prod.fst =
        some (.ok [.changed true, .changed true, .changed true, .changed true]) := by
    decide +kernel
  have shown : ((run TreeStore.handler (TreeOp.programs 8 [.insert 1 10, .insert 2 20, .insert 3 30, .insert 4 40])
      (TreeStore.open 1 [])).bind fun before =>
        (run TreeStore.crowded (TreeOp.program 8 (.insert 5 50)) (before.2, [false, false, false, false, true])).map fun after =>
          (after.1, [before.2.replies 8 [.search 4], after.2.1.replies 8 [.search 4]])) =
      some (.error .noFreeFrame, [some (.ok [.found (some 40)]), some (.ok [.found none])]) := by
    decide +kernel
  obtain ⟨⟨answers, reached⟩, ran, rfl⟩ := Option.map_eq_some_iff.mp answered
  rw [ran] at shown
  obtain ⟨⟨thrown, later, rest⟩, threw, same⟩ := Option.map_eq_some_iff.mp shown
  simp only [Prod.mk.injEq, List.cons.injEq, and_true] at same
  obtain ⟨rfl, before, after⟩ := same
  exact ⟨_, reached, later, rest, ran, threw, before, after⟩

end QuorumDB.Storage
