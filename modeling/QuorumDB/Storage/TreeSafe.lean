import QuorumDB.Storage.TreeRun

/-!
No error of the tree. A run of any calls stops nowhere: every child that is looked for in its
parent is there, every index is inside its vector, every page read is a node and every
node written fits its page. Only page identifiers can run out.
-/

namespace QuorumDB.Storage
open Program PageProg SearchWord BPlusTree

variable {Result Answer : Type} {store : TreeStore} {base : Multiset (PageId × Cell)} {contents : List (Key × Value)}
variable {rounds : Nat}

def inOrder {Call : Type} (program : Call → PageProg Answer) : List Call → PageProg (List Answer)
  | [] => return []
  | call :: calls => do
      let answer ← program call
      return answer :: (← inOrder program calls)

theorem inOrder_finding {Call : Type} {strict plain : Call → PageProg Answer} (finding : ∀ call, Finding (strict call) (plain call))
    (calls : List Call) : Finding (inOrder strict calls) (inOrder plain calls) := by
  induction calls with
  | nil => exact .done []
  | cons call calls ih => exact .bind (finding call) fun answer => .bind ih fun answers => .refl _

inductive TreeCall where
  | insert (key : Key) (value : Value)
  | delete (key : Key)
  | search (key : Key)
  | rangeScan (start stop : Key) (out : List (Key × Value))

inductive TreeReply where
  | changed (succeeded : Bool)
  | found (value : Option Value)
  | scanned (out : List (Key × Value))
  deriving DecidableEq, Repr

namespace TreeCall

def program (rounds : Nat) : TreeCall → PageProg TreeReply
  | .insert key value => do return .changed (← BPlusTree.insert rounds key value)
  | .delete key => do return .changed (← BPlusTree.delete rounds key)
  | .search key => do return .found (← BPlusTree.search rounds key)
  | .rangeScan start stop out => do return .scanned (← BPlusTree.rangeScan rounds start stop out)

/-- The calls of a sequence, stopped where `std::find` finds nothing. -/
def strict (rounds : Nat) : TreeCall → PageProg TreeReply
  | .insert key value => do return .changed (← Strict.insert rounds key value)
  | .delete key => do return .changed (← Strict.delete rounds key)
  | .search key => do return .found (← BPlusTree.search rounds key)
  | .rangeScan start stop out => do return .scanned (← BPlusTree.rangeScan rounds start stop out)

theorem strict_finding (rounds : Nat) (call : TreeCall) : Finding (call.strict rounds) (call.program rounds) := by
  cases call with
  | insert key value => exact .bind (insert_finding rounds key value) fun inserted => .refl _
  | delete key => exact .bind (delete_finding rounds key) fun deleted => .refl _
  | search key => exact .refl _
  | rangeScan start stop out => exact .refl _

theorem strict_spec (represents : Represents store base contents) (call : TreeCall) (enough : contents.length + 1 < rounds) :
    Proceeds (call.strict rounds) (fun _ later => ∃ next, Represents later base next ∧ next.length ≤ contents.length + 1)
      store := by
  cases call with
  | search key => exact (represents.search key enough).seq fun found later done => ⟨contents, done.2, Nat.le_succ _⟩
  | rangeScan start stop out =>
    exact (represents.rangeScan start stop out enough).seq fun result later done => ⟨contents, done.2, Nat.le_succ _⟩
  | insert key value =>
    refine (insert_finds represents key value enough).seq ?_
    rintro inserted later (⟨-, still, -⟩ | ⟨-, before, after, split, grown, -⟩)
    · exact ⟨contents, still, Nat.le_succ _⟩
    · refine ⟨_, grown, ?_⟩
      rw [split, List.length_append, List.length_append, List.length_cons]
      rfl
  | delete key =>
    refine (delete_finds represents key enough).seq ?_
    rintro deleted later (⟨-, still, -⟩ | ⟨-, before, value, after, split, shrunk, -⟩)
    · exact ⟨contents, still, Nat.le_succ _⟩
    · refine ⟨_, shrunk, ?_⟩
      rw [split, List.length_append, List.length_append, List.length_cons]
      omega

theorem inOrder_spec (represents : Represents store base contents) (calls : List TreeCall)
    (enough : contents.length + calls.length + 1 < rounds) :
    Proceeds (inOrder (strict rounds) calls) (fun _ later => ∃ next, Represents later base next) store := by
  induction calls generalizing store contents with
  | nil => exact ⟨contents, represents⟩
  | cons call calls ih =>
    rw [List.length_cons] at enough
    refine (call.strict_spec represents (by omega)).seq ?_
    rintro answer later ⟨next, still, size⟩
    exact (ih still (by omega)).seq fun answers final kept => kept

end TreeCall

theorem Proceeds.outcome {program : PageProg Result} {post : Result → TreeStore → Prop}
    (proceeds : Proceeds program post store) :
    ∃ result later, run TreeStore.handler program store = some (result, later) ∧
      ((∃ value, result = .ok value) ∨ (result = .error .pageIdLimit ∧ later.Exhausted)) := by
  unfold Proceeds Ensures at proceeds
  match ran : run TreeStore.handler program store with
  | none =>
    rw [ran] at proceeds
    exact proceeds.elim
  | some (.ok value, later) => exact ⟨.ok value, later, rfl, .inl ⟨value, rfl⟩⟩
  | some (.error error, later) =>
    rw [ran] at proceeds
    obtain ⟨rfl, exhausted⟩ := proceeds
    exact ⟨_, later, rfl, .inr ⟨rfl, exhausted⟩⟩

/-- No call of the tree ends in an error, whichever calls came before, while there are page identifiers; and
every run is one in which each child that is looked for is found. -/
theorem tree_never_fails (fresh : store.rootPageId = invalidPageId) (owns : Owns store.storage base)
    (calls : List TreeCall) (enough : calls.length + 1 < rounds) :
    ∃ result later, run TreeStore.handler (inOrder (TreeCall.program rounds) calls) store = some (result, later) ∧
      run TreeStore.handler (inOrder (TreeCall.strict rounds) calls) store = some (result, later) ∧
      ((∃ answers, result = .ok answers) ∨ (result = .error .pageIdLimit ∧ later.Exhausted)) := by
  have empty : Represents store base [] := .empty fresh owns
  have few : ([] : List (Key × Value)).length + calls.length + 1 < rounds := by
    rw [List.length_nil]
    omega
  have proceeds := TreeCall.inOrder_spec empty calls few
  obtain ⟨result, later, ran, outcome⟩ := proceeds.outcome
  have same := (proceeds.plain (inOrder_finding (TreeCall.strict_finding rounds) calls)).1
  exact ⟨result, later, same.trans ran, ran, outcome⟩

theorem tree_never_fails_opened :
    ∃ result later, run TreeStore.handler (inOrder (TreeCall.program 5)
        [.insert 5 1, .rangeScan 3 7 [], .delete 5]) (TreeStore.open 1 []) = some (result, later) ∧
      run TreeStore.handler (inOrder (TreeCall.strict 5)
        [.insert 5 1, .rangeScan 3 7 [], .delete 5]) (TreeStore.open 1 []) = some (result, later) ∧
      ((∃ answers, result = .ok answers) ∨ (result = .error .pageIdLimit ∧ later.Exhausted)) :=
  tree_never_fails rfl (opened_owns (by decide) (by decide)) _ (by decide)

end QuorumDB.Storage
