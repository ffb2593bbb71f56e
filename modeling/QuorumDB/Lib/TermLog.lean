import Mathlib.Data.List.Infix

/-!
Logs whose entries carry a term. `book` names one authoritative list for each
term; a log is coherent with the book when each of its prefixes is a prefix of
the list of the term it ends in. Coherence is what makes equal terms at equal
positions force equal prefixes.
-/

namespace QuorumDB.TermLog

variable {Entry Term : Type}

theorem take_prefix_take {short long : List Entry} (pre : short <+: long) {count : Nat}
    (enough : count ≤ short.length) : short.take count = long.take count := by
  obtain ⟨rest, rfl⟩ := pre
  rw [List.take_append_of_le_length enough]

theorem getElem?_mono {short long : List Entry} (pre : short <+: long) {position : Nat}
    {entry : Entry} (found : short[position]? = some entry) : long[position]? = some entry := by
  obtain ⟨rest, rfl⟩ := pre
  have inside : position < short.length := by
    by_contra outside
    rw [List.getElem?_eq_none (by omega)] at found
    cases found
  rw [List.getElem?_append_left inside, found]

theorem lt_of_getElem? {log : List Entry} {position : Nat} {entry : Entry}
    (found : log[position]? = some entry) : position < log.length := by
  by_contra outside
  rw [List.getElem?_eq_none (by omega)] at found
  cases found

theorem getElem?_take_succ {log : List Entry} {position : Nat} :
    (log.take (position + 1))[position]? = log[position]? := by
  rw [List.getElem?_take_of_lt (Nat.lt_succ_self _)]

/-- Every prefix of the log belongs to the list the book holds for the prefix's last term. -/
def Coherent (term : Entry → Term) (book : Term → List Entry) (log : List Entry) : Prop :=
  ∀ position entry, log[position]? = some entry → log.take (position + 1) <+: book (term entry)

variable {term : Entry → Term} {book larger : Term → List Entry} {log other : List Entry}

theorem Coherent.mono (coherent : Coherent term book log) (grows : ∀ t, book t <+: larger t) :
    Coherent term larger log :=
  fun position entry found => (coherent position entry found).trans (grows _)

theorem Coherent.restrict (coherent : Coherent term book log) (pre : other <+: log) :
    Coherent term book other := by
  intro position entry found
  have inside := lt_of_getElem? found
  rw [take_prefix_take pre inside]
  exact coherent position entry (getElem?_mono pre found)

/-- Log matching: coherent logs with one term at one position agree up to it. -/
theorem Coherent.agree (left : Coherent term book log) (right : Coherent term book other)
    {position : Nat} {mine yours : Entry} (here : log[position]? = some mine)
    (there : other[position]? = some yours) (same : term mine = term yours) :
    log.take (position + 1) = other.take (position + 1) := by
  have first := left position mine here
  have second := right position yours there
  rw [same] at first
  have lengths : (log.take (position + 1)).length = (other.take (position + 1)).length := by
    have a := lt_of_getElem? here
    have b := lt_of_getElem? there
    rw [List.length_take, List.length_take]
    omega
  exact (List.prefix_of_prefix_length_le first second lengths.le).eq_of_length lengths

theorem Coherent.append {entry : Entry} (coherent : Coherent term book log)
    (listed : log ++ [entry] <+: book (term entry)) : Coherent term book (log ++ [entry]) := by
  intro position found_entry found
  by_cases old : position < log.length
  · rw [List.getElem?_append_left old] at found
    rw [List.take_append_of_le_length old]
    exact coherent position found_entry found
  · have last : position = log.length := by
      have inside := lt_of_getElem? found
      rw [List.length_append, List.length_singleton] at inside
      omega
    subst last
    rw [List.getElem?_append_right (Nat.le_refl _), Nat.sub_self] at found
    have same : entry = found_entry := by simpa using found
    subst same
    rwa [List.take_of_length_le (by simp)]

section Ordered

variable [LE Term]

def Bounded (term : Entry → Term) (book : Term → List Entry) : Prop :=
  ∀ t, ∀ entry ∈ book t, term entry ≤ t

theorem Coherent.monotone (coherent : Coherent term book log) (bounded : Bounded term book)
    {low high : Nat} {early late : Entry} (ordered : low ≤ high) (first : log[low]? = some early)
    (second : log[high]? = some late) : term early ≤ term late := by
  have listed := coherent high late second
  apply bounded (term late) early
  apply listed.subset
  apply List.mem_of_getElem? (i := low)
  rw [List.getElem?_take_of_lt (by omega)]
  exact first

end Ordered

end QuorumDB.TermLog
