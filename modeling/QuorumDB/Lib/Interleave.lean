import Mathlib.Data.List.Basic

/-!
Parts with separators between them, as the in-order word of a search tree node. One
part more than separators makes a whole; as many parts as separators make a piece that
goes before or after another part.
-/

namespace QuorumDB.Interleave

variable {Sep Part Token : Type} (sep : Sep → Token) (part : Part → List Token)

/-- Parts and separators in turn, starting with a part. -/
def weave : List Sep → List Part → List Token
  | [], parts => parts.flatMap part
  | _ :: _, [] => []
  | first :: seps, here :: parts => part here ++ sep first :: weave seps parts

def weaveLeft : List Sep → List Part → List Token
  | first :: seps, here :: parts => part here ++ sep first :: weaveLeft seps parts
  | _, _ => []

def weaveRight : List Sep → List Part → List Token
  | first :: seps, here :: parts => sep first :: part here ++ weaveRight seps parts
  | _, _ => []

variable {sep part} {seps otherSeps : List Sep} {parts otherParts : List Part} {middle : Part} {last : Sep}

@[simp] theorem weave_one : weave sep part [] [middle] = part middle := by
  rw [weave, List.flatMap_singleton]

@[simp] theorem weaveLeft_nil : weaveLeft sep part [] parts = [] := by
  cases parts <;> rfl

@[simp] theorem weaveRight_nil : weaveRight sep part [] parts = [] := by
  cases parts <;> rfl

theorem weave_append (sizes : seps.length = parts.length) :
    weave sep part (seps ++ otherSeps) (parts ++ otherParts) =
      weaveLeft sep part seps parts ++ weave sep part otherSeps otherParts := by
  induction seps generalizing parts with
  | nil =>
    rw [List.length_nil, eq_comm, List.length_eq_zero_iff] at sizes
    rw [sizes, List.nil_append, List.nil_append, weaveLeft_nil, List.nil_append]
  | cons first seps ih =>
    cases parts with
    | nil => cases sizes
    | cons here parts =>
      simp only [List.cons_append, weave, weaveLeft, List.append_assoc]
      rw [ih (Nat.succ.inj sizes)]

theorem weave_cons (sizes : seps.length = parts.length) :
    weave sep part seps (middle :: parts) = part middle ++ weaveRight sep part seps parts := by
  induction seps generalizing middle parts with
  | nil =>
    rw [List.length_nil, eq_comm, List.length_eq_zero_iff] at sizes
    rw [sizes, weave_one, weaveRight_nil, List.append_nil]
  | cons first seps ih =>
    cases parts with
    | nil => cases sizes
    | cons here parts =>
      rw [weave, weaveRight, ih (Nat.succ.inj sizes), List.cons_append]

theorem weave_middle (sizes : seps.length = parts.length) (otherSizes : otherSeps.length = otherParts.length) :
    weave sep part (seps ++ otherSeps) (parts ++ middle :: otherParts) =
      weaveLeft sep part seps parts ++ (part middle ++ weaveRight sep part otherSeps otherParts) := by
  rw [weave_append sizes, weave_cons otherSizes]

theorem weaveLeft_append (sizes : seps.length = parts.length) :
    weaveLeft sep part (seps ++ otherSeps) (parts ++ otherParts) =
      weaveLeft sep part seps parts ++ weaveLeft sep part otherSeps otherParts := by
  induction seps generalizing parts with
  | nil =>
    rw [List.length_nil, eq_comm, List.length_eq_zero_iff] at sizes
    rw [sizes, List.nil_append, List.nil_append, weaveLeft_nil, List.nil_append]
  | cons first seps ih =>
    cases parts with
    | nil => cases sizes
    | cons here parts =>
      simp only [List.cons_append, weaveLeft, List.append_assoc]
      rw [ih (Nat.succ.inj sizes)]

theorem weave_join (sizes : parts.length = seps.length + 1) :
    weave sep part (seps ++ last :: otherSeps) (parts ++ otherParts) =
      weave sep part seps parts ++ sep last :: weave sep part otherSeps otherParts := by
  induction seps generalizing parts with
  | nil =>
    obtain ⟨only, rfl⟩ := List.length_eq_one_iff.mp sizes
    rw [weave_one]
    rfl
  | cons first seps ih =>
    cases parts with
    | nil => cases sizes
    | cons here parts =>
      simp only [List.cons_append, weave, List.append_assoc]
      rw [ih (Nat.succ.inj sizes)]

theorem weaveLeft_concat (sizes : seps.length = parts.length) :
    weaveLeft sep part (seps ++ [last]) (parts ++ [middle]) =
      (weaveLeft sep part seps parts ++ part middle) ++ [sep last] := by
  rw [weaveLeft_append sizes, List.append_assoc]
  rfl

end QuorumDB.Interleave
