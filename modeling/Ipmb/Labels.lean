import Mathlib.Data.List.Basic

namespace Ipmb.Labels

/-- The elements of an endpoint's label, in insertion order. -/
structure Label where
  elems : List String
deriving DecidableEq

namespace Label

def default : Label := ⟨[]⟩

def insert (l : Label) (s : String) : Label :=
  if l.elems.any (· == s) then l else ⟨l.elems ++ [s]⟩

def remove (l : Label) (s : String) : Label := ⟨l.elems.filter (· != s)⟩

def all (l : Label) (sub : List String) : Bool := sub.all (fun s => l.elems.any (· == s))

end Label

/-- Route matching expressions over the elements of a label. -/
inductive LabelOp where
  | true
  | false
  | leaf (v : String)
  | not (left : LabelOp)
  | and (left right : LabelOp)
  | or (left right : LabelOp)
deriving DecidableEq

def LabelOp.validate (label : Label) : LabelOp → Bool
  | .true => Bool.true
  | .false => Bool.false
  | .leaf v => label.all [v]
  | .and left right => left.validate label && right.validate label
  | .or left right => left.validate label || right.validate label
  | .not left => !left.validate label

end Ipmb.Labels
