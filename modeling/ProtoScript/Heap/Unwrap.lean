import ProtoScript.Heap.Basic

/-!
# Boxes

A scalar is boxed as an object that holds it in the member `_value`. Boxes may be put into boxes, and
a program may even build a chain of boxes that loops. Unwrapping follows the chain to its end; on a
loop it ends at the first object that it meets again.
-/

namespace ProtoScript.Heap

/-- The member that holds what is boxed. -/
def payload : String := "_value"

/-- Follows the chain of boxes from a value for at most `fuel` steps, and stops at an object of
`seen`. -/
def unwrapFrom (h : Heap) : Nat → List ObjectRef → Value → Value
  | 0, _, v => v
  | fuel + 1, seen, .object o =>
    if o ∈ seen then .object o
    else
      match h.ownMember? o payload with
      | some v => h.unwrapFrom fuel (o :: seen) v
      | none => .object o
  | _ + 1, _, v => v

/-- What is in the innermost box. -/
def unwrap (h : Heap) (v : Value) : Value :=
  h.unwrapFrom (h.objects.size + 2) [] v

/-- Follows the chain of boxes as long as there are objects in them. -/
def innermostFrom (h : Heap) : Nat → List ObjectRef → ObjectRef → ObjectRef
  | 0, _, o => o
  | fuel + 1, seen, o =>
    if o ∈ seen then o
    else
      match h.ownMember? o payload with
      | some (.object p) => h.innermostFrom fuel (o :: seen) p
      | _ => o

/-- The innermost box itself; a value that is no object is left as it is. -/
def innermost (h : Heap) : Value → Value
  | .object o => .object (h.innermostFrom (h.objects.size + 2) [] o)
  | v => v

end ProtoScript.Heap
