import ProtoScript.Heap.Accept
import ProtoScript.Heap.Text

/-!
# Types made from types

The type of a property of a type, and the type that has the members of two types. Both may have to
add unions to the heap; nothing that was there before is changed.
-/

namespace ProtoScript.Heap

/-- The type of a property where unions nest at most `fuel` deep. -/
def propertyWithin (resolve : Resolver) (name : String) :
    Nat → Heap → ObjectRef → Option ObjectRef × Heap
  | 0, h, _ => (none, h)
  | fuel + 1, h, t =>
    match (h.object t).kind with
    | .union l r =>
      let (left, h) := propertyWithin resolve name fuel h l
      let (right, h) := propertyWithin resolve name fuel h r
      match left, right with
      | some a, some b =>
        let (u, h) := h.addObject (.union a b)
        (some u, h)
      | some a, none => (some a, h)
      | none, right => (right, h)
    | _ => ((h.ownMember? t name).bind (h.memberType? resolve), h)

/-- The type of a property of a type. A union has the properties of its sides, and the type of one
that both have is again a union. -/
def property (h : Heap) (resolve : Resolver) (t : ObjectRef) (name : String) :
    Option ObjectRef × Heap :=
  propertyWithin resolve name (h.objects.size + 1) h t

/-- The member of a merged type for a name that both types have: that of the first if its type
accepts that of the second, and a union of the two otherwise. -/
def mergeMember (h : Heap) (resolve : Resolver) (a b : Value) : Value × Heap :=
  match h.memberType? resolve a, h.memberType? resolve b with
  | some s, some t =>
    if h.accepts resolve s t then (a, h)
    else
      let (u, h) := h.addObject (.union s t)
      (.object u, h)
  | _, _ => (a, h)

/-- Adds the members of a second type to those of a first. -/
def mergeMembers (resolve : Resolver) (first : Members) :
    List (String × Value) → Members × Heap → Members × Heap
  | [], merged => merged
  | (name, v) :: entries, (m, h) =>
    match first.get? name with
    | some u =>
      let (w, h) := h.mergeMember resolve u v
      mergeMembers resolve first entries (m.insert name w, h)
    | none => mergeMembers resolve first entries (m.insert name v, h)

/-- The structural type with the members of two types and the parent of the first. -/
def merge (h : Heap) (resolve : Resolver) (a b : ObjectRef) : Object × Heap :=
  let first := (h.object a).members
  let (members, h') := mergeMembers resolve first (h.object b).members.entries (first, h)
  let name := (h.typeName? a).getD "" ++ " & " ++ (h.typeName? b).getD ""
  (.type name (h.parent? a) members false, h')

end ProtoScript.Heap
