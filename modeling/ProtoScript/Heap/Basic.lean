import ProtoScript.NameMap
import ProtoScript.Value.Basic

/-!
# The heap

Objects and arrays. An object has members of its own and inherits those of its parent. Some objects
are types: a nominal type is told from others by its name alone, a structural type by its members, and
a union is satisfied by what satisfies one of its sides.

References that lead nowhere read as an empty object or array, and writing through them changes
nothing; the operations of the language never make such references.
-/

namespace ProtoScript

/-- The members of an object. Their order means nothing by itself, but searches go through them in
order. -/
abbrev Members := NameMap Value

/-- What an object is besides its members. -/
inductive ObjectKind where
  | plain
  | type (name : String) (nominal : Bool)
  | union (left right : ObjectRef)
deriving DecidableEq, Repr, Inhabited

/-- Whether an object of this kind is a type. -/
def ObjectKind.isType : ObjectKind → Bool
  | plain => false
  | _ => true

/-- An object of the heap. -/
structure Object where
  members : Members
  parent : Option ObjectRef
  kind : ObjectKind
deriving Inhabited

namespace Object

/-- An object that is no type. -/
def plain (parent : Option ObjectRef) (members : Members) : Object :=
  ⟨members, parent, .plain⟩

/-- A type with members. -/
def type (name : String) (parent : Option ObjectRef) (members : Members) (nominal : Bool) :
    Object :=
  ⟨members, parent, .type name nominal⟩

/-- The type of what satisfies one of two types. -/
def union (left right : ObjectRef) : Object :=
  ⟨.empty, none, .union left right⟩

/-- Gives a type without a name this one. -/
def named (o : Object) (name : String) : Object :=
  match o.kind with
  | .type "" nominal => { o with kind := .type name nominal }
  | _ => o

/-- Gives a member a value. -/
def assign (o : Object) (name : String) (value : Value) : Object :=
  { o with members := o.members.insert name value }

end Object

/-- All objects and arrays. -/
structure Heap where
  objects : Array Object
  arrays : Array (Array Value)
deriving Inhabited

namespace Heap

/-- The heap without anything in it. -/
def empty : Heap := ⟨#[], #[]⟩

/-- The object that is referred to. -/
def object (h : Heap) (o : ObjectRef) : Object :=
  h.objects[o.index]?.getD (.plain none .empty)

/-- The elements of the array that is referred to. -/
def elements (h : Heap) (a : ArrayRef) : Array Value :=
  h.arrays[a.index]?.getD #[]

/-- Adds an object. -/
def addObject (h : Heap) (o : Object) : ObjectRef × Heap :=
  (⟨h.objects.size⟩, { h with objects := h.objects.push o })

/-- Adds an array. -/
def addArray (h : Heap) (elements : Array Value) : ArrayRef × Heap :=
  (⟨h.arrays.size⟩, { h with arrays := h.arrays.push elements })

/-- Changes an object. -/
def modifyObject (h : Heap) (o : ObjectRef) (f : Object → Object) : Heap :=
  { h with objects := h.objects.modify o.index f }

/-- Changes an array. -/
def modifyArray (h : Heap) (a : ArrayRef) (f : Array Value → Array Value) : Heap :=
  { h with arrays := h.arrays.modify a.index f }

/-- Whether the object is a type. -/
def isType (h : Heap) (o : ObjectRef) : Bool :=
  (h.object o).kind.isType

/-- The value of a member that the object has itself. -/
def ownMember? (h : Heap) (o : ObjectRef) (name : String) : Option Value :=
  (h.object o).members.get? name

/-- The parent of an object. -/
def parent? (h : Heap) (o : ObjectRef) : Option ObjectRef :=
  (h.object o).parent

/-- A new object is found under its reference. -/
@[simp] theorem object_addObject_self (h : Heap) (o : Object) :
    (h.addObject o).2.object (h.addObject o).1 = o := by
  simp [addObject, object]

/-- Adding an object leaves those that were there as they are. -/
theorem object_addObject_of_lt {h : Heap} {r : ObjectRef} (hr : r.index < h.objects.size)
    (o : Object) : (h.addObject o).2.object r = h.object r := by
  simp [addObject, object, Array.getElem?_push, Nat.ne_of_lt hr]

/-- Changing an object of the heap has the effect of the change. -/
theorem object_modifyObject_self {h : Heap} {r : ObjectRef} (hr : r.index < h.objects.size)
    (f : Object → Object) : (h.modifyObject r f).object r = f (h.object r) := by
  simp [modifyObject, object, Array.getElem_modify, hr]

/-- Changing an object leaves every other one as it is. -/
theorem object_modifyObject_of_ne (h : Heap) {r s : ObjectRef} (hne : r ≠ s)
    (f : Object → Object) : (h.modifyObject r f).object s = h.object s := by
  have hindex : r.index ≠ s.index := by
    intro heq
    exact hne (by cases r; cases s; simpa using heq)
  simp [modifyObject, object, Array.getElem?_modify, hindex]

end Heap

end ProtoScript
