import ProtoScript.Heap.Basic

/-!
# Copies

Copying an object copies the plain objects and the arrays that can be reached from it through members
and elements, and shares everything else: types, procedures, scalars and parents. Where two of the
things that are copied refer to the same thing, or to each other, so do their copies.

To that end it is noted which copy stands for what, one table for objects and one for arrays. A copy is
noted as soon as there is one, before anything is in it, and filled once everything that goes into it
is copied, so that what refers back to the original finds the copy.
-/

namespace ProtoScript.Heap

/-- How far copying has come: the heap as it is by now, and the copies that were begun, each with its
original. -/
structure Copying where
  heap : Heap
  objects : List (ObjectRef × ObjectRef)
  arrays : List (ArrayRef × ArrayRef)

/-- A part of the work of copying. -/
abbrev Copier := StateM Copying

namespace Copying

/-- Nothing is copied yet. -/
def start (h : Heap) : Copying := ⟨h, [], []⟩

/-- Begins the copy of an object. It has the parent of the original and is what the original is, but
has no members. -/
def beginObject (c : Copying) (o : ObjectRef) : ObjectRef × Copying :=
  let (made, heap) := c.heap.addObject { c.heap.object o with members := .empty }
  (made, { c with heap, objects := (o, made) :: c.objects })

/-- Gives a copy its members. -/
def fillObject (c : Copying) (made : ObjectRef) (members : Members) : Copying :=
  { c with heap := c.heap.modifyObject made fun o => { o with members } }

/-- Begins the copy of an array, without elements. -/
def beginArray (c : Copying) (a : ArrayRef) : ArrayRef × Copying :=
  let (made, heap) := c.heap.addArray #[]
  (made, { c with heap, arrays := (a, made) :: c.arrays })

/-- Gives a copy its elements. -/
def fillArray (c : Copying) (made : ArrayRef) (elements : Array Value) : Copying :=
  { c with heap := c.heap.modifyArray made fun _ => elements }

end Copying

section

variable (self : Value → Copier Value)

/-- The members of a copy, from those of the original. -/
def copyMembers (members : Members) : Copier Members := do
  let entries ← members.entries.mapM fun entry => return (entry.1, ← self entry.2)
  return ⟨entries⟩

/-- The elements of a copy, from those of the original. -/
def copyElements (elements : Array Value) : Copier (Array Value) :=
  return (← elements.toList.mapM self).toArray

/-- The copy of an object: the one that was begun before, or a new one. -/
def copyObject (o : ObjectRef) : Copier ObjectRef := do
  match (← get).objects.lookup o with
  | some made => return made
  | none =>
    let members := ((← get).heap.object o).members
    let made ← modifyGet (·.beginObject o)
    let copied ← copyMembers self members
    modify (·.fillObject made copied)
    return made

/-- The copy of an array: the one that was begun before, or a new one. -/
def copyArray (a : ArrayRef) : Copier ArrayRef := do
  match (← get).arrays.lookup a with
  | some made => return made
  | none =>
    let made ← modifyGet (·.beginArray a)
    let copied ← copyElements self ((← get).heap.elements a)
    modify (·.fillArray made copied)
    return made

end

/-- What stands in a copy for a value: a copy of a plain object or an array, and every other value
itself. Values that are nested deeper than the bound are left as they are. -/
def copyValue : Nat → Value → Copier Value
  | 0, v => return v
  | fuel + 1, .object o => do
    if (← get).heap.isType o then
      return .object o
    else
      return .object (← copyObject (copyValue fuel) o)
  | fuel + 1, .array a => return .array (← copyArray (copyValue fuel) a)
  | _ + 1, v => return v

/-- A copy of an object, with a bound on how deep values are nested. If a parent is given, it becomes
the parent of the copy. -/
def copyWithin (fuel : Nat) (h : Heap) (o : ObjectRef) (parent : Option ObjectRef) :
    ObjectRef × Heap :=
  let (made, c) := copyObject (copyValue fuel) o (.start h)
  match parent with
  | some p => (made, c.heap.modifyObject made fun copy => { copy with parent := some p })
  | none => (made, c.heap)

/-- A copy of an object. On the way down nothing is copied twice, so that nothing is nested deeper than
there are objects and arrays. -/
def copy (h : Heap) (o : ObjectRef) (parent : Option ObjectRef) : ObjectRef × Heap :=
  h.copyWithin (h.objects.size + h.arrays.size) o parent

end ProtoScript.Heap
