import ProtoScript.Proofs.Heap.Preserved

/-!
# Arrays do not get shorter

Elements are put into arrays and added at their end; nothing takes one away.  `Heap.Lengthened h h'`
says so about the heaps at two moments.  Only `modifyArray` changes arrays at all, so every other
operation either leaves them as they are or adds new ones after them.
-/

namespace ProtoScript

namespace Heap

/-- The heap at a later moment, when no array is shorter than it was. -/
def Lengthened (h h' : Heap) : Prop :=
  ∀ a, (h.elements a).size ≤ (h'.elements a).size

variable {h h' h'' : Heap}

theorem Lengthened.refl (h : Heap) : h.Lengthened h :=
  fun _ => Nat.le_refl _

theorem Lengthened.trans (hl : h.Lengthened h') (hl' : h'.Lengthened h'') : h.Lengthened h'' :=
  fun a => Nat.le_trans (hl a) (hl' a)

/-- Arrays that are the same are no shorter. -/
theorem Lengthened.of_arrays_eq (heq : h'.arrays = h.arrays) : h.Lengthened h' := by
  intro a
  unfold elements
  rw [heq]

/-! ## What the operations do to the lengths -/

/-- Arrays that are added come after those that are there. -/
theorem lengthened_append (h : Heap) (objects : List Object) (arrays : List (Array Value)) :
    h.Lengthened (h.append objects arrays) := by
  intro a
  rw [elements_append]
  split
  · exact Nat.le_refl _
  · rename_i ha
    simp [elements, Array.getElem?_eq_none (Nat.le_of_not_lt ha)]

/-- Adding an object shortens no array. -/
theorem lengthened_addObject (h : Heap) (o : Object) : h.Lengthened (h.addObject o).2 :=
  .of_arrays_eq rfl

/-- Changing an object shortens no array. -/
theorem lengthened_modifyObject (h : Heap) (o : ObjectRef) (f : Object → Object) :
    h.Lengthened (h.modifyObject o f) :=
  .of_arrays_eq rfl

/-- Adding an array shortens no other one. -/
theorem lengthened_addArray (h : Heap) (elements : Array Value) :
    h.Lengthened (h.addArray elements).2 := by
  rw [addArray_eq_append]
  exact lengthened_append h [] [elements]

/-- Copying shortens no array. -/
theorem lengthened_copy (h : Heap) (o : ObjectRef) (parent : Option ObjectRef) :
    h.Lengthened (h.copy o parent).2 := by
  obtain ⟨others, arrays, heq⟩ := copyWithin_eq_append _ h o parent
  rw [copy, heq]
  exact lengthened_append h _ _

/-- A change that makes no array shorter makes none of the heap shorter. -/
theorem lengthened_modifyArray (h : Heap) (a : ArrayRef) {f : Array Value → Array Value}
    (hf : ∀ elements : Array Value, elements.size ≤ (f elements).size) :
    h.Lengthened (h.modifyArray a f) := by
  intro b
  rw [elements_modifyArray]
  split
  · exact hf _
  · exact Nat.le_refl _

/-! ## Properties and merged types -/

/-- Finding the type of a property adds nothing but unions. -/
theorem arrays_propertyWithin (resolve : Resolver) (name : String) (fuel : Nat) (h : Heap)
    (t : ObjectRef) : (propertyWithin resolve name fuel h t).2.arrays = h.arrays := by
  induction fuel generalizing h t with
  | zero => rfl
  | succ fuel ih =>
    unfold propertyWithin
    split
    · rename_i l r _
      have hboth := (ih (propertyWithin resolve name fuel h l).2 r).trans (ih h l)
      dsimp only
      split <;> exact hboth
    · rfl

/-- Looking for the type of a property shortens no array. -/
theorem lengthened_property (h : Heap) (resolve : Resolver) (t : ObjectRef) (name : String) :
    h.Lengthened (h.property resolve t name).2 :=
  .of_arrays_eq (arrays_propertyWithin resolve name _ h t)

/-- Merging two members does not touch the arrays. -/
theorem arrays_mergeMember (h : Heap) (resolve : Resolver) (v w : Value) :
    (h.mergeMember resolve v w).2.arrays = h.arrays := by
  unfold mergeMember
  split
  · split <;> rfl
  · rfl

/-- Merging members adds nothing but unions. -/
theorem arrays_mergeMembers (resolve : Resolver) (first : Members)
    (entries : List (String × Value)) (merged : Members × Heap) :
    (mergeMembers resolve first entries merged).2.arrays = merged.2.arrays := by
  induction entries generalizing merged with
  | nil => rfl
  | cons entry entries ih =>
    unfold mergeMembers
    split
    · exact (ih _).trans (arrays_mergeMember _ resolve _ _)
    · exact ih _

/-- Merging two types shortens no array. -/
theorem lengthened_merge (h : Heap) (resolve : Resolver) (a b : ObjectRef) :
    h.Lengthened (h.merge resolve a b).2 :=
  .of_arrays_eq (arrays_mergeMembers resolve _ _ _)

end Heap

end ProtoScript
