import ProtoScript.Heap.Basic

/-!
# Lineage and member lookup

The lineage of an object is the object itself, its parent, the parent of that, and so on. Parents may
form a loop; the lineage ends before it would repeat an object. A member is looked up along the
lineage, and the first object that has it decides.
-/

namespace ProtoScript.Heap

/-- The objects that were passed on a way, and a number below all of their indices. Most parents are
older than their children, so that the number alone tells that an object was not passed. -/
structure Trail where
  passed : List ObjectRef
  bound : Nat
  bound_le : ∀ o ∈ passed, bound ≤ o.index

namespace Trail

/-- A trail on which nothing was passed, before an object. -/
def start (o : ObjectRef) : Trail := ⟨[], o.index + 1, by simp⟩

/-- Whether an object was passed. -/
def contains (t : Trail) (o : ObjectRef) : Bool :=
  decide (t.bound ≤ o.index) && t.passed.contains o

/-- Passes an object. -/
def pass (t : Trail) (o : ObjectRef) : Trail where
  passed := o :: t.passed
  bound := min t.bound o.index
  bound_le p hp := by
    rcases List.mem_cons.mp hp with rfl | hp
    · exact Nat.min_le_right ..
    · exact Nat.le_trans (Nat.min_le_left ..) (t.bound_le p hp)

@[simp] theorem passed_start (o : ObjectRef) : (start o).passed = [] := rfl

@[simp] theorem passed_pass (t : Trail) (o : ObjectRef) : (t.pass o).passed = o :: t.passed := rfl

/-- The bound never hides an object that was passed. -/
@[simp] theorem contains_iff (t : Trail) (o : ObjectRef) : t.contains o ↔ o ∈ t.passed := by
  simp only [contains, Bool.and_eq_true, decide_eq_true_eq, List.contains_iff_mem]
  exact ⟨fun h => h.2, fun h => ⟨t.bound_le o h, h⟩⟩

end Trail

/-- Follows parents from an object, for at most `fuel` objects, and stops at an object that was
passed. -/
def lineageFrom (h : Heap) : Nat → Trail → Option ObjectRef → List ObjectRef
  | 0, _, _ => []
  | _, _, none => []
  | fuel + 1, trail, some o =>
    if trail.contains o then [] else o :: h.lineageFrom fuel (trail.pass o) (h.parent? o)

/-- The object, its parent, the parent of that and so on, each object once. There are no more of them
than objects in the heap, and one more for a reference that leads nowhere. -/
def lineage (h : Heap) (o : ObjectRef) : List ObjectRef :=
  h.lineageFrom (h.objects.size + 1) (.start o) (some o)

/-- What is found on the way depends on the parents alone. -/
theorem lineageFrom_congr {h h' : Heap} (hparent : ∀ o, h'.parent? o = h.parent? o) (fuel : Nat)
    (trail : Trail) (o : Option ObjectRef) :
    h'.lineageFrom fuel trail o = h.lineageFrom fuel trail o := by
  induction fuel generalizing trail o with
  | zero => rfl
  | succ fuel ih =>
    cases o with
    | none => rfl
    | some o => simp only [lineageFrom, hparent, ih]

/-- Heaps of the same size with the same parents have the same lineages. -/
theorem lineage_congr {h h' : Heap} (hsize : h'.objects.size = h.objects.size)
    (hparent : ∀ o, h'.parent? o = h.parent? o) (o : ObjectRef) : h'.lineage o = h.lineage o := by
  unfold lineage
  rw [hsize]
  exact lineageFrom_congr hparent _ _ _

/-- The values that a name has along the lineage, nearest first. -/
def inherited (h : Heap) (o : ObjectRef) (name : String) : List Value :=
  (h.lineage o).filterMap fun p => h.ownMember? p name

/-- The nearest value of a name that is accepted. -/
def lookupWhere? (h : Heap) (o : ObjectRef) (name : String) (accept : Value → Bool) :
    Option Value :=
  (h.inherited o name).find? accept

/-- The value of a member, the object's own or an inherited one. -/
def lookup? (h : Heap) (o : ObjectRef) (name : String) : Option Value :=
  (h.lineage o).findSome? fun p => h.ownMember? p name

/-- Arrays have nothing to do with members. -/
theorem lookup?_addArray (h : Heap) (elements : Array Value) (o : ObjectRef) (name : String) :
    (h.addArray elements).2.lookup? o name = h.lookup? o name := by
  have hlineage : (h.addArray elements).2.lineage o = h.lineage o := by
    apply lineage_congr
    · rfl
    · exact fun _ => rfl
  unfold lookup?
  rw [hlineage]
  rfl

/-- Whether an object is another one or inherits from it. -/
def inheritsFrom (h : Heap) (o ancestor : ObjectRef) : Bool :=
  decide (ancestor ∈ h.lineage o)

end ProtoScript.Heap
