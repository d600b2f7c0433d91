import Mathlib.Tactic.Common
import ProtoScript.Heap.Combine
import ProtoScript.Heap.Lineage
import ProtoScript.Proofs.Typing.Nominal

/-!
# How the heap grows

A heap is closed if whatever its objects and arrays refer to is in it.  All operations of the language
keep a heap closed, and all they do to it is growth: objects and arrays are added, members and elements
change, and a structural type without a name may get one.  Parents never change, and neither does
whether an object is a type, which nominal type it is, or which union.  So what a value is, as far as
nominal types can tell, is settled once the value is there.

Most operations add something at the end of the heap, or change one object or array in place.  What
they do to every single object is stated once for each of these two, and everything else follows.
-/

namespace ProtoScript

namespace Heap

/-- What a value refers to is in the heap. -/
def Has (h : Heap) : Value → Prop
  | .object o => o.index < h.objects.size
  | .array a => a.index < h.arrays.size
  | _ => True

/-- The members of an object are in the heap. -/
def HasMembers (h : Heap) (m : Members) : Prop :=
  ∀ name v, (name, v) ∈ m.entries → h.Has v

/-- Whatever is referred to is in the heap, the sides of unions are types, and nominal types have
names. -/
structure Closed (h : Heap) : Prop where
  members : ∀ o, h.HasMembers (h.object o).members
  parent : ∀ o p, h.parent? o = some p → h.Has (.object p)
  elements : ∀ a v, v ∈ h.elements a → h.Has v
  sides : h.SidesAreTypes
  named : ∀ o, (h.object o).kind ≠ .type "" true

/-- What may happen to the kind of an object: a structural type may get the name that it does not
have. -/
def KindGrown (k k' : ObjectKind) : Prop :=
  k' = k ∨ k = .type "" false ∧ ∃ name, k' = .type name false

/-- The heap at a later moment. -/
structure Grown (h h' : Heap) : Prop where
  objects_le : h.objects.size ≤ h'.objects.size
  arrays_le : h.arrays.size ≤ h'.arrays.size
  parent?_eq : ∀ o, h.Has (.object o) → h'.parent? o = h.parent? o
  kind : ∀ o, h.Has (.object o) → KindGrown (h.object o).kind (h'.object o).kind

/-- A later moment at which the heap is closed. -/
structure Evolves (h h' : Heap) : Prop where
  closed : h'.Closed
  grown : h.Grown h'

/-! ## What growth keeps -/

theorem KindGrown.trans {k k' k'' : ObjectKind} (h : KindGrown k k') (h' : KindGrown k' k'') :
    KindGrown k k'' := by
  rcases h with rfl | ⟨rfl, name, rfl⟩
  · exact h'
  · rcases h' with rfl | ⟨hname, name', rfl⟩
    · exact .inr ⟨rfl, name, rfl⟩
    · exact .inr ⟨rfl, name', rfl⟩

theorem Grown.refl (h : Heap) : h.Grown h :=
  ⟨Nat.le_refl _, Nat.le_refl _, fun _ _ => rfl, fun _ _ => .inl rfl⟩

section

variable {h h' h'' : Heap}

/-- What is in the heap stays there. -/
theorem Grown.has (hg : h.Grown h') {v : Value} (hv : h.Has v) : h'.Has v := by
  cases v with
  | object o => exact Nat.lt_of_lt_of_le hv hg.objects_le
  | array a => exact Nat.lt_of_lt_of_le hv hg.arrays_le
  | _ => trivial

/-- Members of a heap are members of what it grew into. -/
theorem Grown.hasMembers (hg : h.Grown h') {m : Members} (hm : h.HasMembers m) :
    h'.HasMembers m :=
  fun name v hv => hg.has (hm name v hv)

theorem Grown.trans (hg : h.Grown h') (hg' : h'.Grown h'') : h.Grown h'' := by
  refine ⟨Nat.le_trans hg.objects_le hg'.objects_le, Nat.le_trans hg.arrays_le hg'.arrays_le, ?_, ?_⟩
  · intro o ho
    rw [hg'.parent?_eq o (hg.has ho), hg.parent?_eq o ho]
  · intro o ho
    exact (hg.kind o ho).trans (hg'.kind o (hg.has ho))

theorem Evolves.trans (he : h.Evolves h') (he' : h'.Evolves h'') : h.Evolves h'' :=
  ⟨he'.closed, he.grown.trans he'.grown⟩

/-- Whether an object is a type does not change. -/
theorem Grown.isType_eq (hg : h.Grown h') {o : ObjectRef} (ho : h.Has (.object o)) :
    h'.isType o = h.isType o := by
  unfold isType
  rcases hg.kind o ho with hkind | ⟨hkind, name, hkind'⟩
  · rw [hkind]
  · rw [hkind, hkind']
    rfl

/-- A type is in the heap. -/
theorem has_of_isType {o : ObjectRef} (ho : h.isType o = true) : h.Has (.object o) :=
  index_lt_of_isType ho

/-- A type stays a type. -/
theorem Grown.isType (hg : h.Grown h') {o : ObjectRef} (ho : h.isType o = true) :
    h'.isType o = true := by
  rw [hg.isType_eq (has_of_isType ho)]
  exact ho

/-- A union keeps its sides, and nothing becomes a union. -/
theorem Grown.union_iff (hg : h.Grown h') {o l r : ObjectRef} (ho : h.Has (.object o)) :
    (h'.object o).kind = .union l r ↔ (h.object o).kind = .union l r := by
  rcases hg.kind o ho with hkind | ⟨hkind, name, hkind'⟩
  · rw [hkind]
  · rw [hkind, hkind']
    simp

/-- A nominal type keeps its name, and nothing becomes a nominal type. -/
theorem Grown.nominal_iff (hg : h.Grown h') {o : ObjectRef} (ho : h.Has (.object o)) {name : String} :
    (h'.object o).kind = .type name true ↔ (h.object o).kind = .type name true := by
  rcases hg.kind o ho with hkind | ⟨hkind, name', hkind'⟩
  · rw [hkind]
  · rw [hkind, hkind']
    simp

/-! ## Reading -/

/-- A member that an object has itself is in the heap. -/
theorem Closed.has_ownMember (hc : h.Closed) {o : ObjectRef} {name : String} {v : Value}
    (hv : h.ownMember? o name = some v) : h.Has v :=
  hc.members o name v (NameMap.mem_of_find? hv)

/-- A member that is found along the lineage is in the heap. -/
theorem Closed.has_lookup (hc : h.Closed) {o : ObjectRef} {name : String} {v : Value}
    (hv : h.lookup? o name = some v) : h.Has v := by
  obtain ⟨p, -, hp⟩ := List.exists_of_findSome?_eq_some hv
  exact hc.has_ownMember hp

/-- What is in a box is in the heap. -/
theorem Closed.has_unwrap (hc : h.Closed) {v : Value} (hv : h.Has v) : h.Has (h.unwrap v) := by
  have hstep (fuel : Nat) (seen : List ObjectRef) (v : Value) (hv : h.Has v) :
      h.Has (h.unwrapFrom fuel seen v) := by
    induction fuel generalizing seen v with
    | zero => exact hv
    | succ fuel ih =>
      cases v with
      | object o =>
        unfold unwrapFrom
        split
        · exact hv
        · split
          · rename_i w hw
            exact ih _ _ (hc.has_ownMember hw)
          · exact hv
      | _ => exact hv
  exact hstep _ _ v hv

/-! ## Adding at the end -/

/-- What an object refers to is in the heap. -/
structure HasObject (h : Heap) (o : Object) : Prop where
  members : h.HasMembers o.members
  parent : ∀ p, o.parent = some p → h.Has (.object p)
  sides : ∀ l r, o.kind = .union l r → h.isType l = true ∧ h.isType r = true
  named : o.kind ≠ .type "" true

/-- Whatever an object of a closed heap refers to is there. -/
theorem Closed.hasObject (hc : h.Closed) (o : ObjectRef) : h.HasObject (h.object o) :=
  ⟨hc.members o, hc.parent o, hc.sides o, hc.named o⟩

/-- Whatever an object refers to is there after the heap grew. -/
theorem Grown.hasObject (hg : h.Grown h') {o : Object} (ho : h.HasObject o) : h'.HasObject o where
  members := hg.hasMembers ho.members
  parent p hp := hg.has (ho.parent p hp)
  sides l r hkind := ⟨hg.isType (ho.sides l r hkind).1, hg.isType (ho.sides l r hkind).2⟩
  named := ho.named

/-- The object that a reference without a target reads as refers to nothing. -/
theorem hasObject_plain (h : Heap) : h.HasObject (.plain none .empty) where
  members _ _ hv := absurd hv List.not_mem_nil
  parent := nofun
  sides := nofun
  named := nofun

/-- A heap whose objects refer to what is in it, and whose arrays hold what is in it, is closed. -/
theorem closed_of_hasObject (hobjects : ∀ o, h.HasObject (h.object o))
    (helements : ∀ a v, v ∈ h.elements a → h.Has v) : h.Closed :=
  ⟨fun o => (hobjects o).members, fun o => (hobjects o).parent, helements,
    fun o => (hobjects o).sides, fun o => (hobjects o).named⟩

/-- The heap with more objects and arrays behind those that are there. -/
def append (h : Heap) (objects : List Object) (arrays : List (Array Value)) : Heap :=
  ⟨h.objects ++ objects, h.arrays ++ arrays⟩

theorem objects_append (h : Heap) (objects : List Object) (arrays : List (Array Value)) :
    (h.append objects arrays).objects = h.objects ++ objects.toArray :=
  Array.ext' (by simp [append])

theorem arrays_append (h : Heap) (objects : List Object) (arrays : List (Array Value)) :
    (h.append objects arrays).arrays = h.arrays ++ arrays.toArray :=
  Array.ext' (by simp [append])

/-- The objects after some were added: those from before, and then the new ones. -/
theorem object_append (h : Heap) (objects : List Object) (arrays : List (Array Value))
    (r : ObjectRef) :
    (h.append objects arrays).object r =
      if r.index < h.objects.size then h.object r
      else objects[r.index - h.objects.size]?.getD (.plain none .empty) := by
  unfold object
  rw [objects_append]
  split
  · rename_i hr
    rw [Array.getElem?_append_left hr]
  · rename_i hr
    rw [Array.getElem?_append_right (Nat.le_of_not_lt hr), List.getElem?_toArray]

/-- The elements of arrays after some were added: those from before, and then the new ones. -/
theorem elements_append (h : Heap) (objects : List Object) (arrays : List (Array Value))
    (r : ArrayRef) :
    (h.append objects arrays).elements r =
      if r.index < h.arrays.size then h.elements r
      else arrays[r.index - h.arrays.size]?.getD #[] := by
  unfold elements
  rw [arrays_append]
  split
  · rename_i hr
    rw [Array.getElem?_append_left hr]
  · rename_i hr
    rw [Array.getElem?_append_right (Nat.le_of_not_lt hr), List.getElem?_toArray]

/-- Adding twice is adding once. -/
theorem append_append (h : Heap) (objects others : List Object) (arrays rest : List (Array Value)) :
    (h.append objects arrays).append others rest = h.append (objects ++ others) (arrays ++ rest) := by
  unfold append
  congr 1 <;> exact Array.ext' (by simp)

/-- The first of the objects that were added is the one behind the heap. -/
theorem object_append_first (h : Heap) (o : Object) (others : List Object)
    (arrays : List (Array Value)) :
    (h.append (o :: others) arrays).object ⟨h.objects.size⟩ = o := by
  rw [object_append]
  simp

/-- Changing the first object that was added. -/
theorem modifyObject_append_first (h : Heap) (o : Object) (others : List Object)
    (arrays : List (Array Value)) (f : Object → Object) :
    (h.append (o :: others) arrays).modifyObject ⟨h.objects.size⟩ f =
      h.append (f o :: others) arrays := by
  have hfirst (os : List Object) : (os ++ o :: others).modify os.length f = os ++ f o :: others := by
    induction os with
    | nil => rfl
    | cons p os ih => exact congrArg (p :: ·) ih
  unfold modifyObject append
  congr 1
  apply Array.ext'
  simpa using hfirst h.objects.toList

/-- A heap grows by what is added to it. -/
theorem grown_append (h : Heap) (objects : List Object) (arrays : List (Array Value)) :
    h.Grown (h.append objects arrays) := by
  have hobject (o : ObjectRef) (ho : h.Has (.object o)) :
      (h.append objects arrays).object o = h.object o := by
    rw [object_append]
    exact if_pos ho
  refine ⟨?_, ?_, fun o ho => ?_, fun o ho => ?_⟩
  · simp [objects_append]
  · simp [arrays_append]
  · rw [parent?, hobject o ho]
    rfl
  · rw [hobject o ho]
    exact .inl rfl

/-- Adding objects and arrays that refer to what is in the new heap keeps it closed. -/
theorem Closed.append (hc : h.Closed) {objects : List Object} {arrays : List (Array Value)}
    (hobjects : ∀ o ∈ objects, (h.append objects arrays).HasObject o)
    (harrays : ∀ a ∈ arrays, ∀ v ∈ a, (h.append objects arrays).Has v) :
    h.Evolves (h.append objects arrays) := by
  have hg := grown_append h objects arrays
  refine ⟨closed_of_hasObject (fun o => ?_) (fun a v hv => ?_), hg⟩
  · rw [object_append]
    split
    · exact hg.hasObject (hc.hasObject o)
    · rcases hnew : objects[o.index - h.objects.size]? with _ | new
      · exact hasObject_plain _
      · exact hobjects new (List.mem_of_getElem? hnew)
  · rw [elements_append] at hv
    split at hv
    · exact hg.has (hc.elements a v hv)
    · rcases hnew : arrays[a.index - h.arrays.size]? with _ | new
      · rw [hnew] at hv
        simp at hv
      · rw [hnew] at hv
        exact harrays new (List.mem_of_getElem? hnew) v hv

/-- Making an object adds it at the end. -/
theorem addObject_eq_append (h : Heap) (o : Object) :
    h.addObject o = (⟨h.objects.size⟩, h.append [o] []) := by
  simp [addObject, append]

/-- Making an array adds it at the end. -/
theorem addArray_eq_append (h : Heap) (elements : Array Value) :
    h.addArray elements = (⟨h.arrays.size⟩, h.append [] [elements]) := by
  simp [addArray, append]

/-- Adding an object that refers to what is in the heap keeps it closed. -/
theorem Closed.addObject (hc : h.Closed) {o : Object} (ho : h.HasObject o) :
    h.Evolves (h.addObject o).2 ∧ (h.addObject o).2.Has (.object (h.addObject o).1) := by
  rw [addObject_eq_append]
  refine ⟨hc.append ?_ ?_, ?_⟩
  · intro o' ho'
    obtain rfl := List.mem_singleton.mp ho'
    exact (grown_append h _ _).hasObject ho
  · intro a ha
    cases ha
  · simp [Has, objects_append]

/-- Adding an array of what is in the heap keeps it closed. -/
theorem Closed.addArray (hc : h.Closed) {elements : Array Value} (hv : ∀ v ∈ elements, h.Has v) :
    h.Evolves (h.addArray elements).2 ∧ (h.addArray elements).2.Has (.array (h.addArray elements).1) := by
  rw [addArray_eq_append]
  refine ⟨hc.append ?_ ?_, ?_⟩
  · intro o ho
    cases ho
  · intro a ha v hv'
    obtain rfl := List.mem_singleton.mp ha
    exact (grown_append h _ _).has (hv v hv')
  · simp [Has, arrays_append]

/-! ## Changing in place -/

/-- The objects after one of them was changed. -/
theorem object_modifyObject (h : Heap) (r s : ObjectRef) (f : Object → Object) :
    (h.modifyObject r f).object s =
      if r = s ∧ s.index < h.objects.size then f (h.object s) else h.object s := by
  by_cases hrs : r = s
  · subst hrs
    by_cases hr : r.index < h.objects.size
    · rw [object_modifyObject_self hr, if_pos ⟨rfl, hr⟩]
    · rw [if_neg fun hboth => hr hboth.2]
      have hnone := Array.getElem?_eq_none (Nat.le_of_not_lt hr)
      simp [modifyObject, object, Array.getElem?_modify, hnone]
  · rw [object_modifyObject_of_ne h hrs, if_neg fun hboth => hrs hboth.1]

/-- The elements of arrays after one array was changed. -/
theorem elements_modifyArray (h : Heap) (r s : ArrayRef) (f : Array Value → Array Value) :
    (h.modifyArray r f).elements s =
      if r = s ∧ s.index < h.arrays.size then f (h.elements s) else h.elements s := by
  unfold modifyArray elements
  rw [Array.getElem?_modify]
  by_cases hs : s.index < h.arrays.size
  · by_cases hrs : r = s
    · simp [hrs, hs]
    · have hindex : r.index ≠ s.index := fun heq => hrs (by cases r; cases s; simpa using heq)
      simp [hrs, hindex]
  · simp [hs]

/-- An object is as it was, or it is the one that was changed. -/
theorem object_modifyObject_cases (h : Heap) (r o : ObjectRef) (f : Object → Object) :
    (h.modifyObject r f).object o = h.object o ∨
      r = o ∧ (h.modifyObject r f).object o = f (h.object o) := by
  rw [object_modifyObject]
  split
  · rename_i hboth
    exact .inr ⟨hboth.1, rfl⟩
  · exact .inl rfl

/-- Changing an object does not change what is in the heap. -/
theorem has_modifyObject (h : Heap) (r : ObjectRef) (f : Object → Object) (v : Value) :
    (h.modifyObject r f).Has v ↔ h.Has v := by
  cases v <;> simp [Has, Heap.modifyObject]

/-- A heap stays closed when an object is replaced by one that refers to what is in it and is of the
same kind. -/
theorem Closed.replaceObject (hc : h.Closed) (r : ObjectRef) {f : Object → Object}
    (hkind : KindGrown (h.object r).kind (f (h.object r)).kind)
    (hobject : h.HasObject (f (h.object r))) : (h.modifyObject r f).Closed := by
  have htype {t : ObjectRef} (ht : h.isType t = true) : (h.modifyObject r f).isType t = true := by
    unfold isType at ht ⊢
    rcases object_modifyObject_cases h r t f with heq | ⟨rfl, heq⟩
    · rw [heq, ht]
    · rcases hkind with hsame | ⟨hunnamed, name, hnamed⟩
      · rw [heq, hsame, ht]
      · rw [heq, hnamed]
        rfl
  have hkept {o : Object} (ho : h.HasObject o) : (h.modifyObject r f).HasObject o :=
    ⟨fun name v hv => (has_modifyObject ..).mpr (ho.members name v hv),
      fun p hp => (has_modifyObject ..).mpr (ho.parent p hp),
      fun l u hunion => ⟨htype (ho.sides l u hunion).1, htype (ho.sides l u hunion).2⟩, ho.named⟩
  refine closed_of_hasObject (fun o => ?_) fun a v hv => (has_modifyObject ..).mpr (hc.elements a v hv)
  rcases object_modifyObject_cases h r o f with heq | ⟨rfl, heq⟩
  · rw [heq]
    exact hkept (hc.hasObject o)
  · rw [heq]
    exact hkept hobject

/-- Changing an object so that it refers to what is in the heap keeps it closed, as long as parents
and kinds stay. -/
theorem Closed.modifyObject (hc : h.Closed) (r : ObjectRef) {f : Object → Object}
    (hparent : (f (h.object r)).parent = (h.object r).parent)
    (hkind : KindGrown (h.object r).kind (f (h.object r)).kind)
    (hmembers : h.HasMembers (f (h.object r)).members) : h.Evolves (h.modifyObject r f) := by
  have hsource := hc.hasObject r
  refine ⟨hc.replaceObject r hkind ⟨hmembers, fun p hp => hsource.parent p (hparent ▸ hp),
    fun l u hunion => ?_, ?_⟩, ?_, Nat.le_refl _, fun o _ => ?_, fun o _ => ?_⟩
  · rcases hkind with hsame | ⟨-, name, hnamed⟩
    · exact hsource.sides l u (hsame ▸ hunion)
    · rw [hnamed] at hunion
      cases hunion
  · rcases hkind with hsame | ⟨-, name, hnamed⟩
    · rw [hsame]
      exact hsource.named
    · rw [hnamed]
      simp
  · simp [Heap.modifyObject]
  · unfold parent?
    rcases object_modifyObject_cases h r o f with heq | ⟨rfl, heq⟩
    · rw [heq]
    · rw [heq, hparent]
  · rcases object_modifyObject_cases h r o f with heq | ⟨rfl, heq⟩
    · rw [heq]
      exact .inl rfl
    · rw [heq]
      exact hkind

/-- Giving an object a name keeps the heap closed: a nominal type has one already. -/
theorem Closed.nameObject (hc : h.Closed) (r : ObjectRef) (name : String) :
    h.Evolves (h.modifyObject r (·.named name)) := by
  have hnamed := hc.named r
  refine hc.modifyObject r ?_ ?_ ?_
  · unfold Object.named
    split <;> rfl
  · unfold Object.named
    split
    · rename_i nominal hkind
      cases nominal with
      | true => exact absurd hkind hnamed
      | false => exact .inr ⟨hkind, name, rfl⟩
    · exact .inl rfl
  · have hmembers : ((h.object r).named name).members = (h.object r).members := by
      unfold Object.named
      split <;> rfl
    rw [hmembers]
    exact hc.members r

/-- Changing an array so that it holds what is in the heap keeps it closed. -/
theorem Closed.modifyArray (hc : h.Closed) (r : ArrayRef) {f : Array Value → Array Value}
    (hf : ∀ v ∈ f (h.elements r), h.Has v) : h.Evolves (h.modifyArray r f) := by
  have hsize : (h.modifyArray r f).arrays.size = h.arrays.size := by simp [Heap.modifyArray]
  have hg : h.Grown (h.modifyArray r f) :=
    ⟨Nat.le_refl _, Nat.le_of_eq hsize.symm, fun _ _ => rfl, fun _ _ => .inl rfl⟩
  refine ⟨closed_of_hasObject (fun o => hg.hasObject (hc.hasObject o)) (fun a v hv => ?_), hg⟩
  rw [elements_modifyArray] at hv
  split at hv
  · rename_i hboth
    rw [← hboth.1] at hv
    exact hg.has (hf v hv)
  · exact hg.has (hc.elements a v hv)

end

end Heap

end ProtoScript
