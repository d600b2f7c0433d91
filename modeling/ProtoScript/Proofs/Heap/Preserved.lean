import ProtoScript.Heap.Copy
import ProtoScript.Proofs.Heap.Growth

/-!
# Copying changes nothing that was there

What is copied is a node of the heap: an object with its members, or an array with its elements.  While
a copy is made the heap grows, and copies that were begun before are filled, so the nodes do change.  But
each part of the work fills only what it has begun itself.  `Heap.Keeps h h'` says that every node of the
first heap is in the second one as it was, and each part of the work keeps the heap that it started with.
-/

namespace ProtoScript

namespace Heap

/-! ## Nodes -/

/-- Something that is copied. -/
inductive Node where
  | object (o : ObjectRef)
  | array (a : ArrayRef)
deriving DecidableEq

/-- A reference to something that is copied, as a value. -/
def Node.value : Node → Value
  | .object o => .object o
  | .array a => .array a

/-- What there is at a node. -/
inductive Item where
  | object (o : Object)
  | array (elements : Array Value)

/-- What there is at a node of the heap. -/
def item (h : Heap) : Node → Item
  | .object o => .object (h.object o)
  | .array a => .array (h.elements a)

/-- Every node of the first heap is in the second one, as it was. -/
structure Keeps (h h' : Heap) : Prop where
  has : ∀ n : Node, h.Has n.value → h'.Has n.value
  item_eq : ∀ n : Node, h.Has n.value → h'.item n = h.item n

variable {h h' h'' : Heap}

theorem Keeps.refl (h : Heap) : h.Keeps h :=
  ⟨fun _ hn => hn, fun _ _ => rfl⟩

theorem Keeps.trans (hk : h.Keeps h') (hk' : h'.Keeps h'') : h.Keeps h'' :=
  ⟨fun n hn => hk'.has n (hk.has n hn),
    fun n hn => (hk'.item_eq n (hk.has n hn)).trans (hk.item_eq n hn)⟩

/-- An object that is kept is what it was. -/
theorem Keeps.object_eq (hk : h.Keeps h') {o : ObjectRef} (ho : h.Has (.object o)) :
    h'.object o = h.object o :=
  Item.object.inj (hk.item_eq (.object o) ho)

/-- An array that is kept has the elements that it had. -/
theorem Keeps.elements_eq (hk : h.Keeps h') {a : ArrayRef} (ha : h.Has (.array a)) :
    h'.elements a = h.elements a :=
  Item.array.inj (hk.item_eq (.array a) ha)

/-- An object that is kept is a type just if it was one. -/
theorem Keeps.isType_eq (hk : h.Keeps h') {o : ObjectRef} (ho : h.Has (.object o)) :
    h'.isType o = h.isType o := by
  rw [isType, hk.object_eq ho, isType]

/-- What is kept has only grown. -/
theorem Keeps.grown (hk : h.Keeps h') : h.Grown h' := by
  refine ⟨?_, ?_, fun o ho => ?_, fun o ho => ?_⟩
  · by_contra hlt
    have hlast : h.Has (.object ⟨h'.objects.size⟩) := Nat.lt_of_not_le hlt
    exact Nat.lt_irrefl _ (hk.has (.object _) hlast)
  · by_contra hlt
    have hlast : h.Has (.array ⟨h'.arrays.size⟩) := Nat.lt_of_not_le hlt
    exact Nat.lt_irrefl _ (hk.has (.array _) hlast)
  · rw [parent?, hk.object_eq ho, parent?]
  · rw [hk.object_eq ho]
    exact .inl rfl

/-- What is added at the end changes nothing before it. -/
theorem keeps_append (h : Heap) (objects : List Object) (arrays : List (Array Value)) :
    h.Keeps (h.append objects arrays) := by
  refine ⟨fun n hn => (grown_append h objects arrays).has hn, fun n hn => ?_⟩
  cases n with
  | object o => exact congrArg Item.object ((object_append ..).trans (if_pos hn))
  | array a => exact congrArg Item.array ((elements_append ..).trans (if_pos hn))

/-- Adding an object changes nothing before it. -/
theorem keeps_addObject (h : Heap) (o : Object) : h.Keeps (h.addObject o).2 := by
  rw [addObject_eq_append]
  exact keeps_append ..

/-- Adding an array changes nothing before it. -/
theorem keeps_addArray (h : Heap) (elements : Array Value) : h.Keeps (h.addArray elements).2 := by
  rw [addArray_eq_append]
  exact keeps_append ..

/-- Changing an object that came later keeps what was there before. -/
theorem Keeps.modifyObject (hk : h.Keeps h') {o : ObjectRef} (ho : ¬ h.Has (.object o))
    (f : Object → Object) : h.Keeps (h'.modifyObject o f) := by
  refine ⟨fun n hn => ?_, fun n hn => ?_⟩
  · have hn' := hk.has n hn
    cases n <;> simpa [Node.value, Has, Heap.modifyObject] using hn'
  · rw [← hk.item_eq n hn]
    cases n with
    | object p =>
      have hne : o ≠ p := by
        rintro rfl
        exact ho hn
      exact congrArg Item.object (object_modifyObject_of_ne h' hne f)
    | array a => rfl

/-- Changing an array that came later keeps what was there before. -/
theorem Keeps.modifyArray (hk : h.Keeps h') {a : ArrayRef} (ha : ¬ h.Has (.array a))
    (f : Array Value → Array Value) : h.Keeps (h'.modifyArray a f) := by
  refine ⟨fun n hn => ?_, fun n hn => ?_⟩
  · have hn' := hk.has n hn
    cases n <;> simpa [Node.value, Has, Heap.modifyArray] using hn'
  · rw [← hk.item_eq n hn]
    cases n with
    | object p => rfl
    | array b =>
      have hne : ¬ (a = b ∧ b.index < h'.arrays.size) := by
        rintro ⟨rfl, -⟩
        exact ha hn
      exact congrArg Item.array ((elements_modifyArray ..).trans (if_neg hne))

/-- A heap that keeps another one is that heap with more behind it. -/
theorem Keeps.eq_append (hk : h.Keeps h') :
    h' = h.append (h'.objects.toList.drop h.objects.size) (h'.arrays.toList.drop h.arrays.size) := by
  have hobjects : h.objects.toList <+: h'.objects.toList := by
    refine List.prefix_iff_getElem?.mpr fun i hi => ?_
    replace hi : i < h.objects.size := hi
    have hi' : i < h'.objects.size := hk.has (.object ⟨i⟩) hi
    have heq := hk.object_eq (o := ⟨i⟩) hi
    simp only [object, Array.getElem?_eq_getElem hi, Array.getElem?_eq_getElem hi',
      Option.getD_some] at heq
    simpa [hi'] using heq
  have harrays : h.arrays.toList <+: h'.arrays.toList := by
    refine List.prefix_iff_getElem?.mpr fun i hi => ?_
    replace hi : i < h.arrays.size := hi
    have hi' : i < h'.arrays.size := hk.has (.array ⟨i⟩) hi
    have heq := hk.elements_eq (a := ⟨i⟩) hi
    simp only [elements, Array.getElem?_eq_getElem hi, Array.getElem?_eq_getElem hi',
      Option.getD_some] at heq
    simpa [hi'] using heq
  obtain ⟨objects, arrays⟩ := h'
  unfold append
  congr 1
  · apply Array.ext'
    rw [Array.toList_appendList]
    exact (List.prefix_iff_eq_append.mp hobjects).symm
  · apply Array.ext'
    rw [Array.toList_appendList]
    exact (List.prefix_iff_eq_append.mp harrays).symm

/-! ## The work, part by part -/

/-- A part of the work keeps the heap that it starts with. -/
def Copier.Preserves {α : Type} (x : Copier α) : Prop :=
  ∀ c : Copying, c.heap.Keeps (x c).2.heap

section

variable {self : Value → Copier Value} {c : Copying} {o : ObjectRef} {a : ArrayRef}

/-- Looking at how far copying has come. -/
theorem get_bind_apply {β : Type} (f : Copying → Copier β) (c : Copying) :
    (MonadState.get >>= f) c = f c c :=
  rfl

/-- Going through a list starts with its first entry. -/
theorem mapM_cons_apply {α β : Type} (f : α → Copier β) (x : α) (xs : List α) (c : Copying) :
    (x :: xs).mapM f c =
      (((f x c).1 :: (xs.mapM f (f x c).2).1, (xs.mapM f (f x c).2).2) : List β × Copying) := by
  rw [List.mapM_cons]
  rfl

/-- Going through a list preserves the heap if each step does. -/
theorem preserves_mapM {α β : Type} {f : α → Copier β} (hf : ∀ x, Copier.Preserves (f x))
    (xs : List α) : Copier.Preserves (xs.mapM f) := by
  induction xs with
  | nil => exact fun c => .refl _
  | cons x xs ih =>
    intro c
    rw [mapM_cons_apply]
    exact (hf x c).trans (ih _)

/-- Copying members preserves the heap if copying values does. -/
theorem preserves_copyMembers (hself : ∀ v, Copier.Preserves (self v)) (members : Members) :
    Copier.Preserves (copyMembers self members) := by
  have hentry (entry : String × Value) :
      Copier.Preserves (do return (entry.1, ← self entry.2) : Copier (String × Value)) :=
    hself entry.2
  exact preserves_mapM hentry members.entries

/-- Copying elements preserves the heap if copying values does. -/
theorem preserves_copyElements (hself : ∀ v, Copier.Preserves (self v)) (elements : Array Value) :
    Copier.Preserves (copyElements self elements) :=
  preserves_mapM hself elements.toList

/-- An object that was met before has its copy already. -/
theorem copyObject_of_known {made : ObjectRef} (hmade : c.objects.lookup o = some made) :
    copyObject self o c = ((made, c) : ObjectRef × Copying) := by
  rw [copyObject, get_bind_apply]
  rw [hmade]
  rfl

/-- A new copy is begun, then the members are copied, and then it is filled. -/
theorem copyObject_of_new (hnone : c.objects.lookup o = none) :
    copyObject self o c =
      let copied := copyMembers self (c.heap.object o).members (c.beginObject o).2
      (((c.beginObject o).1, copied.2.fillObject (c.beginObject o).1 copied.1) :
        ObjectRef × Copying) := by
  rw [copyObject, get_bind_apply]
  rw [hnone]
  rfl

/-- An array that was met before has its copy already. -/
theorem copyArray_of_known {made : ArrayRef} (hmade : c.arrays.lookup a = some made) :
    copyArray self a c = ((made, c) : ArrayRef × Copying) := by
  rw [copyArray, get_bind_apply]
  rw [hmade]
  rfl

/-- An array that is met first is entered in the table, and then filled. -/
theorem copyArray_of_new (hnone : c.arrays.lookup a = none) :
    copyArray self a c =
      let begun := c.beginArray a
      let copied := copyElements self (begun.2.heap.elements a) begun.2
      ((begun.1, copied.2.fillArray begun.1 copied.1) : ArrayRef × Copying) := by
  rw [copyArray, get_bind_apply]
  rw [hnone]
  rfl

/-! ## The heap is kept -/

/-- Beginning the copy of an object changes nothing before it. -/
theorem keeps_beginObject (c : Copying) (o : ObjectRef) : c.heap.Keeps (c.beginObject o).2.heap :=
  keeps_addObject c.heap _

/-- Beginning the copy of an array changes nothing before it. -/
theorem keeps_beginArray (c : Copying) (a : ArrayRef) : c.heap.Keeps (c.beginArray a).2.heap :=
  keeps_addArray c.heap _

/-- Copying an object preserves the heap if copying values does. -/
theorem preserves_copyObject (hself : ∀ v, Copier.Preserves (self v)) (o : ObjectRef) :
    Copier.Preserves (copyObject self o) := by
  intro c
  rcases hlookup : c.objects.lookup o with _ | made
  · rw [copyObject_of_new hlookup]
    exact ((keeps_beginObject c o).trans (preserves_copyMembers hself _ _)).modifyObject
      (Nat.lt_irrefl _) _
  · rw [copyObject_of_known hlookup]
    exact .refl _

/-- Copying an array preserves the heap if copying values does. -/
theorem preserves_copyArray (hself : ∀ v, Copier.Preserves (self v)) (a : ArrayRef) :
    Copier.Preserves (copyArray self a) := by
  intro c
  rcases hlookup : c.arrays.lookup a with _ | made
  · rw [copyArray_of_new hlookup]
    exact ((keeps_beginArray c a).trans (preserves_copyElements hself _ _)).modifyArray
      (Nat.lt_irrefl _) _
  · rw [copyArray_of_known hlookup]
    exact .refl _

/-- Copying an object, unless it is a type, which is shared. -/
theorem copyValue_object (fuel : Nat) (o : ObjectRef) (c : Copying) :
    copyValue (fuel + 1) (.object o) c =
      if c.heap.isType o then ((.object o, c) : Value × Copying)
      else (.object (copyObject (copyValue fuel) o c).1, (copyObject (copyValue fuel) o c).2) := by
  rw [copyValue, get_bind_apply]
  split <;> rfl

/-- Copying an array. -/
theorem copyValue_array (fuel : Nat) (a : ArrayRef) (c : Copying) :
    copyValue (fuel + 1) (.array a) c =
      ((.array (copyArray (copyValue fuel) a c).1, (copyArray (copyValue fuel) a c).2) :
        Value × Copying) :=
  rfl

/-- What refers to nothing stands for itself. -/
theorem copyValue_scalar {v : Value} (hobject : ∀ o, v ≠ .object o) (harray : ∀ a, v ≠ .array a)
    (fuel : Nat) (c : Copying) : copyValue fuel v c = ((v, c) : Value × Copying) := by
  cases fuel with
  | zero => rfl
  | succ fuel =>
    cases v with
    | object o => exact absurd rfl (hobject o)
    | array a => exact absurd rfl (harray a)
    | _ => rfl

/-- What stands for an array is an array. -/
theorem copyValue_array_eq (fuel : Nat) (a : ArrayRef) (c : Copying) :
    ∃ b, (copyValue fuel (.array a) c).1 = .array b := by
  cases fuel with
  | zero => exact ⟨a, rfl⟩
  | succ fuel => exact ⟨_, rfl⟩

/-- Copying a value changes nothing that was there, however deep it goes. -/
theorem preserves_copyValue (fuel : Nat) (v : Value) : Copier.Preserves (copyValue fuel v) := by
  induction fuel generalizing v with
  | zero => exact fun c => .refl _
  | succ fuel ih =>
    intro c
    cases v with
    | object o =>
      rw [copyValue_object]
      split
      · exact .refl _
      · exact preserves_copyObject ih o c
    | array a => exact preserves_copyArray ih a c
    | _ => exact .refl _

end

/-! ## A whole copy -/

/-- The copy of an object gets the parent that is given, if there is one. -/
theorem copyWithin_of_append {fuel : Nat} {h : Heap} {o : ObjectRef} {c : Copying} {first : Object}
    {others : List Object} {arrays : List (Array Value)}
    (hcopy : copyObject (copyValue fuel) o (.start h) =
      ((⟨h.objects.size⟩, c) : ObjectRef × Copying))
    (hheap : c.heap = h.append (first :: others) arrays) (parent : Option ObjectRef) :
    h.copyWithin fuel o parent =
      (⟨h.objects.size⟩,
        h.append ({ first with parent := parent.or first.parent } :: others) arrays) := by
  unfold copyWithin
  rw [hcopy]
  cases parent with
  | none => simp only [hheap, Option.none_or]
  | some p => simp only [hheap, modifyObject_append_first, Option.some_or]

/-- The members of the copy of an object, and how far copying has come when they are there. -/
def membersCopied (fuel : Nat) (h : Heap) (o : ObjectRef) : Members × Copying :=
  copyMembers (copyValue fuel) (h.object o).members ((Copying.start h).beginObject o).2

/-- The first thing that copying adds is the copy of the object itself, without its members. -/
theorem heap_beginObject_start (h : Heap) (o : ObjectRef) :
    ((Copying.start h).beginObject o).2.heap =
      h.append [{ h.object o with members := .empty }] [] :=
  congrArg Prod.snd (addObject_eq_append h _)

/-- Copying from the start: the copy is made first, and filled when all its members are copied. -/
theorem copyObject_start (fuel : Nat) (h : Heap) (o : ObjectRef) :
    copyObject (copyValue fuel) o (.start h) =
      ((⟨h.objects.size⟩, (h.membersCopied fuel o).2.fillObject ⟨h.objects.size⟩
        (h.membersCopied fuel o).1) : ObjectRef × Copying) :=
  copyObject_of_new rfl

/-- The copy of an object is the first thing behind the heap, and whatever else is added comes behind
it. -/
theorem copyWithin_eq_append (fuel : Nat) (h : Heap) (o : ObjectRef) (parent : Option ObjectRef) :
    ∃ others arrays, h.copyWithin fuel o parent =
      (⟨h.objects.size⟩, h.append
        ({ h.object o with
            members := (h.membersCopied fuel o).1
            parent := parent.or (h.object o).parent } :: others) arrays) := by
  have hcopied : (h.append [{ h.object o with members := .empty }] []).Keeps
      (h.membersCopied fuel o).2.heap := by
    rw [← heap_beginObject_start]
    exact preserves_copyMembers (preserves_copyValue fuel) _ _
  -- the copy is still empty when its members are there
  obtain ⟨others, arrays, heq⟩ : ∃ others arrays, (h.membersCopied fuel o).2.heap =
      h.append ({ h.object o with members := .empty } :: others) arrays := by
    have heq := hcopied.eq_append
    rw [append_append] at heq
    exact ⟨_, _, heq⟩
  have hfilled : ((h.membersCopied fuel o).2.fillObject ⟨h.objects.size⟩
      (h.membersCopied fuel o).1).heap =
        h.append ({ h.object o with members := (h.membersCopied fuel o).1 } :: others) arrays := by
    rw [Copying.fillObject, heq]
    exact modifyObject_append_first ..
  exact ⟨others, arrays, copyWithin_of_append (copyObject_start fuel h o) hfilled parent⟩

/-- Members that stand for themselves are copied without further ado. -/
theorem copyMembers_shared {self : Value → Copier Value} {members : Members}
    (hshared : ∀ entry ∈ members.entries, ∀ c : Copying,
      self entry.2 c = ((entry.2, c) : Value × Copying)) (c : Copying) :
    copyMembers self members c = ((members, c) : Members × Copying) := by
  have hentries (entries : List (String × Value)) (hsub : ∀ entry ∈ entries, ∀ c : Copying,
      self entry.2 c = ((entry.2, c) : Value × Copying)) :
      entries.mapM (fun entry => (do return (entry.1, ← self entry.2) : Copier (String × Value))) c =
        ((entries, c) : List (String × Value) × Copying) := by
    induction entries with
    | nil => rfl
    | cons entry entries ih =>
      have hfirst : (do return (entry.1, ← self entry.2) : Copier (String × Value)) c =
          ((entry, c) : (String × Value) × Copying) :=
        congrArg (fun result : Value × Copying =>
          (((entry.1, result.1), result.2) : (String × Value) × Copying))
          (hsub entry List.mem_cons_self c)
      rw [mapM_cons_apply, hfirst, ih fun e he => hsub e (List.mem_cons_of_mem _ he)]
  exact congrArg (fun result : List (String × Value) × Copying =>
    ((⟨result.1⟩, result.2) : Members × Copying)) (hentries _ hshared)

/-- Where all members stand for themselves, the copy is all that is added. -/
theorem copyWithin_of_shared {fuel : Nat} {h : Heap} {o : ObjectRef}
    (hshared : ∀ entry ∈ (h.object o).members.entries, ∀ c : Copying,
      copyValue fuel entry.2 c = ((entry.2, c) : Value × Copying)) (parent : Option ObjectRef) :
    h.copyWithin fuel o parent =
      (⟨h.objects.size⟩, h.append
        [{ h.object o with parent := parent.or (h.object o).parent }] []) := by
  have hmembers : h.membersCopied fuel o =
      (((h.object o).members, ((Copying.start h).beginObject o).2) : Members × Copying) :=
    copyMembers_shared hshared _
  refine copyWithin_of_append (copyObject_start fuel h o) ?_ parent
  rw [hmembers, Copying.fillObject, heap_beginObject_start]
  exact modifyObject_append_first ..

end Heap

end ProtoScript
