import ProtoScript.Proofs.Heap.Lineage
import ProtoScript.Proofs.Heap.Preserved

/-!
# What copying has done at each moment

Copying goes down into members and elements while the heap grows under it, and comes back to copies that
it left unfinished.  `Copying.Sound` tells what holds all along: the two tables send what was met so far
to what is new in the heap, one to one; whatever was met is carried by the object that is copied; a copy
that is finished holds the images of what its original holds, all of which were met; and one that is not
finished is still empty.

Each part of the work keeps this up, and gives for a value what the tables send it to.  This is shown
for copying a value to a depth from the same for a depth of one less, as the recursion goes.  The bound
on the depth never shows: going down meets something new each time, and there is no more to be met than
objects and arrays in the heap.
-/

namespace ProtoScript

namespace Heap

/-- Whatever members and elements refer to is in the heap. -/
structure Intact (h : Heap) : Prop where
  members : ∀ o, h.HasMembers (h.object o).members
  elements : ∀ a v, v ∈ h.elements a → h.Has v

/-- What a value refers to, if that is something that is copied. -/
def node? (h : Heap) : Value → Option Node
  | .object o => if h.isType o then none else some (.object o)
  | .array a => some (.array a)
  | _ => none

/-- Something that is copied refers to another such thing by a member or an element. -/
inductive Refers (h : Heap) : Node → Node → Prop
  | member {o : ObjectRef} {name : String} {v : Value} {n : Node} :
      (name, v) ∈ (h.object o).members.entries → h.node? v = some n → Refers h (.object o) n
  | element {a : ArrayRef} {v : Value} {n : Node} :
      v ∈ h.elements a → h.node? v = some n → Refers h (.array a) n

/-- An object carries what is reached from it through members and elements. -/
def Carries (h : Heap) (o : ObjectRef) (n : Node) : Prop :=
  Relation.ReflTransGen h.Refers (.object o) n

/-- Something is in the second heap only. -/
def IsNew (h h' : Heap) (n : Node) : Prop :=
  h'.Has n.value ∧ ¬ h.Has n.value

/-- The value with a reference to something that is copied replaced by one to its image. -/
def redirected (h : Heap) (image : Node → Node) (v : Value) : Value :=
  match h.node? v with
  | some n => (image n).value
  | none => v

/-- The same item with other values in it. -/
def Item.map (f : Value → Value) : Item → Item
  | .object o => .object { o with members := o.members.map f }
  | .array elements => .array (elements.map f)

/-- The same item without anything in it. -/
def Item.cleared : Item → Item
  | .object o => .object { o with members := .empty }
  | .array _ => .array #[]

variable {h h' : Heap} {o : ObjectRef}

/-! ### References -/

/-- What a value refers to is enough to know the value. -/
theorem eq_value_of_node? {v : Value} {n : Node} (hn : h.node? v = some n) : v = n.value := by
  unfold node? at hn
  split at hn
  · split at hn
    · cases hn
    · cases hn
      rfl
  · cases hn
    rfl
  · cases hn

/-- Only objects that are no types are copied. -/
theorem isType_of_node? {v : Value} {p : ObjectRef} (hn : h.node? v = some (.object p)) :
    h.isType p = false := by
  have hv : v = .object p := eq_value_of_node? hn
  subst hv
  by_contra htype
  simp [node?, htype] at hn

/-- An object that is no type is copied. -/
theorem node?_object (hp : h.isType o = false) : h.node? (.object o) = some (.object o) := by
  simp [node?, hp]

/-- A value that refers to something is replaced by the image of that. -/
theorem redirected_of_node? {v : Value} {n : Node} (hn : h.node? v = some n) (image : Node → Node) :
    h.redirected image v = (image n).value := by
  rw [redirected, hn]

/-- A value that refers to nothing is left as it is. -/
theorem redirected_of_none {v : Value} (hn : h.node? v = none) (image : Node → Node) :
    h.redirected image v = v := by
  rw [redirected, hn]

/-- What something refers to is in the heap. -/
theorem Intact.has_of_refers (hintact : h.Intact) {m n : Node} (hrefers : h.Refers m n) :
    h.Has n.value := by
  cases hrefers with
  | member hmem hn =>
    rw [← eq_value_of_node? hn]
    exact hintact.members _ _ _ hmem
  | element hmem hn =>
    rw [← eq_value_of_node? hn]
    exact hintact.elements _ _ hmem

/-- What an object of the heap carries is in the heap. -/
theorem Intact.has_of_carries (hintact : h.Intact) (ho : h.Has (.object o)) {n : Node}
    (hn : h.Carries o n) : h.Has n.value := by
  cases hn with
  | refl => exact ho
  | tail _ hrefers => exact hintact.has_of_refers hrefers

/-- Replacing references in an item depends only on the images of what it refers to. -/
theorem map_item_congr {n : Node} {f g : Node → Node} (hfg : ∀ k, h.Refers n k → f k = g k) :
    (h.item n).map (h.redirected f) = (h.item n).map (h.redirected g) := by
  have hvalue (v : Value) (hv : ∀ k, h.node? v = some k → h.Refers n k) :
      h.redirected f v = h.redirected g v := by
    cases hnode : h.node? v with
    | none => rw [redirected_of_none hnode, redirected_of_none hnode]
    | some k => rw [redirected_of_node? hnode, redirected_of_node? hnode, hfg k (hv k hnode)]
  cases n with
  | object p =>
    have hmembers : (h.object p).members.map (h.redirected f) =
        (h.object p).members.map (h.redirected g) :=
      NameMap.map_congr fun entry hentry => hvalue entry.2 fun k hk => .member hentry hk
    simp only [item, Item.map, hmembers]
  | array a =>
    have helements : (h.elements a).map (h.redirected f) = (h.elements a).map (h.redirected g) :=
      Array.map_congr_left fun v hv => hvalue v fun k hk => .element hv hk
    simp only [item, Item.map, helements]

/-! ### The tables -/

namespace Copying

/-- The copy of something that was met. -/
def image? (c : Copying) : Node → Option Node
  | .object p => (c.objects.lookup p).map .object
  | .array a => (c.arrays.lookup a).map .array

/-- The copy of something, or the thing itself if it was not met. -/
def image (c : Copying) (n : Node) : Node :=
  (c.image? n).getD n

/-- What was met. -/
def originals (c : Copying) : List Node :=
  (c.objects.map fun entry => .object entry.1) ++ c.arrays.map fun entry => .array entry.1

/-- Later, whatever was met has the copy that it had. -/
structure Extends (c c' : Copying) : Prop where
  image?_eq : ∀ n m, c.image? n = some m → c'.image? n = some m
  length_le : c.originals.length ≤ c'.originals.length

/-- What holds while an object of the first heap is copied, with these copies not finished. -/
structure Sound (h : Heap) (o : ObjectRef) (unfinished : List Node) (c : Copying) : Prop where
  keeps : h.Keeps c.heap
  nodup : c.originals.Nodup
  carried : ∀ n m, c.image? n = some m → h.Carries o n
  injective : ∀ n k m, c.image? n = some m → c.image? k = some m → n = k
  isNew_iff : ∀ m, h.IsNew c.heap m ↔ ∃ n, c.image? n = some m
  begun : ∀ n ∈ unfinished, ∃ m, c.image? n = some m ∧ c.heap.item m = (h.item n).cleared
  filled : ∀ n m, c.image? n = some m → n ∉ unfinished →
    c.heap.item m = (h.item n).map (h.redirected c.image)
  onward : ∀ n m, c.image? n = some m → n ∉ unfinished → ∀ k, h.Refers n k →
    ∃ j, c.image? k = some j

variable {c c' c'' : Copying} {unfinished : List Node}

theorem Extends.refl (c : Copying) : c.Extends c :=
  ⟨fun _ _ hm => hm, Nat.le_refl _⟩

theorem Extends.trans (he : c.Extends c') (he' : c'.Extends c'') : c.Extends c'' :=
  ⟨fun n m hm => he'.image?_eq n m (he.image?_eq n m hm), Nat.le_trans he.length_le he'.length_le⟩

theorem image_eq {n m : Node} (hm : c.image? n = some m) : c.image n = m := by
  rw [image, hm, Option.getD_some]

/-- What was met is what has a copy. -/
theorem mem_originals_iff {n : Node} : n ∈ c.originals ↔ ∃ m, c.image? n = some m := by
  cases n with
  | object p =>
    rw [← Option.isSome_iff_exists, image?, Option.isSome_map, List.lookup_isSome_iff]
    simp [originals]
  | array a =>
    rw [← Option.isSome_iff_exists, image?, Option.isSome_map, List.lookup_isSome_iff]
    simp [originals]

/-- What a value is replaced by stays, once the value was met. -/
theorem Extends.redirected_eq (he : c.Extends c') {v : Value}
    (hv : ∀ n, h.node? v = some n → ∃ m, c.image? n = some m) :
    h.redirected c'.image v = h.redirected c.image v := by
  cases hnode : h.node? v with
  | none => rw [redirected_of_none hnode, redirected_of_none hnode]
  | some n =>
    obtain ⟨m, hm⟩ := hv n hnode
    rw [redirected_of_node? hnode, redirected_of_node? hnode, image_eq hm,
      image_eq (he.image?_eq n m hm)]

/-- Nothing was met in the beginning. -/
theorem sound_start (h : Heap) (o : ObjectRef) : Sound h o [] (.start h) where
  keeps := .refl h
  nodup := List.nodup_nil
  carried := by
    intro n m hm
    cases n <;> cases hm
  injective := by
    intro n k m hm
    cases n <;> cases hm
  isNew_iff m := by
    constructor
    · exact fun hnew => absurd hnew.1 hnew.2
    · rintro ⟨n, hn⟩
      cases n <;> cases hn
  begun := nofun
  filled := by
    intro n m hm
    cases n <;> cases hm
  onward := by
    intro n m hm
    cases n <;> cases hm

/-! ### Beginning and filling a copy -/

/-- From the first moment to the second one, the empty copy `m` of `n` was added and noted. -/
structure Begins (n m : Node) (c c' : Copying) : Prop where
  unmet : c.image? n = none
  image?_self : c'.image? n = some m
  image?_other : ∀ k, k ≠ n → c'.image? k = c.image? k
  originals_perm : c'.originals.Perm (n :: c.originals)
  keeps : c.heap.Keeps c'.heap
  isNew_iff : ∀ k, c.heap.IsNew c'.heap k ↔ k = m
  item_eq : c'.heap.item m = (c.heap.item n).cleared

/-- From the first moment to the second one, the copy `m` was filled so that it is `item` now. -/
structure Fills (m : Node) (item : Item) (c c' : Copying) : Prop where
  objects_eq : c'.objects = c.objects
  arrays_eq : c'.arrays = c.arrays
  has_iff : ∀ k : Node, c'.heap.Has k.value ↔ c.heap.Has k.value
  item_self : c'.heap.item m = item
  item_other : ∀ k, k ≠ m → c'.heap.item k = c.heap.item k

/-- Making an empty copy of an object that is met first begins it. -/
theorem begins_object {p : ObjectRef} (hnone : c.objects.lookup p = none) :
    Begins (.object p) (.object ⟨c.heap.objects.size⟩) c (c.beginObject p).2 where
  unmet := by rw [image?, hnone]; rfl
  image?_self := by simp [image?, beginObject, Heap.addObject]
  image?_other k hk := by
    cases k with
    | object q =>
      have hne : (q == p) = false := beq_eq_false_iff_ne.mpr fun heq => hk (congrArg Node.object heq)
      simp [image?, beginObject, List.lookup_cons, hne]
    | array a => rfl
  originals_perm := .refl _
  keeps := keeps_beginObject c p
  isNew_iff k := by
    cases k with
    | object q =>
      obtain ⟨i⟩ := q
      simp only [IsNew, Node.value, Has, beginObject, Heap.addObject, Array.size_push,
        Node.object.injEq, ObjectRef.mk.injEq]
      omega
    | array a => exact ⟨fun hnew => absurd hnew.1 hnew.2, fun heq => by cases heq⟩
  item_eq := congrArg Item.object (object_addObject_self ..)

/-- Making an empty copy of an array that is met first begins it. -/
theorem begins_array {a : ArrayRef} (hnone : c.arrays.lookup a = none) :
    Begins (.array a) (.array ⟨c.heap.arrays.size⟩) c (c.beginArray a).2 where
  unmet := by rw [image?, hnone]; rfl
  image?_self := by simp [image?, beginArray, Heap.addArray]
  image?_other k hk := by
    cases k with
    | object q => rfl
    | array b =>
      have hne : (b == a) = false := beq_eq_false_iff_ne.mpr fun heq => hk (congrArg Node.array heq)
      simp [image?, beginArray, List.lookup_cons, hne]
  originals_perm := List.perm_middle
  keeps := keeps_beginArray c a
  isNew_iff k := by
    cases k with
    | object q => exact ⟨fun hnew => absurd hnew.1 hnew.2, fun heq => by cases heq⟩
    | array b =>
      obtain ⟨i⟩ := b
      simp only [IsNew, Node.value, Has, beginArray, Heap.addArray, Array.size_push,
        Node.array.injEq, ArrayRef.mk.injEq]
      omega
  item_eq := by simp [item, Item.cleared, beginArray, Heap.addArray, Heap.elements]

/-- Giving a copy its members fills it. -/
theorem fills_object {made : ObjectRef} (hmade : c.heap.Has (.object made)) (members : Members) :
    Fills (.object made) (.object { c.heap.object made with members }) c
      (c.fillObject made members) where
  objects_eq := rfl
  arrays_eq := rfl
  has_iff k := by cases k <;> simp [Node.value, Has, fillObject, Heap.modifyObject]
  item_self := congrArg Item.object (object_modifyObject_self hmade _)
  item_other k hk := by
    cases k with
    | object q =>
      have hne : made ≠ q := fun heq => hk (congrArg Node.object heq.symm)
      exact congrArg Item.object (object_modifyObject_of_ne c.heap hne _)
    | array a => rfl

/-- Giving a copy its elements fills it. -/
theorem fills_array {made : ArrayRef} (hmade : c.heap.Has (.array made)) (elements : Array Value) :
    Fills (.array made) (.array elements) c (c.fillArray made elements) where
  objects_eq := rfl
  arrays_eq := rfl
  has_iff k := by cases k <;> simp [Node.value, Has, fillArray, Heap.modifyArray]
  item_self := congrArg Item.array ((elements_modifyArray ..).trans (if_pos ⟨rfl, hmade⟩))
  item_other k hk := by
    cases k with
    | object q => rfl
    | array b =>
      have hne : ¬ (made = b ∧ b.index < c.heap.arrays.size) :=
        fun hboth => hk (congrArg Node.array hboth.1.symm)
      exact congrArg Item.array ((elements_modifyArray ..).trans (if_neg hne))

section

variable {n m : Node}

/-- What was met before keeps its copy when another one is begun. -/
theorem Begins.extends (hbegins : Begins n m c c') : c.Extends c' where
  image?_eq k j hj := by
    have hne : k ≠ n := by
      rintro rfl
      rw [hbegins.unmet] at hj
      cases hj
    rw [hbegins.image?_other k hne, hj]
  length_le := by
    rw [hbegins.originals_perm.length_eq]
    exact Nat.le_succ _

/-- Beginning a copy keeps up what holds, with one more copy that is not finished. -/
theorem Sound.begin (hsound : Sound h o unfinished c) (hbegins : Begins n m c c')
    (hcarries : h.Carries o n) (hhas : h.Has n.value) : Sound h o (n :: unfinished) c' := by
  have hother (k j : Node) (hj : c'.image? k = some j) : k = n ∧ j = m ∨ c.image? k = some j := by
    by_cases hk : k = n
    · subst hk
      rw [hbegins.image?_self] at hj
      exact .inl ⟨rfl, (Option.some.inj hj).symm⟩
    · rw [hbegins.image?_other k hk] at hj
      exact .inr hj
  have hfresh := (hbegins.isNew_iff m).mpr rfl
  have hold (k j : Node) (hj : c.image? k = some j) : c.heap.Has j.value :=
    ((hsound.isNew_iff j).mpr ⟨k, hj⟩).1
  have hne (k : Node) : c.image? k ≠ some m := fun hk => hfresh.2 (hold k m hk)
  have hmet (k j : Node) (hj : c'.image? k = some j) (hk : k ∉ n :: unfinished) :
      c.image? k = some j ∧ k ∉ unfinished := by
    rw [List.mem_cons, not_or] at hk
    rcases hother k j hj with ⟨rfl, -⟩ | hj
    · exact absurd rfl hk.1
    · exact ⟨hj, hk.2⟩
  have he := hbegins.extends
  refine ⟨hsound.keeps.trans hbegins.keeps, ?_, ?_, ?_, ?_, ?_, ?_, ?_⟩
  · rw [hbegins.originals_perm.nodup_iff, List.nodup_cons]
    refine ⟨fun hmem => ?_, hsound.nodup⟩
    obtain ⟨j, hj⟩ := mem_originals_iff.mp hmem
    rw [hbegins.unmet] at hj
    cases hj
  · intro k j hj
    rcases hother k j hj with ⟨rfl, -⟩ | hj
    · exact hcarries
    · exact hsound.carried k j hj
  · intro k l j hk hl
    rcases hother k j hk with ⟨rfl, rfl⟩ | hk <;> rcases hother l _ hl with ⟨rfl, heq⟩ | hl
    · rfl
    · exact absurd hl (hne l)
    · exact absurd (heq ▸ hk) (hne k)
    · exact hsound.injective k l j hk hl
  · intro j
    constructor
    · intro hnew
      by_cases hj : c.heap.Has j.value
      · obtain ⟨k, hk⟩ := (hsound.isNew_iff j).mp ⟨hj, hnew.2⟩
        exact ⟨k, he.image?_eq k j hk⟩
      · obtain rfl := (hbegins.isNew_iff j).mp ⟨hnew.1, hj⟩
        exact ⟨n, hbegins.image?_self⟩
    · rintro ⟨k, hk⟩
      rcases hother k j hk with ⟨-, rfl⟩ | hk
      · exact ⟨hfresh.1, fun hj => hfresh.2 (hsound.keeps.has _ hj)⟩
      · have hnew := (hsound.isNew_iff j).mpr ⟨k, hk⟩
        exact ⟨hbegins.keeps.has j hnew.1, hnew.2⟩
  · intro k hk
    rcases List.mem_cons.mp hk with rfl | hk
    · exact ⟨m, hbegins.image?_self, by rw [hbegins.item_eq, hsound.keeps.item_eq k hhas]⟩
    · obtain ⟨j, hj, hitem⟩ := hsound.begun k hk
      exact ⟨j, he.image?_eq k j hj, by rw [hbegins.keeps.item_eq j (hold k j hj), hitem]⟩
  · intro k j hj hk
    obtain ⟨hj, hk⟩ := hmet k j hj hk
    rw [hbegins.keeps.item_eq j (hold k j hj), hsound.filled k j hj hk]
    refine map_item_congr fun l hl => ?_
    obtain ⟨i, hi⟩ := hsound.onward k j hj hk l hl
    rw [image_eq hi, image_eq (he.image?_eq l i hi)]
  · intro k j hj hk l hl
    obtain ⟨hj, hk⟩ := hmet k j hj hk
    obtain ⟨i, hi⟩ := hsound.onward k j hj hk l hl
    exact ⟨i, he.image?_eq l i hi⟩

/-- Filling a copy does not change the tables. -/
theorem Fills.image?_eq {item : Item} (hfills : Fills m item c c') : c'.image? = c.image? := by
  funext k
  cases k with
  | object q => rw [image?, hfills.objects_eq, image?]
  | array a => rw [image?, hfills.arrays_eq, image?]

theorem Fills.originals_eq {item : Item} (hfills : Fills m item c c') :
    c'.originals = c.originals := by
  rw [originals, hfills.objects_eq, hfills.arrays_eq, originals]

theorem Fills.extends {item : Item} (hfills : Fills m item c c') : c.Extends c' :=
  ⟨fun _ _ hj => hfills.image?_eq ▸ hj, Nat.le_of_eq (congrArg List.length hfills.originals_eq.symm)⟩

/-- Filling a copy with the images of what its original holds, all of which were met, finishes it. -/
theorem Sound.fill (hsound : Sound h o (n :: unfinished) c)
    (hfills : Fills m ((h.item n).map (h.redirected c.image)) c c') (hm : c.image? n = some m)
    (hn : n ∉ unfinished) (honward : ∀ k, h.Refers n k → ∃ j, c.image? k = some j) :
    Sound h o unfinished c' := by
  have himage : c'.image = c.image := by
    funext k
    rw [image, hfills.image?_eq, image]
  have hother (k j : Node) (hk : k ≠ n) (hj : c.image? k = some j) :
      c'.heap.item j = c.heap.item j := by
    apply hfills.item_other
    rintro rfl
    exact hk (hsound.injective k n j hj hm)
  have hnew (j : Node) : h.IsNew c'.heap j ↔ h.IsNew c.heap j := by
    rw [IsNew, hfills.has_iff, IsNew]
  refine ⟨⟨fun k hk => ?_, fun k hk => ?_⟩, ?_, ?_, ?_, ?_, ?_, ?_, ?_⟩
  · exact (hfills.has_iff k).mpr (hsound.keeps.has k hk)
  · rw [hfills.item_other k, hsound.keeps.item_eq k hk]
    rintro rfl
    exact ((hsound.isNew_iff k).mpr ⟨n, hm⟩).2 hk
  · rw [hfills.originals_eq]
    exact hsound.nodup
  · rw [hfills.image?_eq]
    exact hsound.carried
  · rw [hfills.image?_eq]
    exact hsound.injective
  · intro j
    rw [hnew, hfills.image?_eq, hsound.isNew_iff]
  · intro k hk
    obtain ⟨j, hj, hitem⟩ := hsound.begun k (List.mem_cons_of_mem n hk)
    have hne : k ≠ n := by
      rintro rfl
      exact hn hk
    exact ⟨j, by rw [hfills.image?_eq, hj], by rw [hother k j hne hj, hitem]⟩
  · intro k j hj hk
    rw [hfills.image?_eq] at hj
    rw [himage]
    by_cases hkn : k = n
    · subst hkn
      obtain rfl := Option.some.inj (hm.symm.trans hj)
      exact hfills.item_self
    · rw [hother k j hkn hj]
      exact hsound.filled k j hj (by simp [hkn, hk])
  · rw [hfills.image?_eq]
    intro k j hj hk
    by_cases hkn : k = n
    · rw [hkn]
      exact honward
    · exact hsound.onward k j hj (by simp [hkn, hk])

/-- From beginning a copy to filling it, everything that its original refers to being met between, a
copy is finished and noted. -/
theorem Sound.complete {d : Copying} (hsound : Sound h o unfinished c) (hbegins : Begins n m c c')
    (he : c'.Extends c'') (hsound' : Sound h o (n :: unfinished) c'')
    (hfills : Fills m ((h.item n).map (h.redirected c''.image)) c'' d)
    (honward : ∀ k, h.Refers n k → ∃ j, c''.image? k = some j) :
    Sound h o unfinished d ∧ c.Extends d ∧ d.image? n = some m := by
  have hm : c''.image? n = some m := he.image?_eq n m hbegins.image?_self
  have hn : n ∉ unfinished := by
    intro hn
    obtain ⟨j, hj, -⟩ := hsound.begun n hn
    rw [hbegins.unmet] at hj
    cases hj
  refine ⟨hsound'.fill hfills hm hn honward, (hbegins.extends.trans he).trans hfills.extends, ?_⟩
  rw [hfills.image?_eq, hm]

/-- A copy that is begun is in the heap, and empty until it is filled. -/
theorem Sound.begun_of_extends (hsound : Sound h o (n :: unfinished) c'')
    (hbegins : Begins n m c c') (he : c'.Extends c'') :
    c''.heap.Has m.value ∧ c''.heap.item m = (h.item n).cleared := by
  have hm : c''.image? n = some m := he.image?_eq n m hbegins.image?_self
  obtain ⟨j, hj, hitem⟩ := hsound.begun n List.mem_cons_self
  obtain rfl := Option.some.inj (hm.symm.trans hj)
  exact ⟨((hsound.isNew_iff m).mpr ⟨n, hm⟩).1, hitem⟩

end

end Copying

/-! ### Copying values -/

/-- A value to be copied is in the heap, and the object that is copied carries it, if it is copied at
all. -/
structure Held (h : Heap) (o : ObjectRef) (v : Value) : Prop where
  has : h.Has v
  carried : ∀ n, h.node? v = some n → h.Carries o n

/-- There is room to go down so many levels: whatever is new on the way is counted. -/
def Copying.Room (h : Heap) (depth : Nat) (c : Copying) : Prop :=
  h.objects.size + h.arrays.size < depth + c.originals.length

/-- Copying a value gave what the tables send it to. -/
structure Copied (h : Heap) (o : ObjectRef) (unfinished : List Node) (v : Value) (c : Copying)
    (result : Value × Copying) : Prop where
  sound : result.2.Sound h o unfinished
  extends_ : c.Extends result.2
  value_eq : result.1 = h.redirected result.2.image v
  met : ∀ n, h.node? v = some n → ∃ m, result.2.image? n = some m

/-- Copying values does what it should wherever there is room to go down so many levels. -/
def Faithful (h : Heap) (o : ObjectRef) (depth : Nat) (self : Value → Copier Value) : Prop :=
  ∀ unfinished c v, c.Sound h o unfinished → c.Room h depth → h.Held o v →
    Copied h o unfinished v c (self v c)

theorem Copying.Extends.room {c c' : Copying} {depth : Nat} (he : c.Extends c')
    (hroom : c.Room h depth) : c'.Room h depth :=
  Nat.lt_of_lt_of_le hroom (Nat.add_le_add_left he.length_le depth)

/-- What is met on the way down makes up for the level. -/
theorem Copying.Begins.room {c c' : Copying} {n m : Node} {depth : Nat} (hbegins : Begins n m c c')
    (hroom : c.Room h (depth + 1)) : c'.Room h depth := by
  unfold Room at hroom ⊢
  rw [hbegins.originals_perm.length_eq, List.length_cons]
  omega

/-- There are no more things to be met than objects and arrays in the heap. -/
theorem length_le_of_nodup {ns : List Node} (hnodup : ns.Nodup) (hhas : ∀ n ∈ ns, h.Has n.value) :
    ns.length ≤ h.objects.size + h.arrays.size := by
  -- arrays are numbered behind the objects
  let number : Node → Nat
    | .object o => o.index
    | .array a => h.objects.size + a.index
  have hinjective : Set.InjOn number {n | n ∈ ns} := by
    intro m hm n hn heq
    have hmhas := hhas m hm
    have hnhas := hhas n hn
    rcases m with ⟨⟨i⟩⟩ | ⟨⟨i⟩⟩ <;> rcases n with ⟨⟨j⟩⟩ | ⟨⟨j⟩⟩ <;>
      simp only [number, Node.value, Has] at heq hmhas hnhas <;> first | omega | simp_all
  refine length_le_of_numbered number hnodup hinjective fun n hn => ?_
  have hnhas := hhas n hn
  rcases n with ⟨⟨i⟩⟩ | ⟨⟨i⟩⟩ <;> simp only [number, Node.value, Has] at hnhas ⊢ <;> omega

section

variable {self : Value → Copier Value} {depth : Nat} {unfinished : List Node} {c : Copying}

/-- The value of a member of what an object carries is held by it. -/
theorem Intact.held_of_member (hintact : h.Intact) {p : ObjectRef} (hp : h.Carries o (.object p))
    {entry : String × Value} (hentry : entry ∈ (h.object p).members.entries) : h.Held o entry.2 :=
  ⟨hintact.members p entry.1 entry.2 hentry, fun _ hn => hp.tail (.member hentry hn)⟩

/-- An element of an array that an object carries is held by it. -/
theorem Intact.held_of_element (hintact : h.Intact) {a : ArrayRef} (ha : h.Carries o (.array a))
    {v : Value} (hv : v ∈ h.elements a) : h.Held o v :=
  ⟨hintact.elements a v hv, fun _ hn => ha.tail (.element hv hn)⟩

/-- What copying values one after the other gives, each of which stands in something. -/
theorem Faithful.mapM (hself : Faithful h o depth self) {α β : Type} (value : α → Value)
    (put : α → Value → β) (xs : List α) (hsound : c.Sound h o unfinished) (hroom : c.Room h depth)
    (hheld : ∀ x ∈ xs, h.Held o (value x)) :
    let result := xs.mapM (fun x => (do return put x (← self (value x)) : Copier β)) c
    result.2.Sound h o unfinished ∧ c.Extends result.2 ∧
      result.1 = xs.map (fun x => put x (h.redirected result.2.image (value x))) ∧
      ∀ x ∈ xs, ∀ n, h.node? (value x) = some n → ∃ m, result.2.image? n = some m := by
  induction xs generalizing c with
  | nil => exact ⟨hsound, .refl c, rfl, nofun⟩
  | cons x xs ih =>
    have hx := hself unfinished c (value x) hsound hroom (hheld x List.mem_cons_self)
    obtain ⟨hsound', he, hvalues, hmet⟩ := ih hx.sound (hx.extends_.room hroom)
      fun y hy => hheld y (List.mem_cons_of_mem x hy)
    intro result
    rw [show result = _ from mapM_cons_apply ..]
    refine ⟨hsound', hx.extends_.trans he, ?_, ?_⟩
    · -- the first value was met, so it is replaced by the same thing in the end
      have hfirst := he.redirected_eq (h := h) hx.met
      exact List.cons_eq_cons.mpr ⟨congrArg (put x) (hx.value_eq.trans hfirst.symm), hvalues⟩
    · intro y hy n hn
      rcases List.mem_cons.mp hy with rfl | hy
      · obtain ⟨m, hm⟩ := hx.met n hn
        exact ⟨m, he.image?_eq n m hm⟩
      · exact hmet y hy n hn

/-- Copying the members of something carried is faithful if copying values is. -/
theorem Faithful.copyMembers (hself : Faithful h o depth self) (hintact : h.Intact) {p : ObjectRef}
    (hp : h.Carries o (.object p)) (hsound : c.Sound h o unfinished) (hroom : c.Room h depth) :
    let result := copyMembers self (h.object p).members c
    result.2.Sound h o unfinished ∧ c.Extends result.2 ∧
      result.1 = (h.object p).members.map (h.redirected result.2.image) ∧
      ∀ n, h.Refers (.object p) n → ∃ m, result.2.image? n = some m := by
  obtain ⟨hsound', he, hvalues, hmet⟩ := hself.mapM Prod.snd (fun entry v => (entry.1, v))
    (h.object p).members.entries hsound hroom fun entry hentry => hintact.held_of_member hp hentry
  refine ⟨hsound', he, congrArg NameMap.mk hvalues, fun n hn => ?_⟩
  cases hn with
  | @member _ name v _ hentry hn => exact hmet (name, v) hentry n hn

/-- Copying the elements of something carried is faithful if copying values is. -/
theorem Faithful.copyElements (hself : Faithful h o depth self) (hintact : h.Intact) {a : ArrayRef}
    (ha : h.Carries o (.array a)) (hsound : c.Sound h o unfinished) (hroom : c.Room h depth) :
    let result := copyElements self (h.elements a) c
    result.2.Sound h o unfinished ∧ c.Extends result.2 ∧
      result.1 = (h.elements a).map (h.redirected result.2.image) ∧
      ∀ n, h.Refers (.array a) n → ∃ m, result.2.image? n = some m := by
  obtain ⟨hsound', he, hvalues, hmet⟩ := hself.mapM id (fun _ v => v) (h.elements a).toList hsound
    hroom fun v hv => hintact.held_of_element ha (Array.mem_toList_iff.mp hv)
  refine ⟨hsound', he, ?_, fun n hn => ?_⟩
  · apply Array.ext'
    rw [Array.toList_map]
    exact hvalues
  · cases hn with
    | element hv hn => exact hmet _ (Array.mem_toList_iff.mpr hv) n hn

/-- Copying an object that is carried notes its copy. -/
theorem Faithful.copyObject (hself : Faithful h o depth self) (hintact : h.Intact)
    (ho : h.Has (.object o)) {p : ObjectRef} (hp : h.Carries o (.object p))
    (hsound : c.Sound h o unfinished) (hroom : c.Room h (depth + 1)) :
    let result := copyObject self p c
    result.2.Sound h o unfinished ∧ c.Extends result.2 ∧
      result.2.image? (.object p) = some (.object result.1) := by
  rcases hlookup : c.objects.lookup p with _ | made
  · have hhas := hintact.has_of_carries ho hp
    have hbegins := Copying.begins_object hlookup
    have hbegun := hsound.begin hbegins hp hhas
    obtain ⟨hsound', he, hmembers, hmet⟩ := hself.copyMembers hintact hp hbegun (hbegins.room hroom)
    obtain ⟨hmade, hitem⟩ := hsound'.begun_of_extends hbegins he
    rw [copyObject_of_new hlookup, show c.heap.object p = h.object p from hsound.keeps.object_eq hhas]
    refine hsound.complete hbegins he hsound' ?_ hmet
    have hfills := Copying.fills_object hmade
      (Heap.copyMembers self (h.object p).members (c.beginObject p).2).1
    rw [Item.object.inj hitem] at hfills
    simp only [hmembers] at hfills ⊢
    exact hfills
  · rw [copyObject_of_known hlookup]
    exact ⟨hsound, .refl c, by rw [Copying.image?, hlookup]; rfl⟩

/-- Copying an array that is carried notes its copy. -/
theorem Faithful.copyArray (hself : Faithful h o depth self) (hintact : h.Intact)
    (ho : h.Has (.object o)) {a : ArrayRef} (ha : h.Carries o (.array a))
    (hsound : c.Sound h o unfinished) (hroom : c.Room h (depth + 1)) :
    let result := copyArray self a c
    result.2.Sound h o unfinished ∧ c.Extends result.2 ∧
      result.2.image? (.array a) = some (.array result.1) := by
  rcases hlookup : c.arrays.lookup a with _ | made
  · have hhas := hintact.has_of_carries ho ha
    have hbegins := Copying.begins_array hlookup
    have hbegun := hsound.begin hbegins ha hhas
    obtain ⟨hsound', he, helements, hmet⟩ :=
      hself.copyElements hintact ha hbegun (hbegins.room hroom)
    have hmade := (hsound'.begun_of_extends hbegins he).1
    rw [copyArray_of_new hlookup]
    simp only [show (c.beginArray a).2.heap.elements a = h.elements a from
      hbegun.keeps.elements_eq hhas]
    refine hsound.complete hbegins he hsound' ?_ hmet
    rw [helements]
    exact Copying.fills_array hmade _
  · rw [copyArray_of_known hlookup]
    exact ⟨hsound, .refl c, by rw [Copying.image?, hlookup]; rfl⟩

/-- Without a level left there is no room: all there is was met. -/
theorem Copying.Sound.not_room_zero (hsound : c.Sound h o unfinished) (hintact : h.Intact)
    (ho : h.Has (.object o)) : ¬ c.Room h 0 := by
  have hlength : c.originals.length ≤ h.objects.size + h.arrays.size := by
    refine length_le_of_nodup hsound.nodup fun n hn => ?_
    obtain ⟨m, hm⟩ := Copying.mem_originals_iff.mp hn
    exact hintact.has_of_carries ho (hsound.carried n m hm)
  unfold Copying.Room
  omega

/-- What is not copied stands for itself. -/
theorem copied_self {v : Value} (hsound : c.Sound h o unfinished) (hnone : h.node? v = none) :
    Copied h o unfinished v c (v, c) where
  sound := hsound
  extends_ := .refl c
  value_eq := (redirected_of_none hnone _).symm
  met n hn := by rw [hnone] at hn; cases hn

/-- Whatever is carried is copied, as deep as there is room. -/
theorem faithful_copyValue (hintact : h.Intact) (ho : h.Has (.object o)) (depth : Nat) :
    Faithful h o depth (copyValue depth) := by
  induction depth with
  | zero => exact fun unfinished c v hsound hroom _ => absurd hroom (hsound.not_room_zero hintact ho)
  | succ depth ih =>
    intro unfinished c v hsound hroom hheld
    cases v with
    | object p =>
      rw [copyValue_object, hsound.keeps.isType_eq hheld.has]
      split
      · rename_i htype
        exact copied_self hsound (by simp [node?, htype])
      · rename_i hplain
        have hnode : h.node? (.object p) = some (.object p) := node?_object (by simpa using hplain)
        obtain ⟨hsound', he, himage⟩ :=
          ih.copyObject hintact ho (hheld.carried _ hnode) hsound hroom
        refine ⟨hsound', he, ?_, fun n hn => ?_⟩
        · rw [redirected_of_node? hnode, Copying.image_eq himage]
          rfl
        · obtain rfl := Option.some.inj (hnode.symm.trans hn)
          exact ⟨_, himage⟩
    | array a =>
      obtain ⟨hsound', he, himage⟩ := ih.copyArray hintact ho (hheld.carried _ rfl) hsound hroom
      rw [copyValue_array]
      refine ⟨hsound', he, ?_, fun n hn => ?_⟩
      · have hnode : h.node? (.array a) = some (.array a) := rfl
        rw [redirected_of_node? hnode, Copying.image_eq himage]
        rfl
      · obtain rfl := Option.some.inj hn
        exact ⟨_, himage⟩
    | _ => exact copied_self hsound rfl

/-! ### A whole copy -/

/-- At the start there is room for everything in the heap. -/
theorem room_start (h : Heap) : (Copying.start h).Room h (h.objects.size + h.arrays.size + 1) :=
  Nat.lt_succ_self _

/-- How far copying has come when an object is copied. -/
def copying (h : Heap) (o : ObjectRef) : Copying :=
  (copyObject (copyValue (h.objects.size + h.arrays.size)) o (.start h)).2

/-- When an object is copied, no copy is left unfinished, and the object has its copy behind the heap. -/
theorem sound_copying (hintact : h.Intact) (ho : h.Has (.object o)) :
    (h.copying o).Sound h o [] ∧
      (h.copying o).image? (.object o) = some (.object ⟨h.objects.size⟩) := by
  obtain ⟨hsound, -, himage⟩ := (faithful_copyValue hintact ho _).copyObject hintact ho .refl
    (Copying.sound_start h o) (room_start h)
  exact ⟨hsound, himage⟩

/-- The copy of an object is the heap that copying leaves, with the parent of the copy replaced if
another one is given. -/
theorem copy_eq (h : Heap) (o : ObjectRef) (parent : Option ObjectRef) :
    h.copy o parent = (⟨h.objects.size⟩, (h.copying o).heap.modifyObject ⟨h.objects.size⟩ fun copy =>
      { copy with parent := parent.or copy.parent }) := by
  cases parent with
  | some p => rfl
  | none =>
    have hsame (objects : Array Object) (i : Nat) : objects.modify i (fun o => o) = objects := by
      apply Array.ext_getElem?
      intro j
      rw [Array.getElem?_modify]
      split <;> simp
    simp only [Option.none_or, Heap.modifyObject, hsame]
    rfl

end

end Heap

end ProtoScript
