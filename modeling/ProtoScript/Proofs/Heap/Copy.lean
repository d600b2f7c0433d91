import Mathlib
import ProtoScript.Proofs.Heap.Recursion

/-!
# A copy is isomorphic to its original and apart from it

An object carries what can be reached from it through members and elements, as long as the way leads
through plain objects and arrays only.  Copying the object copies exactly these things.  `IsCopy` says
what that means: there is a bijection from what the object carries onto what is new in the heap, each
copy has the members or the elements of its original with the references along the bijection replaced,
and everything that was there before is as it was.  So sharing and loops are the same in the copy, and
whatever the copy carries is new.

The bijection is what the tables say when all copies are finished.  That there is such a moment, and only
one, is what `copiesTo_iff` says of the recursion.
-/

namespace ProtoScript

namespace Heap

/-- In the second heap, `r` is a copy of `o`, with the given parent if there is one. -/
structure IsCopy (h h' : Heap) (o r : ObjectRef) (parent : Option ObjectRef) (image : Node → Node) :
    Prop where
  object_eq : ∀ p, h.Has (.object p) → h'.object p = h.object p
  elements_eq : ∀ a, h.Has (.array a) → h'.elements a = h.elements a
  root : image (.object o) = .object r
  bijective : Set.BijOn image {n | h.Carries o n} {n | h.IsNew h' n}
  object : ∀ p, h.Carries o (.object p) → ∃ q, image (.object p) = .object q ∧
    h'.object q = ⟨(h.object p).members.map (h.redirected image),
      if p = o then parent.or (h.parent? p) else h.parent? p, .plain⟩
  array : ∀ a, h.Carries o (.array a) → ∃ b, image (.array a) = .array b ∧
    h'.elements b = (h.elements a).map (h.redirected image)

variable {h h' : Heap} {o : ObjectRef}

/-- A plain object carries no types. -/
theorem isType_of_carries (hplain : h.isType o = false) {p : ObjectRef}
    (hp : h.Carries o (.object p)) : h.isType p = false := by
  cases hp with
  | refl => exact hplain
  | tail _ hrefers =>
    cases hrefers with
    | member _ hn => exact isType_of_node? hn
    | element _ hn => exact isType_of_node? hn

/-- When no copy is left unfinished, what was met is what is carried. -/
theorem Copying.Sound.met_iff_carries {c : Copying} (hsound : c.Sound h o [])
    (hroot : ∃ m, c.image? (.object o) = some m) {n : Node} :
    (∃ m, c.image? n = some m) ↔ h.Carries o n := by
  constructor
  · rintro ⟨m, hm⟩
    exact hsound.carried n m hm
  · intro hn
    induction hn with
    | refl => exact hroot
    | @tail k n _ hrefers ih =>
      obtain ⟨m, hm⟩ := ih
      exact hsound.onward k m hm List.not_mem_nil n hrefers

/-- The tables send what is carried to what is new, one to one. -/
theorem Copying.Sound.bijOn {c : Copying} (hsound : c.Sound h o [])
    (hroot : ∃ m, c.image? (.object o) = some m) :
    Set.BijOn c.image {n | h.Carries o n} {n | h.IsNew c.heap n} := by
  have hmet (n : Node) (hn : h.Carries o n) : c.image? n = some (c.image n) := by
    obtain ⟨m, hm⟩ := (hsound.met_iff_carries hroot).mpr hn
    rw [image_eq hm, hm]
  refine ⟨?_, ?_, ?_⟩
  · intro n hn
    exact (hsound.isNew_iff _).mpr ⟨n, hmet n hn⟩
  · intro n hn k hk heq
    exact hsound.injective n k (c.image n) (hmet n hn) (heq ▸ hmet k hk)
  · intro m hm
    obtain ⟨n, hn⟩ := (hsound.isNew_iff m).mp hm
    exact ⟨n, hsound.carried n m hn, image_eq hn⟩

/-- The copy of a plain object is one. -/
theorem isCopy_copy (hintact : h.Intact) (ho : h.Has (.object o)) (hplain : h.isType o = false)
    (parent : Option ObjectRef) :
    h.IsCopy (h.copy o parent).2 o (h.copy o parent).1 parent (h.copying o).image := by
  obtain ⟨hsound, hroot⟩ := sound_copying hintact ho
  set c := h.copying o with hc
  have hfresh : ¬ h.Has (.object ⟨h.objects.size⟩) := Nat.lt_irrefl _
  have hmet (n : Node) (hn : h.Carries o n) : ∃ m, c.image? n = some m :=
    (hsound.met_iff_carries ⟨_, hroot⟩).mpr hn
  rw [copy_eq, ← hc]
  set h' := c.heap.modifyObject ⟨h.objects.size⟩ fun copy =>
    { copy with parent := parent.or copy.parent } with hh'
  have hkeeps : h.Keeps h' := hsound.keeps.modifyObject hfresh _
  have hsame (n : Node) : h.IsNew h' n ↔ h.IsNew c.heap n := by
    cases n <;> simp [IsNew, Node.value, Has, hh', Heap.modifyObject]
  refine ⟨fun p hp => hkeeps.object_eq hp, fun a ha => hkeeps.elements_eq ha,
    Copying.image_eq hroot, ?_, ?_, ?_⟩
  · simp only [hsame]
    exact hsound.bijOn ⟨_, hroot⟩
  · intro p hp
    obtain ⟨m, hm⟩ := hmet (.object p) hp
    obtain ⟨q, hq, rfl⟩ := Option.map_eq_some_iff.mp hm
    have hobject := Item.object.inj (hsound.filled _ _ hm List.not_mem_nil)
    have hkind : (h.object p).kind = .plain := by
      have hp := isType_of_carries hplain hp
      unfold isType at hp
      cases hk : (h.object p).kind <;> simp [hk, ObjectKind.isType] at hp ⊢
    have hnew : q.index < c.heap.objects.size := ((hsound.isNew_iff _).mpr ⟨_, hm⟩).1
    -- only the copy of the object itself is the first one
    have hfirst : (⟨h.objects.size⟩ : ObjectRef) = q ↔ p = o := by
      constructor
      · rintro rfl
        exact Node.object.inj (hsound.injective _ _ _ hm hroot)
      · rintro rfl
        exact Node.object.inj (Option.some.inj (hroot.symm.trans hm))
    refine ⟨q, Copying.image_eq hm, ?_⟩
    rw [hh', object_modifyObject, hobject]
    by_cases hpo : p = o
    · rw [if_pos ⟨hfirst.mpr hpo, hnew⟩, if_pos hpo, hkind]
      rfl
    · rw [if_neg fun hboth => hpo (hfirst.mp hboth.1), if_neg hpo, hkind]
      rfl
  · intro a ha
    obtain ⟨m, hm⟩ := hmet (.array a) ha
    obtain ⟨b, hb, rfl⟩ := Option.map_eq_some_iff.mp hm
    exact ⟨b, Copying.image_eq hm, Item.array.inj (hsound.filled _ _ hm List.not_mem_nil)⟩

/-! ### What the copy carries -/

namespace IsCopy

variable {r : ObjectRef} {parent : Option ObjectRef} {image : Node → Node}

/-- A value that is replaced refers to the image of what it referred to. -/
theorem node?_redirected (hcopy : h.IsCopy h' o r parent image) {v : Value} (hv : h.Has v)
    (hcarries : ∀ n, h.node? v = some n → h.Carries o n) :
    h'.node? (h.redirected image v) = (h.node? v).map image := by
  unfold redirected
  cases hn : h.node? v with
  | some n =>
    have hcarried := hcarries n hn
    cases n with
    | object p =>
      obtain ⟨q, hq, hobject⟩ := hcopy.object p hcarried
      simp only [hq, Option.map_some]
      apply node?_object
      rw [isType, hobject]
      rfl
    | array a =>
      obtain ⟨b, hb, -⟩ := hcopy.array a hcarried
      simp only [hb, Option.map_some]
      rfl
  | none =>
    -- what is not copied is a type, and stays one, or refers to nothing
    cases v with
    | object t =>
      have htype : h.isType t = true := by
        by_contra hplain
        rw [node?_object (by simpa using hplain)] at hn
        cases hn
      have htype' : h'.isType t = true := by
        rw [isType, hcopy.object_eq t hv]
        exact htype
      simp [node?, htype']
    | array a => cases hn
    | _ => rfl

/-- The images refer to each other as the originals do. -/
theorem refers_iff (hcopy : h.IsCopy h' o r parent image) (hintact : h.Intact) {m k : Node}
    (hm : h.Carries o m) : h'.Refers (image m) k ↔ ∃ n, h.Refers m n ∧ image n = k := by
  have hnode : ∀ v, h.Has v → (∀ n, h.node? v = some n → h.Refers m n) →
      (h'.node? (h.redirected image v) = some k ↔ ∃ n, h.node? v = some n ∧ image n = k) := by
    intro v hv hrefers
    rw [hcopy.node?_redirected hv fun n hn => hm.tail (hrefers n hn), Option.map_eq_some_iff]
  cases m with
  | object p =>
    obtain ⟨q, hq, hobject⟩ := hcopy.object p hm
    rw [hq]
    constructor
    · rintro (⟨hentry, hk⟩ | -)
      rw [hobject] at hentry
      obtain ⟨⟨name, v⟩, hsource, heq⟩ := List.mem_map.mp hentry
      obtain ⟨-, rfl⟩ := Prod.ext_iff.mp heq
      obtain ⟨n, hn, rfl⟩ := (hnode v (hintact.members p name v hsource)
        fun n hn => .member hsource hn).mp hk
      exact ⟨n, .member hsource hn, rfl⟩
    · rintro ⟨n, hrefers, rfl⟩
      cases hrefers with
      | @member _ name v _ hsource hn =>
        have hentry : (name, h.redirected image v) ∈ (h'.object q).members.entries := by
          rw [hobject]
          exact List.mem_map.mpr ⟨_, hsource, rfl⟩
        refine .member hentry ?_
        exact (hnode v (hintact.members p name v hsource)
          fun n hn => .member hsource hn).mpr ⟨n, hn, rfl⟩
  | array a =>
    obtain ⟨b, hb, helements⟩ := hcopy.array a hm
    rw [hb]
    constructor
    · rintro (- | ⟨hmem, hk⟩)
      rw [helements] at hmem
      obtain ⟨v, hsource, rfl⟩ := Array.mem_map.mp hmem
      obtain ⟨n, hn, rfl⟩ := (hnode v (hintact.elements a v hsource)
        fun n hn => .element hsource hn).mp hk
      exact ⟨n, .element hsource hn, rfl⟩
    · rintro ⟨n, hrefers, rfl⟩
      cases hrefers with
      | @element _ v _ hsource hn =>
        refine .element (v := h.redirected image v) ?_ ?_
        · rw [helements]
          exact Array.mem_map.mpr ⟨v, hsource, rfl⟩
        · exact (hnode v (hintact.elements a v hsource)
            fun n hn => .element hsource hn).mpr ⟨n, hn, rfl⟩

/-- What the copy carries is what is new. -/
theorem carries_iff (hcopy : h.IsCopy h' o r parent image) (hintact : h.Intact) (k : Node) :
    h'.Carries r k ↔ h.IsNew h' k := by
  have himage : h'.Carries r k ↔ ∃ n, h.Carries o n ∧ image n = k := by
    constructor
    · intro hk
      induction hk with
      | refl => exact ⟨.object o, .refl, hcopy.root⟩
      | tail _ hrefers ih =>
        obtain ⟨m, hm, rfl⟩ := ih
        obtain ⟨n, hn, rfl⟩ := (hcopy.refers_iff hintact hm).mp hrefers
        exact ⟨n, hm.tail hn, rfl⟩
    · rintro ⟨n, hn, rfl⟩
      induction hn with
      | refl =>
        rw [hcopy.root]
        exact .refl
      | tail hm hrefers ih => exact ih.tail ((hcopy.refers_iff hintact hm).mpr ⟨_, hrefers, rfl⟩)
  rw [himage]
  constructor
  · rintro ⟨n, hn, rfl⟩
    exact hcopy.bijective.mapsTo hn
  · intro hk
    exact hcopy.bijective.surjOn hk

end IsCopy

/-- **A copy is isomorphic to its original and apart from it.**  In a heap in which members and elements
lead nowhere else, the recursion that copies a plain object ends, in one way only and with the copy, and
so does every bound on its depth from the number of objects and arrays on.  The copy leaves everything
that was there as it was.  There is a bijection from what the object carries onto what is new: each copy
has the members or elements of its original, with plain objects and arrays replaced by their copies and
all other values as they were, and the parent of its original, except that the copy of the object itself
has the given parent if there is one.  What the copy carries is exactly what is new. -/
theorem copy_isomorphic (hintact : h.Intact) (ho : h.Has (.object o)) (hplain : h.isType o = false)
    (parent : Option ObjectRef) :
    (∀ r h', h.CopiesTo o parent r h' ↔ h.copy o parent = (r, h')) ∧
    (∀ bound, h.objects.size + h.arrays.size ≤ bound →
      h.copyWithin bound o parent = h.copy o parent) ∧
    ∃ image, h.IsCopy (h.copy o parent).2 o (h.copy o parent).1 parent image ∧
      ∀ n, (h.copy o parent).2.Carries (h.copy o parent).1 n ↔ h.IsNew (h.copy o parent).2 n := by
  have hcopy := isCopy_copy hintact ho hplain parent
  refine ⟨copiesTo_iff hintact ho hplain parent (Nat.le_refl _), fun bound hbound => ?_, _, hcopy,
    hcopy.carries_iff hintact⟩
  exact copyWithin_eq_copy hintact ho hplain parent hbound

/-- A plain object that holds a type and, twice, an array with the object itself in it. -/
def looped : Heap where
  objects := #[.plain none ⟨[("xs", .array ⟨0⟩), ("ys", .array ⟨0⟩), ("t", .object ⟨1⟩)]⟩,
    .type "T" none ⟨[("n", .int 1)]⟩ false]
  arrays := #[#[.object ⟨0⟩, .int 5]]

/-- The loop of `looped` is copied: one object and one array are new, and they refer to each other. -/
theorem copy_isomorphic_looped :
    looped.Intact ∧ looped.isType ⟨0⟩ = false ∧
    looped.CopiesTo ⟨0⟩ (some ⟨1⟩) ⟨2⟩ (looped.copy ⟨0⟩ (some ⟨1⟩)).2 ∧
    (∀ bound, 3 ≤ bound →
      looped.copyWithin bound ⟨0⟩ (some ⟨1⟩) = looped.copy ⟨0⟩ (some ⟨1⟩)) ∧
    ∃ image, looped.IsCopy (looped.copy ⟨0⟩ (some ⟨1⟩)).2 ⟨0⟩ ⟨2⟩ (some ⟨1⟩) image ∧
      ∀ n, (looped.copy ⟨0⟩ (some ⟨1⟩)).2.Carries ⟨2⟩ n ↔
        n = .object ⟨2⟩ ∨ n = .array ⟨1⟩ := by
  have hintact : looped.Intact := by
    refine ⟨?_, ?_⟩
    · rintro ⟨_ | _ | i⟩ name v hmem <;>
        simp [Heap.object, looped, Object.plain, Object.type, NameMap.empty] at hmem
      · rcases hmem with ⟨-, rfl⟩ | ⟨-, rfl⟩ | ⟨-, rfl⟩ <;> simp [Has, looped]
      · rw [hmem.2]
        trivial
    · rintro ⟨_ | i⟩ v hmem <;> simp [Heap.elements, looped] at hmem
      rcases hmem with rfl | rfl <;> simp [Has, looped]
  have ho : looped.Has (.object ⟨0⟩) := by simp [Has, looped]
  obtain ⟨hruns, hbound, image, hcopy, hcarries⟩ := copy_isomorphic hintact ho rfl (some ⟨1⟩)
  refine ⟨hintact, rfl, (hruns _ _).mpr rfl, hbound, image, hcopy, ?_⟩
  intro n
  have hobjects : (looped.copy ⟨0⟩ (some ⟨1⟩)).2.objects.size = 3 := by decide +kernel
  have harrays : (looped.copy ⟨0⟩ (some ⟨1⟩)).2.arrays.size = 2 := by decide +kernel
  refine (hcarries n).trans ?_
  rcases n with ⟨⟨i⟩⟩ | ⟨⟨i⟩⟩
  · simp only [IsNew, Node.value, Has, hobjects]
    simp [looped]
    omega
  · simp only [IsNew, Node.value, Has, harrays]
    simp [looped]
    omega

end Heap

end ProtoScript
