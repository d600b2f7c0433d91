import ProtoScript.Eval.Native.Object
import ProtoScript.Proofs.Heap.Copying

/-!
# Copies, properties and merged types keep the heap closed

The operations that add more than one thing to the heap.  A copy adds the copies of everything that is
reached from an object, and they refer to each other or to what was there before.  The type of a
property, and the type with the members of two types, may need unions, which are added one by one.
-/

namespace ProtoScript

namespace NameMap

variable {α : Type}

/-- What is in a map after a name got a value. -/
theorem mem_insert {m : NameMap α} {name : String} {a : α} {entry : String × α}
    (hentry : entry ∈ (m.insert name a).entries) : entry.2 = a ∨ entry ∈ m.entries := by
  have hset (entries : List (String × α)) (hentry : entry ∈ set name a entries) :
      entry.2 = a ∨ entry ∈ entries := by
    induction entries with
    | nil =>
      obtain rfl := List.mem_singleton.mp hentry
      exact .inl rfl
    | cons first entries ih =>
      obtain ⟨key, b⟩ := first
      unfold set at hentry
      split at hentry
      · rcases List.mem_cons.mp hentry with rfl | hrest
        · exact .inl rfl
        · exact .inr (List.mem_cons_of_mem _ hrest)
      · rcases List.mem_cons.mp hentry with rfl | hrest
        · exact .inr List.mem_cons_self
        · exact (ih hrest).imp_right (List.mem_cons_of_mem _)
  exact hset m.entries hentry

end NameMap

namespace Heap

variable {h : Heap}

/-! ## Members -/

/-- No members at all are in every heap. -/
theorem hasMembers_empty (h : Heap) : h.HasMembers .empty :=
  fun _ _ hv => absurd hv List.not_mem_nil

/-- One more member whose value is in the heap. -/
theorem HasMembers.insert {m : Members} (hm : h.HasMembers m) {v : Value} (hv : h.Has v)
    (name : String) : h.HasMembers (m.insert name v) := by
  intro key w hw
  rcases NameMap.mem_insert hw with heq | hmem
  · rw [show w = v from heq]
    exact hv
  · exact hm key w hmem

/-- Members of the heap, given more members of the heap. -/
theorem HasMembers.insertAll {m others : Members} (hm : h.HasMembers m)
    (hothers : h.HasMembers others) : h.HasMembers (m.insertAll others) := by
  have hfold (entries : List (String × Value)) (hentries : ∀ entry ∈ entries, h.Has entry.2)
      (m : Members) (hm : h.HasMembers m) :
      h.HasMembers (entries.foldl (fun m entry => m.insert entry.1 entry.2) m) := by
    induction entries generalizing m with
    | nil => exact hm
    | cons entry entries ih =>
      exact ih (fun e he => hentries e (List.mem_cons_of_mem _ he)) _
        (hm.insert (hentries entry List.mem_cons_self) entry.1)
  exact hfold others.entries (fun entry hentry => hothers entry.1 entry.2 hentry) m hm

/-- Some of the members of an object. -/
theorem HasMembers.select {m : Members} (hm : h.HasMembers m) (p : Value → Bool) :
    h.HasMembers (Eval.selectMembers p m) :=
  fun name v hv => hm name v (List.mem_filter.mp hv).1

/-! ## Copies -/

/-- A closed heap is one whose objects refer to what is in it and whose arrays hold what is in it. -/
theorem Closed.intact (hc : h.Closed) : h.Intact :=
  ⟨hc.members, hc.elements⟩

/-- Replacing a reference by one to the copy leads into the new heap. -/
theorem Copying.Sound.has_redirected {c : Copying} {o : ObjectRef} (hsound : c.Sound h o []) {v : Value}
    (hv : h.Has v) : c.heap.Has (h.redirected c.image v) := by
  cases hnode : h.node? v with
  | none =>
    rw [redirected_of_none hnode]
    exact hsound.keeps.grown.has hv
  | some n =>
    rw [redirected_of_node? hnode]
    rcases himage : c.image? n with _ | m
    · rw [Copying.image, himage, Option.getD_none, ← eq_value_of_node? hnode]
      exact hsound.keeps.grown.has hv
    · rw [Copying.image_eq himage]
      exact ((hsound.isNew_iff m).mpr ⟨n, himage⟩).1

/-- Finished copies refer to what is in the heap, if the originals do. -/
theorem Copying.Sound.closed {c : Copying} {o : ObjectRef} (hsound : c.Sound h o []) (hc : h.Closed) :
    c.heap.Closed := by
  have hg := hsound.keeps.grown
  refine closed_of_hasObject (fun q => ?_) (fun b v hv => ?_)
  · by_cases hq : h.Has (.object q)
    · rw [hsound.keeps.object_eq hq]
      exact hg.hasObject (hc.hasObject q)
    · by_cases hq' : c.heap.Has (.object q)
      · obtain ⟨n, hn⟩ := (hsound.isNew_iff (.object q)).mp ⟨hq', hq⟩
        have hitem := hsound.filled n _ hn List.not_mem_nil
        cases n with
        | object p =>
          have hsource := hg.hasObject (hc.hasObject p)
          rw [Item.object.inj hitem]
          refine ⟨fun name v hv => ?_, hsource.parent, hsource.sides, hsource.named⟩
          obtain ⟨entry, hentry, heq⟩ := List.mem_map.mp hv
          obtain ⟨-, rfl⟩ := Prod.ext_iff.mp heq
          exact hsound.has_redirected (hc.members p entry.1 entry.2 hentry)
        | array a => cases hitem
      · rw [object, Array.getElem?_eq_none (Nat.le_of_not_lt hq')]
        exact hasObject_plain _
  · by_cases hb : h.Has (.array b)
    · rw [hsound.keeps.elements_eq hb] at hv
      exact hg.has (hc.elements b v hv)
    · by_cases hb' : c.heap.Has (.array b)
      · obtain ⟨n, hn⟩ := (hsound.isNew_iff (.array b)).mp ⟨hb', hb⟩
        have hitem := hsound.filled n _ hn List.not_mem_nil
        cases n with
        | object p => cases hitem
        | array a =>
          rw [Item.array.inj hitem] at hv
          obtain ⟨w, hw, rfl⟩ := Array.mem_map.mp hv
          exact hsound.has_redirected (hc.elements a w hw)
      · rw [elements, Array.getElem?_eq_none (Nat.le_of_not_lt hb')] at hv
        simp at hv

/-- A copy keeps the heap closed, whichever parent it gets. -/
theorem Closed.copy (hc : h.Closed) {o : ObjectRef} (ho : h.Has (.object o)) {parent : Option ObjectRef}
    (hparent : ∀ p, parent = some p → h.Has (.object p)) :
    h.Evolves (h.copy o parent).2 ∧ (h.copy o parent).2.Has (.object (h.copy o parent).1) := by
  obtain ⟨hsound, hroot⟩ := sound_copying hc.intact ho
  have hclosed := hsound.closed hc
  have hmade := ((hsound.isNew_iff _).mpr ⟨_, hroot⟩).1
  rw [copy_eq]
  refine ⟨⟨hclosed.replaceObject _ (.inl rfl) ?_, ?_⟩, (has_modifyObject ..).mpr hmade⟩
  · have hcopy := hclosed.hasObject ⟨h.objects.size⟩
    refine ⟨hcopy.members, fun p hp => ?_, hcopy.sides, hcopy.named⟩
    rcases Option.or_eq_some_iff.mp hp with hp | ⟨-, hp⟩
    · exact hsound.keeps.grown.has (hparent p hp)
    · exact hcopy.parent p hp
  · exact (hsound.keeps.modifyObject (Nat.lt_irrefl _) _).grown

/-! ## Properties -/

/-- Adding a union of two types keeps the heap closed, and the union is a type. -/
theorem Closed.addUnion (hc : h.Closed) {l r : ObjectRef} (hl : h.isType l = true)
    (hr : h.isType r = true) :
    h.Evolves (h.addObject (.union l r)).2 ∧
      (h.addObject (.union l r)).2.isType (h.addObject (.union l r)).1 = true := by
  have hobject : h.HasObject (.union l r) := by
    refine ⟨hasMembers_empty h, nofun, fun l' r' hkind => ?_, nofun⟩
    obtain ⟨rfl, rfl⟩ := ObjectKind.union.inj hkind
    exact ⟨hl, hr⟩
  refine ⟨(hc.addObject hobject).1, ?_⟩
  rw [isType, object_addObject_self]
  rfl

/-- Looking for the type of a property may add unions to the heap, and finds a type. -/
theorem evolves_propertyWithin {resolve : Resolver} (name : String) (fuel : Nat) (hc : h.Closed)
    (hresolve : ∀ v t, resolve v = some t → h.isType t = true) (t : ObjectRef) :
    h.Evolves (propertyWithin resolve name fuel h t).2 ∧
      ∀ p, (propertyWithin resolve name fuel h t).1 = some p →
        (propertyWithin resolve name fuel h t).2.isType p = true := by
  induction fuel generalizing h t with
  | zero => exact ⟨⟨hc, .refl h⟩, nofun⟩
  | succ fuel ih =>
    rcases hkind : (h.object t).kind with _ | ⟨n, nominal⟩ | ⟨l, r⟩
    case union =>
      obtain ⟨heleft, hleft⟩ := ih hc hresolve l
      simp only [propertyWithin, hkind]
      set left := propertyWithin resolve name fuel h l
      obtain ⟨heright, hright⟩ :=
        ih heleft.closed (fun v t ht => heleft.grown.isType (hresolve v t ht)) r
      set right := propertyWithin resolve name fuel left.2 r
      have he := heleft.trans heright
      rcases hl : left.1 with _ | a
      · exact ⟨he, hright⟩
      · have ha := heright.grown.isType (hleft a hl)
        rcases hr : right.1 with _ | b
        · refine ⟨he, fun p hp => ?_⟩
          obtain rfl := Option.some.inj hp
          exact ha
        · obtain ⟨heunion, hunion⟩ := heright.closed.addUnion ha (hright b hr)
          refine ⟨he.trans heunion, fun p hp => ?_⟩
          obtain rfl := Option.some.inj hp
          exact hunion
    all_goals
      simp only [propertyWithin, hkind]
      refine ⟨⟨hc, .refl h⟩, fun p hp => ?_⟩
      obtain ⟨v, -, hv⟩ := Option.bind_eq_some_iff.mp hp
      exact isType_of_memberType? hresolve hv

/-- Finding the type of a property keeps the heap closed, and finds a type. -/
theorem Closed.property (hc : h.Closed) {resolve : Resolver}
    (hresolve : ∀ v t, resolve v = some t → h.isType t = true) (t : ObjectRef) (name : String) :
    h.Evolves (h.property resolve t name).2 ∧
      ∀ p, (h.property resolve t name).1 = some p → (h.property resolve t name).2.isType p = true :=
  evolves_propertyWithin name _ hc hresolve t

/-! ## Merged types -/

/-- Merging two members may add a union to the heap, and yields a value of the heap. -/
theorem Closed.mergeMember (hc : h.Closed) {resolve : Resolver}
    (hresolve : ∀ v t, resolve v = some t → h.isType t = true) {v : Value} (hv : h.Has v) (w : Value) :
    h.Evolves (h.mergeMember resolve v w).2 ∧
      (h.mergeMember resolve v w).2.Has (h.mergeMember resolve v w).1 := by
  have hsame : h.Evolves h ∧ h.Has v := ⟨⟨hc, .refl h⟩, hv⟩
  unfold Heap.mergeMember
  split
  · rename_i s t hs ht
    split
    · exact hsame
    · obtain ⟨he, hunion⟩ :=
        hc.addUnion (isType_of_memberType? hresolve hs) (isType_of_memberType? hresolve ht)
      exact ⟨he, has_of_isType hunion⟩
  · exact hsame

/-- Merging members one after the other may add unions to the heap, and yields members of the heap. -/
theorem evolves_mergeMembers {resolve : Resolver} {first : Members} (hc : h.Closed)
    (hresolve : ∀ v t, resolve v = some t → h.isType t = true) (hfirst : h.HasMembers first)
    {entries : List (String × Value)} (hentries : ∀ entry ∈ entries, h.Has entry.2) {m : Members}
    (hm : h.HasMembers m) :
    h.Evolves (mergeMembers resolve first entries (m, h)).2 ∧
      (mergeMembers resolve first entries (m, h)).2.HasMembers
        (mergeMembers resolve first entries (m, h)).1 := by
  induction entries generalizing m h with
  | nil => exact ⟨⟨hc, .refl h⟩, hm⟩
  | cons entry entries ih =>
    obtain ⟨name, v⟩ := entry
    have hrest : ∀ entry ∈ entries, h.Has entry.2 := fun e he => hentries e (List.mem_cons_of_mem _ he)
    rcases hu : first.get? name with _ | u
    · simp only [mergeMembers, hu]
      exact ih hc hresolve hfirst hrest (hm.insert (hentries _ List.mem_cons_self) name)
    · obtain ⟨he, hw⟩ := hc.mergeMember hresolve (hfirst name u (NameMap.mem_of_find? hu)) v
      simp only [mergeMembers, hu]
      obtain ⟨he', hm'⟩ := ih he.closed (fun v t ht => he.grown.isType (hresolve v t ht))
        (he.grown.hasMembers hfirst) (fun e hmem => he.grown.has (hrest e hmem))
        ((he.grown.hasMembers hm).insert hw name)
      exact ⟨he.trans he', hm'⟩

/-- Merging two types keeps the heap closed, and the merged type refers to what is in it. -/
theorem Closed.merge (hc : h.Closed) {resolve : Resolver}
    (hresolve : ∀ v t, resolve v = some t → h.isType t = true) (a b : ObjectRef) :
    h.Evolves (h.merge resolve a b).2 ∧ (h.merge resolve a b).2.HasObject (h.merge resolve a b).1 := by
  obtain ⟨he, hm⟩ := evolves_mergeMembers hc hresolve (hc.members a)
    (fun entry hentry => hc.members b entry.1 entry.2 hentry) (hc.members a)
  refine ⟨he, hm, fun p hp => he.grown.has (hc.parent a p hp), nofun, fun hkind => ?_⟩
  exact Bool.false_ne_true (ObjectKind.type.inj hkind).2

end Heap

end ProtoScript
