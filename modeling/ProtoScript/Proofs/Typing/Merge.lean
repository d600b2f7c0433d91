import ProtoScript.Heap.Combine
import ProtoScript.Proofs.Typing.Reordering
import ProtoScript.Proofs.Typing.Termination

/-!
# Merged types accept both sides

The merge of two types has the members of both.  For a name that both have, it keeps the member of the
first type if the type of that accepts the type of the other one, and has a new union of the two
otherwise.  Either way, the type of the merged member accepts both: a type accepts itself, and a union
accepts both of its sides, whatever the comparison has seen by the time it gets to the second one.

Unions are added to the heap one by one, and each further comparison is made in a larger heap than the
one before.  That makes no difference: what a comparison demands depends on the objects that its links
lead to, and on a heap whose links stay inside it these are as they were.
-/

namespace ProtoScript

namespace NameMap

variable {α : Type}

/-- The names are those that have a value. -/
theorem mem_names_iff {m : NameMap α} {name : String} : name ∈ m.names ↔ ∃ a, m.get? name = some a := by
  obtain ⟨entries⟩ := m
  simp only [names, get?]
  induction entries with
  | nil => simp [find?]
  | cons entry entries ih =>
    obtain ⟨key, a⟩ := entry
    by_cases hkey : key = name
    · simp [find?, hkey]
    · simp [find?, hkey, ih, Ne.symm hkey]

end NameMap

namespace Heap

/-- Objects may have been added; those that were there, and all arrays, are as they were. -/
structure Enlarged (h h' : Heap) : Prop where
  size_le : h.objects.size ≤ h'.objects.size
  object_eq : ∀ o, h.Has (.object o) → h'.object o = h.object o
  arrays_eq : h'.arrays = h.arrays

/-- In the second heap, a type is the merge of two types of the first one.  It is structural and has the
parent of the first type and the names of both.  What it has for a name accepts the type that either of
the two has for it, and is what one of them has if the other one has nothing. -/
structure IsMerge (h h' : Heap) (resolve : Resolver) (a b u : ObjectRef) : Prop where
  structural : ∃ name, (h'.object u).kind = .type name false
  parent?_eq : h'.parent? u = h.parent? a
  mem_names_iff : ∀ name, name ∈ (h'.object u).members.names ↔
    name ∈ (h.object a).members.names ∨ name ∈ (h.object b).members.names
  accepts : ∀ name v t, h.ownMember? a name = some v ∨ h.ownMember? b name = some v →
    h.memberType? resolve v = some t →
      ∃ w s, h'.ownMember? u name = some w ∧ h'.memberType? resolve w = some s ∧
        h'.accepts resolve s t = true
  alone : ∀ name v, h.ownMember? a name = some v ∧ h.ownMember? b name = none ∨
    h.ownMember? a name = none ∧ h.ownMember? b name = some v → h'.ownMember? u name = some v

namespace Enlarged

variable {h h' h'' : Heap}

theorem refl (h : Heap) : h.Enlarged h :=
  ⟨Nat.le_refl _, fun _ _ => rfl, rfl⟩

/-- Objects of a heap are objects of a larger one. -/
theorem has (he : h.Enlarged h') {o : ObjectRef} (ho : h.Has (.object o)) : h'.Has (.object o) :=
  Nat.lt_of_lt_of_le ho he.size_le

theorem trans (he : h.Enlarged h') (he' : h'.Enlarged h'') : h.Enlarged h'' := by
  refine ⟨Nat.le_trans he.size_le he'.size_le, ?_, he'.arrays_eq.trans he.arrays_eq⟩
  intro o ho
  rw [he'.object_eq o (he.has ho), he.object_eq o ho]

/-- A heap gets larger by a new object. -/
theorem addObject (h : Heap) (o : Object) : h.Enlarged (h.addObject o).2 := by
  refine ⟨?_, fun r hr => object_addObject_of_lt hr o, rfl⟩
  simp [Heap.addObject]

/-- In a larger heap the same objects are types. -/
theorem isType_eq (he : h.Enlarged h') {o : ObjectRef} (ho : h.Has (.object o)) :
    h'.isType o = h.isType o := by
  rw [isType, isType, he.object_eq o ho]

/-- What a member stands for stays the same. -/
theorem memberType?_eq (he : h.Enlarged h') (resolve : Resolver) {v : Value}
    (hv : ∀ o, v = .object o → h.Has (.object o)) :
    h'.memberType? resolve v = h.memberType? resolve v := by
  cases v with
  | object o => simp only [memberType?, he.isType_eq (hv o rfl)]
  | _ => rfl

/-- In a larger heap members are compared as before. -/
theorem memberComparison?_eq (he : h.Enlarged h') (resolve : Resolver) {v w : Value}
    (hv : ∀ o, v = .object o → h.Has (.object o)) (hw : ∀ o, w = .object o → h.Has (.object o)) :
    h'.memberComparison? resolve v w = h.memberComparison? resolve v w := by
  unfold memberComparison?
  rw [he.memberType?_eq resolve hv, he.memberType?_eq resolve hw]
  cases v with
  | object o =>
    cases w with
    | object p => simp only [he.isType_eq (hv o rfl), he.isType_eq (hw p rfl)]
    | _ => rfl
  | _ => rfl

end Enlarged

/-! ### Comparisons in a larger heap -/

section

variable {h h' : Heap} {resolve : Resolver}

/-- An object that is a member is in the heap. -/
theorem Linked.has_of_mem (hlinked : h.Linked resolve) {o : ObjectRef} {name : String} {v : Value}
    (hv : (name, v) ∈ (h.object o).members.entries) : ∀ p, v = .object p → h.Has (.object p) := by
  rintro p rfl
  exact hlinked.member o name p hv

/-- In a larger heap members demand the same of each other. -/
theorem Linked.membersDemand_eq (hlinked : h.Linked resolve) (he : h.Enlarged h') (a b : ObjectRef) :
    h'.membersDemand resolve (h.object a).members (h.object b).members =
      h.membersDemand resolve (h.object a).members (h.object b).members := by
  unfold membersDemand
  congr 1
  apply List.map_congr_left
  rintro ⟨name, v⟩ hv
  congr 1
  cases hw : (h.object b).members.get? name with
  | none => rfl
  | some w =>
    exact he.memberComparison?_eq resolve (hlinked.has_of_mem hv) (hlinked.has_of_mem (NameMap.mem_of_find? hw))

/-- What a comparison of objects of the heap demands stays the same. -/
theorem Linked.demand_eq (hlinked : h.Linked resolve) (he : h.Enlarged h') {c : Comparison}
    (hc : h.HasPair (c.declared, c.actual)) : h'.demand resolve c = h.demand resolve c := by
  have hdeclared := he.object_eq c.declared hc.1
  have hactual := he.object_eq c.actual hc.2
  have hmembers := hlinked.membersDemand_eq he c.declared c.actual
  rcases c with ⟨a, b⟩ | ⟨a, b⟩ <;> simp only [Comparison.declared, Comparison.actual] at *
  · simp only [demand, kindsDemand, structureDemand, parent?, hdeclared, hactual, hmembers]
  · simp only [demand, hdeclared, hactual, hmembers]

/-- In a larger heap the comparison comes to the same. -/
theorem Linked.compareWithin_eq (hlinked : h.Linked resolve) (he : h.Enlarged h') (fuel : Nat)
    {c : Comparison} (hc : h.HasPair (c.declared, c.actual)) :
    compareWithin h' resolve fuel c = compareWithin h resolve fuel c := by
  induction fuel generalizing c with
  | zero => rfl
  | succ fuel ih =>
    have hsearch : (h.demand resolve c).search (compareWithin h' resolve fuel) =
        (h.demand resolve c).search (compareWithin h resolve fuel) :=
      Demand.search_congr fun c' hc' => ih (hlinked.staysIn_comparing c c' hc hc')
    funext seen
    rw [compareWithin, compareWithin, compareStep_apply, compareStep_apply, hlinked.demand_eq he hc,
      hsearch]

/-- Whether a type of the heap accepts another one stays the same. -/
theorem Linked.accepts_eq (hlinked : h.Linked resolve) (he : h.Enlarged h') {a b : ObjectRef}
    (hab : h.HasPair (a, b)) : h'.accepts resolve a b = h.accepts resolve a b := by
  have hbound : h.pairBound ≤ h'.pairBound :=
    Nat.succ_le_succ (Nat.mul_le_mul he.size_le he.size_le)
  rw [accepts, hlinked.compareWithin_eq he _ (c := .types a b) hab, compareWithin_eq_iterate]
  exact (hlinked.accepts_runs hab).2 _ _ hbound

/-! ### What accepts what in any case -/

/-- Every type accepts itself. -/
theorem accepts_self (h : Heap) (resolve : Resolver) (a : ObjectRef) : h.accepts resolve a a = true := by
  refine accepts_of_consistent (S := fun c => c.declared = c.actual) ?_ rfl
  exact fun c hc => .inl hc

/-- A union accepts both of its sides. -/
theorem accepts_side {u l r : ObjectRef} (hkind : (h.object u).kind = .union l r) {side : ObjectRef}
    (hside : side = l ∨ side = r) : h.accepts resolve u side = true := by
  refine accepts_of_consistent (S := fun c => c.declared = c.actual ∨ c = .types u side) ?_ (.inr rfl)
  rintro c (hc | rfl)
  · exact .inl hc
  · refine .inr ?_
    simp only [demand, kindsDemand, hkind]
    rcases hside with rfl | rfl
    · exact .inl (.inl rfl)
    · exact .inr (.inl rfl)

/-! ### Merging members -/

/-- In the second heap, a value is what the merge has for a name: the member of the second type if the
first one has none, and otherwise the member of the first if its type accepts that of the second, or a
union of both types. -/
def Unites (h h' : Heap) (resolve : Resolver) : Option Value → Value → Value → Prop
  | none, w, x => x = w
  | some v, w, x => ∃ s t, h.memberType? resolve v = some s ∧ h.memberType? resolve w = some t ∧
      (h.accepts resolve s t = true ∧ x = v ∨ ∃ u, x = .object u ∧ (h'.object u).kind = .union s t)

/-- What unites two members still does in a larger heap. -/
theorem Unites.mono {h'' : Heap} (he : h'.Enlarged h'') {v : Option Value} {w x : Value}
    (hx : h.Unites h' resolve v w x) : h.Unites h'' resolve v w x := by
  cases v with
  | none => exact hx
  | some v =>
    obtain ⟨s, t, hs, ht, hx⟩ := hx
    refine ⟨s, t, hs, ht, hx.imp_right ?_⟩
    rintro ⟨u, rfl, hkind⟩
    have htype : h'.isType u = true := by
      rw [isType, hkind]
      rfl
    exact ⟨u, rfl, by rw [he.object_eq u (has_of_isType htype), hkind]⟩

/-- The type of what the merge has accepts the type of every member that it stands for. -/
theorem Unites.accepts (hlinked : h.Linked resolve) (he : h.Enlarged h') {a b : ObjectRef}
    {name : String} {w x : Value} (hw : (name, w) ∈ (h.object b).members.entries)
    (hx : h.Unites h' resolve ((h.object a).members.get? name) w x) {y : Value} {t : ObjectRef}
    (hy : (h.object a).members.get? name = some y ∨ w = y) (ht : h.memberType? resolve y = some t) :
    ∃ u, h'.memberType? resolve x = some u ∧ h'.accepts resolve u t = true := by
  cases hv : (h.object a).members.get? name with
  | none =>
    rw [hv] at hx hy
    obtain rfl : w = y := hy.resolve_left nofun
    obtain rfl : x = w := hx
    refine ⟨t, ?_, accepts_self h' resolve t⟩
    rw [he.memberType?_eq resolve (hlinked.has_of_mem hw), ht]
  | some v =>
    rw [hv] at hx hy
    obtain ⟨s, s', hs, hs', hx⟩ := hx
    have hmem : (name, v) ∈ (h.object a).members.entries := NameMap.mem_of_find? hv
    have hside : t = s ∨ t = s' := by
      rcases hy with hy | rfl
      · obtain rfl := Option.some.inj hy
        exact .inl (Option.some.inj (ht.symm.trans hs))
      · exact .inr (Option.some.inj (ht.symm.trans hs'))
    rcases hx with ⟨haccepts, rfl⟩ | ⟨u, rfl, hkind⟩
    · refine ⟨s, ?_, ?_⟩
      · rw [he.memberType?_eq resolve (hlinked.has_of_mem hmem), hs]
      · rcases hside with rfl | rfl
        · exact accepts_self h' resolve t
        · rw [hlinked.accepts_eq he ⟨hlinked.has_memberType hmem hs, hlinked.has_memberType hw hs'⟩]
          exact haccepts
    · have htype : h'.isType u = true := by
        rw [isType, hkind]
        rfl
      refine ⟨u, ?_, accepts_side hkind hside⟩
      simp only [memberType?, htype, if_true]

/-- Every member of an object stands for a type. -/
def Typed (h : Heap) (resolve : Resolver) (o : ObjectRef) : Prop :=
  ∀ name v, (name, v) ∈ (h.object o).members.entries → ∃ t, h.memberType? resolve v = some t

/-- One step of the merge, in a heap that has grown since the merge began. -/
theorem mergeMembers_cons (hlinked : h.Linked resolve) {a b : ObjectRef} (ha : h.Typed resolve a)
    (hb : h.Typed resolve b) (he : h.Enlarged h') {name : String} {w : Value}
    (hw : (name, w) ∈ (h.object b).members.entries) (entries : List (String × Value)) (m : Members) :
    ∃ x h'', h'.Enlarged h'' ∧ h.Unites h'' resolve ((h.object a).members.get? name) w x ∧
      mergeMembers resolve (h.object a).members ((name, w) :: entries) (m, h') =
        mergeMembers resolve (h.object a).members entries (m.insert name x, h'') := by
  cases hv : (h.object a).members.get? name with
  | none =>
    refine ⟨w, h', .refl h', rfl, ?_⟩
    rw [mergeMembers, hv]
  | some v =>
    have hmem : (name, v) ∈ (h.object a).members.entries := NameMap.mem_of_find? hv
    obtain ⟨s, hs⟩ := ha name v hmem
    obtain ⟨t, ht⟩ := hb name w hw
    have hs' : h'.memberType? resolve v = some s := by
      rw [he.memberType?_eq resolve (hlinked.has_of_mem hmem), hs]
    have ht' : h'.memberType? resolve w = some t := by
      rw [he.memberType?_eq resolve (hlinked.has_of_mem hw), ht]
    have haccepts := hlinked.accepts_eq he
      ⟨hlinked.has_memberType hmem hs, hlinked.has_memberType hw ht⟩
    by_cases hok : h.accepts resolve s t = true
    · refine ⟨v, h', .refl h', ⟨s, t, hs, ht, .inl ⟨hok, rfl⟩⟩, ?_⟩
      rw [mergeMembers, hv]
      simp only [mergeMember, hs', ht', haccepts, hok, if_true]
    · refine ⟨.object (h'.addObject (.union s t)).1, (h'.addObject (.union s t)).2, .addObject h' _,
        ⟨s, t, hs, ht, .inr ⟨_, rfl, ?_⟩⟩, ?_⟩
      · rw [object_addObject_self]
        rfl
      · rw [mergeMembers, hv]
        simp only [mergeMember, hs', ht', haccepts, hok]
        rfl

/-- The whole merge: the names of the second type get what the merge has for them, and all other names
keep their values. -/
theorem mergeMembers_unites (hlinked : h.Linked resolve) {a b : ObjectRef} (ha : h.Typed resolve a)
    (hb : h.Typed resolve b) {entries : List (String × Value)}
    (hentries : ∀ entry ∈ entries, entry ∈ (h.object b).members.entries)
    (hnames : (entries.map (·.1)).Nodup) (he : h.Enlarged h') (m : Members) :
    h'.Enlarged (mergeMembers resolve (h.object a).members entries (m, h')).2 ∧
      ∀ name, match NameMap.find? name entries with
        | none => (mergeMembers resolve (h.object a).members entries (m, h')).1.get? name = m.get? name
        | some w => ∃ x, (mergeMembers resolve (h.object a).members entries (m, h')).1.get? name = some x ∧
            h.Unites (mergeMembers resolve (h.object a).members entries (m, h')).2 resolve
              ((h.object a).members.get? name) w x := by
  induction entries generalizing m h' with
  | nil => exact ⟨.refl h', fun name => rfl⟩
  | cons entry entries ih =>
    obtain ⟨key, w⟩ := entry
    obtain ⟨hkey, hnames⟩ := List.nodup_cons.mp hnames
    obtain ⟨x, h'', he', hx, hstep⟩ := mergeMembers_cons hlinked ha hb he
      (hentries _ List.mem_cons_self) entries m
    obtain ⟨hgrown, hrest⟩ := ih (fun e hmem => hentries e (List.mem_cons_of_mem _ hmem)) hnames
      (he.trans he') (m.insert key x)
    rw [hstep]
    refine ⟨he'.trans hgrown, fun name => ?_⟩
    have hname := hrest name
    by_cases heq : key = name
    · subst heq
      have hnone : NameMap.find? key entries = none := by
        by_contra hsome
        obtain ⟨w', hw'⟩ := Option.ne_none_iff_exists'.mp hsome
        exact hkey (List.mem_map.mpr ⟨_, NameMap.mem_of_find? hw', rfl⟩)
      rw [hnone] at hname
      simp only [NameMap.find?, if_true]
      refine ⟨x, ?_, hx.mono hgrown⟩
      rw [hname, NameMap.get?_insert, if_pos rfl]
    · rw [NameMap.find?, if_neg heq]
      rwa [NameMap.get?_insert, if_neg heq] at hname

/-- In the second heap, an object has for each name of two types of the first one what unites their
members. -/
structure HasBoth (h h' : Heap) (resolve : Resolver) (a b u : ObjectRef) : Prop where
  of_none : ∀ name, h.ownMember? b name = none → h'.ownMember? u name = h.ownMember? a name
  of_some : ∀ name w, h.ownMember? b name = some w →
    ∃ x, h'.ownMember? u name = some x ∧ h.Unites h' resolve (h.ownMember? a name) w x

namespace HasBoth

variable {a b u : ObjectRef}

/-- The merge has the names of both sides. -/
theorem mem_names_iff (hu : h.HasBoth h' resolve a b u) (name : String) :
    name ∈ (h'.object u).members.names ↔
      name ∈ (h.object a).members.names ∨ name ∈ (h.object b).members.names := by
  rw [NameMap.mem_names_iff, NameMap.mem_names_iff, NameMap.mem_names_iff]
  change (∃ x, h'.ownMember? u name = some x) ↔
    (∃ v, h.ownMember? a name = some v) ∨ ∃ w, h.ownMember? b name = some w
  cases hname : h.ownMember? b name with
  | none =>
    rw [hu.of_none name hname]
    simp
  | some w =>
    obtain ⟨x, hx, -⟩ := hu.of_some name w hname
    simp [hx]

/-- The merge accepts what either side has under a name. -/
theorem accepts (hu : h.HasBoth h' resolve a b u) (hlinked : h.Linked resolve) (he : h.Enlarged h')
    {name : String} {v : Value} {t : ObjectRef}
    (hv : h.ownMember? a name = some v ∨ h.ownMember? b name = some v)
    (ht : h.memberType? resolve v = some t) :
    ∃ w s, h'.ownMember? u name = some w ∧ h'.memberType? resolve w = some s ∧
      h'.accepts resolve s t = true := by
  cases hname : h.ownMember? b name with
  | none =>
    have hv : h.ownMember? a name = some v := hv.resolve_right (by simp [hname])
    refine ⟨v, t, by rw [hu.of_none name hname, hv], ?_, accepts_self h' resolve t⟩
    rw [he.memberType?_eq resolve (hlinked.has_of_mem (NameMap.mem_of_find? hv)), ht]
  | some w =>
    obtain ⟨x, hx, hunited⟩ := hu.of_some name w hname
    rw [hname, Option.some.injEq] at hv
    obtain ⟨s, hs, haccepts⟩ := hunited.accepts hlinked he (NameMap.mem_of_find? hname) hv ht
    exact ⟨x, s, hx, hs, haccepts⟩

/-- What only one side has is kept as it is. -/
theorem alone (hu : h.HasBoth h' resolve a b u) {name : String} {v : Value}
    (hv : h.ownMember? a name = some v ∧ h.ownMember? b name = none ∨
      h.ownMember? a name = none ∧ h.ownMember? b name = some v) : h'.ownMember? u name = some v := by
  rcases hv with ⟨hv, hname⟩ | ⟨hv, hname⟩
  · rw [hu.of_none name hname, hv]
  · obtain ⟨x, hx, hunited⟩ := hu.of_some name v hname
    rw [hv] at hunited
    rw [hx, show x = v from hunited]

end HasBoth

/-- The merge leaves what was there as it was, and has for each name what unites the members. -/
theorem merge_hasBoth {a b : ObjectRef} (hlinked : h.Linked resolve) (ha : h.Typed resolve a)
    (hb : h.Typed resolve b) (hnames : (h.object b).members.names.Nodup) :
    h.Enlarged (h.merge resolve a b).2 ∧
      h.HasBoth ((h.merge resolve a b).2.addObject (h.merge resolve a b).1).2 resolve a b
        ((h.merge resolve a b).2.addObject (h.merge resolve a b).1).1 := by
  obtain ⟨he, hunites⟩ := mergeMembers_unites hlinked ha hb (fun _ hentry => hentry) hnames (.refl h)
    (h.object a).members
  have hobject := object_addObject_self (h.merge resolve a b).2 (h.merge resolve a b).1
  refine ⟨he, ⟨fun name hname => ?_, fun name w hname => ?_⟩⟩
  · have hget := hunites name
    rw [show NameMap.find? name (h.object b).members.entries = none from hname] at hget
    rw [ownMember?, hobject]
    exact hget
  · have hget := hunites name
    rw [show NameMap.find? name (h.object b).members.entries = some w from hname] at hget
    obtain ⟨x, hx, hunited⟩ := hget
    refine ⟨x, ?_, hunited.mono (.addObject _ _)⟩
    rw [ownMember?, hobject]
    exact hx

/-- **Merged types accept both sides.**  On a heap whose links stay inside it, where the members of two
types stand for types and the second one has no name twice, merging them leaves what was there as it was
and makes a type that is the merge of the two. -/
theorem merge_accepts_both {a b : ObjectRef} (hlinked : h.Linked resolve) (ha : h.Typed resolve a)
    (hb : h.Typed resolve b) (hnames : (h.object b).members.names.Nodup) {merged : Object} {h' : Heap}
    (hmerge : h.merge resolve a b = (merged, h')) :
    h.Enlarged h' ∧ h.Enlarged (h'.addObject merged).2 ∧
      h.IsMerge (h'.addObject merged).2 resolve a b (h'.addObject merged).1 := by
  obtain ⟨he, hboth⟩ := merge_hasBoth hlinked ha hb hnames
  obtain ⟨rfl, rfl⟩ := Prod.ext_iff.mp hmerge
  have hobject := object_addObject_self (h.merge resolve a b).2 (h.merge resolve a b).1
  have hgrown := he.trans (.addObject _ (h.merge resolve a b).1)
  refine ⟨he, hgrown, ⟨_, congrArg Object.kind hobject⟩, ?_, hboth.mem_names_iff, ?_, ?_⟩
  · rw [parent?, hobject]
    rfl
  · exact fun name v t hv ht => hboth.accepts hlinked hgrown hv ht
  · exact fun name v hv => hboth.alone hv

end

/-- Two structural types.  They share a name with types that do not accept each other, one with types of
which the first accepts the second, and each has a name of its own. -/
def overlapping : Heap where
  objects := #[.type "Int" none .empty true, .type "Str" none .empty true, .union ⟨0⟩ ⟨1⟩,
    .type "A" (some ⟨0⟩) ⟨[("x", .object ⟨0⟩), ("y", .object ⟨2⟩), ("z", .int 1)]⟩ false,
    .type "B" none ⟨[("y", .object ⟨1⟩), ("w", .text "b"), ("x", .object ⟨1⟩)]⟩ false]
  arrays := #[]

/-- In `overlapping`, integers and texts have a type. -/
def overlappingType : Resolver
  | .int _ => some ⟨0⟩
  | .text _ => some ⟨1⟩
  | _ => none

/-- The merge of the two types in `overlapping` needs one new union, and accepts what both have. -/
theorem merge_accepts_both_overlapping :
    overlapping.Linked overlappingType ∧ overlapping.Typed overlappingType ⟨3⟩ ∧
    overlapping.Typed overlappingType ⟨4⟩ ∧ (overlapping.object ⟨4⟩).members.names.Nodup ∧
    ∃ merged h', overlapping.merge overlappingType ⟨3⟩ ⟨4⟩ = (merged, h') ∧
      h'.objects.size = 6 ∧ overlapping.Enlarged (h'.addObject merged).2 ∧
      overlapping.IsMerge (h'.addObject merged).2 overlappingType ⟨3⟩ ⟨4⟩ ⟨6⟩ := by
  have hlinked : overlapping.Linked overlappingType := by
    refine ⟨?_, ?_, ?_, ?_⟩
    · rintro ⟨_ | _ | _ | _ | _ | _⟩ name q hq <;>
        simp [overlapping, object, Object.type, Object.plain, Object.union, NameMap.empty] at hq
      · rcases hq with ⟨-, rfl⟩ | ⟨-, rfl⟩ <;> simp [Has, overlapping]
      · rcases hq with ⟨-, rfl⟩ | ⟨-, rfl⟩ <;> simp [Has, overlapping]
    · rintro ⟨_ | _ | _ | _ | _ | _⟩ p hp <;>
        simp [overlapping, parent?, object, Object.type, Object.plain, Object.union] at hp
      simp [Has, overlapping, ← hp]
    · rintro ⟨_ | _ | _ | _ | _ | _⟩ l r hkind <;>
        simp [overlapping, object, Object.type, Object.plain, Object.union] at hkind
      simp [HasPair, Has, overlapping, ← hkind]
    · intro v t ht
      cases v <;> cases ht <;> simp [Has, overlapping]
  have hfirst : overlapping.Typed overlappingType ⟨3⟩ := by
    intro name v hv
    simp [overlapping, object, Object.type] at hv
    rcases hv with ⟨-, rfl⟩ | ⟨-, rfl⟩ | ⟨-, rfl⟩ <;> exact ⟨_, rfl⟩
  have hsecond : overlapping.Typed overlappingType ⟨4⟩ := by
    intro name v hv
    simp [overlapping, object, Object.type] at hv
    rcases hv with ⟨-, rfl⟩ | ⟨-, rfl⟩ | ⟨-, rfl⟩ <;> exact ⟨_, rfl⟩
  have hnames : (overlapping.object ⟨4⟩).members.names.Nodup := by decide
  have hsize : (overlapping.merge overlappingType ⟨3⟩ ⟨4⟩).2.objects.size = 6 := by decide +kernel
  rcases hmerged : overlapping.merge overlappingType ⟨3⟩ ⟨4⟩ with ⟨merged, h'⟩
  rw [hmerged] at hsize
  obtain ⟨-, hgrown, hmerge⟩ := merge_accepts_both hlinked hfirst hsecond hnames hmerged
  have hu : (h'.addObject merged).1 = ⟨6⟩ := congrArg ObjectRef.mk hsize
  rw [hu] at hmerge
  exact ⟨hlinked, hfirst, hsecond, hnames, merged, h', rfl, hsize, hgrown, hmerge⟩

end Heap

end ProtoScript
