import ProtoScript.Proofs.Heap.Growth
import ProtoScript.Proofs.Typing.Satisfaction

/-!
# The order of members

The members of an object have no order of their own: a map from names may list them in any way.  Both
the comparison of types and the search for what satisfies a type go through members until one does not
match, and keep the pairs of objects seen by then.  Where a choice between two alternatives fails, what it
has seen stays, and is taken to be settled from then on; so what comes first may decide the answer.

Without such choices the order does not matter.  The demands of a question in two orders are the same, and
so are the consistent sets of questions that decide the search.  Types that are put together from nominal
types leave choices, but no members are looked at to make them.
-/

namespace ProtoScript.Heap

/-- Two heaps with the same objects, up to the order of their members.  Each member has its own name. -/
structure Reordered (h h' : Heap) : Prop where
  size_eq : h'.objects.size = h.objects.size
  kind_eq : ∀ o, (h'.object o).kind = (h.object o).kind
  parent_eq : ∀ o, h'.parent? o = h.parent? o
  names : ∀ o, (h.object o).members.names.Nodup
  entries : ∀ o, (h.object o).members.entries.Perm (h'.object o).members.entries

/-- The heap with the members of all objects in reverse order. -/
def reversed (h : Heap) : Heap :=
  { h with objects := h.objects.map fun o => { o with members := ⟨o.members.entries.reverse⟩ } }

/-- Whether no union is reached from an object. -/
def Unionless (h : Heap) (resolve : Resolver) (o : ObjectRef) : Prop :=
  ∀ p, Reaches h resolve o p → ¬ h.IsUnion p

/-- Whether a type is nominal, or put together from nominal types by unions. -/
def OfNominals (h : Heap) (d : ObjectRef) : Prop :=
  ∀ x, h.Part d x → h.IsUnion x ∨ h.IsNominal x

variable {h h' : Heap} {resolve : Resolver}

/-- An object of the reversed heap. -/
theorem object_reversed (o : ObjectRef) :
    h.reversed.object o =
      { h.object o with members := ⟨(h.object o).members.entries.reverse⟩ } := by
  unfold reversed object
  rw [Array.getElem?_map]
  cases h.objects[o.index]? <;> rfl

/-- Reversing the members is a reordering. -/
theorem reordered_reversed (hnames : ∀ o ∈ h.objects, o.members.names.Nodup) :
    h.Reordered h.reversed where
  size_eq := Array.size_map
  kind_eq o := by rw [object_reversed]
  parent_eq o := by rw [parent?, object_reversed, parent?]
  names o := by
    unfold object
    cases ho : h.objects[o.index]? with
    | none => exact List.nodup_nil
    | some found => exact hnames found (Array.mem_of_getElem? ho)
  entries o := by
    rw [object_reversed]
    exact (List.reverse_perm _).symm

/-- A nominal type or a union leads only to the sides of unions. -/
theorem mentions_kindsDemand_of_named {x y : ObjectRef} {c : Comparison}
    (hx : h.IsUnion x ∨ h.IsNominal x) (hy : h.isType y = true)
    (hc : (h.kindsDemand resolve x y).Mentions c) :
    (∃ l r, (h.object x).kind = .union l r ∧ (c = .types l y ∨ c = .types r y)) ∨
      ∃ l r, (h.object y).kind = .union l r ∧ (c = .types x l ∨ c = .types x r) := by
  rcases hx with ⟨l, r, hkind⟩ | hnominal
  · simp only [kindsDemand, hkind] at hc
    exact .inl ⟨l, r, hkind, hc.imp Eq.symm Eq.symm⟩
  · by_cases hunion : h.IsUnion y
    · obtain ⟨l, r, hkind⟩ := hunion
      rw [kindsDemand_nominal_union hnominal hkind] at hc
      exact .inr ⟨l, r, hkind, hc.imp Eq.symm Eq.symm⟩
    · obtain ⟨answer, hsettled, -⟩ := kindsDemand_nominal resolve hnominal hy hunion
      rw [hsettled] at hc
      exact hc.elim

/-- Nothing leads out of the heap. -/
theorem Closed.has_of_reaches (hclosed : h.Closed)
    (hresolve : ∀ v t, resolve v = some t → h.isType t = true) {o : ObjectRef} (ho : h.Has (.object o))
    (p : ObjectRef) (hp : Reaches h resolve o p) : p.index < h.objects.size := by
  induction hp with
  | self => exact ho
  | parent _ hparent => exact hclosed.parent _ _ hparent
  | member _ hmem => exact hclosed.members _ _ _ hmem
  | memberType _ _ htype => exact index_lt_of_isType (isType_of_memberType? hresolve htype)
  | left _ hkind => exact index_lt_of_isType (hclosed.sides _ _ _ hkind).1
  | right _ hkind => exact index_lt_of_isType (hclosed.sides _ _ _ hkind).2

namespace Reordered

/-! ### What does not depend on the order -/

/-- The order does not decide what is a type. -/
theorem isType_eq (hr : h.Reordered h') (o : ObjectRef) : h'.isType o = h.isType o := by
  rw [isType, hr.kind_eq, isType]

/-- The order does not decide what a member is. -/
theorem ownMember?_eq (hr : h.Reordered h') (o : ObjectRef) (name : String) :
    h'.ownMember? o name = h.ownMember? o name :=
  NameMap.get?_eq_of_perm (hr.names o) (hr.entries o) name

/-- The order does not decide what is inherited. -/
theorem inherited_eq (hr : h.Reordered h') (o : ObjectRef) (name : String) :
    h'.inherited o name = h.inherited o name := by
  have hlineage := lineage_congr hr.size_eq hr.parent_eq o
  simp only [inherited, hlineage, hr.ownMember?_eq]

/-- The order does not decide who inherits from whom. -/
theorem inheritsFrom_eq (hr : h.Reordered h') (o ancestor : ObjectRef) :
    h'.inheritsFrom o ancestor = h.inheritsFrom o ancestor := by
  have hlineage := lineage_congr hr.size_eq hr.parent_eq o
  rw [inheritsFrom, hlineage, inheritsFrom]

/-- The order does not decide of what type a member is. -/
theorem memberType?_eq (hr : h.Reordered h') (v : Value) :
    h'.memberType? resolve v = h.memberType? resolve v := by
  cases v with
  | object o => simp only [memberType?, hr.isType_eq]
  | _ => rfl

/-- The order does not decide how two members are compared. -/
theorem memberComparison?_eq (hr : h.Reordered h') (v w : Value) :
    h'.memberComparison? resolve v w = h.memberComparison? resolve v w := by
  simp only [memberComparison?, hr.memberType?_eq, hr.isType_eq]

/-! ### Comparisons in another order -/

/-- Members in another order demand the same. -/
theorem same_membersDemand (hr : h.Reordered h') (a b : ObjectRef) :
    (h.membersDemand resolve (h.object a).members (h.object b).members).Same
      (h'.membersDemand resolve (h'.object a).members (h'.object b).members) := by
  have hget := NameMap.get?_eq_of_perm (hr.names b) (hr.entries b)
  have hcomparison : h'.memberComparison? resolve = h.memberComparison? resolve :=
    funext fun v => funext fun w => hr.memberComparison?_eq v w
  unfold membersDemand
  simp only [hget, hcomparison]
  exact .all ((hr.entries a).map _)

/-- Types with their members in another order demand the same of each other. -/
theorem same_structureDemand (hr : h.Reordered h') (a b : ObjectRef) :
    (h.structureDemand resolve a b).Same (h'.structureDemand resolve a b) := by
  unfold structureDemand
  rw [hr.parent_eq, hr.parent_eq]
  exact .both (.refl _) (hr.same_membersDemand a b)

/-- Comparing two types demands the same, whatever their kinds. -/
theorem same_kindsDemand (hr : h.Reordered h') (a b : ObjectRef) :
    (h.kindsDemand resolve a b).Same (h'.kindsDemand resolve a b) := by
  have hstructure : (h.structureDemand resolve a b).Same (h'.structureDemand resolve a b) :=
    hr.same_structureDemand a b
  unfold kindsDemand
  rw [hr.kind_eq, hr.kind_eq]
  cases (h.object a).kind <;> cases (h.object b).kind <;>
    first | exact hstructure | exact .refl _ | skip
  dsimp only
  split
  · exact .refl _
  · exact hstructure

/-- A comparison demands the same in another order. -/
theorem same_demand (hr : h.Reordered h') (c : Comparison) :
    (h.demand resolve c).Same (h'.demand resolve c) := by
  cases c with
  | types a b => exact hr.same_kindsDemand a b
  | fields a b => exact hr.same_membersDemand a b

/-- What is consistent stays so in another order. -/
theorem consistent (hr : h.Reordered h') {S : Comparison → Prop} (hS : h.Consistent resolve S) :
    h'.Consistent resolve S :=
  fun c hc => (hS c hc).imp_right ((hr.same_demand c).holds_iff S).mp

/-- If no choice is left, a type accepts another in one order exactly if it does in another. -/
theorem accepts_eq_of_confined (hr : h.Reordered h') {G : Comparison → Prop}
    (hG : Confined h resolve G) {a b : ObjectRef} (hab : G (.types a b)) :
    h'.accepts resolve a b = h.accepts resolve a b := by
  rw [accepts, accepts, compareWithin_eq_search, compareWithin_eq_search]
  refine Inquiry.search_eq_of_same hG.comparing hr.size_eq ?_ ?_ ?_ hab
  · exact fun _ => rfl
  · exact fun _ => rfl
  · exact fun c _ => hr.same_demand c

/-- The members of a nominal type or a union are not looked at, so what it demands is the same in every
order. -/
theorem kindsDemand_eq (hr : h.Reordered h') {x y : ObjectRef} (hx : h.IsUnion x ∨ h.IsNominal x)
    (hy : h.isType y = true) : h'.kindsDemand resolve x y = h.kindsDemand resolve x y := by
  unfold kindsDemand
  rw [hr.kind_eq, hr.kind_eq]
  rcases hx with ⟨l, r, hkind⟩ | ⟨name, hkind⟩
  · rw [hkind]
  · rw [hkind]
    cases hother : (h.object y).kind with
    | plain => simp [isType, hother, ObjectKind.isType] at hy
    | type other nominal => rfl
    | union l r => rfl

/-- Comparisons with a type made of nominal types run in the same way in every order. -/
theorem accepts_eq_of_nominals (hr : h.Reordered h') (hsides : h.SidesAreTypes) {d t : ObjectRef}
    (hd : h.OfNominals d) (ht : h.isType t = true) :
    h'.accepts resolve d t = h.accepts resolve d t := by
  let G : Comparison → Prop := fun c => ∃ x y, h.Part d x ∧ h.isType y = true ∧ c = .types x y
  have hclosed : ∀ c c', G c → (h.demand resolve c).Mentions c' → G c' := by
    rintro _ c' ⟨x, y, hx, hy, rfl⟩ hc'
    rcases mentions_kindsDemand_of_named (hd x hx) hy hc' with
      ⟨l, r, hkind, rfl | rfl⟩ | ⟨l, r, hkind, rfl | rfl⟩
    · exact ⟨l, y, hx.left hkind, hy, rfl⟩
    · exact ⟨r, y, hx.right hkind, hy, rfl⟩
    · exact ⟨x, l, hx, (hsides y l r hkind).1, rfl⟩
    · exact ⟨x, r, hx, (hsides y l r hkind).2, rfl⟩
  have hdemand : ∀ c, G c → h'.demand resolve c = h.demand resolve c := by
    rintro _ ⟨x, y, hx, hy, rfl⟩
    exact hr.kindsDemand_eq (hd x hx) hy
  have hbound : h'.pairBound = h.pairBound := by rw [pairBound, hr.size_eq, pairBound]
  have hdt : G (.types d t) := ⟨d, t, .self, ht, rfl⟩
  have hsearch : (comparing h' resolve).search h.pairBound (.types d t) =
      (comparing h resolve).search h.pairBound (.types d t) := by
    refine Inquiry.search_eq_of_demand hclosed ?_ ?_ hdemand h.pairBound hdt
    · exact fun _ => rfl
    · exact fun _ => rfl
  rw [accepts, accepts, compareWithin_eq_search, compareWithin_eq_search, hbound, hsearch]

/-- So do comparisons with a type from which no union is reached. -/
theorem accepts_eq_of_unionless (hr : h.Reordered h')
    (hresolve : ∀ v t, resolve v = some t → h.isType t = true)
    (hparent : ∀ t p, h.isType t = true → h.parent? t = some p → h.isType p = true)
    (hsides : h.SidesAreTypes) {d t : ObjectRef} (hunion : h.Unionless resolve d)
    (hd : h.isType d = true) (ht : h.isType t = true) :
    h'.accepts resolve d t = h.accepts resolve d t := by
  have hwell (o : ObjectRef) : h.WellTyped resolve o :=
    ⟨fun t p _ => hparent t p, fun u l r _ => hsides u l r⟩
  have hdt : Between h resolve d t (.types d t) := ⟨⟨hd, ht⟩, .self, .self⟩
  exact hr.accepts_eq_of_confined (confined_between hresolve (hwell d) (hwell t) hunion) hdt

/-! ### Requirements in another order -/

/-- What a type demands of a value does not depend on the order. -/
theorem valueDemand_eq (hr : h.Reordered h') {v : Value} {required : ObjectRef}
    (haccepts : ∀ t, resolve v = some t →
      h'.accepts resolve required t = h.accepts resolve required t) :
    h'.valueDemand resolve v required = h.valueDemand resolve v required := by
  unfold valueDemand
  cases ht : resolve v with
  | none => simp only [hr.isType_eq]
  | some t => simp only [hr.isType_eq, haccepts t ht]

/-- What is demanded of one member does not depend on the order. -/
theorem fittingDemand_eq (hr : h.Reordered h') {o : ObjectRef} {required : String × Value}
    (haccepts : ∀ s v t, h.memberType? resolve required.2 = some s → resolve v = some t →
      h'.accepts resolve s t = h.accepts resolve s t) :
    h'.fittingDemand resolve o required = h.fittingDemand resolve o required := by
  unfold fittingDemand
  rw [hr.memberType?_eq, hr.inherited_eq]
  cases hs : h.memberType? resolve required.2 with
  | none => rfl
  | some s =>
    have hvalue (v : Value) : h'.valueDemand resolve v s = h.valueDemand resolve v s :=
      hr.valueDemand_eq fun t ht => haccepts s v t hs ht
    simp only [hvalue]

/-- A requirement demands the same in another order, if the types of its members accept the same. -/
theorem same_requirementDemand (hr : h.Reordered h') {o required : ObjectRef}
    (haccepts : ∀ entry ∈ (h.object required).members.entries, ∀ s v t,
      h.memberType? resolve entry.2 = some s → resolve v = some t →
        h'.accepts resolve s t = h.accepts resolve s t) :
    (h.requirementDemand resolve (o, required)).Same (h'.requirementDemand resolve (o, required)) := by
  have hmembers : (Demand.all ((h.object required).members.entries.map (h.fittingDemand resolve o))).Same
      (.all ((h'.object required).members.entries.map (h'.fittingDemand resolve o))) := by
    have hmap : (h.object required).members.entries.map (h.fittingDemand resolve o) =
        (h.object required).members.entries.map (h'.fittingDemand resolve o) :=
      List.map_congr_left fun entry hentry => (hr.fittingDemand_eq (haccepts entry hentry)).symm
    rw [hmap]
    exact .all ((hr.entries required).map _)
  have hancestor : h'.ancestorDemand o required = h.ancestorDemand o required := by
    rw [ancestorDemand, hr.parent_eq, ancestorDemand]
  unfold requirementDemand
  rw [hr.inheritsFrom_eq, hr.kind_eq, hancestor]
  split
  · exact .refl _
  · cases (h.object required).kind with
    | union l r => exact .refl _
    | _ => exact .both hmembers (.refl _)

/-- If no union is reached from a type, and there is no choice between plain objects, an object satisfies
the type in one order exactly if it does in another. -/
theorem satisfies_eq (hr : h.Reordered h') (hclosed : h.Closed)
    (hresolve : ∀ v t, resolve v = some t → h.isType t = true)
    (hparent : ∀ t p, h.isType t = true → h.parent? t = some p → h.isType p = true)
    {o required : ObjectRef} (ho : h.Has (.object o)) (hlayered : h.Layered resolve o)
    (hunion : h.Unionless resolve required) :
    h'.satisfies resolve o required = h.satisfies resolve o required := by
  have hG := confined_required (hclosed.has_of_reaches hresolve ho) hlayered hunion
  have hsame : ∀ q, Required h resolve o required q →
      (h.requirementDemand resolve q).Same (h'.requirementDemand resolve q) := by
    rintro ⟨p, r⟩ ⟨-, hreached⟩
    refine hr.same_requirementDemand fun entry hentry s v t hs ht => ?_
    have hunion' : h.Unionless resolve s :=
      fun q hq => hunion q ((hreached.memberType hentry hs).trans hq)
    exact hr.accepts_eq_of_unionless hresolve hparent hclosed.sides hunion'
      (isType_of_memberType? hresolve hs) (hresolve v t ht)
  rw [satisfies, satisfies, satisfyWithin_eq_search, satisfyWithin_eq_search]
  have hq : Required h resolve o required (o, required) := ⟨.self, .self⟩
  refine Inquiry.search_eq_of_same hG hr.size_eq ?_ ?_ ?_ hq
  · exact fun _ => rfl
  · exact fun _ => rfl
  · exact hsame

end Reordered

end ProtoScript.Heap

namespace ProtoScript

variable {m : Machine} {h' : Heap}

/-! ### Checks in another order -/

theorem Machine.globalType?_reordered (hr : m.heap.Reordered h') (name : String) :
    { m with heap := h' }.globalType? name = m.globalType? name := by
  simp only [globalType?, hr.isType_eq]

/-- Values have the same types in every order. -/
theorem Machine.runtimeType?_reordered (hr : m.heap.Reordered h') :
    { m with heap := h' }.runtimeType? = m.runtimeType? := by
  funext v
  simp only [runtimeType?, hr.isType_eq, hr.parent_eq, m.globalType?_reordered hr]

/-- The same values are admitted, if the comparison of types and the search for what satisfies the
declared one come to the same answers. -/
theorem Machine.admits_reordered (hr : m.heap.Reordered h') {v : Value} {d t : ObjectRef}
    (haccepts : h'.accepts m.runtimeType? d t = m.heap.accepts m.runtimeType? d t)
    (hsatisfies : ∀ o, v = .object o → m.heap.IsUnion d ∨ m.heap.IsNominal d ∨
      h'.satisfies m.runtimeType? o d = m.heap.satisfies m.runtimeType? o d) :
    { m with heap := h' }.admits d t v = m.admits d t v := by
  have hshape : { m with heap := h' }.fitsShape v d t = m.fitsShape v d t := by
    simp only [fitsShape, hr.kind_eq, m.runtimeType?_reordered hr, m.globalType?_reordered hr]
    cases v with
    | object o =>
      rcases hsatisfies o rfl with ⟨l, r, hkind⟩ | ⟨name, hkind⟩ | hsame
      · simp only [hkind]
      · simp only [hkind]
      · cases (m.heap.object d).kind with
        | type name nominal =>
          cases nominal with
          | false => simp only [hsame]
          | true => rfl
        | _ => rfl
    | _ => rfl
  simp only [admits, hshape, m.runtimeType?_reordered hr, haccepts]

open Heap in
/-- **The order of members.** In a graph in which values resolve to types and parents of types are types,
whatever the order of the members of its objects:

* what a type accepts by a consistent set of comparisons, it accepts in every order;
* a type that is made of nominal types, or from which no union is reached, accepts the same types in every
  order;
* a type from which no union is reached is satisfied by the same objects in every order, among those that
  have no choice between plain objects which they inherit under one name;
* a check of a value against such a type succeeds in every order or in none. -/
theorem type_checks_ignore_order {h h' : Heap} {resolve : Resolver} (hreordered : h.Reordered h')
    (hclosed : h.Closed) (hresolve : ∀ v t, resolve v = some t → h.isType t = true)
    (hparent : ∀ t p, h.isType t = true → h.parent? t = some p → h.isType p = true) :
    (∀ S d t, h.Consistent resolve S → S (.types d t) →
      h.accepts resolve d t = true ∧ h'.accepts resolve d t = true) ∧
    (∀ d t, h.isType d = true → h.isType t = true → h.OfNominals d ∨ h.Unionless resolve d →
      h'.accepts resolve d t = h.accepts resolve d t) ∧
    (∀ o required, h.Has (.object o) → h.Layered resolve o → h.Unionless resolve required →
      h'.satisfies resolve o required = h.satisfies resolve o required) ∧
    ∀ (m : Machine) (v : Value) (d : ObjectRef) (pos : Position), m.heap = h →
      m.runtimeType? = resolve → h.isType d = true →
      h.OfNominals d ∨ h.Unionless resolve d ∧
        (∀ o, v = .object o → h.Has (.object o) ∧ h.Layered resolve o) →
      (Eval.typecheck v d pos { m with heap := h' } = .ok () { m with heap := h' } ↔
        Eval.typecheck v d pos m = .ok () m) := by
  have haccepts (d t : ObjectRef) (hd : h.isType d = true) (ht : h.isType t = true)
      (hfree : h.OfNominals d ∨ h.Unionless resolve d) :
      h'.accepts resolve d t = h.accepts resolve d t := by
    rcases hfree with hnominals | hunion
    · exact hreordered.accepts_eq_of_nominals hclosed.sides hnominals ht
    · exact hreordered.accepts_eq_of_unionless hresolve hparent hclosed.sides hunion hd ht
  have hsatisfies (o required : ObjectRef) (ho : h.Has (.object o)) (hlayered : h.Layered resolve o)
      (hunion : h.Unionless resolve required) :
      h'.satisfies resolve o required = h.satisfies resolve o required :=
    hreordered.satisfies_eq hclosed hresolve hparent ho hlayered hunion
  refine ⟨fun S d t hS hdt => ?_, haccepts, hsatisfies, ?_⟩
  · exact ⟨accepts_of_consistent hS hdt, accepts_of_consistent (hreordered.consistent hS) hdt⟩
  · rintro m v d pos rfl rfl hd hfree
    rw [Eval.typecheck_eq_ok_iff, Eval.typecheck_eq_ok_iff, m.runtimeType?_reordered hreordered]
    refine exists_congr fun t => and_congr_right fun ht => ?_
    have hsame := haccepts d t hd (m.isType_of_runtimeType? ht) (hfree.imp_right And.left)
    rw [m.admits_reordered hreordered hsame]
    rintro o rfl
    rcases hfree with hnominals | ⟨hunion, hvalue⟩
    · exact (hnominals d .self).imp_right .inl
    · obtain ⟨ho, hlayered⟩ := hvalue o rfl
      exact .inr (.inr (hsatisfies o d ho hlayered hunion))

/-- Two nominal types and their union, two structural types with the same members, and a plain object
with such members. -/
def twinTypes : Heap where
  objects := #[.type "Int" none .empty true, .type "Str" none .empty true, .union ⟨0⟩ ⟨1⟩,
    .type "A" none ⟨[("x", .object ⟨0⟩), ("y", .object ⟨1⟩)]⟩ false,
    .type "B" none ⟨[("x", .object ⟨0⟩), ("y", .object ⟨1⟩)]⟩ false,
    .plain none ⟨[("x", .int 1), ("y", .text "s")]⟩]
  arrays := #[]

/-- A machine on which the nominal types of `twinTypes` are those of integers and texts. -/
def withTwinTypes : Machine :=
  { Machine.initial "" default with
    heap := twinTypes
    scopes := (Scopes.initial.define "Int" (.object ⟨0⟩)).define "Str" (.object ⟨1⟩) }

/-- With the members of `twinTypes` in reverse order, the first of the structural types still accepts the
second, the plain object still satisfies it, and a number still passes the check against the union. -/
theorem type_checks_ignore_order_twinTypes :
    twinTypes.reversed.accepts withTwinTypes.runtimeType? ⟨3⟩ ⟨4⟩ = true ∧
    twinTypes.reversed.satisfies withTwinTypes.runtimeType? ⟨5⟩ ⟨3⟩ = true ∧
    Eval.typecheck (.int 5) ⟨2⟩ .outside { withTwinTypes with heap := twinTypes.reversed } =
      .ok () { withTwinTypes with heap := twinTypes.reversed } := by
  have hreordered : twinTypes.Reordered twinTypes.reversed := Heap.reordered_reversed (by decide)
  have hparent (o : ObjectRef) : twinTypes.parent? o = none := by
    rcases o with ⟨_ | _ | _ | _ | _ | _ | n⟩ <;> rfl
  have hunions (u l r : ObjectRef) (hkind : (twinTypes.object u).kind = .union l r) :
      l = ⟨0⟩ ∧ r = ⟨1⟩ := by
    rcases u with ⟨_ | _ | _ | _ | _ | _ | n⟩ <;> cases hkind
    exact ⟨rfl, rfl⟩
  have hnominal (x : ObjectRef) (hx : x = ⟨0⟩ ∨ x = ⟨1⟩) : twinTypes.IsNominal x := by
    rcases hx with rfl | rfl
    · exact ⟨"Int", rfl⟩
    · exact ⟨"Str", rfl⟩
  have hsides : twinTypes.SidesAreTypes := by
    intro u l r hkind
    obtain ⟨hl, hr⟩ := hunions u l r hkind
    exact ⟨(hnominal l (.inl hl)).isType, (hnominal r (.inr hr)).isType⟩
  have hmembers (o : ObjectRef) (name : String) (v : Value)
      (hmem : (name, v) ∈ (twinTypes.object o).members.entries) :
      v = .object ⟨0⟩ ∨ v = .object ⟨1⟩ ∨ v = .int 1 ∨ v = .text "s" := by
    rcases o with ⟨_ | _ | _ | _ | _ | _ | n⟩ <;>
      simp [Heap.object, twinTypes, Object.type, Object.union, Object.plain, NameMap.empty] at hmem <;> tauto
  have hclosed : twinTypes.Closed := by
    refine ⟨?_, ?_, ?_, hsides, ?_⟩
    · intro o name v hmem
      rcases hmembers o name v hmem with rfl | rfl | rfl | rfl
      · exact (by decide : 0 < twinTypes.objects.size)
      · exact (by decide : 1 < twinTypes.objects.size)
      · trivial
      · trivial
    · intro o p hp
      rw [hparent] at hp
      cases hp
    · intro a v hv
      simp [Heap.elements, twinTypes] at hv
    · rintro ⟨_ | _ | _ | _ | _ | _ | n⟩ hkind <;>
        simp [Heap.object, twinTypes, Object.type, Object.union, Object.plain] at hkind
  have hresolve (v : Value) (t : ObjectRef) (ht : withTwinTypes.runtimeType? v = some t) :
      twinTypes.isType t = true := withTwinTypes.isType_of_runtimeType? ht
  have hreaches (p : ObjectRef) (hp : Heap.Reaches twinTypes withTwinTypes.runtimeType? ⟨3⟩ p) :
      ¬ twinTypes.IsUnion p := by
    have hmember {x : ObjectRef} (hx : x = ⟨0⟩ ∨ x = ⟨1⟩) : ¬ twinTypes.IsUnion x :=
      (hnominal x hx).not_isUnion
    induction hp with
    | self =>
      rintro ⟨l, r, hkind⟩
      cases hkind
    | parent _ hp =>
      rw [hparent] at hp
      cases hp
    | member _ hmem =>
      rcases hmembers _ _ _ hmem with heq | heq | heq | heq <;> cases heq
      · exact hmember (.inl rfl)
      · exact hmember (.inr rfl)
    | memberType _ hmem htype =>
      rcases hmembers _ _ _ hmem with rfl | rfl | rfl | rfl
      · exact hmember (.inl (Option.some.inj htype).symm)
      · exact hmember (.inr (Option.some.inj htype).symm)
      · exact hmember (.inl (Option.some.inj htype).symm)
      · exact hmember (.inr (Option.some.inj htype).symm)
    | left _ hkind ih => exact absurd ⟨_, _, hkind⟩ ih
    | right _ hkind ih => exact absurd ⟨_, _, hkind⟩ ih
  have hnominals : twinTypes.OfNominals ⟨2⟩ := by
    intro x hx
    induction hx with
    | self => exact .inl ⟨⟨0⟩, ⟨1⟩, rfl⟩
    | left _ hkind => exact .inr (hnominal _ (.inl (hunions _ _ _ hkind).1))
    | right _ hkind => exact .inr (hnominal _ (.inr (hunions _ _ _ hkind).2))
  have hlayered : twinTypes.Layered withTwinTypes.runtimeType? ⟨5⟩ :=
    Heap.layered_of_parentless fun p _ => hparent p
  obtain ⟨-, haccepts, hsatisfies, htypecheck⟩ := type_checks_ignore_order hreordered hclosed hresolve
    fun t p _ hp => absurd hp (by simp [hparent])
  refine ⟨?_, ?_, ?_⟩
  · rw [haccepts ⟨3⟩ ⟨4⟩ rfl rfl (.inr hreaches)]
    decide +kernel
  · rw [hsatisfies ⟨5⟩ ⟨3⟩ (by decide : 5 < twinTypes.objects.size) hlayered hreaches]
    decide +kernel
  · refine (htypecheck withTwinTypes (.int 5) ⟨2⟩ .outside rfl rfl rfl (.inl hnominals)).mpr ?_
    exact Eval.typecheck_eq_ok_iff.mpr ⟨⟨0⟩, by decide +kernel, by decide +kernel⟩

/-- Types and plain objects of which the order of members decides what is accepted. -/
def contested : Heap where
  objects := #[.type "Int" none .empty true, .type "Str" none .empty true, .union ⟨0⟩ ⟨1⟩,
    -- the second type is offered where the first one is declared
    .type "A" none ⟨[("x", .object ⟨2⟩), ("y", .object ⟨0⟩)]⟩ false,
    .type "B" none ⟨[("x", .object ⟨1⟩), ("y", .object ⟨1⟩)]⟩ false,
    -- a union of two types, and an object that has the members of neither
    .type "T" none ⟨[("z", .object ⟨0⟩)]⟩ false,
    .type "L" none ⟨[("p", .object ⟨1⟩), ("q", .object ⟨5⟩)]⟩ false,
    .type "R" none ⟨[("q", .object ⟨5⟩)]⟩ false,
    .union ⟨6⟩ ⟨7⟩,
    .plain none ⟨[("p", .int 1), ("q", .object ⟨10⟩)]⟩,
    .plain none ⟨[("z", .text "s")]⟩,
    -- a type, and an object that inherits its member twice
    .type "U" none ⟨[("a", .object ⟨1⟩), ("b", .object ⟨5⟩)]⟩ false,
    .type "V" none ⟨[("x", .object ⟨11⟩)]⟩ false,
    .plain none ⟨[("x", .object ⟨14⟩)]⟩,
    .plain none ⟨[("a", .text "s"), ("b", .object ⟨10⟩)]⟩,
    .plain (some ⟨13⟩) ⟨[("x", .object ⟨16⟩)]⟩,
    .plain none ⟨[("a", .int 1), ("b", .object ⟨10⟩)]⟩]
  arrays := #[]

/-- The types of the numbers and texts in `contested`. -/
def contestedType : Heap.Resolver
  | .int _ => some ⟨0⟩
  | .text _ => some ⟨1⟩
  | _ => none

/-- What fails in the choice between the sides of a union, or between inherited values, is taken to be
settled afterwards if it was looked at, and whether it was depends on the order. -/
theorem contested_order_decides :
    contested.Reordered contested.reversed ∧
    contested.accepts contestedType ⟨3⟩ ⟨4⟩ = true ∧
    contested.reversed.accepts contestedType ⟨3⟩ ⟨4⟩ = false ∧
    contested.satisfies contestedType ⟨9⟩ ⟨8⟩ = false ∧
    contested.reversed.satisfies contestedType ⟨9⟩ ⟨8⟩ = true ∧
    contested.satisfies contestedType ⟨15⟩ ⟨12⟩ = false ∧
    contested.reversed.satisfies contestedType ⟨15⟩ ⟨12⟩ = true := by
  refine ⟨Heap.reordered_reversed (by decide), ?_⟩
  decide +kernel

end ProtoScript
