import ProtoScript.Proofs.Heap.Growth
import ProtoScript.Proofs.Typing.Choice
import ProtoScript.Proofs.Typing.Satisfaction

/-!
# Satisfaction as a relation

What it means that an object satisfies a type can be said without a search.  A satisfaction relates objects
to types such that whatever it relates is justified by what it relates: the object inherits from the type;
or the type is a union, and the object is related to one of its sides; or the object has a fitting value
for every member of the type, and is related to the parent of the type.  An object satisfies a type if
some satisfaction relates the two, the loops of the graph notwithstanding.

The search finds every object that satisfies a type in this sense.  The converse is where it can go wrong:
what it refuses on one side of a union, or for one of several inherited values, it takes to be settled when
it meets it again.  It is right if such requirements come up once.
-/

namespace ProtoScript.Heap

section

variable (h : Heap) (resolve : Resolver)

/-- Whether a value fits a type: a plain object if it is related to the type, and any other value if the
type accepts its own. -/
def Fits (S : ObjectRef → ObjectRef → Prop) (v : Value) (t : ObjectRef) : Prop :=
  (∃ y, v = .object y ∧ h.isType y = false ∧ S y t) ∨
    ((∀ y, v = .object y → h.isType y = true) ∧ ∃ s, resolve v = some s ∧ h.accepts resolve t s = true)

/-- Whether an object has, itself or by its parents, a value that fits a member of a type. -/
def HasFitting (S : ObjectRef → ObjectRef → Prop) (x : ObjectRef) (name : String) (v : Value) : Prop :=
  ∃ a w, h.Descends x a ∧ h.ownMember? a name = some w ∧
    ∀ t, h.memberType? resolve v = some t → h.Fits resolve S w t

/-- A relation of objects and types in which every pair is justified by others. -/
def IsSatisfaction (S : ObjectRef → ObjectRef → Prop) : Prop :=
  ∀ x q, S x q →
    h.Descends x q ∨
    (∃ l r, (h.object q).kind = .union l r ∧ (S x l ∨ S x r)) ∨
    (¬ h.IsUnion q ∧
      (∀ name v, (name, v) ∈ (h.object q).members.entries → h.HasFitting resolve S x name v) ∧
      ∀ p, h.parent? q = some p → S x p)

end

variable {h : Heap} {resolve : Resolver} {S : ObjectRef → ObjectRef → Prop}

/-! ### Demands as justifications -/

/-- What a type demands of a value. -/
theorem holds_valueDemand {v : Value} {t : ObjectRef} :
    (h.valueDemand resolve v t).Holds (fun q => S q.1 q.2) ↔ h.Fits resolve S v t := by
  unfold valueDemand Fits
  cases v with
  | object y =>
    by_cases hy : h.isType y = true <;> cases resolve (.object y) <;> simp [Demand.Holds, hy]
  | _ => cases resolve _ <;> simp [Demand.Holds]

/-- What is demanded of the values that an object has for a name. -/
theorem holds_fittingDemand {x : ObjectRef} {name : String} {v : Value} :
    (h.fittingDemand resolve x (name, v)).Holds (fun q => S q.1 q.2) ↔
      h.HasFitting resolve S x name v := by
  unfold fittingDemand HasFitting
  cases h.memberType? resolve v with
  | none =>
    have hinherited : (!(h.inherited x name).isEmpty) = true ↔ ∃ w, w ∈ h.inherited x name := by
      rw [Bool.not_eq_true', List.isEmpty_eq_false_iff_exists_mem]
    simp only [Demand.Holds, hinherited, mem_inherited_iff]
    grind
  | some t =>
    simp only [Demand.holds_any, List.mem_map, mem_inherited_iff]
    constructor
    · rintro ⟨_, ⟨w, ⟨a, ha, hw⟩, rfl⟩, hholds⟩
      refine ⟨a, w, ha, hw, ?_⟩
      rintro _ ⟨⟩
      exact holds_valueDemand.mp hholds
    · rintro ⟨a, w, ha, hw, hfits⟩
      exact ⟨_, ⟨w, ⟨a, ha, hw⟩, rfl⟩, holds_valueDemand.mpr (hfits t rfl)⟩

/-- What the parent of a type demands of an object. -/
theorem holds_ancestorDemand {x q : ObjectRef} :
    (h.ancestorDemand x q).Holds (fun q => S q.1 q.2) ↔ ∀ p, h.parent? q = some p → S x p := by
  unfold ancestorDemand
  cases h.parent? q <;> simp [Demand.Holds]

/-- A set of requirements is consistent exactly if it is a satisfaction. -/
theorem consistent_satisfying_iff :
    (satisfying h resolve).Consistent (fun q => S q.1 q.2) ↔ h.IsSatisfaction resolve S := by
  have hdemand (x q : ObjectRef) :
      (h.requirementDemand resolve (x, q)).Holds (fun q => S q.1 q.2) ↔
      h.Descends x q ∨
      (∃ l r, (h.object q).kind = .union l r ∧ (S x l ∨ S x r)) ∨
      (¬ h.IsUnion q ∧
        (∀ name v, (name, v) ∈ (h.object q).members.entries → h.HasFitting resolve S x name v) ∧
        ∀ p, h.parent? q = some p → S x p) := by
    unfold requirementDemand
    by_cases hinherits : h.inheritsFrom x q = true
    · simp [hinherits, Demand.Holds, inheritsFrom_iff.mp hinherits]
    have hdescends : ¬ h.Descends x q := fun hd => hinherits (inheritsFrom_iff.mpr hd)
    simp only [hinherits, hdescends, false_or]
    have hmembers : ((Demand.all ((h.object q).members.entries.map (h.fittingDemand resolve x))).both
        (h.ancestorDemand x q)).Holds (fun q => S q.1 q.2) ↔
        (∀ name v, (name, v) ∈ (h.object q).members.entries → h.HasFitting resolve S x name v) ∧
          ∀ p, h.parent? q = some p → S x p := by
      simp only [Demand.Holds, Demand.holds_all, List.forall_mem_map, Prod.forall,
        holds_fittingDemand, holds_ancestorDemand]
    cases hkind : (h.object q).kind with
    | union l r => simp [Demand.Holds, IsUnion, hkind]
    | _ => simpa [IsUnion, hkind] using hmembers
  constructor
  · intro hS x q hq
    have hholds := (hS (x, q) hq).resolve_left Bool.false_ne_true
    exact (hdemand x q).mp hholds
  · intro hS q hq
    exact .inr ((hdemand q.1 q.2).mpr (hS q.1 q.2 hq))

/-- A requirement is granted exactly if it is in a satisfaction. -/
theorem granted_satisfying_iff {o required : ObjectRef} :
    (satisfying h resolve).Granted (o, required) ↔
      ∃ S : ObjectRef → ObjectRef → Prop, S o required ∧ h.IsSatisfaction resolve S := by
  constructor
  · rintro ⟨S, hS, hconsistent⟩
    exact ⟨fun x q => S (x, q), hS, consistent_satisfying_iff.mp hconsistent⟩
  · rintro ⟨S, hS, hsatisfaction⟩
    exact ⟨fun q => S q.1 q.2, hS, consistent_satisfying_iff.mpr hsatisfaction⟩

theorem satisfies_eq_search (o required : ObjectRef) :
    h.satisfies resolve o required = ((satisfying h resolve).search h.pairBound (o, required) []).1 := by
  rw [satisfies, satisfyWithin_eq_search]

/-- Where members lead into the heap, so do the requirements that come up. -/
theorem enclosed_arising (hmembers : ∀ p, h.HasMembers (h.object p).members) {o required : ObjectRef}
    (ho : h.Has (.object o)) :
    (satisfying h resolve).Enclosed h ((satisfying h resolve).Arises (o, required)) where
  known _ _ _ _ hpair := hpair
  closed _ _ hq hasks := hq.tail hasks
  inside := by
    intro q q' hq hasks
    constructor
    · clear hasks
      induction hq with
      | refl => exact ho
      | @tail q x _ hasks ih =>
        rcases mentions_requirementDemand hasks with
          ⟨l, r, -, rfl | rfl⟩ | ⟨name, v, t, p, -, -, hp, rfl⟩ | ⟨p, -, rfl⟩
        · exact ih
        · exact ih
        · obtain ⟨a, -, hown⟩ := mem_inherited_iff.mp hp
          exact hmembers a name _ (NameMap.mem_of_find? hown)
        · exact ih
    · rcases mentions_requirementDemand hasks with
        ⟨l, r, hkind, -⟩ | ⟨name, v, t, p, hentry, -⟩ | ⟨p, hp, -⟩
      · exact index_lt_of_isType (IsUnion.isType ⟨l, r, hkind⟩)
      · exact index_lt_of_mem hentry
      · exact index_lt_of_parent? hp

/-- The search finds what a satisfaction relates. -/
theorem IsSatisfaction.satisfies (hS : h.IsSatisfaction resolve S) {o required : ObjectRef}
    (hmem : S o required) : h.satisfies resolve o required = true := by
  rw [satisfies_eq_search]
  exact Inquiry.search_of_consistent (consistent_satisfying_iff.mpr hS) _ hmem []

/-- **Satisfaction.** In every graph and for every resolver:

* an object satisfies a type if some satisfaction relates the two;
* and only then, if the members of the graph lead into it, and every requirement that is refused where
  another attempt can follow comes up once;
* and only then, if no union is reached from the type, and there is no choice between plain objects that
  are inherited under one name. -/
theorem satisfies_iff_exists_satisfaction (h : Heap) (resolve : Resolver) (o required : ObjectRef) :
    (∀ S : ObjectRef → ObjectRef → Prop, h.IsSatisfaction resolve S → S o required →
      h.satisfies resolve o required = true) ∧
    ((∀ p, h.HasMembers (h.object p).members) → h.Has (.object o) →
      (∀ q, (satisfying h resolve).Refused (o, required) q →
        (satisfying h resolve).ComesUpOnce (o, required) q) →
      (h.satisfies resolve o required = true ↔
        ∃ S : ObjectRef → ObjectRef → Prop, S o required ∧ h.IsSatisfaction resolve S)) ∧
    ((∀ p, Reaches h resolve o p → h.Has (.object p)) → h.Layered resolve o →
      (∀ t, Reaches h resolve required t → ¬ h.IsUnion t) →
      (h.satisfies resolve o required = true ↔
        ∃ S : ObjectRef → ObjectRef → Prop, S o required ∧ h.IsSatisfaction resolve S)) := by
  refine ⟨fun S hS hmem => hS.satisfies hmem, ?_, ?_⟩
  · intro hmembers ho honce
    constructor
    · intro hok
      rw [satisfies_eq_search] at hok
      exact granted_satisfying_iff.mp
        (Inquiry.granted_of_search ⟨enclosed_arising hmembers ho, honce⟩ hok)
    · rintro ⟨S, hmem, hS⟩
      exact hS.satisfies hmem
  · intro hobjects hlayered hunion
    have hG := confined_required hobjects hlayered hunion
    have hroot : Required h resolve o required (o, required) := ⟨.self, .self⟩
    rw [satisfies_eq_search, Inquiry.search_iff_exists_consistent hG hroot h.card_unseen_nil
      fun _ _ => List.not_mem_nil]
    exact granted_satisfying_iff

/-- A union of two structural types, and a plain object that has no fitting member for the first one, and
for the second one another plain object. -/
def sided : Heap where
  objects := #[.type "Int" none .empty true, .type "Str" none .empty true,
    .type "L" none ⟨[("p", .object ⟨1⟩)]⟩ false, .type "T" none ⟨[("z", .object ⟨0⟩)]⟩ false,
    .type "R" none ⟨[("q", .object ⟨3⟩)]⟩ false, .union ⟨2⟩ ⟨4⟩,
    .plain none ⟨[("p", .int 1), ("q", .object ⟨7⟩)]⟩, .plain none ⟨[("z", .int 2)]⟩]
  arrays := #[]

/-- The types of numbers and texts. -/
def scalarType : Resolver
  | .int _ => some ⟨0⟩
  | .text _ => some ⟨1⟩
  | _ => none

/-- The object of `sided` satisfies the union, although its first side is refused: that side comes up
once. -/
theorem satisfies_iff_exists_satisfaction_sided :
    sided.satisfies scalarType ⟨6⟩ ⟨2⟩ = false ∧
    ∃ S : ObjectRef → ObjectRef → Prop, S ⟨6⟩ ⟨5⟩ ∧ sided.IsSatisfaction scalarType S := by
  refine ⟨by decide +kernel, ?_⟩
  set I := satisfying sided scalarType
  have hunion : I.demand (⟨6⟩, ⟨5⟩) = .either (.on (⟨6⟩, ⟨2⟩)) (.on (⟨6⟩, ⟨4⟩)) := rfl
  have hleft : I.demand (⟨6⟩, ⟨2⟩) =
      .both (.both (.either (.settled false) (.settled false)) (.settled true)) (.settled true) := rfl
  have hright : I.demand (⟨6⟩, ⟨4⟩) =
      .both (.both (.either (.on (⟨7⟩, ⟨3⟩)) (.settled false)) (.settled true)) (.settled true) := rfl
  have hinner : I.demand (⟨7⟩, ⟨3⟩) =
      .both (.both (.either (.settled true) (.settled false)) (.settled true)) (.settled true) := rfl
  have harises (q : Requirement) (hq : I.Arises (⟨6⟩, ⟨5⟩) q) :
      q = (⟨6⟩, ⟨5⟩) ∨ q = (⟨6⟩, ⟨2⟩) ∨ q = (⟨6⟩, ⟨4⟩) ∨ q = (⟨7⟩, ⟨3⟩) := by
    induction hq with
    | refl => exact .inl rfl
    | tail _ hasks ih =>
      rcases ih with rfl | rfl | rfl | rfl <;>
        simp [Inquiry.Asks, hunion, hleft, hright, hinner, Demand.Mentions] at hasks <;> tauto
  -- only the union asks for its first side, and only that side is tried before something else
  have hasker (y : Requirement) (hy : I.Arises (⟨6⟩, ⟨5⟩) y) (hasks : I.Asks y (⟨6⟩, ⟨2⟩)) :
      y = (⟨6⟩, ⟨5⟩) := by
    rcases harises y hy with rfl | rfl | rfl | rfl <;>
      simp [Inquiry.Asks, hleft, hright, hinner, Demand.Mentions] at hasks ⊢
  have htried (y z : Requirement) (hy : I.Arises (⟨6⟩, ⟨5⟩) y) (hz : (I.demand y).Tried z) :
      z = (⟨6⟩, ⟨2⟩) := by
    rcases harises y hy with rfl | rfl | rfl | rfl <;>
      simp [hunion, hleft, hright, hinner, Demand.Tried, Demand.Mentions] at hz
    exact hz.symm
  have hsize : sided.objects.size = 8 := rfl
  have hmembers (o : ObjectRef) : sided.HasMembers (sided.object o).members := by
    intro name v hmem
    rcases o with ⟨_ | _ | _ | _ | _ | _ | _ | _ | n⟩ <;>
      simp [Heap.object, sided, Object.type, Object.union, Object.plain, NameMap.empty] at hmem <;>
      grind only [Has]
  have honce (q : Requirement) (hq : I.Refused (⟨6⟩, ⟨5⟩) q) : I.ComesUpOnce (⟨6⟩, ⟨5⟩) q := by
    obtain ⟨⟨y, z, hy, hz, hq⟩, -⟩ := hq
    obtain rfl := htried y z hy hz
    obtain rfl : q = (⟨6⟩, ⟨2⟩) := by
      rcases hq.cases_head with rfl | ⟨x, hasks, -⟩
      · rfl
      · simp [Inquiry.Asks, hleft, Demand.Mentions] at hasks
    refine ⟨by decide, ?_, ?_⟩
    · intro y hy
      rcases harises y hy with rfl | rfl | rfl | rfl <;>
        simp [hunion, hleft, hright, hinner, Demand.Once, Demand.Mentions]
    · intro y y' hy hy' hasks hasks'
      rw [hasker y hy hasks, hasker y' hy' hasks']
  have hsatisfies : sided.satisfies scalarType ⟨6⟩ ⟨5⟩ = true := by decide +kernel
  exact ((satisfies_iff_exists_satisfaction sided scalarType ⟨6⟩ ⟨5⟩).2.1 hmembers
    (by decide : 6 < sided.objects.size) honce).mp hsatisfies

/-- Types and plain objects of which the search finds too much. -/
def overlooked : Heap where
  objects := #[.type "Int" none .empty true,
    -- a type, the union of this type with itself, and an object that does not have its member
    .type "A" none ⟨[("z", .object ⟨0⟩)]⟩ false, .union ⟨1⟩ ⟨1⟩, .plain none .empty,
    -- types without a union, and an object that has its member from two objects, which share that member
    .type "U" none ⟨[("b", .object ⟨1⟩)]⟩ false, .type "V" none ⟨[("x", .object ⟨4⟩)]⟩ false,
    .plain none ⟨[("b", .object ⟨3⟩)]⟩, .plain none ⟨[("b", .object ⟨3⟩)]⟩,
    .plain none ⟨[("x", .object ⟨6⟩)]⟩, .plain (some ⟨8⟩) ⟨[("x", .object ⟨7⟩)]⟩]
  arrays := #[]

/-- What is refused on the first side of a union, or for the first of two inherited values, is taken to be
settled on the second attempt. -/
theorem satisfies_what_was_refused :
    (overlooked.satisfies scalarType ⟨3⟩ ⟨2⟩ = true ∧
      ¬ ∃ S : ObjectRef → ObjectRef → Prop, S ⟨3⟩ ⟨2⟩ ∧ overlooked.IsSatisfaction scalarType S) ∧
    (overlooked.satisfies scalarType ⟨9⟩ ⟨5⟩ = true ∧
      ¬ ∃ S : ObjectRef → ObjectRef → Prop, S ⟨9⟩ ⟨5⟩ ∧ overlooked.IsSatisfaction scalarType S) := by
  have hrefused : overlooked.satisfies scalarType ⟨3⟩ ⟨1⟩ = false ∧
      overlooked.satisfies scalarType ⟨6⟩ ⟨4⟩ = false ∧
      overlooked.satisfies scalarType ⟨7⟩ ⟨4⟩ = false := by decide +kernel
  have hdescends {o t : ObjectRef} (hnot : overlooked.inheritsFrom o t = false) :
      ¬ overlooked.Descends o t := fun hd => by simp [inheritsFrom_iff.mpr hd] at hnot
  refine ⟨⟨by decide +kernel, ?_⟩, by decide +kernel, ?_⟩
  · rintro ⟨S, hmem, hS⟩
    rcases hS ⟨3⟩ ⟨2⟩ hmem with hd | ⟨l, r, hkind, hside⟩ | ⟨hunion, -⟩
    · exact hdescends (by decide +kernel) hd
    · cases hkind
      have hfound : overlooked.satisfies scalarType ⟨3⟩ ⟨1⟩ = true := hS.satisfies (or_self_iff.mp hside)
      simp [hrefused.1] at hfound
    · exact hunion ⟨⟨1⟩, ⟨1⟩, rfl⟩
  · rintro ⟨S, hmem, hS⟩
    rcases hS ⟨9⟩ ⟨5⟩ hmem with hd | ⟨l, r, hkind, -⟩ | ⟨-, hmembers, -⟩
    · exact hdescends (by decide +kernel) hd
    · cases hkind
    obtain ⟨a, w, ha, hw, hfits⟩ := hmembers "x" (.object ⟨4⟩) List.mem_cons_self
    have hinherited : w ∈ overlooked.inherited ⟨9⟩ "x" := mem_inherited_iff.mpr ⟨a, ha, hw⟩
    have hvalues : overlooked.inherited ⟨9⟩ "x" = [.object ⟨7⟩, .object ⟨6⟩] := by rfl
    rw [hvalues] at hinherited
    -- neither of the two values satisfies the type of the member
    rcases hfits ⟨4⟩ rfl with ⟨y, rfl, -, hy⟩ | ⟨htype, -⟩
    · have hfound := hS.satisfies hy
      simp only [List.mem_cons, Value.object.injEq, List.not_mem_nil, or_false] at hinherited
      rcases hinherited with rfl | rfl <;> simp [hrefused] at hfound
    · simp only [List.mem_cons, List.not_mem_nil, or_false] at hinherited
      rcases hinherited with rfl | rfl
      · exact absurd (htype ⟨7⟩ rfl) (by decide)
      · exact absurd (htype ⟨6⟩ rfl) (by decide)

end ProtoScript.Heap
