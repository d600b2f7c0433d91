import ProtoScript.Heap.Satisfy
import ProtoScript.Proofs.Heap.Lineage
import ProtoScript.Proofs.Typing.Simulation

/-!
# The search for what satisfies a type

Whether an object satisfies a type is an inquiry too.  Its questions are the pairs of an object and a
required type.  A member that is required may be inherited from several objects, and any of its values
may fit; plain objects among these lead to further questions, and for all other values it is settled by
the comparison of types.
-/

namespace ProtoScript.Heap

/-- Whether an object satisfies a type. -/
abbrev Requirement := ObjectRef × ObjectRef

section

variable (h : Heap) (resolve : Resolver)

/-- What is asked of a value where a type is required. -/
def valueDemand (v : Value) (required : ObjectRef) : Demand Requirement :=
  let byType : Demand Requirement :=
    .settled (match resolve v with
      | some t => h.accepts resolve required t
      | none => false)
  match v with
  | .object o => if h.isType o then byType else .on (o, required)
  | _ => byType

/-- What is asked of an object for a member that is required. -/
def fittingDemand (o : ObjectRef) (required : String × Value) : Demand Requirement :=
  match h.memberType? resolve required.2 with
  | some t => .any ((h.inherited o required.1).map fun v => h.valueDemand resolve v t)
  | none => .settled !(h.inherited o required.1).isEmpty

/-- What is asked of an object for the parent of what is required. -/
def ancestorDemand (o required : ObjectRef) : Demand Requirement :=
  match h.parent? required with
  | some p => .on (o, p)
  | none => .settled true

/-- What is asked of an object where a type is required. -/
def requirementDemand (q : Requirement) : Demand Requirement :=
  if h.inheritsFrom q.1 q.2 then .settled true
  else
    match (h.object q.2).kind with
    | .union l r => .either (.on (q.1, l)) (.on (q.1, r))
    | _ =>
      .both (.all ((h.object q.2).members.entries.map (h.fittingDemand resolve q.1)))
        (h.ancestorDemand q.1 q.2)

/-- The inquiry of which requirements are the questions; none of them is obvious. -/
def satisfying : Inquiry Requirement where
  pair q := q
  obvious _ := false
  demand := h.requirementDemand resolve

/-- Where a name is inherited several times, only the farthest of its values may be a plain object.  So
there is never a choice between plain objects. -/
def Layered (o : ObjectRef) : Prop :=
  ∀ p name q, Reaches h resolve o p → .object q ∈ (h.inherited p name).dropLast → h.isType q = true

end

variable {h : Heap} {resolve : Resolver}

/-! ### The search as an inquiry -/

/-- Checking whether a value fits is a search. -/
theorem valueFits_eq {self : ObjectRef → ObjectRef → Search Bool} (v : Value) (required : ObjectRef) :
    valueFits h resolve self v required =
      (h.valueDemand resolve v required).search fun q => self q.1 q.2 := by
  unfold valueFits valueDemand
  cases v <;> cases resolve _ <;> first | rfl | (dsimp only; split <;> rfl)

/-- Looking for a fitting value among those that are inherited is a search. -/
theorem hasFitting_eq {self : ObjectRef → ObjectRef → Search Bool} (o : ObjectRef)
    (required : String × Value) :
    hasFitting h resolve self o required =
      (h.fittingDemand resolve o required).search fun q => self q.1 q.2 := by
  unfold hasFitting fittingDemand
  cases h.memberType? resolve required.2 with
  | none => rfl
  | some t => exact someOf_eq (fun v => valueFits_eq v t) _

/-- The search for a pair that was seen before succeeds; otherwise the pair is noted, and what it
demands is searched for. -/
theorem satisfyStep_apply {self : ObjectRef → ObjectRef → Search Bool} (o required : ObjectRef)
    (seen : Seen) :
    satisfyStep h resolve self o required seen =
      if (o, required) ∈ seen then (true, seen)
      else (h.requirementDemand resolve (o, required)).search (fun q => self q.1 q.2)
        ((o, required) :: seen) := by
  unfold satisfyStep
  rw [visit_bind]
  congr 1
  unfold requirementDemand
  by_cases hinherits : h.inheritsFrom o required = true
  · rw [if_pos hinherits, if_pos hinherits]
    rfl
  rw [if_neg hinherits, if_neg hinherits]
  have hfitting (entry : String × Value) : hasFitting h resolve self o entry =
      (h.fittingDemand resolve o entry).search fun q => self q.1 q.2 := hasFitting_eq o entry
  have hmembers := every_eq hfitting (h.object required).members.entries
  rw [hmembers]
  unfold ancestorDemand
  cases (h.object required).kind <;> cases h.parent? required <;> rfl

/-- Checking whether an object satisfies a type is a search. -/
theorem satisfyWithin_eq_search (fuel : Nat) (o required : ObjectRef) :
    satisfyWithin h resolve fuel o required = (satisfying h resolve).search fuel (o, required) := by
  induction fuel generalizing o required with
  | zero => rfl
  | succ fuel ih =>
    funext seen
    rw [satisfyWithin, satisfyStep_apply]
    have hself : (fun q : Requirement => satisfyWithin h resolve fuel q.1 q.2) =
        (satisfying h resolve).search fuel := funext fun q => ih q.1 q.2
    rw [hself]
    simp [Inquiry.search, Inquiry.Noted, satisfying]

/-! ### Where the search can get to -/

/-- What is reached in two steps is reached. -/
theorem Reaches.trans {o p q : ObjectRef} (hp : Reaches h resolve o p) (hq : Reaches h resolve p q) :
    Reaches h resolve o q := by
  induction hq with
  | self => exact hp
  | parent _ hparent ih => exact ih.parent hparent
  | member _ hmem ih => exact ih.member hmem
  | memberType _ hmem htype ih => exact ih.memberType hmem htype
  | left _ hkind ih => exact ih.left hkind
  | right _ hkind ih => exact ih.right hkind

/-- The lineage of what is reached is reached. -/
theorem reaches_of_mem_lineage {o p a : ObjectRef} (hp : Reaches h resolve o p)
    (ha : a ∈ h.lineage p) : Reaches h resolve o a := by
  have hdescends : h.Descends p a := mem_lineage_iff.mp ha
  clear ha
  induction hdescends with
  | refl => exact hp
  | tail _ hparent ih => exact ih.parent hparent

/-- Objects that are inherited as members are reached. -/
theorem reaches_of_mem_inherited {o p q : ObjectRef} {name : String} (hp : Reaches h resolve o p)
    (hq : .object q ∈ h.inherited p name) : Reaches h resolve o q := by
  obtain ⟨a, ha, hmember⟩ := List.mem_filterMap.mp hq
  exact (reaches_of_mem_lineage hp ha).member (NameMap.mem_of_find? hmember)

/-- Where nothing has a parent, a name is inherited once at most, and there is nothing to choose. -/
theorem layered_of_parentless {o : ObjectRef} (hparent : ∀ p, Reaches h resolve o p → h.parent? p = none) :
    h.Layered resolve o := by
  intro p name q hp hq
  have hnone (fuel : Nat) (trail : Trail) : h.lineageFrom fuel trail none = [] := by
    cases fuel <;> rfl
  have hlineage : h.lineage p = [p] := by
    rw [lineage, lineageFrom, hparent p hp, hnone, if_neg]
    simp
  have hinherited : (h.inherited p name).dropLast = [] := by
    rw [inherited, hlineage, List.filterMap_cons]
    cases h.ownMember? p name <;> rfl
  rw [hinherited] at hq
  cases hq

/-- Only plain objects lead from a value to another question. -/
theorem mentions_valueDemand {v : Value} {required : ObjectRef} {q : Requirement}
    (hq : (h.valueDemand resolve v required).Mentions q) :
    ∃ p, v = .object p ∧ h.isType p = false ∧ q = (p, required) := by
  unfold valueDemand at hq
  cases v with
  | object p =>
    by_cases hp : h.isType p = true
    · simp only [hp, if_true] at hq
      exact hq.elim
    · simp only [hp] at hq
      exact ⟨p, rfl, by simpa using hp, hq.symm⟩
  | _ => exact hq.elim

/-- A value that is no plain object is settled. -/
theorem valueDemand_eq_settled {v : Value} (hv : ∀ p, v = .object p → h.isType p = true)
    (required : ObjectRef) : ∃ answer, h.valueDemand resolve v required = .settled answer := by
  unfold valueDemand
  cases v with
  | object p =>
    simp only [hv p rfl, if_true]
    exact ⟨_, rfl⟩
  | _ => exact ⟨_, rfl⟩

theorem plain_valueDemand (v : Value) (required : ObjectRef) :
    (h.valueDemand resolve v required).Plain := by
  unfold valueDemand
  cases v with
  | object p =>
    dsimp only
    split <;> trivial
  | _ => trivial

/-- If only the farthest value of the name may be a plain object, there is no choice. -/
theorem plain_fittingDemand {o : ObjectRef} {required : String × Value}
    (ho : ∀ q, .object q ∈ (h.inherited o required.1).dropLast → h.isType q = true) :
    (h.fittingDemand resolve o required).Plain := by
  unfold fittingDemand
  cases h.memberType? resolve required.2 with
  | none => trivial
  | some t =>
    refine Demand.plain_any ?_ ?_
    · intro d hd
      rw [← List.map_dropLast] at hd
      obtain ⟨v, hv, rfl⟩ := List.mem_map.mp hd
      refine valueDemand_eq_settled ?_ t
      rintro q rfl
      exact ho q hv
    · intro d hd
      obtain ⟨v, -, rfl⟩ := List.mem_map.mp hd
      exact plain_valueDemand v t

/-- What a requirement leads to: the sides of a union, a plain object among the values of a member, or
the parent. -/
theorem mentions_requirementDemand {o required : ObjectRef} {q : Requirement}
    (hq : (h.requirementDemand resolve (o, required)).Mentions q) :
    (∃ l r, (h.object required).kind = .union l r ∧ (q = (o, l) ∨ q = (o, r))) ∨
      (∃ name v t p, (name, v) ∈ (h.object required).members.entries ∧
        h.memberType? resolve v = some t ∧ .object p ∈ h.inherited o name ∧ q = (p, t)) ∨
      ∃ p, h.parent? required = some p ∧ q = (o, p) := by
  unfold requirementDemand at hq
  split at hq
  · exact hq.elim
  split at hq
  · rename_i l r hkind
    exact .inl ⟨l, r, hkind, hq.imp Eq.symm Eq.symm⟩
  · rcases hq with hq | hq
    · simp only [Demand.mentions_all, List.mem_map] at hq
      obtain ⟨_, ⟨⟨name, v⟩, hentry, rfl⟩, hq⟩ := hq
      unfold fittingDemand at hq
      split at hq
      · rename_i t ht
        simp only [Demand.mentions_any, List.mem_map] at hq
        obtain ⟨_, ⟨w, hw, rfl⟩, hq⟩ := hq
        obtain ⟨p, rfl, -, rfl⟩ := mentions_valueDemand hq
        exact .inr (.inl ⟨name, v, t, p, hentry, ht, hw, rfl⟩)
      · exact hq.elim
    · unfold ancestorDemand at hq
      split at hq
      · rename_i p hp
        exact .inr (.inr ⟨p, hp, hq.symm⟩)
      · exact hq.elim

/-- The requirements of what is reached from a type on what is reached from an object. -/
def Required (h : Heap) (resolve : Resolver) (o required : ObjectRef) (q : Requirement) : Prop :=
  Reaches h resolve o q.1 ∧ Reaches h resolve required q.2

/-- If no union is reached from the type, and there is no choice between plain objects, the search is
confined to what is reached. -/
theorem confined_required {o required : ObjectRef}
    (hobjects : ∀ p, Reaches h resolve o p → p.index < h.objects.size)
    (hlayered : h.Layered resolve o)
    (hunion : ∀ t, Reaches h resolve required t → ¬ h.IsUnion t) :
    (satisfying h resolve).Confined h (Required h resolve o required) where
  known _ _ _ _ hpair := hpair
  closed := by
    rintro ⟨p, r⟩ q ⟨hp, hr⟩ hq
    rcases mentions_requirementDemand hq with
      ⟨l, l', hkind, -⟩ | ⟨name, v, t, p', hentry, ht, hp', rfl⟩ | ⟨r', hr', rfl⟩
    · exact absurd ⟨l, l', hkind⟩ (hunion r hr)
    · exact ⟨reaches_of_mem_inherited hp hp', hr.memberType hentry ht⟩
    · exact ⟨hp, hr.parent hr'⟩
  inside := by
    rintro ⟨p, r⟩ q ⟨hp, hr⟩ hq
    refine ⟨hobjects p hp, ?_⟩
    rcases mentions_requirementDemand hq with
      ⟨l, l', hkind, -⟩ | ⟨name, v, t, p', hentry, -⟩ | ⟨r', hr', -⟩
    · exact absurd ⟨l, l', hkind⟩ (hunion r hr)
    · exact index_lt_of_mem hentry
    · exact index_lt_of_parent? hr'
  plain := by
    rintro ⟨p, r⟩ ⟨hp, hr⟩
    change (h.requirementDemand resolve (p, r)).Plain
    unfold requirementDemand
    split
    · trivial
    split
    · rename_i l l' hkind
      exact absurd ⟨l, l', hkind⟩ (hunion r hr)
    · refine ⟨?_, ?_⟩
      · simp only [Demand.plain_all, List.forall_mem_map]
        intro entry _
        exact plain_fittingDemand fun q hq => hlayered p entry.1 q hp hq
      · unfold ancestorDemand
        split <;> trivial

end ProtoScript.Heap
