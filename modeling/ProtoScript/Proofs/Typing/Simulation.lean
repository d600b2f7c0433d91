import ProtoScript.Proofs.Typing.Search

/-!
# Acceptance without unions is similarity

Where no union can be reached, a type accepts another exactly if some simulation relates the two. A
simulation consists of a relation on types and one on plain objects: related types have the same
nominal name, or related parents and related members; related plain objects have related members.
Nothing is said about how the relation is found, so types may refer to themselves in any way.

The visited pairs of a successful search are a simulation, by `exists_consistent_of_accepts`; and no
search fails for what a simulation relates, by `accepts_of_consistent`.
-/

namespace ProtoScript.Heap

section

variable (h : Heap) (resolve : Resolver)

/-- What can be reached from an object through parents, members, the types of members, and the sides of
unions. -/
inductive Reaches (o : ObjectRef) : ObjectRef → Prop
  | self : Reaches o o
  | parent {p q : ObjectRef} : Reaches o p → h.parent? p = some q → Reaches o q
  | member {p q : ObjectRef} {name : String} :
    Reaches o p → (name, .object q) ∈ (h.object p).members.entries → Reaches o q
  | memberType {p t : ObjectRef} {name : String} {v : Value} :
    Reaches o p → (name, v) ∈ (h.object p).members.entries → h.memberType? resolve v = some t →
      Reaches o t
  | left {p l r : ObjectRef} : Reaches o p → (h.object p).kind = .union l r → Reaches o l
  | right {p l r : ObjectRef} : Reaches o p → (h.object p).kind = .union l r → Reaches o r

/-- Whether an object is a union. -/
def IsUnion (o : ObjectRef) : Prop :=
  ∃ l r, (h.object o).kind = .union l r

/-- Whether an object is a nominal type. -/
def IsNominal (o : ObjectRef) : Prop :=
  ∃ name, (h.object o).kind = .type name true

/-- Whether two objects are nominal types of one name. -/
def SameNominal (a b : ObjectRef) : Prop :=
  ∃ name, (h.object a).kind = .type name true ∧ (h.object b).kind = .type name true

/-- What is asked of the objects of a graph besides: whatever is reached from an object, the parent of a
type is a type, and so are the sides of a union. -/
structure WellTyped (o : ObjectRef) : Prop where
  parent : ∀ t p, Reaches h resolve o t → h.isType t = true → h.parent? t = some p →
    h.isType p = true
  sides : ∀ u l r, Reaches h resolve o u → (h.object u).kind = .union l r →
    h.isType l = true ∧ h.isType r = true

variable (R F : ObjectRef → ObjectRef → Prop)

/-- Whether two members have types that are related. -/
def TypesRelated (v w : Value) : Prop :=
  ∃ s t, h.memberType? resolve v = some s ∧ h.memberType? resolve w = some t ∧ R s t

/-- Whether two members are related: plain objects by themselves, anything else by type. -/
def MemberRelated : Value → Value → Prop
  | .object o, .object p =>
    if h.isType o = false ∧ h.isType p = false then o = p ∨ F o p
    else h.TypesRelated resolve R (.object o) (.object p)
  | v, w => h.TypesRelated resolve R v w

/-- Whether every member is related to one of the same name. -/
def MembersRelated (a b : Members) : Prop :=
  ∀ name v, (name, v) ∈ a.entries → ∃ w, b.get? name = some w ∧ h.MemberRelated resolve R F v w

/-- Whether there are no parents, or related ones. -/
def ParentsRelated : Option ObjectRef → Option ObjectRef → Prop
  | none, none => True
  | some p, some q => R p q
  | _, _ => False

/-- Whether two types are alike: if one of them is nominal, both are and have one name; otherwise
their parents and members are related. -/
def Alike (a b : ObjectRef) : Prop :=
  ((h.IsNominal a ∨ h.IsNominal b) ∧ h.SameNominal a b) ∨
  (¬ (h.IsNominal a ∨ h.IsNominal b) ∧ ParentsRelated R (h.parent? a) (h.parent? b) ∧
    h.MembersRelated resolve R F (h.object a).members (h.object b).members)

/-- What two different types that are related must have, given a relation on types and one on plain
objects. -/
abbrev Rule :=
  (ObjectRef → ObjectRef → Prop) → (ObjectRef → ObjectRef → Prop) → ObjectRef → ObjectRef → Prop

/-- A relation on types together with one on plain objects. Different types that are related have what
the rule says, and plain objects that are related have related members. -/
structure IsSimulation (rule : Rule) : Prop where
  isType : ∀ a b, R a b → h.isType a = true ∧ h.isType b = true
  isPlain : ∀ a b, F a b → h.isType a = false ∧ h.isType b = false
  types : ∀ a b, R a b → a = b ∨ rule R F a b
  fields : ∀ a b, F a b →
    h.MembersRelated resolve R F (h.object a).members (h.object b).members

/-- The comparisons that two relations stand for. -/
def comparisons : Comparison → Prop
  | .types a b => R a b
  | .fields a b => a = b ∨ F a b

end

section

variable {h : Heap} {resolve : Resolver} {R F : ObjectRef → ObjectRef → Prop}

/-! ### Demands as relations -/

/-- What two parents demand of each other. -/
theorem holds_parentsDemand {S : Comparison → Prop} {p q : Option ObjectRef} :
    (parentsDemand p q).Holds S ↔ ParentsRelated (fun a b => S (.types a b)) p q := by
  rcases p with _ | p <;> rcases q with _ | q <;> simp [parentsDemand, Demand.Holds, ParentsRelated]

/-- Two members are compared by type if both have one. -/
theorem typesComparison_eq_some_iff {v w : Value} {c : Comparison} :
    (match h.memberType? resolve v, h.memberType? resolve w with
      | some s, some t => some (Comparison.types s t)
      | _, _ => none) = some c ↔
      ∃ s t, h.memberType? resolve v = some s ∧ h.memberType? resolve w = some t ∧
        c = .types s t := by
  rcases h.memberType? resolve v with _ | s <;> rcases h.memberType? resolve w with _ | t <;>
    simp [eq_comm]

/-- Two members are related if there is a comparison for them that is. -/
theorem memberRelated_iff {v w : Value} :
    h.MemberRelated resolve R F v w ↔
      ∃ c, h.memberComparison? resolve v w = some c ∧ comparisons R F c := by
  have byType : h.TypesRelated resolve R v w ↔
      ∃ c, (∃ s t, h.memberType? resolve v = some s ∧ h.memberType? resolve w = some t ∧
        c = .types s t) ∧ comparisons R F c := by
    constructor
    · rintro ⟨s, t, hs, ht, hrelated⟩
      exact ⟨.types s t, ⟨s, t, hs, ht, rfl⟩, hrelated⟩
    · rintro ⟨_, ⟨s, t, hs, ht, rfl⟩, hrelated⟩
      exact ⟨s, t, hs, ht, hrelated⟩
  simp only [← typesComparison_eq_some_iff] at byType
  rcases v <;> rcases w <;> try exact byType
  rename_i o p
  by_cases hplain : h.isType o = false ∧ h.isType p = false
  · simp [MemberRelated, memberComparison?, hplain, comparisons]
  · have hnot : (!h.isType o && !h.isType p) ≠ true := by simpa using hplain
    simp only [MemberRelated, memberComparison?, if_neg hplain, if_neg hnot]
    exact byType

/-- What members demand of others. -/
theorem holds_membersDemand {a b : Members} :
    (h.membersDemand resolve a b).Holds (comparisons R F) ↔ h.MembersRelated resolve R F a b := by
  simp only [membersDemand, Demand.holds_all, List.forall_mem_map, Prod.forall, MembersRelated,
    Demand.holds_onSome, Option.bind_eq_some_iff, memberRelated_iff]
  constructor
  · intro hall name v hv
    obtain ⟨c, ⟨w, hw, hc⟩, hrel⟩ := hall name v hv
    exact ⟨w, hw, c, hc, hrel⟩
  · intro hall name v hv
    obtain ⟨w, hw, c, hc, hrel⟩ := hall name v hv
    exact ⟨c, ⟨w, hw, hc⟩, hrel⟩

/-- A type that is no union has a name. -/
theorem kind_of_isType {o : ObjectRef} (htype : h.isType o = true) (hunion : ¬ h.IsUnion o) :
    ∃ name nominal, (h.object o).kind = .type name nominal := by
  rcases hkind : (h.object o).kind with _ | ⟨name, nominal⟩ | ⟨l, r⟩
  · simp [isType, hkind, ObjectKind.isType] at htype
  · exact ⟨name, nominal, rfl⟩
  · exact absurd ⟨l, r, hkind⟩ hunion

/-- What structures demand of each other. -/
theorem holds_structureDemand {a b : ObjectRef} :
    (h.structureDemand resolve a b).Holds (comparisons R F) ↔
      ParentsRelated R (h.parent? a) (h.parent? b) ∧
        h.MembersRelated resolve R F (h.object a).members (h.object b).members :=
  and_congr holds_parentsDemand holds_membersDemand

/-- Without unions, what a type demands of another is that they are alike. -/
theorem holds_kindsDemand {a b : ObjectRef} (hproper : (Comparison.types a b).Proper h)
    (ha : ¬ h.IsUnion a) (hb : ¬ h.IsUnion b) :
    (h.kindsDemand resolve a b).Holds (comparisons R F) ↔ h.Alike resolve R F a b := by
  obtain ⟨m, p, hka⟩ := kind_of_isType hproper.1 ha
  obtain ⟨n, q, hkb⟩ := kind_of_isType hproper.2 hb
  unfold kindsDemand Alike IsNominal SameNominal
  rw [hka, hkb]
  rcases p <;> rcases q
  · simpa using holds_structureDemand
  · simp [Demand.Holds]
  · simp [Demand.Holds]
  · simpa [Demand.Holds] using eq_comm

/-! ### Where a search can get to -/

theorem plain_parentsDemand (p q : Option ObjectRef) : (parentsDemand p q).Plain := by
  rcases p with _ | p <;> rcases q with _ | q <;> trivial

/-- Comparing members leaves no choice. -/
theorem plain_membersDemand (a b : Members) : (h.membersDemand resolve a b).Plain := by
  simp only [membersDemand, Demand.plain_all, List.forall_mem_map]
  exact fun _ _ => Demand.plain_onSome _

/-- Only a declared union leaves a choice. -/
theorem plain_kindsDemand {a b : ObjectRef} (ha : ¬ h.IsUnion a) :
    (h.kindsDemand resolve a b).Plain := by
  have hstructure : (h.structureDemand resolve a b).Plain :=
    ⟨plain_parentsDemand _ _, plain_membersDemand _ _⟩
  unfold kindsDemand
  split
  · rename_i l r hkind
    exact absurd ⟨l, r, hkind⟩ ha
  · exact ⟨trivial, trivial⟩
  · split
    · trivial
    · exact hstructure
  · exact hstructure

/-- A structural comparison leads to the parents or to members. -/
theorem mentions_structureDemand {a b : ObjectRef} {c : Comparison}
    (hc : (h.structureDemand resolve a b).Mentions c) :
    (∃ p q, h.parent? a = some p ∧ h.parent? b = some q ∧ c = .types p q) ∨
      (h.membersDemand resolve (h.object a).members (h.object b).members).Mentions c := by
  refine hc.imp_left fun hc => ?_
  rcases hp : h.parent? a with _ | p <;> rcases hq : h.parent? b with _ | q <;>
    simp only [hp, hq, parentsDemand, Demand.Mentions] at hc
  exact ⟨p, q, rfl, rfl, hc.symm⟩

/-- A comparison of types leads to the sides of the declared union, or to those of the actual one, or to
where a structural comparison leads. -/
theorem mentions_kindsDemand {a b : ObjectRef} {c : Comparison}
    (hc : (h.kindsDemand resolve a b).Mentions c) :
    (∃ l r, (h.object a).kind = .union l r ∧ (c = .types l b ∨ c = .types r b)) ∨
      (∃ l r, (h.object b).kind = .union l r ∧ (c = .types a l ∨ c = .types a r)) ∨
        (h.structureDemand resolve a b).Mentions c := by
  unfold kindsDemand at hc
  split at hc
  · rename_i l r hkind
    exact .inl ⟨l, r, hkind, hc.imp Eq.symm Eq.symm⟩
  · rename_i l r hkind _
    exact .inr (.inl ⟨l, r, hkind, hc.imp Eq.symm Eq.symm⟩)
  · split at hc
    · exact hc.elim
    · exact .inr (.inr hc)
  · exact .inr (.inr hc)

/-- Members are compared as plain objects, or by their types. -/
theorem memberComparison?_cases {v w : Value} {c : Comparison}
    (hc : h.memberComparison? resolve v w = some c) :
    (∃ o p, v = .object o ∧ w = .object p ∧ h.isType o = false ∧ h.isType p = false ∧
        c = .fields o p) ∨
      ∃ s t, h.memberType? resolve v = some s ∧ h.memberType? resolve w = some t ∧ c = .types s t := by
  rcases v <;> rcases w <;> try exact .inr (typesComparison_eq_some_iff.mp hc)
  rename_i o p
  simp only [memberComparison?] at hc
  split at hc
  · rename_i hplain
    obtain ⟨ho, hp⟩ : h.isType o = false ∧ h.isType p = false := by simpa using hplain
    exact .inl ⟨o, p, rfl, rfl, ho, hp, (Option.some.inj hc).symm⟩
  · exact .inr (typesComparison_eq_some_iff.mp hc)

/-- What a member stands for is a type. -/
theorem isType_of_memberType? (hresolve : ∀ v t, resolve v = some t → h.isType t = true) {v : Value}
    {t : ObjectRef} (ht : h.memberType? resolve v = some t) : h.isType t = true := by
  unfold memberType? at ht
  split at ht
  · split at ht
    · rename_i htype
      obtain rfl := Option.some.inj ht
      exact htype
    · exact hresolve _ _ ht
  · exact hresolve _ _ ht

/-- The comparisons of what is reached from two objects. -/
def Between (h : Heap) (resolve : Resolver) (a b : ObjectRef) (c : Comparison) : Prop :=
  c.Proper h ∧ Reaches h resolve a c.declared ∧ Reaches h resolve b c.actual

/-- Members of what is reached lead to what is reached. -/
theorem between_of_membersDemand (hresolve : ∀ v t, resolve v = some t → h.isType t = true)
    {a b p q : ObjectRef} {c : Comparison} (hp : Reaches h resolve a p) (hq : Reaches h resolve b q)
    (hc : (h.membersDemand resolve (h.object p).members (h.object q).members).Mentions c) :
    Between h resolve a b c := by
  obtain ⟨name, v, w, hv, hw, hc⟩ := mentions_membersDemand hc
  have hw := NameMap.mem_of_find? hw
  rcases memberComparison?_cases hc with ⟨o, o', rfl, rfl, ho, ho', rfl⟩ | ⟨s, t, hs, ht, rfl⟩
  · exact ⟨⟨ho, ho'⟩, hp.member hv, hq.member hw⟩
  · exact ⟨⟨isType_of_memberType? hresolve hs, isType_of_memberType? hresolve ht⟩,
      hp.memberType hv hs, hq.memberType hw ht⟩

/-- A search stays among what is reached. -/
theorem enclosed_between (hresolve : ∀ v t, resolve v = some t → h.isType t = true)
    {a b : ObjectRef} (ha : h.WellTyped resolve a) (hb : h.WellTyped resolve b) :
    Enclosed h resolve (Between h resolve a b) where
  proper c hc := hc.1
  closed c c' hc hc' := by
    obtain ⟨hproper, hp, hq⟩ := hc
    rcases c with ⟨p, q⟩ | ⟨p, q⟩
    · rcases mentions_kindsDemand hc' with
        ⟨l, r, hkind, rfl | rfl⟩ | ⟨l, r, hkind, rfl | rfl⟩ | hc'
      · exact ⟨⟨(ha.sides p l r hp hkind).1, hproper.2⟩, hp.left hkind, hq⟩
      · exact ⟨⟨(ha.sides p l r hp hkind).2, hproper.2⟩, hp.right hkind, hq⟩
      · exact ⟨⟨hproper.1, (hb.sides q l r hq hkind).1⟩, hp, hq.left hkind⟩
      · exact ⟨⟨hproper.1, (hb.sides q l r hq hkind).2⟩, hp, hq.right hkind⟩
      · rcases mentions_structureDemand hc' with ⟨p', q', hp', hq', rfl⟩ | hc'
        · exact ⟨⟨ha.parent p p' hp hproper.1 hp', hb.parent q q' hq hproper.2 hq'⟩,
            hp.parent hp', hq.parent hq'⟩
        · exact between_of_membersDemand hresolve hp hq hc'
    · exact between_of_membersDemand hresolve hp hq hc'

/-- If no union is reached from the declared side, nothing is asked for by "either". -/
theorem confined_between (hresolve : ∀ v t, resolve v = some t → h.isType t = true)
    {a b : ObjectRef} (ha : h.WellTyped resolve a) (hb : h.WellTyped resolve b)
    (hunion : ∀ o, Reaches h resolve a o → ¬ h.IsUnion o) :
    Confined h resolve (Between h resolve a b) where
  toEnclosed := enclosed_between hresolve ha hb
  plain c hc := by
    rcases c with ⟨p, q⟩ | ⟨p, q⟩
    · exact plain_kindsDemand (hunion p hc.2.1)
    · exact plain_membersDemand _ _

/-! ### Simulations -/

/-- The comparisons of a set, as a relation on types and one on plain objects. -/
theorem comparisons_of_set {S : Comparison → Prop} (c : Comparison) (hc : S c) :
    comparisons (fun a b => S (.types a b)) (fun a b => a ≠ b ∧ S (.fields a b)) c := by
  rcases c with ⟨a, b⟩ | ⟨a, b⟩
  · exact hc
  · by_cases hab : a = b
    · exact .inl hab
    · exact .inr ⟨hab, hc⟩

/-- A rule says what the comparisons of a set demand. -/
def Rule.Describes (rule : Rule) (h : Heap) (resolve : Resolver) (G : Comparison → Prop) : Prop :=
  ∀ R F a b, G (.types a b) →
    ((h.kindsDemand resolve a b).Holds (comparisons R F) ↔ rule R F a b)

/-- A consistent set of comparisons is a simulation. -/
theorem isSimulation_of_consistent {G S : Comparison → Prop} {rule : Rule}
    (hproper : ∀ c, G c → c.Proper h) (hrule : rule.Describes h resolve G)
    (hS : h.Consistent resolve S) (hSG : ∀ c, S c → G c) :
    h.IsSimulation resolve (fun a b => S (.types a b)) (fun a b => a ≠ b ∧ S (.fields a b)) rule where
  isType a b hab := hproper _ (hSG _ hab)
  isPlain a b hab := hproper _ (hSG _ hab.2)
  types a b hab := (hS _ hab).imp_right fun hholds =>
    (hrule _ _ a b (hSG _ hab)).mp (hholds.mono comparisons_of_set)
  fields a b hab := by
    rcases hS _ hab.2 with heq | hholds
    · exact absurd heq hab.1
    · exact holds_membersDemand.mp (hholds.mono comparisons_of_set)

/-- A type accepts another if a simulation relates the two. -/
theorem IsSimulation.accepts {G : Comparison → Prop} {rule : Rule} {a b : ObjectRef}
    (hsim : h.IsSimulation resolve R F rule) (hG : Enclosed h resolve G)
    (hrule : rule.Describes h resolve G) (hab : G (.types a b)) (hR : R a b) :
    h.accepts resolve a b = true := by
  have hconsistent : h.Consistent resolve fun c => G c ∧ comparisons R F c := by
    refine hG.consistent ?_
    rintro (⟨a, b⟩ | ⟨a, b⟩) hc hrel
    · exact (hsim.types a b hrel).imp_right (hrule R F a b hc).mpr
    · exact hrel.imp_right fun hrel => holds_membersDemand.mpr (hsim.fields a b hrel)
  exact accepts_of_consistent hconsistent ⟨hab, hR⟩

/-- Where nothing is asked for by "either", a type accepts another exactly if a simulation relates the
two. -/
theorem accepts_iff_of_confined {G : Comparison → Prop} {rule : Rule} {a b : ObjectRef}
    (hG : Confined h resolve G) (hrule : rule.Describes h resolve G) (hab : G (.types a b)) :
    h.accepts resolve a b = true ↔ ∃ R F, R a b ∧ h.IsSimulation resolve R F rule := by
  constructor
  · intro hok
    obtain ⟨S, hS, hsub, hconsistent⟩ := exists_consistent_of_accepts hG hab hok
    exact ⟨_, _, hS, isSimulation_of_consistent hG.proper hrule hconsistent hsub⟩
  · rintro ⟨R, F, hR, hsim⟩
    exact hsim.accepts hG.toEnclosed hrule hab hR

/-- **Acceptance without unions.** Where values resolve to types, parents of types are types and no union
is reached from either side, a type accepts another exactly if a simulation relates the two. -/
theorem accepts_iff_exists_simulation {a b : ObjectRef} (ha : h.isType a = true)
    (hb : h.isType b = true) (hresolve : ∀ v t, resolve v = some t → h.isType t = true)
    (hparent : ∀ t p, Reaches h resolve a t ∨ Reaches h resolve b t → h.isType t = true →
      h.parent? t = some p → h.isType p = true)
    (hunion : ∀ o, Reaches h resolve a o ∨ Reaches h resolve b o → ¬ h.IsUnion o) :
    h.accepts resolve a b = true ↔
      ∃ R F, R a b ∧ h.IsSimulation resolve R F (h.Alike resolve) := by
  have hwell (o : ObjectRef) (ho : ∀ p, Reaches h resolve o p →
      Reaches h resolve a p ∨ Reaches h resolve b p) : h.WellTyped resolve o :=
    ⟨fun t p ht => hparent t p (ho t ht),
      fun u l r hu hkind => absurd ⟨l, r, hkind⟩ (hunion u (ho u hu))⟩
  have hG : Confined h resolve (Between h resolve a b) :=
    confined_between hresolve (hwell a fun _ => .inl) (hwell b fun _ => .inr)
      fun o ho => hunion o (.inl ho)
  refine accepts_iff_of_confined hG ?_ ⟨⟨ha, hb⟩, .self, .self⟩
  intro R F p q hpq
  exact holds_kindsDemand hpq.1 (hunion p (.inl hpq.2.1)) (hunion q (.inr hpq.2.2))

/-- Two structural types, each the parent of the other, each with a member that is the type itself and
a template that holds itself and a number. -/
def mirrored : Heap where
  objects := #[.type "Int" none .empty true,
    .type "A" (some ⟨2⟩) ⟨[("next", .object ⟨1⟩), ("template", .object ⟨3⟩)]⟩ false,
    .type "B" (some ⟨1⟩) ⟨[("next", .object ⟨2⟩), ("template", .object ⟨4⟩)]⟩ false,
    .plain none ⟨[("count", .int 1), ("self", .object ⟨3⟩)]⟩,
    .plain none ⟨[("count", .int 2), ("self", .object ⟨4⟩)]⟩]
  arrays := #[]

/-- In `mirrored`, integers are the values that have a type. -/
def mirroredType : Resolver
  | .int _ => some ⟨0⟩
  | _ => none

theorem accepts_iff_exists_simulation_mirrored :
    mirrored.accepts mirroredType ⟨1⟩ ⟨2⟩ = true ∧
      ∃ R F, R ⟨1⟩ ⟨2⟩ ∧
        mirrored.IsSimulation mirroredType R F (mirrored.Alike mirroredType) := by
  have hok : mirrored.accepts mirroredType ⟨1⟩ ⟨2⟩ = true := by decide +kernel
  have hresolve (v : Value) (t : ObjectRef) (ht : mirroredType v = some t) :
      mirrored.isType t = true := by
    cases v <;> cases ht
    rfl
  have hparent (t p : ObjectRef) (hp : mirrored.parent? t = some p) : mirrored.isType p = true := by
    rcases t with ⟨_ | _ | _ | _ | _ | n⟩ <;> cases hp <;> rfl
  have hunion (o : ObjectRef) : ¬ mirrored.IsUnion o := by
    rintro ⟨l, r, hkind⟩
    rcases o with ⟨_ | _ | _ | _ | _ | n⟩ <;> cases hkind
  exact ⟨hok, (accepts_iff_exists_simulation rfl rfl hresolve (fun t p _ _ => hparent t p)
    fun o _ => hunion o).mp hok⟩

end

end ProtoScript.Heap
