import ProtoScript.Machine.Basic
import ProtoScript.Proofs.Typing.Simulation

/-!
# Nominal types

A nominal type looks at nothing but names: it accepts a type exactly if all the parts that the type
is a union of are the nominal type itself or nominal types of its name. Comparisons with it only lead to
comparisons with it, which is why one nominal type does not get in the way of another when the sides of
a union are tried one after the other.

A check of a value against a nominal type is such an acceptance and nothing else, since the members of a
value count for structural types only.
-/

namespace ProtoScript.Heap

/-- The sides of every union are types. -/
def SidesAreTypes (h : Heap) : Prop :=
  ∀ u l r, (h.object u).kind = .union l r → h.isType l = true ∧ h.isType r = true

/-- What a type is a union of: the type itself, its sides if it is a union, and so on. -/
inductive Part (h : Heap) (t : ObjectRef) : ObjectRef → Prop
  | self : Part h t t
  | left {u l r : ObjectRef} : Part h t u → (h.object u).kind = .union l r → Part h t l
  | right {u l r : ObjectRef} : Part h t u → (h.object u).kind = .union l r → Part h t r

/-- The comparisons of a type with the parts of another. -/
def AgainstParts (h : Heap) (d t : ObjectRef) (c : Comparison) : Prop :=
  ∃ x, h.Part t x ∧ h.isType x = true ∧ c = .types d x

section

variable {h : Heap} {resolve : Resolver} {d t : ObjectRef}

theorem IsNominal.isType (hd : h.IsNominal d) : h.isType d = true := by
  obtain ⟨name, hkind⟩ := hd
  simp [Heap.isType, hkind, ObjectKind.isType]

/-- A nominal type is no union. -/
theorem IsNominal.not_isUnion (hd : h.IsNominal d) : ¬ h.IsUnion d := by
  rintro ⟨l, r, hunion⟩
  obtain ⟨name, hkind⟩ := hd
  rw [hkind] at hunion
  cases hunion

theorem IsUnion.isType {u : ObjectRef} (hu : h.IsUnion u) : h.isType u = true := by
  obtain ⟨l, r, hkind⟩ := hu
  simp [Heap.isType, hkind, ObjectKind.isType]

/-- A nominal type demands of a union that it accepts both sides. -/
theorem kindsDemand_nominal_union {x l r : ObjectRef} (hd : h.IsNominal d)
    (hx : (h.object x).kind = .union l r) :
    h.kindsDemand resolve d x = .both (.on (.types d l)) (.on (.types d r)) := by
  obtain ⟨name, hkind⟩ := hd
  simp [kindsDemand, hkind, hx]

/-- A nominal type demands of any other type that it is nominal and has the same name. -/
theorem kindsDemand_nominal (resolve : Resolver) {x : ObjectRef} (hd : h.IsNominal d)
    (hx : h.isType x = true) (hunion : ¬ h.IsUnion x) :
    ∃ answer, h.kindsDemand resolve d x = .settled answer ∧ (answer = true ↔ h.SameNominal d x) := by
  obtain ⟨name, hkind⟩ := hd
  obtain ⟨name', nominal, hkind'⟩ := kind_of_isType hx hunion
  refine ⟨true == nominal && name == name', by simp [kindsDemand, hkind, hkind'], ?_⟩
  rcases nominal
  · simp [SameNominal, hkind']
  · simpa [SameNominal, hkind, hkind'] using eq_comm

/-- Comparing a nominal type with the parts of another leaves no choice. -/
theorem confined_againstParts (hsides : h.SidesAreTypes) (hd : h.IsNominal d) :
    Confined h resolve (h.AgainstParts d t) where
  proper := by
    rintro _ ⟨x, -, hx, rfl⟩
    exact ⟨hd.isType, hx⟩
  closed := by
    rintro _ c' ⟨x, hpart, hx, rfl⟩ hc'
    by_cases hunion : h.IsUnion x
    · obtain ⟨l, r, hkind⟩ := hunion
      obtain ⟨hl, hr⟩ := hsides x l r hkind
      rw [demand, kindsDemand_nominal_union hd hkind] at hc'
      rcases hc' with rfl | rfl
      · exact ⟨l, hpart.left hkind, hl, rfl⟩
      · exact ⟨r, hpart.right hkind, hr, rfl⟩
    · obtain ⟨answer, hdemand, -⟩ := kindsDemand_nominal resolve hd hx hunion
      rw [demand, hdemand] at hc'
      exact hc'.elim
  plain := by
    rintro _ ⟨x, -, -, rfl⟩
    exact plain_kindsDemand hd.not_isUnion

/-- The parts of a type are types. -/
theorem Part.isType (hsides : h.SidesAreTypes) (ht : h.isType t = true) {x : ObjectRef}
    (hx : h.Part t x) : h.isType x = true := by
  induction hx with
  | self => exact ht
  | left _ hkind => exact (hsides _ _ _ hkind).1
  | right _ hkind => exact (hsides _ _ _ hkind).2

/-- **Acceptance by a nominal type.** What is asked of a type is asked of each of its parts: to be the
nominal type itself, or nominal and of the same name. -/
theorem accepts_nominal_iff (hsides : h.SidesAreTypes) (hd : h.IsNominal d)
    (ht : h.isType t = true) :
    h.accepts resolve d t = true ↔
      ∀ x, h.Part t x → ¬ h.IsUnion x → d = x ∨ h.SameNominal d x := by
  have hG : Confined h resolve (h.AgainstParts d t) := confined_againstParts hsides hd
  constructor
  · intro hok
    obtain ⟨S, hS, -, hconsistent⟩ := exists_consistent_of_accepts hG ⟨t, .self, ht, rfl⟩ hok
    -- Both sides of a union are in the set, because the union is.
    have hsplit (u l r : ObjectRef) (hu : S (.types d u)) (hkind : (h.object u).kind = .union l r) :
        S (.types d l) ∧ S (.types d r) := by
      have hne : d ≠ u := fun heq => hd.not_isUnion (heq ▸ ⟨l, r, hkind⟩)
      rcases hconsistent _ hu with heq | hholds
      · exact absurd heq hne
      · rw [demand, kindsDemand_nominal_union hd hkind] at hholds
        exact hholds
    have hparts (x : ObjectRef) (hx : h.Part t x) : S (.types d x) := by
      induction hx with
      | self => exact hS
      | left _ hkind ih => exact (hsplit _ _ _ ih hkind).1
      | right _ hkind ih => exact (hsplit _ _ _ ih hkind).2
    intro x hx hunion
    refine (hconsistent _ (hparts x hx)).imp_right fun hholds => ?_
    obtain ⟨answer, hdemand, hanswer⟩ :=
      kindsDemand_nominal resolve hd (hx.isType hsides ht) hunion
    rw [demand, hdemand] at hholds
    exact hanswer.mp hholds
  · intro hparts
    refine accepts_of_consistent (S := h.AgainstParts d t) ?_ ⟨t, .self, ht, rfl⟩
    rintro _ ⟨x, hpart, hx, rfl⟩
    by_cases hunion : h.IsUnion x
    · obtain ⟨l, r, hkind⟩ := hunion
      obtain ⟨hl, hr⟩ := hsides x l r hkind
      rw [demand, kindsDemand_nominal_union hd hkind]
      exact .inr ⟨⟨l, hpart.left hkind, hl, rfl⟩, ⟨r, hpart.right hkind, hr, rfl⟩⟩
    · obtain ⟨answer, hdemand, hanswer⟩ := kindsDemand_nominal resolve hd hx hunion
      rw [demand, hdemand]
      exact (hparts x hpart hunion).imp_right hanswer.mpr

/-- A union of two nominal types accepts what one of them accepts. The search for the second side starts
with what the first one has left behind; those are pairs with the first side, so they do not matter. -/
theorem accepts_union_of_nominal (hsides : h.SidesAreTypes) {u l r : ObjectRef}
    (hu : (h.object u).kind = .union l r) (hl : h.IsNominal l) (hr : h.IsNominal r) (hlr : l ≠ r)
    (ht : h.isType t = true) (htu : u ≠ t) :
    h.accepts resolve u t = (h.accepts resolve l t || h.accepts resolve r t) := by
  have hunion : h.IsUnion u := ⟨l, r, hu⟩
  have hlu : l ≠ u := fun heq => hl.not_isUnion (heq ▸ hunion)
  have hru : r ≠ u := fun heq => hr.not_isUnion (heq ▸ hunion)
  set fuel := h.objects.size * h.objects.size
  set start : Seen := [(u, t)]
  set left := compareWithin h resolve fuel (.types l t) start
  have hroom : (h.unseen start).card < fuel :=
    Nat.lt_of_lt_of_le (card_unseen_cons (index_lt_of_isType hunion.isType) (index_lt_of_isType ht)
      List.not_mem_nil) (Nat.le_of_lt_succ h.card_unseen_nil)
  have hvisits : (comparing h resolve).Visits (h.AgainstParts l t) start left.2 :=
    visits_compareWithin (confined_againstParts hsides hl).toEnclosed fuel ⟨t, .self, ht, rfl⟩ start
  have hleft : left.1 = h.accepts resolve l t := by
    refine compareWithin_eq_accepts (confined_againstParts hsides hl) ⟨t, .self, ht, rfl⟩ hroom ?_
    rintro _ ⟨x, -, -, rfl⟩ hmem
    exact hlu (Prod.ext_iff.mp (List.mem_singleton.mp hmem)).1
  have hright : (compareWithin h resolve fuel (.types r t) left.2).1 = h.accepts resolve r t := by
    refine compareWithin_eq_accepts (confined_againstParts hsides hr) ⟨t, .self, ht, rfl⟩
      (Nat.lt_of_le_of_lt (card_unseen_le hvisits.subset) hroom) ?_
    rintro _ ⟨x, -, -, rfl⟩ hmem
    rcases hvisits.inside _ hmem with hstart | ⟨_, ⟨y, -, -, rfl⟩, hpair⟩
    · exact hru (Prod.ext_iff.mp (List.mem_singleton.mp hstart)).1
    · exact hlr (Prod.ext_iff.mp hpair).1.symm
  have hdemand : h.kindsDemand resolve u t = .either (.on (.types l t)) (.on (.types r t)) := by
    simp only [kindsDemand, hu]
  have hnew : ¬ (u = t ∨ (u, t) ∈ ([] : Seen)) := by simp [htu]
  calc h.accepts resolve u t
      = (if left.1 = true then (true, left.2)
          else compareWithin h resolve fuel (.types r t) left.2).1 := by
        rw [accepts, pairBound, compareWithin, compareStep_apply]
        simp only [Comparison.declared, Comparison.actual, if_neg hnew, demand, hdemand, Demand.search,
          either_apply]
        rfl
    _ = (h.accepts resolve l t || h.accepts resolve r t) := by
        rw [← hleft, ← hright]
        cases left.1 <;> rfl

end

end ProtoScript.Heap

namespace ProtoScript

/-- A check succeeds exactly if the value has a type that is admitted, and leaves the machine as it
is. -/
theorem Eval.typecheck_eq_ok_iff {m : Machine} {v : Value} {d : ObjectRef} {pos : Position} :
    Eval.typecheck v d pos m = .ok () m ↔
      ∃ t, m.runtimeType? v = some t ∧ m.admits d t v = true := by
  have hraise (p : Problem) : (Eval.raise p pos : Eval Unit) m ≠ .ok () m := fun heq => nomatch heq
  rcases htype : m.runtimeType? v with _ | t
  · have hstep : Eval.typecheck v d pos m = Eval.raise (.noTypeFor (m.heap.inspect v)) pos m := by
      simp only [Eval.typecheck, bind, EStateM.bind, get, getThe, MonadStateOf.get, EStateM.get, htype]
    simp [hstep, hraise]
  · have hstep : Eval.typecheck v d pos m =
        (unless m.admits d t v do
          Eval.raise (.typeMismatch (m.heap.typeLabel d) (m.heap.typeLabel t)) pos : Eval Unit) m := by
      simp only [Eval.typecheck, bind, EStateM.bind, get, getThe, MonadStateOf.get, EStateM.get, htype]
    rw [hstep]
    by_cases hadmits : m.admits d t v = true
    · simp only [hadmits, if_true, Option.some.injEq, exists_eq_left', iff_true]
      rfl
    · simp [hadmits, hraise]

/-- The type of a value is a type. -/
theorem Machine.isType_of_runtimeType? {m : Machine} {v : Value} {t : ObjectRef}
    (ht : m.runtimeType? v = some t) : m.heap.isType t = true := by
  have hglobal {name : String} (hname : m.globalType? name = some t) : m.heap.isType t = true := by
    unfold globalType? at hname
    repeat' split at hname
    all_goals first
      | cases hname; assumption
      | cases hname
  unfold runtimeType? at ht
  repeat' split at ht
  all_goals first
    | exact hglobal ht
    | cases ht; assumption

/-- Only structural types look at the members of a value. -/
theorem Machine.admits_eq_accepts {m : Machine} {v : Value} {d t : ObjectRef}
    (hd : m.heap.IsNominal d ∨ m.heap.IsUnion d) :
    m.admits d t v = m.heap.accepts m.runtimeType? d t := by
  have hshape : m.fitsShape v d t = false := by
    rcases hd with ⟨name, hkind⟩ | ⟨l, r, hkind⟩ <;> cases v <;> simp [fitsShape, hkind]
  rw [admits, hshape, Bool.or_false]

end ProtoScript
