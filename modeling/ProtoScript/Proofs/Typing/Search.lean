import ProtoScript.Proofs.Typing.Inquiry

/-!
# The search behind a comparison of types

The comparison of types is an inquiry: a comparison is obvious if it is one of an object with itself, and
what any other one asks for is written as a demand.  So a type accepts another if the two are in a
consistent set of comparisons; and if nothing that the comparison can get to leaves a choice, then there
is such a set whenever it accepts.
-/

namespace ProtoScript.Heap

namespace Comparison

/-- The object on the declared side. -/
def declared : Comparison → ObjectRef
  | types a _ => a
  | fields a _ => a

/-- The object on the actual side. -/
def actual : Comparison → ObjectRef
  | types _ b => b
  | fields _ b => b

/-- Types are compared as types, and only plain objects by their members alone. -/
def Proper (h : Heap) : Comparison → Prop
  | types a b => h.isType a = true ∧ h.isType b = true
  | fields a b => h.isType a = false ∧ h.isType b = false

/-- Such a comparison is known by its pair of objects. -/
theorem Proper.eq {h : Heap} {c c' : Comparison} (hc : c.Proper h) (hc' : c'.Proper h)
    (hpair : (c.declared, c.actual) = (c'.declared, c'.actual)) : c = c' := by
  obtain ⟨hdeclared, hactual⟩ := Prod.ext_iff.mp hpair
  rcases c with ⟨a, b⟩ | ⟨a, b⟩ <;> rcases c' with ⟨a', b'⟩ | ⟨a', b'⟩ <;>
    dsimp only [declared, actual] at hdeclared hactual <;> subst hdeclared hactual
  · rfl
  · exact absurd (hc.1.symm.trans hc'.1) (by simp)
  · exact absurd (hc.1.symm.trans hc'.1) (by simp)
  · rfl

end Comparison

/-! ### What each comparison demands -/

section

variable (h : Heap) (resolve : Resolver)

/-- The comparison that decides whether a member matches another one. -/
def memberComparison? (v w : Value) : Option Comparison :=
  let byType : Option Comparison :=
    match h.memberType? resolve v, h.memberType? resolve w with
    | some s, some t => some (.types s t)
    | _, _ => none
  match v, w with
  | .object o, .object p => if !h.isType o && !h.isType p then some (.fields o p) else byType
  | _, _ => byType

/-- What one set of members demands of another. -/
def membersDemand (a b : Members) : Demand Comparison :=
  .all (a.entries.map fun entry =>
    .onSome ((b.get? entry.1).bind (h.memberComparison? resolve entry.2)))

/-- What a parent demands of another. -/
def parentsDemand : Option ObjectRef → Option ObjectRef → Demand Comparison
  | none, none => .settled true
  | some p, some q => .on (.types p q)
  | _, _ => .settled false

/-- What a structural type demands of another. -/
def structureDemand (a b : ObjectRef) : Demand Comparison :=
  .both (parentsDemand (h.parent? a) (h.parent? b))
    (h.membersDemand resolve (h.object a).members (h.object b).members)

/-- What a type demands of another. -/
def kindsDemand (a b : ObjectRef) : Demand Comparison :=
  match (h.object a).kind, (h.object b).kind with
  | .union l r, _ => .either (.on (.types l b)) (.on (.types r b))
  | _, .union l r => .both (.on (.types a l)) (.on (.types a r))
  | .type m p, .type n q =>
    if p || q then .settled (p == q && m == n) else h.structureDemand resolve a b
  | _, _ => h.structureDemand resolve a b

/-- What a comparison of two different objects demands. -/
def demand : Comparison → Demand Comparison
  | .types a b => h.kindsDemand resolve a b
  | .fields a b => h.membersDemand resolve (h.object a).members (h.object b).members

variable {h resolve} {self : Comparison → Search Bool}

/-- Comparing two members is a search. -/
theorem memberMatches_eq (v w : Value) :
    memberMatches h resolve self v w =
      (Demand.onSome (h.memberComparison? resolve v w)).search self := by
  unfold memberMatches memberComparison?
  generalize h.memberType? resolve v = s
  generalize h.memberType? resolve w = t
  cases v <;> cases w <;> cases s <;> cases t <;> first | rfl | (dsimp only; split <;> rfl)

/-- Comparing members is a search. -/
theorem membersMatch_eq (a b : Members) :
    membersMatch h resolve self a b = (h.membersDemand resolve a b).search self := by
  refine every_eq (fun entry => ?_) a.entries
  cases b.get? entry.1 with
  | none => rfl
  | some w => exact memberMatches_eq entry.2 w

/-- Comparing structures is a search. -/
theorem structureMatches_eq (a b : ObjectRef) :
    structureMatches h resolve self a b = (h.structureDemand resolve a b).search self := by
  have hparents : parentsMatch self (h.parent? a) (h.parent? b) =
      (parentsDemand (h.parent? a) (h.parent? b)).search self := by
    cases h.parent? a <;> cases h.parent? b <;> rfl
  rw [structureMatches, hparents, membersMatch_eq]
  rfl

/-- Comparing two types by their kinds is a search. -/
theorem kindsMatch_eq (a b : ObjectRef) :
    kindsMatch h resolve self a b = (h.kindsDemand resolve a b).search self := by
  unfold kindsMatch kindsDemand
  rw [structureMatches_eq]
  cases (h.object a).kind <;> cases (h.object b).kind <;> try rfl
  dsimp only
  split <;> rfl

/-- The search for a pair that was seen before succeeds; otherwise the pair is noted, and what it
demands is searched for. -/
theorem compareStep_apply (c : Comparison) (seen : Seen) :
    compareStep h resolve self c seen =
      if c.declared = c.actual ∨ (c.declared, c.actual) ∈ seen then (true, seen)
      else (h.demand resolve c).search self ((c.declared, c.actual) :: seen) := by
  have hvisit (a b : ObjectRef) (p : Search Bool) :
      (do if a = b then return true else if ← visit a b then p else return true : Search Bool) seen =
        if a = b ∨ (a, b) ∈ seen then (true, seen) else p ((a, b) :: seen) := by
    by_cases hab : a = b
    · simp only [hab, true_or, if_true]
      rfl
    · simp only [hab, false_or, if_false]
      exact visit_bind a b p seen
  rcases c with ⟨a, b⟩ | ⟨a, b⟩
  · rw [compareStep, kindsMatch_eq]
    exact hvisit a b _
  · rw [compareStep, membersMatch_eq]
    exact hvisit a b _

end

/-! ### The inquiry -/

section

variable (h : Heap) (resolve : Resolver)

/-- The inquiry of which comparisons are the questions. -/
def comparing : Inquiry Comparison where
  pair c := (c.declared, c.actual)
  obvious c := decide (c.declared = c.actual)
  demand := h.demand resolve

/-- A set of comparisons in which every one of two different objects has its demand met. -/
def Consistent (S : Comparison → Prop) : Prop :=
  ∀ c, S c → c.declared = c.actual ∨ (h.demand resolve c).Holds S

/-- A set of comparisons that a search does not leave. -/
structure Enclosed (G : Comparison → Prop) : Prop where
  proper : ∀ c, G c → c.Proper h
  closed : ∀ c c', G c → (h.demand resolve c).Mentions c' → G c'

/-- A set of comparisons that a search does not leave, and that leave no choice. -/
structure Confined (G : Comparison → Prop) : Prop extends Enclosed h resolve G where
  plain : ∀ c, G c → (h.demand resolve c).Plain

end

section

variable {h : Heap} {resolve : Resolver}

/-- Comparing two types is a search. -/
theorem compareWithin_eq_search (fuel : Nat) (c : Comparison) :
    compareWithin h resolve fuel c = (comparing h resolve).search fuel c := by
  induction fuel generalizing c with
  | zero => rfl
  | succ fuel ih =>
    funext seen
    rw [compareWithin, compareStep_apply, funext ih]
    simp [Inquiry.search, Inquiry.Noted, comparing]

/-- What it means for comparisons to be consistent. -/
theorem consistent_comparing_iff {S : Comparison → Prop} :
    (comparing h resolve).Consistent S ↔ h.Consistent resolve S := by
  simp [Inquiry.Consistent, Consistent, comparing]

/-- A type is an object of the heap. -/
theorem index_lt_of_isType {o : ObjectRef} (ho : h.isType o = true) : o.index < h.objects.size := by
  by_contra hlt
  simp [isType, object, Array.getElem?_eq_none (Nat.le_of_not_lt hlt), Object.plain,
    ObjectKind.isType] at ho

/-- An object with a member is an object of the heap. -/
theorem index_lt_of_mem {o : ObjectRef} {entry : String × Value}
    (hentry : entry ∈ (h.object o).members.entries) : o.index < h.objects.size := by
  by_contra hlt
  simp [object, Array.getElem?_eq_none (Nat.le_of_not_lt hlt), Object.plain, NameMap.empty] at hentry

/-- What one set of members demands of another comes from members of one name. -/
theorem mentions_membersDemand {a b : Members} {c : Comparison}
    (hc : (h.membersDemand resolve a b).Mentions c) :
    ∃ name v w, (name, v) ∈ a.entries ∧ b.get? name = some w ∧
      h.memberComparison? resolve v w = some c := by
  simp only [membersDemand, Demand.mentions_all, List.mem_map] at hc
  obtain ⟨_, ⟨⟨name, v⟩, hentry, rfl⟩, hc⟩ := hc
  rw [Demand.mentions_onSome, Option.bind_eq_some_iff] at hc
  obtain ⟨w, hw, hc⟩ := hc
  exact ⟨name, v, w, hentry, hw, hc⟩

/-- Comparisons lead to others only from objects of the heap. -/
theorem index_lt_of_mentions {c c' : Comparison} (hc : c.Proper h)
    (hmentions : (h.demand resolve c).Mentions c') :
    c.declared.index < h.objects.size ∧ c.actual.index < h.objects.size := by
  rcases c with ⟨a, b⟩ | ⟨a, b⟩
  · exact ⟨index_lt_of_isType hc.1, index_lt_of_isType hc.2⟩
  · obtain ⟨name, v, w, hv, hw, -⟩ := mentions_membersDemand hmentions
    exact ⟨index_lt_of_mem hv, index_lt_of_mem (NameMap.mem_of_find? hw)⟩

/-- Comparisons that do not leave a set are an enclosed inquiry. -/
theorem Enclosed.comparing {G : Comparison → Prop} (hG : Enclosed h resolve G) :
    (comparing h resolve).Enclosed h G where
  known c c' hc hc' hpair := (hG.proper c hc).eq (hG.proper c' hc') hpair
  closed := hG.closed
  inside c _ hc hc' := index_lt_of_mentions (hG.proper c hc) hc'

/-- What a search does not get to may be left out of a consistent set. -/
theorem Enclosed.consistent {G S : Comparison → Prop} (hG : Enclosed h resolve G)
    (hS : ∀ c, G c → S c → c.declared = c.actual ∨ (h.demand resolve c).Holds S) :
    h.Consistent resolve fun c => G c ∧ S c := by
  refine consistent_comparing_iff.mp (hG.comparing.consistent ?_)
  intro c hc hcS
  exact (hS c hc hcS).imp_left decide_eq_true

/-- Comparisons that do not leave a set and leave no choice are a confined inquiry. -/
theorem Confined.comparing {G : Comparison → Prop} (hG : Confined h resolve G) :
    (comparing h resolve).Confined h G where
  toEnclosed := hG.toEnclosed.comparing
  plain := hG.plain

/-! ### Acceptance and consistent sets -/

/-- If a type accepts another by comparisons that leave no choice, then the two are in a consistent set of
such comparisons. -/
theorem exists_consistent_of_accepts {G : Comparison → Prop} (hG : Confined h resolve G)
    {a b : ObjectRef} (hab : G (.types a b)) (hok : h.accepts resolve a b = true) :
    ∃ S, S (.types a b) ∧ (∀ c, S c → G c) ∧ h.Consistent resolve S := by
  rw [accepts, compareWithin_eq_search] at hok
  obtain ⟨S, hS, hsub, hconsistent⟩ :=
    Inquiry.exists_consistent hG.comparing hab h.card_unseen_nil (fun _ _ => List.not_mem_nil) hok
  exact ⟨S, hS, hsub, consistent_comparing_iff.mp hconsistent⟩

/-- A type accepts another if the two are in a consistent set. -/
theorem accepts_of_consistent {S : Comparison → Prop} (hS : h.Consistent resolve S) {a b : ObjectRef}
    (hab : S (.types a b)) : h.accepts resolve a b = true := by
  rw [accepts, compareWithin_eq_search]
  exact Inquiry.search_of_consistent (consistent_comparing_iff.mpr hS) h.pairBound hab []

/-- Where no choice is left, a type accepts another exactly if the two are in a consistent set. -/
theorem accepts_iff_exists_consistent {G : Comparison → Prop} (hG : Confined h resolve G)
    {a b : ObjectRef} (hab : G (.types a b)) :
    h.accepts resolve a b = true ↔ ∃ S, S (.types a b) ∧ h.Consistent resolve S := by
  constructor
  · intro hok
    obtain ⟨S, hS, -, hconsistent⟩ := exists_consistent_of_accepts hG hab hok
    exact ⟨S, hS, hconsistent⟩
  · rintro ⟨S, hS, hconsistent⟩
    exact accepts_of_consistent hconsistent hS

/-- Whether it succeeds or not, a comparison leaves behind only pairs that it can get to. -/
theorem visits_compareWithin {G : Comparison → Prop} (hG : Enclosed h resolve G) (fuel : Nat)
    {c : Comparison} (hc : G c) (seen : Seen) :
    (comparing h resolve).Visits G seen (compareWithin h resolve fuel c seen).2 := by
  rw [compareWithin_eq_search]
  exact Inquiry.visits hG.closed fuel hc seen

/-- What was seen before does not matter to a comparison that cannot get to it. -/
theorem compareWithin_eq_accepts {G : Comparison → Prop} (hG : Confined h resolve G) {fuel : Nat}
    {a b : ObjectRef} (hab : G (.types a b)) {seen : Seen} (hroom : (h.unseen seen).card < fuel)
    (hfresh : ∀ c, G c → (c.declared, c.actual) ∉ seen) :
    (compareWithin h resolve fuel (.types a b) seen).1 = h.accepts resolve a b := by
  rw [Bool.eq_iff_iff, accepts_iff_exists_consistent hG hab, compareWithin_eq_search,
    Inquiry.search_iff_exists_consistent hG.comparing hab hroom hfresh]
  simp only [consistent_comparing_iff]

end

end ProtoScript.Heap
