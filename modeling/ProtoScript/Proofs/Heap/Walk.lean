import ProtoScript.Proofs.Heap.Lineage

/-!
# Walking along the parents

A member is looked up by a loop: it goes from an object to its parent and on, keeps the objects that it
has passed, and ends at the first hit, where there is no parent, or at an object that it has passed before.
`Climbs` is this loop without a bound on its length, and `walk` is the sequence of objects that the parents
lead to, which may go round for ever.

The loop ends on every heap, and the lineage is what it passes if there is no hit.  What it misses by
ending at a repeated object is nothing: from there on the walk only meets objects that were passed, so a hit
anywhere on the walk is one on the lineage, and the first one on the walk is the one that is taken.
-/

namespace ProtoScript.Heap

/-- The object that so many parents lead to, if there are so many. -/
def walk (h : Heap) : ObjectRef → Nat → Option ObjectRef
  | o, 0 => some o
  | o, k + 1 => (h.parent? o).bind fun p => h.walk p k

/-- The loop along the parents, from where it stands and with the objects that it has passed: the objects
that it passes from there on, in order, and what it finds in the last one of them, if anything. -/
inductive Climbs {α : Type} (h : Heap) (test : ObjectRef → Option α) :
    List ObjectRef → Option ObjectRef → List ObjectRef → Option α → Prop
  | top {passed : List ObjectRef} : Climbs h test passed none [] none
  | again {passed : List ObjectRef} {o : ObjectRef} (ho : o ∈ passed) :
    Climbs h test passed (some o) [] none
  | found {passed : List ObjectRef} {o : ObjectRef} {a : α} (ho : o ∉ passed)
    (ha : test o = some a) : Climbs h test passed (some o) [o] (some a)
  | parent {passed visited : List ObjectRef} {o : ObjectRef} {result : Option α} (ho : o ∉ passed)
    (hmiss : test o = none) (hrest : Climbs h test (o :: passed) (h.parent? o) visited result) :
    Climbs h test passed (some o) (o :: visited) result

/-- What a name has in an object itself, if that is accepted. -/
def hit? (h : Heap) (name : String) (accept : Value → Bool) (o : ObjectRef) : Option Value :=
  (h.ownMember? o name).filter accept

/-- The first hit on a walk. -/
def FirstHit {α : Type} (h : Heap) (test : ObjectRef → Option α) (o : ObjectRef) (a : α) : Prop :=
  ∃ k p, h.walk o k = some p ∧ test p = some a ∧
    ∀ j < k, ∀ q, h.walk o j = some q → test q = none

/-- The walk from an object comes to another one, and no object before has a member of this name. -/
def ComesFirst (h : Heap) (o q : ObjectRef) (name : String) : Prop :=
  ∃ k, h.walk o k = some q ∧ ∀ j < k, ∀ p, h.walk o j = some p → h.ownMember? p name = none

section

variable {h : Heap} {α : Type} {test : ObjectRef → Option α} {o : ObjectRef}

/-! ### The walk -/

/-- The walk leads to what the parents lead to. -/
theorem descends_iff_walk {a : ObjectRef} : h.Descends o a ↔ ∃ k, h.walk o k = some a := by
  constructor
  · intro hd
    induction hd using Relation.ReflTransGen.head_induction_on with
    | refl => exact ⟨0, rfl⟩
    | head hparent _ ih =>
      obtain ⟨k, hk⟩ := ih
      exact ⟨k + 1, by rw [walk, hparent, Option.bind_some, hk]⟩
  · rintro ⟨k, hk⟩
    induction k generalizing o with
    | zero =>
      obtain rfl := Option.some.inj hk
      exact .refl
    | succ k ih =>
      rw [walk, Option.bind_eq_some_iff] at hk
      obtain ⟨p, hp, hk⟩ := hk
      exact .head hp (ih hk)

/-- The objects of the lineage are the first ones of the walk, in order. -/
theorem walk_eq_getElem?_lineageFrom (fuel : Nat) {trail : Trail} {k : Nat}
    (hk : k < (h.lineageFrom fuel trail (some o)).length) :
    h.walk o k = (h.lineageFrom fuel trail (some o))[k]? := by
  induction fuel generalizing trail o k with
  | zero => exact absurd hk (Nat.not_lt_zero k)
  | succ fuel ih =>
    rw [lineageFrom] at hk ⊢
    split at hk
    · exact absurd hk (Nat.not_lt_zero k)
    · rename_i hnew
      rw [if_neg hnew]
      cases k with
      | zero => rfl
      | succ k =>
        cases hp : h.parent? o with
        | none =>
          have hend : h.lineageFrom fuel (trail.pass o) none = [] := by cases fuel <;> rfl
          rw [hp, hend] at hk
          exact absurd hk (by simp)
        | some p =>
          rw [hp, List.length_cons] at hk
          rw [walk, hp, Option.bind_some, List.getElem?_cons_succ]
          exact ih (Nat.lt_of_succ_lt_succ hk)

/-- The walk passes the lineage in its order. -/
theorem walk_eq_getElem?_lineage {k : Nat} (hk : k < (h.lineage o).length) :
    h.walk o k = (h.lineage o)[k]? :=
  walk_eq_getElem?_lineageFrom _ hk

/-- Nothing comes up twice, nor what was passed before. -/
theorem nodup_lineageFrom (fuel : Nat) (trail : Trail) (start : Option ObjectRef) :
    (h.lineageFrom fuel trail start).Nodup ∧
      ∀ p ∈ h.lineageFrom fuel trail start, p ∉ trail.passed := by
  induction fuel generalizing trail start with
  | zero => exact ⟨List.nodup_nil, List.forall_mem_nil _⟩
  | succ fuel ih =>
    cases start with
    | none => exact ⟨List.nodup_nil, List.forall_mem_nil _⟩
    | some o =>
      rw [lineageFrom]
      split
      · exact ⟨List.nodup_nil, List.forall_mem_nil _⟩
      · rename_i hnew
        obtain ⟨hnodup, hfresh⟩ := ih (trail.pass o) (h.parent? o)
        refine ⟨List.nodup_cons.mpr ⟨fun hmem => hfresh o hmem List.mem_cons_self, hnodup⟩, ?_⟩
        intro p hp
        rcases List.mem_cons.mp hp with rfl | hp
        · exact fun hpassed => hnew ((trail.contains_iff p).mpr hpassed)
        · exact fun hpassed => hfresh p hp (List.mem_cons_of_mem _ hpassed)

theorem nodup_lineage (h : Heap) (o : ObjectRef) : (h.lineage o).Nodup :=
  (nodup_lineageFrom _ _ _).1

/-! ### The loop -/

/-- The loop ends: what it finds is the first hit on the lineage, and what it passes is the lineage up to
there.  As long as there is room for the objects that were passed, the bound does not cut the lineage
off. -/
theorem climbs_lineageFrom (fuel : Nat) {trail : Trail} (start : Option ObjectRef)
    (hnodup : trail.passed.Nodup) (hpassed : ∀ p ∈ trail.passed, p.index < h.objects.size)
    (hfuel : h.objects.size < fuel + trail.passed.length) :
    ∃ visited, visited <+: h.lineageFrom fuel trail start ∧
      h.Climbs test trail.passed start visited
        ((h.lineageFrom fuel trail start).findSome? test) := by
  induction fuel generalizing trail start with
  | zero =>
    have hroom := length_le_size hnodup hpassed
    omega
  | succ fuel ih =>
    cases start with
    | none => exact ⟨[], List.nil_prefix, .top⟩
    | some o =>
      rw [lineageFrom]
      by_cases ho : trail.contains o = true
      · rw [if_pos ho]
        exact ⟨[], List.nil_prefix, .again ((trail.contains_iff o).mp ho)⟩
      rw [if_neg ho]
      have hnew : o ∉ trail.passed := fun hmem => ho ((trail.contains_iff o).mpr hmem)
      cases htest : test o with
      | some a =>
        refine ⟨[o], List.prefix_append [o] _, ?_⟩
        rw [List.findSome?_cons_of_isSome (by rw [htest]; rfl), htest]
        exact .found hnew htest
      | none =>
        rw [List.findSome?_cons_of_isNone (by rw [htest]; rfl)]
        cases hparent : h.parent? o with
        | none =>
          have hend : h.lineageFrom fuel (trail.pass o) none = [] := by cases fuel <;> rfl
          rw [hend]
          exact ⟨[o], List.prefix_refl _, .parent hnew htest (hparent ▸ .top)⟩
        | some p =>
          have hpassed' : ∀ q ∈ (trail.pass o).passed, q.index < h.objects.size := by
            intro q hq
            rcases List.mem_cons.mp hq with rfl | hq
            · exact index_lt_of_parent? hparent
            · exact hpassed q hq
          have hfuel' : h.objects.size < fuel + (trail.pass o).passed.length := by
            rw [Trail.passed_pass, List.length_cons]
            omega
          have hnodup' : (trail.pass o).passed.Nodup := List.nodup_cons.mpr ⟨hnew, hnodup⟩
          obtain ⟨visited, hbegins, hclimbs⟩ := ih (some p) hnodup' hpassed' hfuel'
          refine ⟨o :: visited, (List.prefix_cons_inj o).mpr hbegins, .parent hnew htest ?_⟩
          rw [hparent]
          exact hclimbs

/-- The loop climbs along the lineage and stops at the first hit. -/
theorem climbs_lineage (h : Heap) (test : ObjectRef → Option α) (o : ObjectRef) :
    ∃ visited, visited <+: h.lineage o ∧
      h.Climbs test [] (some o) visited ((h.lineage o).findSome? test) := by
  have hnodup : (Trail.start o).passed.Nodup := List.nodup_nil
  exact climbs_lineageFrom _ _ hnodup nofun (by simp)

/-- The loop runs in one way only. -/
theorem Climbs.unique {passed visited visited' : List ObjectRef} {start : Option ObjectRef}
    {result result' : Option α} (hc : h.Climbs test passed start visited result)
    (hc' : h.Climbs test passed start visited' result') : visited' = visited ∧ result' = result := by
  induction hc generalizing visited' result' with
  | top =>
    cases hc'
    exact ⟨rfl, rfl⟩
  | again ho =>
    cases hc' with
    | again => exact ⟨rfl, rfl⟩
    | found hnew => exact absurd ho hnew
    | parent hnew => exact absurd ho hnew
  | found hnew ha =>
    cases hc' with
    | again ho => exact absurd ho hnew
    | found _ ha' => exact ⟨rfl, ha'.symm.trans ha⟩
    | parent _ hmiss => exact absurd (hmiss.symm.trans ha) nofun
  | parent hnew hmiss _ ih =>
    cases hc' with
    | again ho => exact absurd ho hnew
    | found _ ha => exact absurd (hmiss.symm.trans ha) nofun
    | parent _ _ hrest =>
      obtain ⟨rfl, rfl⟩ := ih hrest
      exact ⟨rfl, rfl⟩

/-! ### The first hit -/

/-- A first hit on the lineage is one on the walk. -/
theorem firstHit_of_findSome? {a : α} (ha : (h.lineage o).findSome? test = some a) :
    h.FirstHit test o a := by
  obtain ⟨front, p, behind, heq, hp, hfront⟩ := List.findSome?_eq_some_iff.mp ha
  have hlength : (h.lineage o).length = front.length + (behind.length + 1) := by
    rw [heq, List.length_append, List.length_cons]
  refine ⟨front.length, p, ?_, hp, fun j hj q hq => hfront q ?_⟩
  · rw [walk_eq_getElem?_lineage (by omega), heq, List.getElem?_append_right (Nat.le_refl _),
      Nat.sub_self]
    rfl
  · rw [walk_eq_getElem?_lineage (by omega), heq, List.getElem?_append_left hj] at hq
    exact List.mem_of_getElem? hq

/-- There is one first hit only. -/
theorem FirstHit.unique {a b : α} (ha : h.FirstHit test o a) (hb : h.FirstHit test o b) : a = b := by
  obtain ⟨j, p, hj, hp, hbefore⟩ := ha
  obtain ⟨k, q, hk, hq, hbefore'⟩ := hb
  rcases Nat.lt_trichotomy j k with hlt | rfl | hlt
  · rw [hbefore' j hlt p hj] at hp
    cases hp
  · obtain rfl := Option.some.inj (hj.symm.trans hk)
    exact Option.some.inj (hp.symm.trans hq)
  · rw [hbefore k hlt q hk] at hq
    cases hq

/-- Nothing is found exactly if nothing that the parents lead to is a hit. -/
theorem findSome?_lineage_eq_none_iff :
    (h.lineage o).findSome? test = none ↔ ∀ p, h.Descends o p → test p = none := by
  rw [List.findSome?_eq_none_iff]
  simp only [mem_lineage_iff]

/-- What is found on the lineage is the first hit on the walk. -/
theorem findSome?_lineage_eq_some_iff {a : α} :
    (h.lineage o).findSome? test = some a ↔ h.FirstHit test o a := by
  refine ⟨firstHit_of_findSome?, fun hfirst => ?_⟩
  cases hfound : (h.lineage o).findSome? test with
  | none =>
    obtain ⟨k, p, hk, hp, -⟩ := hfirst
    rw [findSome?_lineage_eq_none_iff.mp hfound p (descends_iff_walk.mpr ⟨k, hk⟩)] at hp
    cases hp
  | some b => rw [(firstHit_of_findSome? hfound).unique hfirst]

/-- A lookup goes along the lineage up to the first value that is accepted. -/
theorem lookupWhere?_eq_findSome? (h : Heap) (o : ObjectRef) (name : String)
    (accept : Value → Bool) :
    h.lookupWhere? o name accept = (h.lineage o).findSome? (h.hit? name accept) := by
  unfold lookupWhere? inherited
  induction h.lineage o with
  | nil => rfl
  | cons p ps ih =>
    rw [List.findSome?_cons, hit?, List.filterMap_cons]
    cases h.ownMember? p name with
    | none => exact ih
    | some v =>
      rw [List.find?_cons, Option.filter_some]
      cases accept v with
      | true => rfl
      | false => exact ih

/-! ### Assigning a member -/

section

variable {q : ObjectRef} {name : String} {v : Value}

theorem parent?_assign (p : ObjectRef) :
    (h.modifyObject q (·.assign name v)).parent? p = h.parent? p := by
  simp only [parent?, object, modifyObject, Array.getElem?_modify]
  split
  · cases h.objects[p.index]? <;> rfl
  · rfl

/-- Assigning to a member changes no lineage. -/
theorem lineage_assign (o : ObjectRef) :
    (h.modifyObject q (·.assign name v)).lineage o = h.lineage o :=
  lineage_congr (by simp [modifyObject]) parent?_assign o

/-- The member that was assigned has its new value, and nothing else has changed. -/
theorem ownMember?_assign (hq : q.index < h.objects.size) (p : ObjectRef) (other : String) :
    (h.modifyObject q (·.assign name v)).ownMember? p other =
      if q = p ∧ name = other then some v else h.ownMember? p other := by
  by_cases hpq : q = p
  · subst hpq
    rw [ownMember?, object_modifyObject_self hq, Object.assign, NameMap.get?_insert]
    simp only [true_and]
    rfl
  · rw [ownMember?, object_modifyObject_of_ne _ hpq, if_neg fun hboth => hpq hboth.1]
    rfl

/-- Of the places where a walk comes to an object, one is the first. -/
theorem ComesFirst.exists_first (hc : h.ComesFirst o q name) :
    ∃ k, h.walk o k = some q ∧
      ∀ j < k, ∀ p, h.walk o j = some p → q ≠ p ∧ h.ownMember? p name = none := by
  classical
  obtain ⟨k, hk, hbefore⟩ := hc
  have hmeets : ∃ k, h.walk o k = some q := ⟨k, hk⟩
  refine ⟨Nat.find hmeets, Nat.find_spec hmeets, fun j hj p hp => ⟨?_, ?_⟩⟩
  · rintro rfl
    exact Nat.find_min hmeets hj hp
  · exact hbefore j (Nat.lt_of_lt_of_le hj (Nat.find_min' hmeets hk)) p hp

/-- If the walk comes to the object that was changed before it comes to a value of the name, then the new
value is found. -/
theorem lookup?_assign_of_comesFirst (hq : q.index < h.objects.size) (hc : h.ComesFirst o q name) :
    (h.modifyObject q (·.assign name v)).lookup? o name = some v := by
  obtain ⟨k, hk, hbefore⟩ := hc.exists_first
  have hlookup : (h.lineage o).findSome? (fun p =>
      (h.modifyObject q (·.assign name v)).ownMember? p name) = some v := by
    refine findSome?_lineage_eq_some_iff.mpr ⟨k, q, hk, ?_, fun j hj p hp => ?_⟩
    · exact (ownMember?_assign hq q name).trans (if_pos ⟨rfl, rfl⟩)
    · obtain ⟨hne, hnone⟩ := hbefore j hj p hp
      exact (ownMember?_assign hq p name).trans ((if_neg fun hboth => hne hboth.1).trans hnone)
  rw [lookup?, lineage_assign, hlookup]

/-- Otherwise nothing changes. -/
theorem lookup?_assign_of_not_comesFirst (hq : q.index < h.objects.size)
    (hc : ¬ h.ComesFirst o q name) :
    (h.modifyObject q (·.assign name v)).lookup? o name = h.lookup? o name := by
  have hkept {p : ObjectRef} (hne : q ≠ p) :
      (h.modifyObject q (·.assign name v)).ownMember? p name = h.ownMember? p name := by
    rw [ownMember?_assign hq, if_neg fun hboth => hne hboth.1]
  rw [lookup?, lineage_assign]
  cases hfound : h.lookup? o name with
  | none =>
    have hnone := findSome?_lineage_eq_none_iff.mp hfound
    refine findSome?_lineage_eq_none_iff.mpr fun p hp => (hkept ?_).trans (hnone p hp)
    rintro rfl
    obtain ⟨k, hk⟩ := descends_iff_walk.mp hp
    exact hc ⟨k, hk, fun j _ p hp => hnone p (descends_iff_walk.mpr ⟨j, hp⟩)⟩
  | some w =>
    obtain ⟨k, p, hk, hp, hbefore⟩ := findSome?_lineage_eq_some_iff.mp hfound
    -- the walk does not come to the changed object up to the first hit
    have hne (j : Nat) (hj : j ≤ k) {p' : ObjectRef} (hp' : h.walk o j = some p') : q ≠ p' := by
      rintro rfl
      exact hc ⟨j, hp', fun i hi => hbefore i (Nat.lt_of_lt_of_le hi hj)⟩
    refine findSome?_lineage_eq_some_iff.mpr ⟨k, p, hk, ?_, fun j hj p' hp' => ?_⟩
    · exact (hkept (hne k (Nat.le_refl k) hk)).trans hp
    · exact (hkept (hne j (Nat.le_of_lt hj) hp')).trans (hbefore j hj p' hp')

/-- Other names are not concerned. -/
theorem lookup?_assign_of_ne (hq : q.index < h.objects.size) {other : String} (hne : name ≠ other) :
    (h.modifyObject q (·.assign name v)).lookup? o other = h.lookup? o other := by
  rw [lookup?, lineage_assign]
  unfold lookup?
  congr 1
  funext p
  rw [ownMember?_assign hq, if_neg fun hboth => hne hboth.2]

end

end

/-- **Member lookup.** On every heap, whatever loops its parents form, the loop behind a lookup ends, in one
way only, and passes the first objects of the walk, each of them once.  It finds the value of the first
object on the walk that has an accepted one, and nothing exactly if nothing that the parents lead to has
one.  So after an assignment, the new value is found from where the walk comes to the changed object before
any other value of the name; from elsewhere, and for other names, the lookup gives what it gave before. -/
theorem lookup_takes_first_hit (h : Heap) :
    (∀ o name accept,
      (∃ visited, h.Climbs (h.hit? name accept) [] (some o) visited (h.lookupWhere? o name accept) ∧
        (∀ visited' result, h.Climbs (h.hit? name accept) [] (some o) visited' result →
          visited' = visited ∧ result = h.lookupWhere? o name accept) ∧
        visited.Nodup ∧ ∀ k < visited.length, h.walk o k = visited[k]?) ∧
      (∀ v, h.lookupWhere? o name accept = some v ↔ h.FirstHit (h.hit? name accept) o v) ∧
      (h.lookupWhere? o name accept = none ↔
        ∀ p, h.Descends o p → h.hit? name accept p = none) ∧
      h.lookup? o name = h.lookupWhere? o name fun _ => true) ∧
    ∀ q name v, q.index < h.objects.size → ∀ o,
      (h.ComesFirst o q name → (h.modifyObject q (·.assign name v)).lookup? o name = some v) ∧
      (¬ h.ComesFirst o q name →
        (h.modifyObject q (·.assign name v)).lookup? o name = h.lookup? o name) ∧
      ∀ other, name ≠ other →
        (h.modifyObject q (·.assign name v)).lookup? o other = h.lookup? o other := by
  refine ⟨fun o name accept => ?_, fun q name v hq o => ?_⟩
  · simp only [lookupWhere?_eq_findSome?]
    obtain ⟨visited, hbegins, hclimbs⟩ := h.climbs_lineage (h.hit? name accept) o
    refine ⟨⟨visited, hclimbs, fun _ _ => hclimbs.unique, ?_, fun k hk => ?_⟩,
      fun v => findSome?_lineage_eq_some_iff, findSome?_lineage_eq_none_iff, ?_⟩
    · exact hbegins.sublist.nodup (h.nodup_lineage o)
    · rw [walk_eq_getElem?_lineage (Nat.lt_of_lt_of_le hk hbegins.length_le)]
      exact (List.prefix_iff_getElem?.mp hbegins k hk).trans (List.getElem?_eq_getElem hk).symm
    · unfold lookup? hit?
      congr 1
      funext p
      cases h.ownMember? p name <;> rfl
  · exact ⟨lookup?_assign_of_comesFirst hq, lookup?_assign_of_not_comesFirst hq,
      fun other => lookup?_assign_of_ne hq⟩

/-- Two types, each the parent of the other, and two plain objects below them. -/
def crossedParents : Heap where
  objects := #[.type "Object" (some ⟨1⟩) ⟨[("a", .int 1)]⟩ true, .type "Type" (some ⟨0⟩) .empty true,
    .plain (some ⟨0⟩) ⟨[("b", .int 2)]⟩, .plain (some ⟨2⟩) .empty]
  arrays := #[]

/-- In `crossedParents`, a member of the second type is found from there, but not from the plain objects, which come
to the first type before. -/
theorem lookup_takes_first_hit_crossedParents :
    (1 < crossedParents.objects.size ∧ crossedParents.ComesFirst ⟨1⟩ ⟨1⟩ "a" ∧ ¬ crossedParents.ComesFirst ⟨3⟩ ⟨1⟩ "a") ∧
    (crossedParents.modifyObject ⟨1⟩ (·.assign "a" (.int 5))).lookup? ⟨1⟩ "a" = some (.int 5) ∧
    (crossedParents.modifyObject ⟨1⟩ (·.assign "a" (.int 5))).lookup? ⟨3⟩ "a" = some (.int 1) ∧
    (crossedParents.modifyObject ⟨1⟩ (·.assign "a" (.int 5))).lookup? ⟨3⟩ "b" = some (.int 2) := by
  have hsize : 1 < crossedParents.objects.size := by decide
  have hcomes : crossedParents.ComesFirst ⟨1⟩ ⟨1⟩ "a" := ⟨0, rfl, fun _ hj => absurd hj (Nat.not_lt_zero _)⟩
  have hnot : ¬ crossedParents.ComesFirst ⟨3⟩ ⟨1⟩ "a" := by
    rintro ⟨_ | _ | _ | k, hk, hbefore⟩
    · cases hk
    · cases hk
    · cases hk
    · exact absurd (hbefore 2 (by omega) ⟨0⟩ rfl) nofun
  obtain ⟨-, hassign⟩ := lookup_takes_first_hit crossedParents
  have hfirst := (hassign ⟨1⟩ "a" (.int 5) hsize ⟨1⟩).1 hcomes
  obtain ⟨-, hsame, hother⟩ := hassign ⟨1⟩ "a" (.int 5) hsize ⟨3⟩
  exact ⟨⟨hsize, hcomes, hnot⟩, hfirst, (hsame hnot).trans rfl,
    (hother "b" (by decide)).trans rfl⟩

end ProtoScript.Heap
