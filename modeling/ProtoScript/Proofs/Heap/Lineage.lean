import Mathlib
import ProtoScript.Heap.Lineage

/-!
# The lineage of an object is its chain of parents

The lineage is followed for a bounded number of objects, and ends before it would repeat one.  Each
object on the way that has a parent is an object of the heap, so no more objects can be passed than
there are, and the bound cuts nothing off: what is in the lineage is exactly what the parents lead to.
-/

namespace ProtoScript.Heap

/-- The parents, followed from the first object, lead to the second one, which may be the first one. -/
def Descends (h : Heap) (o ancestor : ObjectRef) : Prop :=
  Relation.ReflTransGen (fun p q => h.parent? p = some q) o ancestor

variable {h : Heap}

/-- An object with a parent is in the heap. -/
theorem index_lt_of_parent? {o p : ObjectRef} (hp : h.parent? o = some p) :
    o.index < h.objects.size := by
  by_contra hlt
  simp [parent?, object, Array.getElem?_eq_none (Nat.le_of_not_lt hlt), Object.plain] at hp

/-- Different things that are numbered below a bound are no more than the bound. -/
theorem length_le_of_numbered {α : Type} [DecidableEq α] {xs : List α} {bound : Nat} (number : α → Nat)
    (hnodup : xs.Nodup) (hinjective : Set.InjOn number {x | x ∈ xs})
    (hbound : ∀ x ∈ xs, number x < bound) : xs.length ≤ bound := by
  have hcard : xs.toFinset.card ≤ (Finset.range bound).card := by
    refine Finset.card_le_card_of_injOn number ?_ ?_
    · intro x hx
      exact Finset.mem_coe.mpr (Finset.mem_range.mpr (hbound x (by simpa using hx)))
    · intro x hx y hy
      exact hinjective (by simpa using hx) (by simpa using hy)
  rwa [List.toFinset_card_of_nodup hnodup, Finset.card_range] at hcard

/-- Different objects of the heap are no more than its objects. -/
theorem length_le_size {os : List ObjectRef} (hnodup : os.Nodup)
    (hos : ∀ o ∈ os, o.index < h.objects.size) : os.length ≤ h.objects.size := by
  refine length_le_of_numbered ObjectRef.index hnodup ?_ hos
  rintro ⟨i⟩ - ⟨j⟩ - heq
  exact congrArg ObjectRef.mk heq

/-- Only what the parents lead to is found. -/
theorem descends_of_mem_lineageFrom {o a : ObjectRef} (fuel : Nat) {trail : Trail}
    {start : Option ObjectRef} (hstart : ∀ b, start = some b → h.Descends o b)
    (ha : a ∈ h.lineageFrom fuel trail start) : h.Descends o a := by
  induction fuel generalizing trail start with
  | zero => cases ha
  | succ fuel ih =>
    cases start with
    | none => cases ha
    | some b =>
      have hb : h.Descends o b := hstart b rfl
      rw [lineageFrom] at ha
      split at ha
      · cases ha
      · rcases List.mem_cons.mp ha with rfl | hrest
        · exact hb
        · exact ih (fun c hc => hb.tail hc) hrest

/-- With enough fuel, the way goes on until it meets an object that was passed, or until there is no
parent. -/
theorem lineageFrom_complete (fuel : Nat) {trail : Trail} (start : Option ObjectRef)
    (hnodup : trail.passed.Nodup) (hpassed : ∀ o ∈ trail.passed, o.index < h.objects.size)
    (hfuel : h.objects.size < fuel + trail.passed.length) :
    (∀ b, start = some b → b ∈ trail.passed ∨ b ∈ h.lineageFrom fuel trail start) ∧
      ∀ b ∈ h.lineageFrom fuel trail start, ∀ c, h.parent? b = some c →
        c ∈ trail.passed ∨ c ∈ h.lineageFrom fuel trail start := by
  induction fuel generalizing trail start with
  | zero =>
    have hlength := length_le_size hnodup hpassed
    omega
  | succ fuel ih =>
    cases start with
    | none =>
      refine ⟨?_, fun b hb => absurd hb List.not_mem_nil⟩
      intro b hb
      cases hb
    | some o =>
      rw [lineageFrom]
      by_cases ho : trail.contains o = true
      · rw [if_pos ho]
        refine ⟨?_, fun b hb => absurd hb List.not_mem_nil⟩
        intro b hb
        cases hb
        exact .inl ((trail.contains_iff o).mp ho)
      rw [if_neg ho]
      have hnew : o ∉ trail.passed := fun hmem => ho ((trail.contains_iff o).mpr hmem)
      constructor
      · intro b hb
        cases hb
        exact .inr List.mem_cons_self
      intro b hb c hc
      cases hparent : h.parent? o with
      | none =>
        -- the way ends here
        have hend : h.lineageFrom fuel (trail.pass o) none = [] := by cases fuel <;> rfl
        rw [hparent, hend] at hb
        rw [List.mem_singleton.mp hb, hparent] at hc
        cases hc
      | some p =>
        have hnodup' : (trail.pass o).passed.Nodup := List.nodup_cons.mpr ⟨hnew, hnodup⟩
        have hpassed' : ∀ q ∈ (trail.pass o).passed, q.index < h.objects.size := by
          intro q hq
          rcases List.mem_cons.mp hq with rfl | hq
          · exact index_lt_of_parent? hparent
          · exact hpassed q hq
        have hfuel' : h.objects.size < fuel + (trail.pass o).passed.length := by
          rw [Trail.passed_pass, List.length_cons]
          omega
        obtain ⟨hstart, hnext⟩ := ih (some p) hnodup' hpassed' hfuel'
        rw [hparent] at hb
        have hfound : c ∈ (trail.pass o).passed ∨ c ∈ h.lineageFrom fuel (trail.pass o) (some p) := by
          rcases List.mem_cons.mp hb with rfl | hrest
          · rw [hparent] at hc
            exact hstart c hc
          · exact hnext b hrest c hc
        rcases hfound with hpass | hrest
        · rcases List.mem_cons.mp hpass with rfl | hpass
          · exact .inr List.mem_cons_self
          · exact .inl hpass
        · exact .inr (List.mem_cons_of_mem _ hrest)

/-- What is in the lineage is what the parents lead to. -/
theorem mem_lineage_iff {o a : ObjectRef} : a ∈ h.lineage o ↔ h.Descends o a := by
  constructor
  · intro ha
    refine descends_of_mem_lineageFrom _ ?_ ha
    intro b hb
    cases hb
    exact .refl
  · intro ha
    have hnodup : (Trail.start o).passed.Nodup := List.nodup_nil
    obtain ⟨hstart, hnext⟩ := lineageFrom_complete (h := h) (h.objects.size + 1) (some o) hnodup nofun
      (by simp)
    have hmem : ∀ b, b ∈ (Trail.start o).passed ∨
        b ∈ h.lineageFrom (h.objects.size + 1) (.start o) (some o) → b ∈ h.lineage o := by
      rintro b (hb | hb)
      · cases hb
      · exact hb
    induction ha with
    | refl => exact hmem o (hstart o rfl)
    | tail _ hparent ih => exact hmem _ (hnext _ ih _ hparent)

theorem inheritsFrom_iff {o a : ObjectRef} : h.inheritsFrom o a = true ↔ h.Descends o a := by
  rw [inheritsFrom, decide_eq_true_iff]
  exact mem_lineage_iff

/-- The values that a name has along the lineage are those of the objects that the parents lead to. -/
theorem mem_inherited_iff {o : ObjectRef} {name : String} {v : Value} :
    v ∈ h.inherited o name ↔ ∃ a, h.Descends o a ∧ h.ownMember? a name = some v := by
  rw [inherited, List.mem_filterMap]
  simp only [mem_lineage_iff]

end ProtoScript.Heap
