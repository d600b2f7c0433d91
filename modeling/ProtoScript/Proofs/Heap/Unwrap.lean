import ProtoScript.Heap.Unwrap
import ProtoScript.Proofs.Heap.Lineage

/-!
# Chains of boxes

A box may hold a box, and so on: the boxes that are met on the way from a value form a chain, which comes
to an end or goes round for ever.  What is in the innermost box, and the innermost box itself, are found by
loops along the chain.  Both loops keep the objects that they have passed and end at an object that they meet
again; they differ in what they go on with.  `Follows` is such a loop without a bound on its length.

On every heap the loops end, since each object that they pass is another object of the heap.  Where they end
is described by the chain alone: at its last value, and one box before if that is no object; or, if the chain
comes back to an object that it has passed, at the first such object, which is where both loops end.  From
there the chain goes round, so starting anew at that object ends at that object.  All laws of unwrapping come
from this.
-/

namespace ProtoScript

/-- Whether a value is an object. -/
def Value.isObject : Value → Bool
  | .object _ => true
  | _ => false

namespace Heap

/-! ## Definitions -/

/-- What a value holds, if it is a box. -/
def content? (h : Heap) : Value → Option Value
  | .object o => h.ownMember? o payload
  | _ => none

/-- The chain of boxes that leads from one value to another: each of these objects holds the next one, and
the last one holds the other value. -/
inductive Chain (h : Heap) : Value → List ObjectRef → Value → Prop
  | here {v : Value} : Chain h v [] v
  | box {o : ObjectRef} {os : List ObjectRef} {u w : Value} (hu : h.content? (.object o) = some u)
    (hrest : Chain h u os w) : Chain h (.object o) (o :: os) w

/-- The chain of boxes from a value comes back to an object that it has passed. -/
def Loops (h : Heap) (v : Value) : Prop :=
  ∃ os o, h.Chain v os (.object o) ∧ o ∈ os

/-- What a loop along a chain goes on with, if it does: what an object holds that was not passed before,
provided that it is wanted. -/
def next? (h : Heap) (wanted : Value → Bool) (passed : List ObjectRef) : Value → Option Value
  | .object o => if o ∈ passed then none else (h.content? (.object o)).filter wanted
  | _ => none

/-- The loop along a chain, from where it stands and with the objects that it has passed: the objects that it
passes from there on, in order, and the value at which it ends. -/
inductive Follows (h : Heap) (wanted : Value → Bool) :
    List ObjectRef → Value → List ObjectRef → Value → Prop
  | ends {passed : List ObjectRef} {v : Value} (hv : h.next? wanted passed v = none) :
    Follows h wanted passed v [] v
  | goesOn {passed visited : List ObjectRef} {o : ObjectRef} {u w : Value}
    (hu : h.next? wanted passed (.object o) = some u)
    (hrest : Follows h wanted (o :: passed) u visited w) :
    Follows h wanted passed (.object o) (o :: visited) w

/-- A loop along the chain from a value ends with this result, in no other way, and passes no object twice. -/
def EndsWith (h : Heap) (wanted : Value → Bool) (v result : Value) : Prop :=
  ∃ visited, h.Follows wanted [] v visited result ∧ visited.Nodup ∧
    ∀ visited' result', h.Follows wanted [] v visited' result' →
      visited' = visited ∧ result' = result

variable {h : Heap} {wanted : Value → Bool} {passed visited os : List ObjectRef} {o : ObjectRef}
  {u v w : Value}

/-! ## Chains -/

/-- An object that holds something is in the heap. -/
theorem index_lt_of_content? (hu : h.content? (.object o) = some u) : o.index < h.objects.size := by
  by_contra hge
  have hnone : h.content? (.object o) = none := by
    simp [content?, ownMember?, object, Array.getElem?_eq_none (Nat.le_of_not_lt hge), Object.plain]
  rw [hnone] at hu
  cases hu

/-- The chains of a heap are those of any heap in which the boxes hold the same. -/
theorem Chain.of_content? {h' : Heap} (hcontent : ∀ u, h'.content? u = h.content? u)
    (hc : h.Chain v os w) : h'.Chain v os w := by
  induction hc with
  | here => exact .here
  | box hu _ ih => exact .box ((hcontent _).trans hu) ih

/-- A chain passes each of its objects on the way. -/
theorem Chain.split {before after : List ObjectRef} (hc : h.Chain v (before ++ o :: after) w) :
    h.Chain v before (.object o) ∧ h.Chain (.object o) (o :: after) w := by
  induction before generalizing v with
  | nil =>
    cases hc with
    | box hu hrest => exact ⟨.here, .box hu hrest⟩
  | cons p before ih =>
    cases hc with
    | box hu hrest =>
      obtain ⟨hbefore, hafter⟩ := ih hrest
      exact ⟨.box hu hbefore, hafter⟩

/-- Of two chains from a value, one that comes to an end goes on from where the other one stops. -/
theorem Chain.rest {os' : List ObjectRef} {x : Value} (hc : h.Chain v os w) (hw : h.content? w = none)
    (hx : h.Chain v os' x) : ∃ after, os = os' ++ after ∧ h.Chain x after w := by
  induction hx generalizing os with
  | here => exact ⟨os, rfl, hc⟩
  | box hu _ ih =>
    cases hc with
    | here =>
      rw [hu] at hw
      cases hw
    | box hu' hrest =>
      obtain rfl := Option.some.inj (hu'.symm.trans hu)
      obtain ⟨after, rfl, hafter⟩ := ih hrest
      exact ⟨after, rfl, hafter⟩

/-- The chain from a value either has an end or comes back to an object. -/
theorem not_loops_of_chain (hc : h.Chain v os w) (hnodup : os.Nodup) (hw : h.content? w = none) :
    ¬ h.Loops v := by
  rintro ⟨os', o, ho, hmem⟩
  obtain ⟨after, rfl, hafter⟩ := hc.rest hw ho
  cases hafter with
  | here =>
    -- an object that was passed holds something, so that it is not the end
    obtain ⟨before, rest, rfl⟩ := List.append_of_mem hmem
    cases ho.split.2 with
    | box hu _ =>
      rw [hu] at hw
      cases hw
  | box _ _ => exact (List.disjoint_of_nodup_append hnodup) hmem List.mem_cons_self

/-! ## The loop ends -/

theorem next?_eq_some_iff :
    h.next? wanted passed (.object o) = some u ↔
      o ∉ passed ∧ h.content? (.object o) = some u ∧ wanted u = true := by
  by_cases ho : o ∈ passed
  · simp [next?, ho]
  · simp [next?, ho, Option.filter_eq_some_iff]

/-- The loop ends at an object that was passed, and where an object holds nothing that is wanted. -/
theorem next?_eq_none_iff :
    h.next? wanted passed (.object o) = none ↔
      o ∈ passed ∨ ∀ u, h.content? (.object o) = some u → wanted u = false := by
  rw [Option.eq_none_iff_forall_ne_some]
  constructor
  · intro hnone
    by_cases ho : o ∈ passed
    · exact .inl ho
    · refine .inr fun u hu => Bool.eq_false_iff.mpr fun hwanted => ?_
      exact hnone u (next?_eq_some_iff.mpr ⟨ho, hu, hwanted⟩)
  · intro hends u hsome
    obtain ⟨hnew, hu, hwanted⟩ := next?_eq_some_iff.mp hsome
    rcases hends with ho | hends
    · exact hnew ho
    · rw [hends u hu] at hwanted
      cases hwanted

/-- The loop ends wherever it starts: each object that it passes is another one of the heap. -/
theorem exists_follows (wanted : Value → Bool) (v : Value) (hnodup : passed.Nodup)
    (hpassed : ∀ o ∈ passed, o.index < h.objects.size) :
    ∃ visited w, h.Follows wanted passed v visited w := by
  obtain ⟨room, hroom⟩ : ∃ room, h.objects.size < room + passed.length :=
    ⟨h.objects.size + 1, by omega⟩
  induction room generalizing passed v with
  | zero =>
    have hlength := length_le_size hnodup hpassed
    omega
  | succ room ih =>
    cases hnext : h.next? wanted passed v with
    | none => exact ⟨[], v, .ends hnext⟩
    | some u =>
      cases v with
      | object o =>
        obtain ⟨hnew, hu, -⟩ := next?_eq_some_iff.mp hnext
        have hpassed' : ∀ p ∈ o :: passed, p.index < h.objects.size := by
          intro p hp
          rcases List.mem_cons.mp hp with rfl | hp
          · exact index_lt_of_content? hu
          · exact hpassed p hp
        obtain ⟨visited, w, hrest⟩ := ih u (List.nodup_cons.mpr ⟨hnew, hnodup⟩) hpassed' (by
          rw [List.length_cons]
          omega)
        exact ⟨o :: visited, w, .goesOn hnext hrest⟩
      | _ => cases hnext

/-- It ends in one way only. -/
theorem Follows.unique {visited' : List ObjectRef} {w' : Value}
    (hf : h.Follows wanted passed v visited w) (hf' : h.Follows wanted passed v visited' w') :
    visited' = visited ∧ w' = w := by
  induction hf generalizing visited' w' with
  | ends hv =>
    cases hf' with
    | ends => exact ⟨rfl, rfl⟩
    | goesOn hu _ =>
      rw [hv] at hu
      cases hu
  | goesOn hu _ ih =>
    cases hf' with
    | ends hv =>
      rw [hv] at hu
      cases hu
    | goesOn hu' hrest =>
      obtain rfl := Option.some.inj (hu'.symm.trans hu)
      obtain ⟨rfl, rfl⟩ := ih hrest
      exact ⟨rfl, rfl⟩

/-- It passes no object twice, nor one that was passed before. -/
theorem Follows.nodup (hf : h.Follows wanted passed v visited w) :
    visited.Nodup ∧ ∀ o ∈ visited, o ∉ passed := by
  induction hf with
  | ends => exact ⟨List.nodup_nil, List.forall_mem_nil _⟩
  | goesOn hu _ ih =>
    obtain ⟨hnodup, hfresh⟩ := ih
    obtain ⟨hnew, -⟩ := next?_eq_some_iff.mp hu
    refine ⟨List.nodup_cons.mpr ⟨fun hmem => hfresh _ hmem List.mem_cons_self, hnodup⟩, ?_⟩
    intro p hp
    rcases List.mem_cons.mp hp with rfl | hp
    · exact hnew
    · exact fun hmem => hfresh p hp (List.mem_cons_of_mem _ hmem)

/-- What it passes are the boxes of the chain. -/
theorem Follows.chain (hf : h.Follows wanted passed v visited w) : h.Chain v visited w := by
  induction hf with
  | ends => exact .here
  | goesOn hu _ ih => exact .box (next?_eq_some_iff.mp hu).2.1 ih

/-- It ends where it cannot go on. -/
theorem Follows.next?_eq_none (hf : h.Follows wanted passed v visited w) :
    h.next? wanted (visited.reverse ++ passed) w = none := by
  induction hf with
  | ends hv => exact hv
  | goesOn _ _ ih => simpa using ih

/-- The loop goes along a chain of new objects for as long as it wants what is next. -/
theorem Chain.follows (hc : h.Chain v os w) (hnodup : os.Nodup) (hnew : ∀ o ∈ os, o ∉ passed)
    (hobject : ∀ o, wanted (.object o) = true) (hw : os ≠ [] → wanted w = true)
    (hend : h.next? wanted (os.reverse ++ passed) w = none) : h.Follows wanted passed v os w := by
  induction hc generalizing passed with
  | here => exact .ends hend
  | @box o os u w hu hrest ih =>
    have hwanted : wanted u = true := by
      cases hrest with
      | here => exact hw (List.cons_ne_nil _ _)
      | box => exact hobject _
    obtain ⟨ho, hnodup⟩ := List.nodup_cons.mp hnodup
    refine .goesOn (next?_eq_some_iff.mpr ⟨hnew o List.mem_cons_self, hu, hwanted⟩)
      (ih hnodup ?_ (fun _ => hw (List.cons_ne_nil _ _)) (by simpa using hend))
    intro p hp hmem
    rcases List.mem_cons.mp hmem with rfl | hmem
    · exact ho hp
    · exact hnew p (List.mem_cons_of_mem _ hp) hmem

/-! ## The two loops -/

/-- A bound that is above the number of passed objects is never met. -/
theorem Follows.unwrapFrom_eq (hf : h.Follows (fun _ => true) passed v visited w) {fuel : Nat}
    (hfuel : visited.length < fuel) : h.unwrapFrom fuel passed v = w := by
  induction hf generalizing fuel with
  | @ends passed v hend =>
    obtain ⟨fuel, rfl⟩ : ∃ k, fuel = k + 1 := ⟨fuel - 1, by omega⟩
    cases v with
    | object o =>
      rw [unwrapFrom]
      split
      · rfl
      · rename_i hnew
        split
        · rename_i u hu
          have hwanted := (next?_eq_none_iff.mp hend).resolve_left hnew u hu
          cases hwanted
        · rfl
    | _ => rfl
  | @goesOn passed visited o u w hu hrest ih =>
    obtain ⟨fuel, rfl⟩ : ∃ k, fuel = k + 1 := ⟨fuel - 1, by omega⟩
    obtain ⟨hnew, hcontent, -⟩ := next?_eq_some_iff.mp hu
    rw [content?] at hcontent
    rw [unwrapFrom, if_neg hnew, hcontent]
    exact ih (Nat.lt_of_succ_lt_succ hfuel)

theorem Follows.innermostFrom_eq (hf : h.Follows Value.isObject passed v visited w) {fuel : Nat}
    (hv : v = .object o) (hfuel : visited.length < fuel) :
    .object (h.innermostFrom fuel passed o) = w := by
  induction hf generalizing fuel o with
  | @ends passed v hend =>
    obtain ⟨fuel, rfl⟩ : ∃ k, fuel = k + 1 := ⟨fuel - 1, by omega⟩
    subst hv
    rw [innermostFrom]
    split
    · rfl
    · rename_i hnew
      split
      · rename_i p hp
        have hwanted := (next?_eq_none_iff.mp hend).resolve_left hnew (.object p) hp
        cases hwanted
      · rfl
  | @goesOn passed visited p u w hu hrest ih =>
    obtain ⟨fuel, rfl⟩ : ∃ k, fuel = k + 1 := ⟨fuel - 1, by omega⟩
    obtain rfl := Value.object.inj hv
    obtain ⟨hnew, hcontent, hobject⟩ := next?_eq_some_iff.mp hu
    rw [content?] at hcontent
    cases u with
    | object q =>
      rw [innermostFrom, if_neg hnew, hcontent]
      exact ih rfl (Nat.lt_of_succ_lt_succ hfuel)
    | _ => exact absurd hobject Bool.false_ne_true

/-- No more objects are passed than there are. -/
theorem Follows.length_le (hf : h.Follows wanted passed v visited w) :
    visited.length ≤ h.objects.size := by
  refine length_le_size hf.nodup.1 fun o ho => ?_
  obtain ⟨before, after, rfl⟩ := List.append_of_mem ho
  cases hf.chain.split.2 with
  | box hu _ => exact index_lt_of_content? hu

/-- A loop that starts at a value ends with the result that it has at a bound which is never met. -/
theorem endsWith_of_eq {result : Value}
    (heq : ∀ visited w, h.Follows wanted [] v visited w → visited.length < h.objects.size + 2 →
      result = w) : h.EndsWith wanted v result := by
  obtain ⟨visited, w, hf⟩ := exists_follows (h := h) wanted v List.nodup_nil (List.forall_mem_nil _)
  have hlength := hf.length_le
  obtain rfl := heq visited w hf (by omega)
  exact ⟨visited, hf, hf.nodup.1, fun _ _ => hf.unique⟩

/-- Unwrapping is where the chain of contents ends. -/
theorem endsWith_unwrap (h : Heap) (v : Value) : h.EndsWith (fun _ => true) v (h.unwrap v) :=
  endsWith_of_eq fun _ _ hf hlength => hf.unwrapFrom_eq hlength

/-- The innermost object is where the chain of boxed objects ends. -/
theorem endsWith_innermost (h : Heap) (v : Value) : h.EndsWith Value.isObject v (h.innermost v) := by
  refine endsWith_of_eq fun visited w hf hlength => ?_
  cases v with
  | object o => exact hf.innermostFrom_eq rfl hlength
  | _ =>
    cases hf with
    | ends => rfl

/-! ## Where they end -/

/-- The chain from a value comes to an end, or it comes back to an object that it has passed. -/
theorem exists_chain (h : Heap) (v : Value) :
    ∃ os w, h.Chain v os w ∧ os.Nodup ∧ (h.content? w = none ∨ ∃ o ∈ os, w = .object o) := by
  obtain ⟨os, hf, hnodup, -⟩ := endsWith_unwrap h v
  refine ⟨os, h.unwrap v, hf.chain, hnodup, ?_⟩
  have hend := hf.next?_eq_none
  rw [List.append_nil] at hend
  cases hw : h.unwrap v with
  | object o =>
    rw [hw] at hend
    rcases next?_eq_none_iff.mp hend with hmem | hnothing
    · exact .inr ⟨o, List.mem_reverse.mp hmem, rfl⟩
    · refine .inl (Option.eq_none_iff_forall_ne_some.mpr fun u hu => ?_)
      exact absurd (hnothing u hu) nofun
  | _ => exact .inl rfl

/-- Unwrapping leads to the end of the chain, or to the first object that the chain comes back to. -/
theorem unwrap_of_chain (hc : h.Chain v os w) (hnodup : os.Nodup)
    (hend : h.content? w = none ∨ ∃ o ∈ os, w = .object o) : h.unwrap v = w := by
  have hstops : h.next? (fun _ => true) (os.reverse ++ []) w = none := by
    cases w with
    | object o =>
      refine next?_eq_none_iff.mpr ?_
      rcases hend with hnone | ⟨p, hp, heq⟩
      · refine .inr fun u hu => ?_
        rw [hnone] at hu
        cases hu
      · cases heq
        exact .inl (by simpa using hp)
    | _ => rfl
  have hf := hc.follows hnodup (fun o _ => List.not_mem_nil) (fun _ => rfl) (fun _ => rfl) hstops
  obtain ⟨visited, -, -, hunique⟩ := endsWith_unwrap h v
  exact (hunique os w hf).2.symm

/-- The innermost box is the last one of the chain, or the first object that the chain comes back to. -/
theorem innermost_of_chain (hc : h.Chain v os (.object o)) (hnodup : os.Nodup)
    (hend : (∀ p, h.content? (.object o) ≠ some (.object p)) ∨ o ∈ os) :
    h.innermost v = .object o := by
  have hstops : h.next? Value.isObject (os.reverse ++ []) (.object o) = none := by
    refine next?_eq_none_iff.mpr ?_
    rcases hend with hraw | ho
    · refine .inr fun u hu => ?_
      cases u with
      | object p => exact absurd hu (hraw p)
      | _ => rfl
    · exact .inl (by simpa using ho)
  have hf := hc.follows hnodup (fun o _ => List.not_mem_nil) (fun _ => rfl) (fun _ => rfl) hstops
  obtain ⟨visited, -, -, hunique⟩ := endsWith_innermost h v
  exact (hunique os (.object o) hf).2.symm

theorem innermost_of_not_object (hv : v.isObject = false) : h.innermost v = v := by
  cases v with
  | object o => cases hv
  | _ => rfl

/-- Unwrapping looks at objects only. -/
theorem unwrap_of_objects_eq {h' : Heap} (heq : h'.objects = h.objects) (v : Value) :
    h'.unwrap v = h.unwrap v := by
  have hcontent (u : Value) : h'.content? u = h.content? u := by
    cases u with
    | object o => simp only [content?, ownMember?, object, heq]
    | _ => rfl
  obtain ⟨os, w, hc, hnodup, hend⟩ := exists_chain h v
  have hend' : h'.content? w = none ∨ ∃ o ∈ os, w = .object o := by
    rw [hcontent]
    exact hend
  rw [unwrap_of_chain hc hnodup hend, unwrap_of_chain (hc.of_content? hcontent) hnodup hend']

/-- On a chain that comes back to an object, both loops end at the first such object, and they end there as
well if they start there. -/
theorem settled_of_loop (hc : h.Chain v os (.object o)) (hnodup : os.Nodup) (ho : o ∈ os) :
    h.unwrap v = .object o ∧ h.innermost v = .object o ∧ h.unwrap (.object o) = .object o ∧
      h.innermost (.object o) = .object o := by
  obtain ⟨before, after, rfl⟩ := List.append_of_mem ho
  obtain ⟨-, hround⟩ := hc.split
  have hnodup' : (o :: after).Nodup := (List.nodup_append.mp hnodup).2.1
  exact ⟨unwrap_of_chain hc hnodup (.inr ⟨o, ho, rfl⟩), innermost_of_chain hc hnodup (.inr ho),
    unwrap_of_chain hround hnodup' (.inr ⟨o, List.mem_cons_self, rfl⟩),
    innermost_of_chain hround hnodup' (.inr List.mem_cons_self)⟩

/-- A chain from an object that comes to an end has a last box. -/
theorem exists_last_box (hc : h.Chain v os w) (hnodup : os.Nodup) (hw : h.content? w = none)
    (hv : v.isObject = true) :
    ∃ before o, h.Chain v before (.object o) ∧ before.Nodup ∧
      ∀ p, h.content? (.object o) ≠ some (.object p) := by
  cases hobject : w.isObject with
  | true =>
    cases w with
    | object o =>
      refine ⟨os, o, hc, hnodup, fun p hp => ?_⟩
      rw [hw] at hp
      cases hp
    | _ => cases hobject
  | false =>
    rcases List.eq_nil_or_concat os with rfl | ⟨before, o, rfl⟩
    · cases hc with
      | here =>
        rw [hv] at hobject
        cases hobject
    · rw [List.concat_eq_append] at hc hnodup
      obtain ⟨hbefore, hlast⟩ := hc.split
      refine ⟨before, o, hbefore, (List.nodup_append.mp hnodup).1, fun p hp => ?_⟩
      cases hlast with
      | box hu hrest =>
        cases hrest with
        | here =>
          obtain rfl := Option.some.inj (hu.symm.trans hp)
          cases hobject

/-- The end of a chain is left as it is. -/
theorem settled_of_content? (hw : h.content? w = none) : h.unwrap w = w ∧ h.innermost w = w := by
  refine ⟨unwrap_of_chain .here List.nodup_nil (.inl hw), ?_⟩
  cases w with
  | object o =>
    refine innermost_of_chain .here List.nodup_nil (.inl fun p hp => ?_)
    rw [hw] at hp
    cases hp
  | _ => rfl

/-- On a chain that comes to an end, the innermost box is its last box, from which unwrapping leads to the
same end. -/
theorem settled_of_end (hc : h.Chain v os w) (hnodup : os.Nodup) (hw : h.content? w = none) :
    h.unwrap v = w ∧ h.unwrap (h.innermost v) = w ∧ h.innermost (h.innermost v) = h.innermost v := by
  have hend : h.unwrap v = w := unwrap_of_chain hc hnodup (.inl hw)
  cases hv : v.isObject with
  | false =>
    rw [innermost_of_not_object hv]
    exact ⟨hend, hend, innermost_of_not_object hv⟩
  | true =>
    obtain ⟨before, o, hbefore, hnodup', hlast⟩ := exists_last_box hc hnodup hw hv
    obtain ⟨after, rfl, hafter⟩ := hc.rest hw hbefore
    rw [innermost_of_chain hbefore hnodup' (.inl hlast)]
    exact ⟨hend, unwrap_of_chain hafter (List.nodup_append.mp hnodup).2.1 (.inl hw),
      innermost_of_chain .here List.nodup_nil (.inl hlast)⟩

/-- **Unwrapping settles.**  On every heap, whatever chains and loops its boxes form, both loops end, in one
way only, and what they end with is left as it is by both of them: unwrapping twice is unwrapping once, and
it does not matter whether the innermost box is taken out before.  If the chain from a value comes to an end,
unwrapping yields its last value and the innermost box is its last object; if it goes round, both are the
first object that the chain comes back to. -/
theorem unwrapping_settles (h : Heap) (v : Value) :
    (h.EndsWith (fun _ => true) v (h.unwrap v) ∧ h.EndsWith Value.isObject v (h.innermost v)) ∧
    (h.unwrap (h.unwrap v) = h.unwrap v ∧ h.innermost (h.innermost v) = h.innermost v ∧
      h.unwrap (h.innermost v) = h.unwrap v ∧ h.innermost (h.unwrap v) = h.unwrap v) ∧
    (¬ h.Loops v →
      (∃ os, h.Chain v os (h.unwrap v) ∧ h.content? (h.unwrap v) = none) ∧
      (v.isObject = false → h.innermost v = v) ∧
      (v.isObject = true → ∃ os o, h.Chain v os (.object o) ∧
        (∀ p, h.content? (.object o) ≠ some (.object p)) ∧ h.innermost v = .object o)) ∧
    (h.Loops v → ∃ os o, h.Chain v os (.object o) ∧ os.Nodup ∧ o ∈ os ∧
      h.unwrap v = .object o ∧ h.innermost v = .object o) := by
  refine ⟨⟨endsWith_unwrap h v, endsWith_innermost h v⟩, ?_⟩
  obtain ⟨os, w, hc, hnodup, hw | ⟨o, ho, rfl⟩⟩ := exists_chain h v
  · obtain ⟨hend, hbox, hinner⟩ := settled_of_end hc hnodup hw
    obtain ⟨hunwrap, hinnermost⟩ := settled_of_content? hw
    rw [hend]
    refine ⟨⟨hunwrap, hinner, hbox, hinnermost⟩, fun _ => ⟨⟨os, hc, hw⟩, innermost_of_not_object, ?_⟩,
      fun hloops => absurd hloops (not_loops_of_chain hc hnodup hw)⟩
    intro hv
    obtain ⟨before, o, hbefore, hnodup', hlast⟩ := exists_last_box hc hnodup hw hv
    exact ⟨before, o, hbefore, hlast, innermost_of_chain hbefore hnodup' (.inl hlast)⟩
  · obtain ⟨hunwrap, hinnermost, hunwrap', hinnermost'⟩ := settled_of_loop hc hnodup ho
    rw [hunwrap, hinnermost]
    exact ⟨⟨hunwrap', hinnermost', hunwrap', hinnermost'⟩, fun hnot => absurd ⟨os, o, hc, ho⟩ hnot,
      fun _ => ⟨os, o, hc, hnodup, ho, rfl, rfl⟩⟩

/-- A box of a box of an integer, and a box that leads to two boxes of each other. -/
def boxesInBoxes : Heap where
  objects := #[.plain none ⟨[(payload, .object ⟨1⟩)]⟩, .plain none ⟨[(payload, .int 3)]⟩,
    .plain none ⟨[(payload, .object ⟨3⟩)]⟩, .plain none ⟨[(payload, .object ⟨4⟩)]⟩,
    .plain none ⟨[(payload, .object ⟨3⟩)]⟩]
  arrays := #[]

/-- In `boxesInBoxes`, the first chain ends with the integer, and the second one goes round from the second
of its boxes on. -/
theorem unwrapping_settles_boxesInBoxes :
    ¬ boxesInBoxes.Loops (.object ⟨0⟩) ∧ boxesInBoxes.content? (boxesInBoxes.unwrap (.object ⟨0⟩)) = none ∧
    (∃ os o, boxesInBoxes.Chain (.object ⟨0⟩) os (.object o) ∧
      boxesInBoxes.innermost (.object ⟨0⟩) = .object o) ∧
    boxesInBoxes.Loops (.object ⟨2⟩) ∧ ∃ os o, boxesInBoxes.Chain (.object ⟨2⟩) os (.object o) ∧ o ∈ os ∧
      boxesInBoxes.unwrap (.object ⟨2⟩) = .object o ∧ boxesInBoxes.innermost (.object ⟨2⟩) = .object o := by
  have hends : boxesInBoxes.Chain (.object ⟨0⟩) [⟨0⟩, ⟨1⟩] (.int 3) := .box rfl (.box rfl .here)
  have hnot : ¬ boxesInBoxes.Loops (.object ⟨0⟩) := not_loops_of_chain hends (by decide) rfl
  have hround : boxesInBoxes.Chain (.object ⟨2⟩) [⟨2⟩, ⟨3⟩, ⟨4⟩] (.object ⟨3⟩) :=
    .box rfl (.box rfl (.box rfl .here))
  have hloops : boxesInBoxes.Loops (.object ⟨2⟩) := ⟨_, _, hround, by decide⟩
  obtain ⟨-, -, hlast, -⟩ := unwrapping_settles boxesInBoxes (.object ⟨0⟩)
  obtain ⟨⟨-, -, hvalue⟩, -, hbox⟩ := hlast hnot
  obtain ⟨os, o, hchain, -, hinnermost⟩ := hbox rfl
  obtain ⟨-, -, -, hrepeats⟩ := unwrapping_settles boxesInBoxes (.object ⟨2⟩)
  obtain ⟨os', p, hchain', -, hp, hunwrap, hinnermost'⟩ := hrepeats hloops
  exact ⟨hnot, hvalue, ⟨os, o, hchain, hinnermost⟩, hloops, os', p, hchain', hp, hunwrap, hinnermost'⟩

end Heap

end ProtoScript
