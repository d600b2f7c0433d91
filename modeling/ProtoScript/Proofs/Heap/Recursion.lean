import ProtoScript.Proofs.Heap.Copying

/-!
# Copying without a bound

The recursion that copies an object has no bound of its own: it goes down wherever something new is met.
`Copies vs c ws c'` tells one run of it.  What stands for the values `vs` is found one after the other,
from the moment `c` to the moment `c'`, and it is the values `ws`.  A run is finite, so there is one only
where the recursion ends.

There is at most one run from each moment, and wherever there is room to go down so many levels the
bounded functions perform it.  At the start there is room for everything in the heap.  So the recursion
ends, with what `Heap.copy` yields, and a higher bound would not change that.
-/

namespace ProtoScript

namespace Heap

/-- A run of the recursion, for values that are copied one after the other. -/
inductive Copies : List Value → Copying → List Value → Copying → Prop
  | nil {c : Copying} : Copies [] c [] c
  /-- Whatever is not copied stands for itself. -/
  | shared {v : Value} {vs ws : List Value} {c c' : Copying} (hnone : c.heap.node? v = none)
    (hrest : Copies vs c ws c') : Copies (v :: vs) c (v :: ws) c'
  | knownObject {o made : ObjectRef} {vs ws : List Value} {c c' : Copying}
    (hplain : c.heap.isType o = false) (hmade : c.objects.lookup o = some made)
    (hrest : Copies vs c ws c') : Copies (.object o :: vs) c (.object made :: ws) c'
  /-- A copy is begun, then what it will hold is copied, and then it is filled. -/
  | newObject {o : ObjectRef} {vs us ws : List Value} {c d c' : Copying}
    (hplain : c.heap.isType o = false) (hnone : c.objects.lookup o = none)
    (hmembers : Copies ((c.heap.object o).members.entries.map Prod.snd) (c.beginObject o).2 us d)
    (hrest : Copies vs (d.fillObject (c.beginObject o).1
      ⟨(c.heap.object o).members.entries.zipWith (fun entry u => (entry.1, u)) us⟩) ws c') :
    Copies (.object o :: vs) c (.object (c.beginObject o).1 :: ws) c'
  | knownArray {a made : ArrayRef} {vs ws : List Value} {c c' : Copying}
    (hmade : c.arrays.lookup a = some made) (hrest : Copies vs c ws c') :
    Copies (.array a :: vs) c (.array made :: ws) c'
  | newArray {a : ArrayRef} {vs us ws : List Value} {c d c' : Copying}
    (hnone : c.arrays.lookup a = none)
    (helements : Copies ((c.beginArray a).2.heap.elements a).toList (c.beginArray a).2 us d)
    (hrest : Copies vs (d.fillArray (c.beginArray a).1 us.toArray) ws c') :
    Copies (.array a :: vs) c (.array (c.beginArray a).1 :: ws) c'

variable {h : Heap} {o : ObjectRef}

section

variable {c c' c'' : Copying} {vs ws ws' : List Value}

/-- What is not copied stands for itself, and then the others are copied. -/
theorem Copies.rest_of_shared {v : Value} (hnone : c.heap.node? v = none)
    (hrun : Copies (v :: vs) c ws c') : ∃ rest, ws = v :: rest ∧ Copies vs c rest c' := by
  cases hrun with
  | shared _ hrest => exact ⟨_, rfl, hrest⟩
  | knownObject hplain _ _ | newObject hplain _ _ _ =>
    rw [node?_object hplain] at hnone
    cases hnone
  | knownArray _ _ | newArray _ _ _ => cases hnone

/-- For an object that was met its copy stands, and then the others are copied. -/
theorem Copies.rest_of_knownObject {made : ObjectRef} (hplain : c.heap.isType o = false)
    (hmade : c.objects.lookup o = some made) (hrun : Copies (.object o :: vs) c ws c') :
    ∃ rest, ws = .object made :: rest ∧ Copies vs c rest c' := by
  cases hrun with
  | shared hnone _ =>
    rw [node?_object hplain] at hnone
    cases hnone
  | knownObject _ hmade' hrest =>
    obtain rfl := Option.some.inj (hmade.symm.trans hmade')
    exact ⟨_, rfl, hrest⟩
  | newObject _ hnone _ _ =>
    rw [hmade] at hnone
    cases hnone

/-- For an object that is met first a new copy stands, which is filled before the others are copied. -/
theorem Copies.rest_of_newObject (hplain : c.heap.isType o = false) (hnone : c.objects.lookup o = none)
    (hrun : Copies (.object o :: vs) c ws c') :
    ∃ us d rest, ws = .object (c.beginObject o).1 :: rest ∧
      Copies ((c.heap.object o).members.entries.map Prod.snd) (c.beginObject o).2 us d ∧
      Copies vs (d.fillObject (c.beginObject o).1
        ⟨(c.heap.object o).members.entries.zipWith (fun entry u => (entry.1, u)) us⟩) rest c' := by
  cases hrun with
  | shared hshared _ =>
    rw [node?_object hplain] at hshared
    cases hshared
  | knownObject _ hmade _ =>
    rw [hnone] at hmade
    cases hmade
  | newObject _ _ hmembers hrest => exact ⟨_, _, _, rfl, hmembers, hrest⟩

/-- For an array that was met its copy stands, and then the others are copied. -/
theorem Copies.rest_of_knownArray {a made : ArrayRef} (hmade : c.arrays.lookup a = some made)
    (hrun : Copies (.array a :: vs) c ws c') :
    ∃ rest, ws = .array made :: rest ∧ Copies vs c rest c' := by
  cases hrun with
  | shared hnone _ => cases hnone
  | knownArray hmade' hrest =>
    obtain rfl := Option.some.inj (hmade.symm.trans hmade')
    exact ⟨_, rfl, hrest⟩
  | newArray hnone _ _ =>
    rw [hmade] at hnone
    cases hnone

/-- For an array that is met first a new copy stands, which is filled before the others are copied. -/
theorem Copies.rest_of_newArray {a : ArrayRef} (hnone : c.arrays.lookup a = none)
    (hrun : Copies (.array a :: vs) c ws c') :
    ∃ us d rest, ws = .array (c.beginArray a).1 :: rest ∧
      Copies ((c.beginArray a).2.heap.elements a).toList (c.beginArray a).2 us d ∧
      Copies vs (d.fillArray (c.beginArray a).1 us.toArray) rest c' := by
  cases hrun with
  | shared hshared _ => cases hshared
  | knownArray hmade _ =>
    rw [hnone] at hmade
    cases hmade
  | newArray _ helements hrest => exact ⟨_, _, _, rfl, helements, hrest⟩

/-- The recursion goes in one way only. -/
theorem Copies.unique (hrun : Copies vs c ws c') (hrun' : Copies vs c ws' c'') :
    ws' = ws ∧ c'' = c' := by
  induction hrun generalizing ws' c'' with
  | nil =>
    cases hrun'
    exact ⟨rfl, rfl⟩
  | shared hnone _ ih =>
    obtain ⟨rest, rfl, hrest⟩ := hrun'.rest_of_shared hnone
    obtain ⟨rfl, rfl⟩ := ih hrest
    exact ⟨rfl, rfl⟩
  | knownObject hplain hmade _ ih =>
    obtain ⟨rest, rfl, hrest⟩ := hrun'.rest_of_knownObject hplain hmade
    obtain ⟨rfl, rfl⟩ := ih hrest
    exact ⟨rfl, rfl⟩
  | newObject hplain hnone _ _ ihmembers ih =>
    obtain ⟨us, d, rest, rfl, hmembers, hrest⟩ := hrun'.rest_of_newObject hplain hnone
    obtain ⟨rfl, rfl⟩ := ihmembers hmembers
    obtain ⟨rfl, rfl⟩ := ih hrest
    exact ⟨rfl, rfl⟩
  | knownArray hmade _ ih =>
    obtain ⟨rest, rfl, hrest⟩ := hrun'.rest_of_knownArray hmade
    obtain ⟨rfl, rfl⟩ := ih hrest
    exact ⟨rfl, rfl⟩
  | newArray hnone _ _ ihelements ih =>
    obtain ⟨us, d, rest, rfl, helements, hrest⟩ := hrun'.rest_of_newArray hnone
    obtain ⟨rfl, rfl⟩ := ihelements helements
    obtain ⟨rfl, rfl⟩ := ih hrest
    exact ⟨rfl, rfl⟩

end

/-- Each value has something that stands for it. -/
theorem Copies.length_eq {vs ws : List Value} {c c' : Copying} (hrun : Copies vs c ws c') :
    ws.length = vs.length := by
  induction hrun with
  | nil => rfl
  | shared _ _ ih | knownObject _ _ _ ih | knownArray _ _ ih => exact congrArg Nat.succ ih
  | newObject _ _ _ _ _ ih | newArray _ _ _ _ ih => exact congrArg Nat.succ ih

/-! ### The bounded functions perform the recursion -/

/-- Copying a value is what comes first in a run of the recursion, whatever is copied afterwards, as long
as there is room to go down so many levels. -/
def Performs (h : Heap) (o : ObjectRef) (depth : Nat) (self : Value → Copier Value) : Prop :=
  ∀ unfinished c v, c.Sound h o unfinished → c.Room h depth → h.Held o v →
    ∀ vs ws c', Copies vs (self v c).2 ws c' → Copies (v :: vs) c ((self v c).1 :: ws) c'

section

variable {self : Value → Copier Value} {depth : Nat} {unfinished : List Node} {c c' : Copying}
  {vs ws : List Value}

/-- Going through values is a run for all of them. -/
theorem Performs.mapM (hperforms : Performs h o depth self) (hself : Faithful h o depth self)
    {α β : Type} (value : α → Value) (put : α → Value → β) (xs : List α)
    (hsound : c.Sound h o unfinished) (hroom : c.Room h depth)
    (hheld : ∀ x ∈ xs, h.Held o (value x)) :
    let result := xs.mapM (fun x => (do return put x (← self (value x)) : Copier β)) c
    ∃ us, Copies (xs.map value) c us result.2 ∧ result.1 = xs.zipWith put us := by
  induction xs generalizing c with
  | nil => exact ⟨[], .nil, rfl⟩
  | cons x xs ih =>
    have hx := hheld x List.mem_cons_self
    have hcopied := hself unfinished c (value x) hsound hroom hx
    obtain ⟨us, hrun, hresult⟩ := ih hcopied.sound (hcopied.extends_.room hroom)
      fun y hy => hheld y (List.mem_cons_of_mem x hy)
    intro result
    rw [show result = _ from mapM_cons_apply ..]
    refine ⟨(self (value x) c).1 :: us, ?_, congrArg (put x (self (value x) c).1 :: ·) hresult⟩
    exact hperforms unfinished c (value x) hsound hroom hx _ _ _ hrun

/-- Copying an object that is carried performs the recursion, if copying values does. -/
theorem Performs.copyObject (hperforms : Performs h o depth self) (hself : Faithful h o depth self)
    (hintact : h.Intact) (ho : h.Has (.object o)) {p : ObjectRef} (hp : h.Carries o (.object p))
    (hplain : h.isType p = false) (hsound : c.Sound h o unfinished) (hroom : c.Room h (depth + 1))
    (hrest : Copies vs (copyObject self p c).2 ws c') :
    Copies (.object p :: vs) c (.object (copyObject self p c).1 :: ws) c' := by
  have hhas := hintact.has_of_carries ho hp
  rw [← hsound.keeps.isType_eq hhas] at hplain
  rcases hlookup : c.objects.lookup p with _ | made
  · have hbegins := Copying.begins_object hlookup
    have hobject : c.heap.object p = h.object p := hsound.keeps.object_eq hhas
    obtain ⟨us, hmembers, hresult⟩ := hperforms.mapM hself Prod.snd (fun entry v => (entry.1, v))
      (c.heap.object p).members.entries (hsound.begin hbegins hp hhas) (hbegins.room hroom)
      fun entry hentry => hintact.held_of_member hp (hobject ▸ hentry)
    rw [copyObject_of_new hlookup] at hrest ⊢
    refine .newObject hplain hlookup hmembers ?_
    rw [← hresult]
    exact hrest
  · rw [copyObject_of_known hlookup] at hrest ⊢
    exact .knownObject hplain hlookup hrest

/-- Copying an array that is carried performs the recursion, if copying values does. -/
theorem Performs.copyArray (hperforms : Performs h o depth self) (hself : Faithful h o depth self)
    (hintact : h.Intact) (ho : h.Has (.object o)) {a : ArrayRef} (ha : h.Carries o (.array a))
    (hsound : c.Sound h o unfinished) (hroom : c.Room h (depth + 1))
    (hrest : Copies vs (copyArray self a c).2 ws c') :
    Copies (.array a :: vs) c (.array (copyArray self a c).1 :: ws) c' := by
  have hhas := hintact.has_of_carries ho ha
  rcases hlookup : c.arrays.lookup a with _ | made
  · have hbegins := Copying.begins_array hlookup
    have hbegun := hsound.begin hbegins ha hhas
    have hsame : (c.beginArray a).2.heap.elements a = h.elements a := hbegun.keeps.elements_eq hhas
    obtain ⟨us, helements, hresult⟩ := hperforms.mapM hself id (fun _ v => v)
      ((c.beginArray a).2.heap.elements a).toList hbegun (hbegins.room hroom)
      fun v hv => hintact.held_of_element ha (hsame ▸ Array.mem_toList_iff.mp hv)
    rw [List.map_id] at helements
    -- putting nothing but the values together gives the values
    have hvalues : ((c.beginArray a).2.heap.elements a).toList.zipWith (fun _ v => v) us = us := by
      rw [← List.map_uncurry_zip_eq_zipWith]
      exact List.map_snd_zip (Nat.le_of_eq helements.length_eq)
    rw [hvalues] at hresult
    rw [copyArray_of_new hlookup] at hrest ⊢
    refine .newArray hlookup helements ?_
    rw [← hresult]
    exact hrest
  · rw [copyArray_of_known hlookup] at hrest ⊢
    exact .knownArray hlookup hrest

/-- However deep copying may go, it performs the recursion as deep as there is room. -/
theorem performs_copyValue (hintact : h.Intact) (ho : h.Has (.object o)) (depth : Nat) :
    Performs h o depth (copyValue depth) := by
  induction depth with
  | zero => exact fun unfinished c v hsound hroom _ => absurd hroom (hsound.not_room_zero hintact ho)
  | succ depth ih =>
    intro unfinished c v hsound hroom hheld vs ws c' hrest
    have hself := faithful_copyValue hintact ho depth
    cases v with
    | object p =>
      have htype := hsound.keeps.isType_eq hheld.has
      rw [copyValue_object, htype] at hrest ⊢
      cases hp : h.isType p with
      | true =>
        rw [hp] at hrest htype
        exact .shared (by simp [node?, htype]) hrest
      | false =>
        rw [hp] at hrest
        have hcarries := hheld.carried _ (node?_object hp)
        exact ih.copyObject hself hintact ho hcarries hp hsound hroom hrest
    | array a => exact ih.copyArray hself hintact ho (hheld.carried _ rfl) hsound hroom hrest
    | _ => exact .shared rfl hrest

end

/-! ### Whole copies -/

/-- Copying a plain object under a bound that is not too low is the run of the recursion. -/
theorem copies_copyObject (hintact : h.Intact) (ho : h.Has (.object o)) (hplain : h.isType o = false)
    {bound : Nat} (hbound : h.objects.size + h.arrays.size ≤ bound) :
    Copies [.object o] (.start h) [.object (copyObject (copyValue bound) o (.start h)).1]
      (copyObject (copyValue bound) o (.start h)).2 :=
  (performs_copyValue hintact ho bound).copyObject (faithful_copyValue hintact ho bound) hintact ho
    .refl hplain (Copying.sound_start h o) (Nat.lt_succ_of_le hbound) .nil

/-- Copying an object by the recursion ends with `r` and the heap `h'`.  A parent that is given takes the
place of the one that the copy has. -/
def CopiesTo (h : Heap) (o : ObjectRef) (parent : Option ObjectRef) (r : ObjectRef) (h' : Heap) : Prop :=
  ∃ c, Copies [.object o] (.start h) [.object r] c ∧
    h' = parent.elim c.heap fun p =>
      c.heap.modifyObject r fun copy => { copy with parent := some p }

/-- Under a bound that is not too low, a copy is what the recursion ends with, and the recursion does
end with it. -/
theorem copiesTo_iff (hintact : h.Intact) (ho : h.Has (.object o)) (hplain : h.isType o = false)
    (parent : Option ObjectRef) {bound : Nat} (hbound : h.objects.size + h.arrays.size ≤ bound)
    (r : ObjectRef) (h' : Heap) :
    h.CopiesTo o parent r h' ↔ h.copyWithin bound o parent = (r, h') := by
  have hrun := copies_copyObject hintact ho hplain hbound
  have hcopy : h.copyWithin bound o parent = ((copyObject (copyValue bound) o (.start h)).1,
      parent.elim (copyObject (copyValue bound) o (.start h)).2.heap fun p =>
        (copyObject (copyValue bound) o (.start h)).2.heap.modifyObject
          (copyObject (copyValue bound) o (.start h)).1 fun copy => { copy with parent := some p }) := by
    cases parent <;> rfl
  rw [hcopy]
  constructor
  · rintro ⟨c, hrun', rfl⟩
    obtain ⟨hr, rfl⟩ := hrun.unique hrun'
    obtain rfl := Value.object.inj (List.cons.inj hr).1
    rfl
  · intro heq
    obtain ⟨rfl, rfl⟩ := Prod.mk.inj heq
    exact ⟨_, hrun, rfl⟩

/-- Every bound that is not too low gives the same copy. -/
theorem copyWithin_eq_copy (hintact : h.Intact) (ho : h.Has (.object o)) (hplain : h.isType o = false)
    (parent : Option ObjectRef) {bound : Nat} (hbound : h.objects.size + h.arrays.size ≤ bound) :
    h.copyWithin bound o parent = h.copy o parent :=
  (copiesTo_iff hintact ho hplain parent hbound _ _).mp
    ((copiesTo_iff hintact ho hplain parent (Nat.le_refl _) _ _).mpr rfl)

end Heap

end ProtoScript
