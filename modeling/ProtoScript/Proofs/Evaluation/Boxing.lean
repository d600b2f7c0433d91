import ProtoScript.Eval.Run
import ProtoScript.Proofs.Evaluation.Primitive
import ProtoScript.Proofs.Steady.Fresh

/-!
# Boxes of integers

Before a value is sent a message, it is put into a box: the template of its type is copied, the copy is
handed to the constructor of scalars, and the member that holds the content is set.  Where the core
types are as they were installed, all of this amounts to adding to the heap what the copy adds, with
the value in the box.  For an integer that is one object.  The members of its box are those of `Int`,
`Num`, `Object` and `Type`, in that order.
-/

namespace ProtoScript

/-- The core types, their members and their templates are as every program finds them at first. -/
structure Machine.Installed (m : Machine) : Prop where
  keepsCore : m.KeepsCore
  size_le : coreHeap.objects.size ≤ m.heap.objects.size
  object_eq : ∀ o : ObjectRef, o.index < coreHeap.objects.size → m.heap.object o = coreHeap.object o

/-- The machine with more objects in its heap. -/
def Machine.extended (m : Machine) (objects : List Object) : Machine :=
  { m with heap := m.heap.append objects [] }

/-- The machine with more objects and arrays in its heap. -/
def Machine.enlarged (m : Machine) (objects : List Object) (arrays : List (Array Value)) : Machine :=
  { m with heap := m.heap.append objects arrays }

/-- What an integer answers to: the members of `Int` and of the types that it inherits from. -/
def integerMember? (name : String) : Option Value :=
  [CoreType.int, .num, .object, .type].findSome? fun t => t.typeObject.members.get? name

/-- An object that holds a value and has a core type as its parent. -/
def Object.holding (t : CoreType) (v : Value) : Object :=
  .plain (some t.ref) ⟨[(Heap.payload, v)]⟩

/-- The box of an integer. -/
def Object.boxed (i : Int64) : Object :=
  .plain (some CoreType.int.ref) ⟨[(Heap.payload, .int i)]⟩

namespace Machine

/-! ## Adding objects -/

theorem extended_nil (m : Machine) : m.extended [] = m := by
  simp [extended, Heap.append]

/-- Adding objects twice is adding them once. -/
theorem extended_extended (m : Machine) (objects others : List Object) :
    (m.extended objects).extended others = m.extended (objects ++ others) := by
  simp only [extended, Heap.append_append, List.append_nil]

/-- Objects from before stay as they are. -/
theorem object_extended_of_lt {m : Machine} (objects : List Object) {o : ObjectRef}
    (ho : o.index < m.heap.objects.size) : (m.extended objects).heap.object o = m.heap.object o := by
  change (m.heap.append objects []).object o = m.heap.object o
  rw [Heap.object_append, if_pos ho]

/-- An object that was added is what it was added as. -/
theorem object_extended_singleton (m : Machine) (o : Object) :
    (m.extended [o]).heap.object ⟨m.heap.objects.size⟩ = o := by
  change (m.heap.append [o] []).object _ = o
  rw [Heap.object_append]
  simp

/-- A reference to an object with members leads into the heap. -/
theorem index_lt_of_members {h : Heap} {o : ObjectRef} (ho : (h.object o).members.entries ≠ []) :
    o.index < h.objects.size := by
  by_contra hge
  apply ho
  simp [Heap.object, Array.getElem?_eq_none (Nat.le_of_not_lt hge), Object.plain, NameMap.empty]

/-- The box of an integer stays one. -/
theorem boxed_extended {m : Machine} {o : ObjectRef} {i : Int64} (ho : m.heap.object o = .boxed i)
    (objects : List Object) : (m.extended objects).heap.object o = .boxed i := by
  have hlt : o.index < m.heap.objects.size := by
    apply index_lt_of_members
    rw [ho]
    exact List.cons_ne_nil _ _
  rw [object_extended_of_lt objects hlt, ho]

namespace Installed

variable {m : Machine}

/-- An installed type is in its place. -/
theorem object_ref (hm : m.Installed) (t : CoreType) : m.heap.object t.ref = t.typeObject := by
  have hlt : t.ref.index < coreHeap.objects.size := by cases t <;> decide
  rw [hm.object_eq t.ref hlt]
  cases t <;> rfl

/-- The template of an installed type is in its place. -/
theorem object_template (hm : m.Installed) (t : CoreType) :
    m.heap.object t.template = t.templateObject := by
  have hlt : t.template.index < coreHeap.objects.size := by cases t <;> decide
  rw [hm.object_eq t.template hlt]
  cases t <;> rfl

/-- Adding objects and arrays leaves the core types as they are. -/
theorem enlarged (hm : m.Installed) (objects : List Object) (arrays : List (Array Value)) :
    (m.enlarged objects arrays).Installed where
  keepsCore t := by
    obtain ⟨c, hc, hvalue, htype⟩ := globalType?_eq_some_iff.mp (hm.keepsCore t)
    exact globalType?_eq_some_iff.mpr
      ⟨c, hc, hvalue, (Heap.grown_append m.heap objects arrays).isType htype⟩
  size_le := Nat.le_trans hm.size_le (Heap.grown_append m.heap objects arrays).objects_le
  object_eq o ho := by
    refine ((Heap.object_append ..).trans (if_pos ?_)).trans (hm.object_eq o ho)
    exact Nat.lt_of_lt_of_le ho hm.size_le

/-- The types stay installed when objects are added. -/
theorem extended (hm : m.Installed) (objects : List Object) : (m.extended objects).Installed :=
  hm.enlarged objects []

end Installed

/-- The machine of a new session has the core types installed. -/
theorem fresh_installed (file : String) (host : Host) (natives : List Native) :
    (fresh file host natives).Installed := by
  have hheap := (fresh_defined file host natives).1
  refine ⟨(fresh_steady file host natives).core, ?_, ?_⟩
  · rw [hheap]
  · intro o _
    rw [hheap]

end Machine

namespace Heap

/-! ## Lineages -/

variable {h : Heap}

/-- Going up through the parents passes an object that is new. -/
theorem lineageFrom_of_not_passed {trail : Trail} {o : ObjectRef} (ho : o ∉ trail.passed)
    (fuel : Nat) : h.lineageFrom (fuel + 1) trail (some o) =
      o :: h.lineageFrom fuel (trail.pass o) (h.parent? o) := by
  rw [lineageFrom, if_neg]
  rw [Trail.contains_iff]
  exact ho

/-- Going up through the parents ends at an object that was passed. -/
theorem lineageFrom_of_passed {trail : Trail} {o : ObjectRef} (ho : o ∈ trail.passed)
    (fuel : Nat) : h.lineageFrom fuel trail (some o) = [] := by
  cases fuel with
  | zero => rfl
  | succ fuel =>
    rw [lineageFrom, if_pos]
    rw [Trail.contains_iff]
    exact ho

/-- An object finds the members that it has itself. -/
theorem lookup?_of_ownMember? {o : ObjectRef} {name : String} {v : Value}
    (hv : h.ownMember? o name = some v) : h.lookup? o name = some v := by
  unfold lookup? lineage
  rw [lineageFrom_of_not_passed List.not_mem_nil, List.findSome?_cons, hv]

end Heap

namespace Machine.Installed

variable {m : Machine}

/-- The parent of an installed type. -/
theorem parent?_ref (hm : m.Installed) (t : CoreType) : m.heap.parent? t.ref = some t.parent.ref := by
  rw [Heap.parent?, hm.object_ref t]
  rfl

/-- Above `Int` there are `Num`, `Object` and `Type`, however one came there. -/
theorem lineageFrom_int (hm : m.Installed) {trail : Heap.Trail}
    (htrail : ∀ t : CoreType, t.ref ∉ trail.passed) (fuel : Nat) :
    m.heap.lineageFrom (fuel + 4) trail (some CoreType.int.ref) =
      [CoreType.int, .num, .object, .type].map CoreType.ref := by
  have hint : m.heap.parent? CoreType.int.ref = some CoreType.num.ref := hm.parent?_ref .int
  have hnum : m.heap.parent? CoreType.num.ref = some CoreType.object.ref := hm.parent?_ref .num
  have hobject : m.heap.parent? CoreType.object.ref = some CoreType.type.ref := hm.parent?_ref .object
  have htype : m.heap.parent? CoreType.type.ref = some CoreType.object.ref := hm.parent?_ref .type
  -- each of the four differs from those before it, and the parent of the last one is among them
  rw [Heap.lineageFrom_of_not_passed (htrail .int), hint, Heap.lineageFrom_of_not_passed, hnum,
    Heap.lineageFrom_of_not_passed, hobject, Heap.lineageFrom_of_not_passed, htype,
    Heap.lineageFrom_of_passed]
  · rfl
  · exact .tail _ (.head _)
  · simp only [Heap.Trail.passed_pass, List.mem_cons, not_or]
    exact ⟨by decide, by decide, by decide, htrail .type⟩
  · simp only [Heap.Trail.passed_pass, List.mem_cons, not_or]
    exact ⟨by decide, by decide, htrail .object⟩
  · simp only [Heap.Trail.passed_pass, List.mem_cons, not_or]
    exact ⟨by decide, htrail .num⟩

/-- There are enough objects to go up through the parents of any installed type. -/
theorem four_le_size (hm : m.Installed) : ∃ fuel, m.heap.objects.size = fuel + 4 := by
  have hsize : 22 ≤ m.heap.objects.size := hm.size_le
  exact ⟨m.heap.objects.size - 4, by omega⟩

/-- The members of several core types, the first ones first. -/
theorem findSome?_refs (hm : m.Installed) (ts : List CoreType) (name : String) :
    (ts.map CoreType.ref).findSome? (fun o => m.heap.ownMember? o name) =
      ts.findSome? fun t => t.typeObject.members.get? name := by
  induction ts with
  | nil => rfl
  | cons t ts ih =>
    have hown : m.heap.ownMember? t.ref name = t.typeObject.members.get? name := by
      rw [Heap.ownMember?, hm.object_ref t]
    rw [List.map_cons, List.findSome?_cons, List.findSome?_cons, hown, ih]

/-- The members that integers have. -/
theorem lookup?_int (hm : m.Installed) (name : String) :
    m.heap.lookup? CoreType.int.ref name = integerMember? name := by
  obtain ⟨fuel, hfuel⟩ := hm.four_le_size
  have hlineage : m.heap.lineage CoreType.int.ref = [CoreType.int, .num, .object, .type].map CoreType.ref := by
    unfold Heap.lineage
    rw [hfuel]
    exact hm.lineageFrom_int (fun t => List.not_mem_nil) (fuel + 1)
  rw [Heap.lookup?, hlineage, hm.findSome?_refs]
  rfl

/-- A box has the members of an integer, apart from what it holds. -/
theorem lookup?_boxed (hm : m.Installed) {o : ObjectRef} {i : Int64} (ho : m.heap.object o = .boxed i)
    {name : String} (hname : Heap.payload ≠ name) : m.heap.lookup? o name = integerMember? name := by
  obtain ⟨fuel, hfuel⟩ := hm.four_le_size
  have hne (t : CoreType) : t.ref ≠ o := by
    rintro rfl
    have hkind := congrArg Object.kind ((hm.object_ref t).symm.trans ho)
    cases hkind
  have hlineage : m.heap.lineage o = o :: [CoreType.int, .num, .object, .type].map CoreType.ref := by
    have hparent : m.heap.parent? o = some CoreType.int.ref := by
      rw [Heap.parent?, ho]
      rfl
    unfold Heap.lineage
    rw [hfuel, Heap.lineageFrom_of_not_passed List.not_mem_nil, hparent, hm.lineageFrom_int]
    intro t
    simp [hne t]
  have hown : m.heap.ownMember? o name = none := by
    rw [Heap.ownMember?, ho]
    exact if_neg hname
  rw [Heap.lookup?, hlineage, List.findSome?_cons, hown, hm.findSome?_refs]
  rfl

end Machine.Installed

/-! ## Making boxes -/

/-- The template of `Int` holds nothing but a number, so it alone is copied. -/
theorem Machine.Installed.copy_template {m : Machine} (hm : m.Installed) :
    m.heap.copy CoreType.int.template (some CoreType.int.ref) =
      (⟨m.heap.objects.size⟩, m.heap.append [.boxed 0] []) := by
  have htemplate : m.heap.object CoreType.int.template = CoreType.int.templateObject :=
    hm.object_template .int
  have hshared : ∀ entry ∈ (m.heap.object CoreType.int.template).members.entries,
      ∀ (fuel : Nat) (c : Heap.Copying),
        Heap.copyValue fuel entry.2 c = ((entry.2, c) : Value × Heap.Copying) := by
    rw [htemplate]
    intro entry hentry fuel c
    obtain rfl : entry = (Heap.payload, .int 0) := List.mem_singleton.mp hentry
    exact Heap.copyValue_scalar (v := .int 0) nofun nofun fuel c
  rw [Heap.copy, Heap.copyWithin_of_shared fun entry hentry => hshared entry hentry _, htemplate]
  rfl

/-- What is in the box of an integer is the integer. -/
theorem Heap.unwrap_boxed {h : Heap} {o : ObjectRef} {i : Int64} (ho : h.object o = .boxed i) :
    h.unwrap (.object o) = .int i := by
  have hpayload : h.ownMember? o Heap.payload = some (.int i) := by
    rw [Heap.ownMember?, ho]
    rfl
  unfold Heap.unwrap
  rw [Heap.unwrapFrom, if_neg List.not_mem_nil, hpayload]
  rfl

namespace Eval

variable {m : Machine}

theorem withHeap_apply {α : Type} (f : Heap → α × Heap) (m : Machine) :
    withHeap f m = .ok (f m.heap).1 { m with heap := (f m.heap).2 } := rfl

theorem discard_eq {α : Type} (x : Eval α) : (discard x : Eval PUnit) = x >>= fun _ => pure ⟨⟩ := rfl

/-- A result that is not wanted does not change where the computation ends. -/
theorem discard_of_ok {α : Type} {x : Eval α} {m m' : Machine} {a : α} (h : x m = .ok a m') :
    (discard x : Eval PUnit) m = .ok ⟨⟩ m' :=
  (congrFun (discard_eq x) m).trans (bind_of_ok h)

/-- A computation that fails does so even if its result is not wanted. -/
theorem discard_of_error {α : Type} {x : Eval α} {m m' : Machine} {e : Interruption}
    (h : x m = .error e m') : (discard x : Eval PUnit) m = .error e m' :=
  (congrFun (discard_eq x) m).trans (bind_of_error h)

/-- The constructor of scalars puts a value into a box, brought to the kind of what the box held. -/
theorem constructScalar_of_coerce {self : Work → Eval Value} {o : ObjectRef} {v w : Value}
    {pos : Position} (ho : m.heap.ownMember? o Heap.payload = some w) (hv : m.heap.unwrap v = v)
    (hcoerce : coerce self w v pos = pure v) :
    constructScalar self ⟨some o, [v], pos⟩ m =
      .ok .null { m with heap := m.heap.modifyObject o (·.assign Heap.payload v) } := by
  unfold constructScalar receiver
  simp only [pure_bind]
  unfold unwrap
  rw [bind_assoc, get_bind]
  simp only [pure_bind]
  rw [get_bind, ho, hv, Option.getD_some, hcoerce]
  rfl

/-- A value that is no object is boxed by constructing an instance of its type. -/
theorem box_of_runtimeType? {self : Work → Eval Value} {v : Value} {type : ObjectRef} {pos : Position}
    (hv : ∀ o, v ≠ .object o) (htype : m.runtimeType? v = some type) :
    box self v pos m = construct self type [v] pos m := by
  have hfound : Eval.runtimeType? v m = .ok (some type) m := by
    rw [← htype]
    rfl
  cases v with
  | object o => exact absurd rfl (hv o)
  | _ =>
    change (Eval.runtimeType? _ >>= _ : Eval ObjectRef) m = _
    rw [bind_of_ok hfound]

/-- Boxing a value adds to the heap what the copy of the template adds, with the value in the copy. -/
theorem box_of_copy (hm : m.Installed) (n : Nat) {v w : Value} {t : CoreType} {pos : Position}
    {others : List Object} {arrays : List (Array Value)} (hv : ∀ o, v ≠ .object o)
    (htype : m.runtimeType? v = some t.ref) (htemplate : t.hasTemplate = true)
    (hconstruct : ∀ m : Machine, m.Installed →
      m.heap.lookup? t.ref "construct" = some (.native .constructScalar))
    (hcopy : m.heap.copy t.template (some t.ref) =
      (⟨m.heap.objects.size⟩, m.heap.append (.holding t w :: others) arrays))
    (hcoerce : coerce (run n) w v pos = pure v) :
    box (run (n + 1)) v pos m =
      .ok ⟨m.heap.objects.size⟩ (m.enlarged (.holding t v :: others) arrays) := by
  have hinstance : m.heap.lookup? t.ref "instance" = some (.object t.template) := by
    apply Heap.lookup?_of_ownMember?
    rw [Heap.ownMember?, hm.object_ref t]
    cases t <;> first | rfl | cases htemplate
  have hmade : withHeap (·.copy t.template (some t.ref)) m =
      .ok ⟨m.heap.objects.size⟩ (m.enlarged (.holding t w :: others) arrays) := by
    rw [withHeap_apply, hcopy]
    rfl
  have hcall : run (n + 1) (.call (.native .constructScalar) (some ⟨m.heap.objects.size⟩) [v] pos)
      (m.enlarged (.holding t w :: others) arrays) =
        .ok .null (m.enlarged (.holding t v :: others) arrays) := by
    have hheld : (m.enlarged (.holding t w :: others) arrays).heap.ownMember? ⟨m.heap.objects.size⟩
        Heap.payload = some w := by
      rw [Heap.ownMember?, Machine.enlarged, Heap.object_append_first]
      rfl
    have hscalar : (m.enlarged (.holding t w :: others) arrays).heap.unwrap v = v := by
      cases v with
      | object o => exact absurd rfl (hv o)
      | _ => rfl
    refine (constructScalar_of_coerce hheld hscalar hcoerce).trans ?_
    exact congrArg (fun h => EStateM.Result.ok Value.null { m with heap := h })
      (Heap.modifyObject_append_first m.heap (.holding t w) others arrays _)
  rw [box_of_runtimeType? hv htype]
  unfold construct
  rw [get_bind, hinstance]
  simp only
  rw [bind_of_ok hmade, get_bind, hconstruct _ (hm.enlarged _ _)]
  simp only
  rw [bind_of_ok (discard_of_ok hcall)]
  rfl

/-- Boxing an integer adds one object to the heap. -/
theorem box_int (hm : m.Installed) (n : Nat) (i : Int64) (pos : Position) :
    box (run (n + 1)) (.int i) pos m = .ok ⟨m.heap.objects.size⟩ (m.extended [.boxed i]) := by
  refine box_of_copy hm n nofun (hm.keepsCore .int) rfl ?_ hm.copy_template rfl
  intro m hm
  rw [hm.lookup?_int]
  rfl

/-! ## Sending messages to integers -/

/-- A value stands for an integer: it is the integer, or a box of it. -/
def Denotes (m : Machine) (v : Value) (i : Int64) : Prop :=
  v = .int i ∨ ∃ o, v = .object o ∧ m.heap.object o = .boxed i

/-- A value that denotes an integer is unwrapped to it. -/
theorem unwrap_of_denotes {v : Value} {i : Int64} (hv : Denotes m v i) : unwrap v m = .ok (.int i) m := by
  rcases hv with rfl | ⟨o, rfl, ho⟩
  · rfl
  · have hunwrap := Heap.unwrap_boxed ho
    unfold unwrap
    rw [get_bind, hunwrap]
    rfl

/-- Boxing what stands for an integer yields a box of it. -/
theorem box_of_denotes (hm : m.Installed) (n : Nat) {v : Value} {i : Int64} (hv : Denotes m v i)
    (pos : Position) :
    ∃ o objects, box (run (n + 1)) v pos m = .ok o (m.extended objects) ∧
      (m.extended objects).heap.object o = .boxed i := by
  rcases hv with rfl | ⟨o, rfl, ho⟩
  · exact ⟨_, _, box_int hm n i pos, m.object_extended_singleton _⟩
  · refine ⟨o, [], ?_, ?_⟩
    · rw [m.extended_nil]
      rfl
    · rw [m.extended_nil]
      exact ho

/-- A box finds the members of an integer. -/
theorem member_boxed (hm : m.Installed) {o : ObjectRef} {i : Int64} (ho : m.heap.object o = .boxed i)
    {method : String} {v : Value} (hmethod : integerMember? method = some v)
    (hname : Heap.payload ≠ method) (pos : Position) : member o method pos m = .ok v m := by
  have hlookup := (hm.lookup?_boxed ho hname).trans hmethod
  unfold member
  rw [get_bind, hlookup]
  rfl

/-- Sending a message to an integer calls the native function that it finds, with a box of the integer
as the receiver. -/
theorem send_of_denotes (hm : m.Installed) (n : Nat) {v : Value} {i : Int64} (hv : Denotes m v i)
    {method : String} {native : Native} (hmethod : integerMember? method = some (.native native))
    (hname : Heap.payload ≠ method) (arguments : List Value) (pos : Position) :
    ∃ o objects, (m.extended objects).heap.object o = .boxed i ∧
      send (run (n + 1)) v method arguments pos m =
        callNative n (run n) native ⟨some o, arguments, pos⟩ (m.extended objects) := by
  obtain ⟨o, objects, hbox, ho⟩ := box_of_denotes hm n hv pos
  refine ⟨o, objects, ho, ?_⟩
  unfold send
  rw [bind_of_ok hbox, bind_of_ok (member_boxed (hm.extended objects) ho hmethod hname pos)]
  rfl

/-- Whether an integer counts as true. -/
theorem isTrue_of_denotes (hm : m.Installed) (n : Nat) {v : Value} {i : Int64} (hv : Denotes m v i)
    (pos : Position) :
    ∃ objects, isTrue (run (n + 1)) v pos m = .ok (i != 0) (m.extended objects) := by
  have hmethod : integerMember? "bool" = some (.native .scalarTruth) := rfl
  obtain ⟨o, objects, ho, hsend⟩ := send_of_denotes hm n hv hmethod (by decide) [] pos
  have hunwrap := Heap.unwrap_boxed ho
  have htruth : callNative n (run n) .scalarTruth ⟨some o, [], pos⟩ (m.extended objects) =
      .ok (.truth (i != 0)) (m.extended objects) := by
    change scalarTruth _ _ = _
    unfold scalarTruth
    rw [get_bind]
    simp only [NativeCall.this, hunwrap]
    rfl
  refine ⟨objects, ?_⟩
  unfold isTrue
  rw [bind_of_ok (hsend.trans htruth)]
  by_cases hi : i = 0
  · subst hi
    rfl
  · rw [bne_iff_ne.mpr hi]
    rfl

end Eval

end ProtoScript
