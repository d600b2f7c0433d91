import ProtoScript.Proofs.Evaluation.Boxing
import ProtoScript.Proofs.Heap.Copy

/-!
# Boxing loses nothing

Any value that is no object can be boxed.  The template of its type is copied, and what was in the copy
is replaced by the value itself: the constructor of scalars brings a value to the kind of the default,
and the default of the type of a value is of the kind of the value.  So the box holds the very value that
was boxed.  A copy only adds to the heap; that of the template of arrays also adds a copy of the default,
which nothing refers to any more once the value has taken its place.

A member of arrays therefore finds, in the box that it is called with, the array that everyone else
refers to, and what it does to the array is seen everywhere.
-/

namespace ProtoScript

/-- From the first machine to the second one, a value was boxed: the object is new and plain, has the
type of the value as its parent and holds the value, and everything that was there is as it was. -/
structure Machine.Boxed (m m' : Machine) (v : Value) (o : ObjectRef) : Prop where
  isNew : m.heap.IsNew m'.heap (.object o)
  plain : (m'.heap.object o).kind = .plain
  parent : ∃ t, m.runtimeType? v = some t ∧ m'.heap.parent? o = some t
  unwrap_eq : m'.heap.unwrap (.object o) = v
  type_eq : m'.runtimeType? (.object o) = m.runtimeType? v
  object_eq : ∀ p, m.heap.Has (.object p) → m'.heap.object p = m.heap.object p
  elements_eq : ∀ a, m.heap.Has (.array a) → m'.heap.elements a = m.heap.elements a
  rest_eq : m' = { m with heap := m'.heap }

/-- From the first machine to the second one, an array got these elements, and every other array and
every object that was there is as it was. -/
structure Machine.Refilled (m m' : Machine) (a : ArrayRef) (elements : Array Value) : Prop where
  elements_eq : m'.heap.elements a = elements
  other_eq : ∀ b, b ≠ a → m.heap.Has (.array b) → m'.heap.elements b = m.heap.elements b
  object_eq : ∀ p, m.heap.Has (.object p) → m'.heap.object p = m.heap.object p
  rest_eq : m' = { m with heap := m'.heap }

namespace Heap

variable {h : Heap}

/-- What an object does not have itself, it finds at its parent. -/
theorem lookup?_of_parent? {o p : ObjectRef} {name : String} {v : Value}
    (hp : h.parent? o = some p) (hne : p ≠ o) (hnone : h.ownMember? o name = none)
    (hv : h.ownMember? p name = some v) : h.lookup? o name = some v := by
  have hlt := index_lt_of_parent? hp
  obtain ⟨fuel, hfuel⟩ : ∃ fuel, h.objects.size = fuel + 1 := ⟨h.objects.size - 1, by omega⟩
  have hnew : p ∉ ((Trail.start o).pass o).passed := by simp [hne]
  unfold lookup? lineage
  rw [hfuel, lineageFrom_of_not_passed List.not_mem_nil, hp, lineageFrom_of_not_passed hnew,
    List.findSome?_cons, hnone, List.findSome?_cons, hv]

/-- What is in an object that holds a scalar is the scalar. -/
theorem unwrap_holding {o : ObjectRef} {t : CoreType} {v : Value} (ho : h.object o = .holding t v)
    (hv : ∀ p, v ≠ .object p) : h.unwrap (.object o) = v := by
  have hpayload : h.ownMember? o payload = some v := by
    rw [ownMember?, ho]
    rfl
  unfold unwrap
  rw [unwrapFrom, if_neg List.not_mem_nil, hpayload]
  cases v with
  | object p => exact absurd rfl (hv p)
  | _ => rfl

end Heap

namespace Machine.Installed

variable {m : Machine} {v : Value}

/-- The type of a value that is no object is its core type. -/
theorem runtimeType?_scalar (hm : m.Installed) (hv : ∀ o, v ≠ .object o) :
    m.runtimeType? v = some v.coreType.ref := by
  cases v with
  | object o => exact absurd rfl (hv o)
  | _ => exact hm.keepsCore.runtimeType?_eq _

/-- Every scalar type has the constructor of scalars, the two types of numbers through `Num`. -/
theorem lookup?_construct (hm : m.Installed) (hv : ∀ o, v ≠ .object o) :
    m.heap.lookup? v.coreType.ref "construct" = some (.native .constructScalar) := by
  have hown (t : CoreType) (ht : t.typeObject.members.get? "construct" = some (.native .constructScalar)) :
      m.heap.ownMember? t.ref "construct" = some (.native .constructScalar) := by
    rw [Heap.ownMember?, hm.object_ref t]
    exact ht
  have hnumber (t : CoreType) (ht : t = .int ∨ t = .float) :
      m.heap.lookup? t.ref "construct" = some (.native .constructScalar) := by
    have hnone : m.heap.ownMember? t.ref "construct" = none := by
      rw [Heap.ownMember?, hm.object_ref t]
      rcases ht with rfl | rfl <;> rfl
    refine Heap.lookup?_of_parent? (hm.parent?_ref t) ?_ hnone ?_
    · rcases ht with rfl | rfl <;> decide
    · rcases ht with rfl | rfl <;> exact hown .num rfl
  cases v with
  | object o => exact absurd rfl (hv o)
  | int i => exact hnumber .int (.inl rfl)
  | float x => exact hnumber .float (.inr rfl)
  | _ => exact Heap.lookup?_of_ownMember? (hown _ rfl)

/-- The copy of the template of a scalar type comes first among what is copied, and what it holds is of
the kind of the scalars of that type. -/
theorem copy_templateOf (hm : m.Installed) (hv : ∀ o, v ≠ .object o) :
    ∃ w others arrays,
      m.heap.copy v.coreType.template (some v.coreType.ref) =
        (⟨m.heap.objects.size⟩, m.heap.append (.holding v.coreType w :: others) arrays) ∧
      ∀ self pos, Eval.coerce self w v pos = pure v := by
  obtain ⟨default, hdefault⟩ : ∃ default, v.coreType.default? = some default := by
    cases v with
    | object o => exact absurd rfl (hv o)
    | _ => exact ⟨_, rfl⟩
  have htemplate := hm.object_template v.coreType
  rw [CoreType.templateObject, hdefault] at htemplate
  set fuel := m.heap.objects.size + m.heap.arrays.size
  set begun := ((Heap.Copying.start m.heap).beginObject v.coreType.template).2
  obtain ⟨others, arrays, hcopy⟩ :=
    m.heap.copyWithin_eq_append fuel v.coreType.template (some v.coreType.ref)
  refine ⟨(Heap.copyValue fuel default begun).1, others, arrays, ?_, ?_⟩
  · rw [Heap.copy, hcopy, Heap.membersCopied, htemplate]
    rfl
  · intro self pos
    cases v with
    | object o => exact absurd rfl (hv o)
    | array a =>
      cases hdefault
      obtain ⟨b, hb⟩ := Heap.copyValue_array_eq fuel ⟨0⟩ begun
      simp only [hb]
      rfl
    | _ =>
      cases hdefault
      rw [Heap.copyValue_scalar]
      · rfl
      all_goals
        intro _ heq
        cases heq

end Machine.Installed

namespace Eval

variable {m : Machine} {v : Value}

/-- Boxing a scalar adds its box to the heap, and at most copies of other things. -/
theorem box_scalar (hm : m.Installed) (n : Nat) (hv : ∀ o, v ≠ .object o) (pos : Position) :
    ∃ others arrays, box (run (n + 1)) v pos m =
      .ok ⟨m.heap.objects.size⟩ (m.enlarged (.holding v.coreType v :: others) arrays) := by
  obtain ⟨w, others, arrays, hcopy, hcoerce⟩ := hm.copy_templateOf hv
  have htemplate : v.coreType.hasTemplate = true := by cases v <;> rfl
  exact ⟨others, arrays, box_of_copy hm n hv (hm.runtimeType?_scalar hv) htemplate
    (fun m hm => hm.lookup?_construct hv) hcopy (hcoerce _ _)⟩

/-- The object that was added is a box of the scalar. -/
theorem boxed_enlarged (hm : m.Installed) (hv : ∀ o, v ≠ .object o) (others : List Object)
    (arrays : List (Array Value)) :
    m.Boxed (m.enlarged (.holding v.coreType v :: others) arrays) v ⟨m.heap.objects.size⟩ := by
  have hobject : (m.enlarged (.holding v.coreType v :: others) arrays).heap.object
      ⟨m.heap.objects.size⟩ = .holding v.coreType v := Heap.object_append_first ..
  have hparent : (m.enlarged (.holding v.coreType v :: others) arrays).heap.parent?
      ⟨m.heap.objects.size⟩ = some v.coreType.ref := by
    rw [Heap.parent?, hobject]
    rfl
  have hkind : ((m.enlarged (.holding v.coreType v :: others) arrays).heap.object
      ⟨m.heap.objects.size⟩).kind = .plain := by
    rw [hobject]
    rfl
  have hinstalled := hm.enlarged (.holding v.coreType v :: others) arrays
  have htype := hm.runtimeType?_scalar hv
  refine ⟨⟨?_, ?_⟩, hkind, ⟨_, htype, hparent⟩, Heap.unwrap_holding hobject hv, ?_, ?_, ?_, rfl⟩
  · simp [Heap.Node.value, Heap.Has, Machine.enlarged, Heap.objects_append]
  · simp [Heap.Node.value, Heap.Has]
  · rw [hinstalled.keepsCore.runtimeType?_eq, htype]
    have hplain : (m.enlarged (.holding v.coreType v :: others) arrays).heap.isType
        ⟨m.heap.objects.size⟩ = false := by
      rw [Heap.isType, hkind]
      rfl
    simp only [Heap.typeOf, hplain, hparent, hinstalled.keepsCore.isType v.coreType]
    rfl
  · exact fun p hp => (Heap.object_append ..).trans (if_pos hp)
  · exact fun a ha => (Heap.elements_append ..).trans (if_pos ha)

/-! ## Members of arrays -/

/-- A message is handed to the member that the box of its receiver has for it. -/
theorem send_of_lookup {self : Work → Eval Value} {method : String} {f : Value} {o : ObjectRef}
    {m' : Machine} {pos : Position} (hbox : box self v pos m = .ok o m')
    (hf : m'.heap.lookup? o method = some f) (arguments : List Value) :
    send self v method arguments pos m = self (.call f (some o) arguments pos) m' := by
  have hmember : member o method pos m' = .ok f m' := by
    unfold member
    rw [get_bind, hf]
    rfl
  unfold send
  rw [bind_of_ok hbox]
  exact bind_of_ok hmember

/-- The box of a scalar has the native members of the type of the scalar. -/
theorem box_members (hm : m.Installed) (n : Nat) (hv : ∀ o, v ≠ .object o) (pos : Position) :
    ∃ o m', box (run (n + 1)) v pos m = .ok o m' ∧ m.Boxed m' v o ∧
      m.heap.Grown m'.heap ∧ ∀ native : Native,
        v.coreType.typeObject.members.get? native.name = some (.native native) →
          m'.heap.lookup? o native.name = some (.native native) := by
  obtain ⟨others, arrays, hbox⟩ := box_scalar hm n hv pos
  have hinstalled := hm.enlarged (.holding v.coreType v :: others) arrays
  refine ⟨_, _, hbox, boxed_enlarged hm hv others arrays, Heap.grown_append .., fun native hnative => ?_⟩
  have hobject : (m.enlarged (.holding v.coreType v :: others) arrays).heap.object
      ⟨m.heap.objects.size⟩ = .holding v.coreType v := Heap.object_append_first ..
  refine Heap.lookup?_of_parent? (p := v.coreType.ref) ?_ ?_ ?_ ?_
  · rw [Heap.parent?]
    exact congrArg Object.parent hobject
  · intro heq
    have hsize := hm.size_le
    have hindex : v.coreType.ref.index = m.heap.objects.size := congrArg ObjectRef.index heq
    have hlt : v.coreType.ref.index < coreHeap.objects.size := by
      cases v.coreType <;> decide
    omega
  · refine (congrArg (fun o : Object => o.members.get? native.name) hobject).trans (if_neg ?_)
    cases native <;> decide
  · refine Eq.trans ?_ hnative
    exact congrArg (fun o : Object => o.members.get? native.name) (hinstalled.object_ref v.coreType)

/-- The box of an array has the native members of arrays. -/
theorem box_array (hm : m.Installed) (n : Nat) (a : ArrayRef) (pos : Position) :
    ∃ o m', box (run (n + 1)) (.array a) pos m = .ok o m' ∧ m.Boxed m' (.array a) o ∧
      m.heap.Grown m'.heap ∧ ∀ native : Native,
        CoreType.array.typeObject.members.get? native.name = some (.native native) →
          m'.heap.lookup? o native.name = some (.native native) :=
  box_members hm n (v := .array a) nofun pos

/-- Sending a message to a scalar calls the native member of its type, with a box of the scalar as the
receiver. -/
theorem send_scalar (hm : m.Installed) (n : Nat) (hv : ∀ o, v ≠ .object o) {native : Native}
    (hnative : v.coreType.typeObject.members.get? native.name = some (.native native))
    (arguments : List Value) (pos : Position) :
    ∃ o m', m.Boxed m' v o ∧ m.heap.Grown m'.heap ∧
      send (run (n + 1)) v native.name arguments pos m =
        callNative n (run n) native ⟨some o, arguments, pos⟩ m' := by
  obtain ⟨o, m', hbox, hboxed, hgrown, hlookup⟩ := box_members hm n hv pos
  exact ⟨o, m', hboxed, hgrown, send_of_lookup hbox (hlookup native hnative) arguments⟩

/-- The array that the receiver holds is found. -/
theorem arrayReceiver_of_unwrap {a : ArrayRef} {c : NativeCall}
    (harray : m.heap.unwrap c.this = .array a) : arrayReceiver c m = .ok a m := by
  unfold arrayReceiver unwrap
  rw [bind_assoc, get_bind]
  simp only [harray]
  rfl

/-- Changing an array gives it other elements, and leaves everything else as it is. -/
theorem refilled_modifyArray {a : ArrayRef} (ha : m.heap.Has (.array a))
    (f : Array Value → Array Value) :
    m.Refilled { m with heap := m.heap.modifyArray a f } a (f (m.heap.elements a)) where
  elements_eq := (Heap.elements_modifyArray ..).trans (if_pos ⟨rfl, ha⟩)
  other_eq _ hne _ := (Heap.elements_modifyArray ..).trans (if_neg fun hboth => hne hboth.1.symm)
  object_eq _ _ := rfl
  rest_eq := rfl

/-- Changing the array that was boxed changes it for everyone. -/
theorem refilled_of_boxed {m' : Machine} {a : ArrayRef} {o : ObjectRef}
    (hboxed : m.Boxed m' (.array a) o) (hgrown : m.heap.Grown m'.heap) (ha : m.heap.Has (.array a))
    (f : Array Value → Array Value) :
    m.Refilled { m' with heap := m'.heap.modifyArray a f } a (f (m.heap.elements a)) := by
  have hrefilled := refilled_modifyArray (hgrown.has ha) f
  refine ⟨?_, fun b hne hb => ?_, hboxed.object_eq, ?_⟩
  · rw [hrefilled.elements_eq, hboxed.elements_eq a ha]
  · rw [hrefilled.other_eq b hne (hgrown.has hb), hboxed.elements_eq b hb]
  · rw [hboxed.rest_eq]

/-- `append`, sent to an array, changes the array itself. -/
theorem send_append (hm : m.Installed) (n : Nat) {a : ArrayRef} (ha : m.heap.Has (.array a))
    (x : Value) (pos : Position) :
    ∃ m', send (run (n + 1)) (.array a) "append" [x] pos m = .ok .null m' ∧
      m.Refilled m' a ((m.heap.elements a).push x) := by
  have hnative : CoreType.array.typeObject.members.get? (Native.name .appendElement) =
      some (.native .appendElement) := rfl
  obtain ⟨o, m', hboxed, hgrown, hsend⟩ := send_scalar hm n (v := .array a) nofun hnative [x] pos
  refine ⟨_, hsend.trans ?_, refilled_of_boxed hboxed hgrown ha (·.push x)⟩
  have hreceiver : arrayReceiver ⟨some o, [x], pos⟩ m' = .ok a m' :=
    arrayReceiver_of_unwrap hboxed.unwrap_eq
  exact bind_of_ok hreceiver

/-- `set`, sent to an array, changes the array itself. -/
theorem send_set (hm : m.Installed) (n : Nat) {a : ArrayRef} (ha : m.heap.Has (.array a)) {i : Int64}
    {k : Nat} (hk : position? i (m.heap.elements a).size = some k) (x : Value) (pos : Position) :
    ∃ m', send (run (n + 1)) (.array a) "set" [.int i, x] pos m = .ok x m' ∧
      m.Refilled m' a ((m.heap.elements a).setIfInBounds k x) := by
  have hnative : CoreType.array.typeObject.members.get? (Native.name .setElement) =
      some (.native .setElement) := rfl
  obtain ⟨o, m', hboxed, hgrown, hsend⟩ := send_scalar hm n (v := .array a) nofun hnative [.int i, x] pos
  refine ⟨_, hsend.trans ?_, refilled_of_boxed hboxed hgrown ha (·.setIfInBounds k x)⟩
  have hreceiver : arrayReceiver ⟨some o, [.int i, x], pos⟩ m' = .ok a m' :=
    arrayReceiver_of_unwrap hboxed.unwrap_eq
  refine (bind_of_ok hreceiver).trans ?_
  have hindex : indexArgument ⟨some o, [.int i, x], pos⟩ 0 m' = .ok i m' := rfl
  rw [bind_of_ok hindex, get_bind, hboxed.elements_eq a ha]
  unfold resolveIndex
  rw [hk]
  rfl

/-- **Boxing loses nothing.**  Where the core types are as they were installed, boxing a value that is no
object makes a new plain object whose parent is the type of the value and which holds the value itself,
and changes nothing that was there.  So `append` and `set`, sent to an array, change the very array that
every other reference leads to. -/
theorem boxing_loses_nothing (hm : m.Installed) (n : Nat) (hv : ∀ o, v ≠ .object o) (pos : Position) :
    (∃ o m', box (run (n + 1)) v pos m = .ok o m' ∧ m.Boxed m' v o) ∧
    ∀ a, v = .array a → m.heap.Has (.array a) →
      (∀ x, ∃ m', send (run (n + 1)) v "append" [x] pos m = .ok .null m' ∧
        m.Refilled m' a ((m.heap.elements a).push x)) ∧
      ∀ i k x, position? i (m.heap.elements a).size = some k →
        ∃ m', send (run (n + 1)) v "set" [.int i, x] pos m = .ok x m' ∧
          m.Refilled m' a ((m.heap.elements a).setIfInBounds k x) := by
  refine ⟨?_, ?_⟩
  · obtain ⟨others, arrays, hbox⟩ := box_scalar hm n hv pos
    exact ⟨_, _, hbox, boxed_enlarged hm hv others arrays⟩
  · rintro a rfl ha
    exact ⟨fun x => send_append hm n ha x pos, fun i k x hk => send_set hm n ha hk x pos⟩

end Eval

/-- A machine with an array of two integers that an object refers to. -/
def Machine.sharing : Machine :=
  Machine.bare.enlarged [.plain none ⟨[("xs", .array ⟨1⟩)]⟩] [#[.int 4, .int 5]]

/-- The array is boxed without being copied, and appending to it is seen through the object. -/
theorem Eval.boxing_loses_nothing_sharing :
    Machine.sharing.Installed ∧ Machine.sharing.heap.Has (.array ⟨1⟩) ∧
    (∃ o m', box (run 1) (.array ⟨1⟩) ⟨1, 1⟩ Machine.sharing = .ok o m' ∧
      Machine.sharing.Boxed m' (.array ⟨1⟩) o) ∧
    (∃ m', send (run 1) (.array ⟨1⟩) "append" [.int 6] ⟨1, 1⟩ Machine.sharing = .ok .null m' ∧
      m'.heap.ownMember? ⟨22⟩ "xs" = some (.array ⟨1⟩) ∧
      m'.heap.elements ⟨1⟩ = #[.int 4, .int 5, .int 6]) ∧
    ∃ m', send (run 1) (.array ⟨1⟩) "set" [.int (-1), .null] ⟨1, 1⟩ Machine.sharing = .ok .null m' ∧
      m'.heap.elements ⟨1⟩ = #[.int 4, .null] := by
  have hinstalled : Machine.sharing.Installed :=
    (Machine.fresh_installed "main" (.replayed []) []).enlarged _ _
  have hheap : Machine.sharing.heap =
      coreHeap.append [.plain none ⟨[("xs", .array ⟨1⟩)]⟩] [#[.int 4, .int 5]] :=
    congrArg (Heap.append · _ _) (Machine.fresh_defined "main" (.replayed []) []).1
  have hhas : Machine.sharing.heap.Has (.array ⟨1⟩) ∧ Machine.sharing.heap.Has (.object ⟨22⟩) := by
    rw [hheap]
    exact ⟨Nat.lt_add_one 1, Nat.lt_add_one 22⟩
  have helements : Machine.sharing.heap.elements ⟨1⟩ = #[.int 4, .int 5] := by
    rw [hheap]
    rfl
  have hmember : Machine.sharing.heap.ownMember? ⟨22⟩ "xs" = some (.array ⟨1⟩) := by
    rw [hheap]
    rfl
  obtain ⟨hbox, hmembers⟩ := boxing_loses_nothing hinstalled 0 (v := .array ⟨1⟩) nofun ⟨1, 1⟩
  obtain ⟨happend, hset⟩ := hmembers ⟨1⟩ rfl hhas.1
  rw [helements] at happend hset
  refine ⟨hinstalled, hhas.1, hbox, ?_, ?_⟩
  · obtain ⟨m', hsend, hrefilled⟩ := happend (.int 6)
    refine ⟨m', hsend, ?_, hrefilled.elements_eq⟩
    rw [Heap.ownMember?, hrefilled.object_eq ⟨22⟩ hhas.2]
    exact hmember
  · obtain ⟨m', hsend, hrefilled⟩ := hset (-1) 1 .null (by decide)
    exact ⟨m', hsend, hrefilled.elements_eq⟩

end ProtoScript
