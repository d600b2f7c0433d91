import ProtoScript.Eval.Native.Dispatch
import ProtoScript.Proofs.Routine.Message

/-!
# Native functions are routines

A native function gets its receiver and its arguments from the heap, and what it yields is a scalar,
one of them, or something that it found or made in the heap.  It reads its arguments, may send
messages, and changes the heap or talks to the host: members and elements are put into objects and
arrays, copies are made, and types are extended, all from what is there already.
-/

namespace ProtoScript

/-- The receiver and the arguments of a native function are in the heap. -/
structure NativeCall.Within (c : NativeCall) (h : Heap) : Prop where
  receiver : ∀ o, c.receiver = some o → h.Has (.object o)
  arguments : ∀ v ∈ c.arguments, h.Has v

namespace NativeCall.Within

variable {c : NativeCall} {h : Heap}

/-- An argument is in the heap, also one that is missing. -/
theorem argument (hc : c.Within h) (i : Nat) : h.Has (c.argument i) := by
  unfold NativeCall.argument
  rcases hv : c.arguments[i]? with _ | v
  · trivial
  · exact hc.arguments v (List.mem_of_getElem? hv)

/-- The receiver is in the heap, also one that is missing. -/
theorem this (hc : c.Within h) : h.Has c.this := by
  unfold NativeCall.this
  rcases ho : c.receiver with _ | o
  · trivial
  · exact hc.receiver o ho

/-- What a call refers to stays in the heap. -/
theorem leads {m m' : Machine} (hc : c.Within m.heap) (hl : m.Leads m') : c.Within m'.heap :=
  ⟨fun o ho => hl.has (hc.receiver o ho), hl.all hc.arguments⟩

end NativeCall.Within

namespace Eval

namespace Routine

variable {sure : Prop} {self other : Work → Eval Value} {m : Machine} {c : NativeCall}

/-! ## Arguments -/

/-- Asking for the receiver. -/
theorem receiver (hc : sure → c.Within m.heap) :
    Routine sure self other m (Eval.receiver c) (Eval.receiver c) ObjectPresent := by
  unfold Eval.receiver
  cases ho : c.receiver with
  | some o => exact .pure fun h => (hc h).receiver o ho
  | none => exact .raise rfl c.pos

/-- Asking for an object. -/
theorem objectArgument (hc : sure → c.Within m.heap) (i : Nat) (what : String) :
    Routine sure self other m (Eval.objectArgument c i what) (Eval.objectArgument c i what)
      ObjectPresent := by
  have hargument := fun h => (hc h).argument i
  unfold Eval.objectArgument
  cases ho : c.argument i with
  | object o =>
    rw [ho] at hargument
    exact .pure hargument
  | _ => exact .raise rfl c.pos

/-- Asking for an integer. -/
theorem indexArgument (hc : sure → c.Within m.heap) (i : Nat) :
    Routine sure self other m (Eval.indexArgument c i) (Eval.indexArgument c i) Anything := by
  refine (unwrap fun h => (hc h).argument i).bind fun v _ _ _ => ?_
  cases v with
  | int n => exact .pure fun _ => trivial
  | _ => exact .raise rfl c.pos

/-- Asking for a text. -/
theorem textArgument (hc : sure → c.Within m.heap) (i : Nat) :
    Routine sure self other m (Eval.textArgument c i) (Eval.textArgument c i) Anything := by
  refine (unwrap fun h => (hc h).argument i).bind fun v _ _ _ => ?_
  cases v with
  | text s => exact .pure fun _ => trivial
  | _ => exact .raise rfl c.pos

/-- Asking for arguments in an array. -/
theorem packedArguments (hc : sure → c.Within m.heap) :
    Routine sure self other m (Eval.packedArguments c) (Eval.packedArguments c) AllPresent := by
  refine (unwrap fun h => (hc h).argument 0).bind fun v _ _ _ => ?_
  cases v with
  | array a =>
    exact .read (fun _ _ => rfl) fun _ hl => .pure fun h => elements_present (hl h).is_steady a
  | _ => exact .raise rfl c.pos

/-- Asking for an array to work on. -/
theorem arrayReceiver (hc : sure → c.Within m.heap) :
    Routine sure self other m (Eval.arrayReceiver c) (Eval.arrayReceiver c) Anything := by
  refine (unwrap fun h => (hc h).this).bind fun v _ _ _ => ?_
  cases v with
  | array a => exact .pure fun _ => trivial
  | _ => exact .raise rfl c.pos

/-- Asking for a text to work on. -/
theorem textReceiver (hc : sure → c.Within m.heap) :
    Routine sure self other m (Eval.textReceiver c) (Eval.textReceiver c) Anything := by
  refine (unwrap fun h => (hc h).this).bind fun v _ _ _ => ?_
  cases v with
  | text s => exact .pure fun _ => trivial
  | _ => exact .raise rfl c.pos

/-- Resolving an index. -/
theorem resolveIndex (c : NativeCall) (index : Int64) (length : Nat) :
    Routine sure self other m (Eval.resolveIndex c index length) (Eval.resolveIndex c index length)
      Anything := by
  unfold Eval.resolveIndex
  cases position? index length with
  | some i => exact .pure fun _ => trivial
  | none => exact .raise rfl c.pos

/-! ## Members of objects and types -/

/-- `new` is a routine. -/
theorem newInstance (hc : sure → c.Within m.heap) :
    Routine sure self other m (Eval.newInstance self c) (Eval.newInstance other c) Present := by
  refine (receiver hc).bind fun type m₁ hl₁ htype => ?_
  exact (construct htype (fun h => (hl₁ h).all (hc h).arguments) c.pos).bind fun o _ _ ho => .pure ho

/-- `type` is a routine. -/
theorem typeOf (c : NativeCall) :
    Routine sure self other m (Eval.typeOf c) (Eval.typeOf c) Present := by
  refine (runtimeType? c.this).bind fun type _ _ htype => ?_
  cases type with
  | some t => exact .pure fun h => Heap.has_of_isType (htype h t rfl)
  | none => exact .pure fun _ => trivial

/-- Asking the elements of an array for their texts. -/
theorem elementTexts (pos : Position) {vs : List Value} (hvs : sure → AllPresent vs m) :
    Routine sure self other m (Eval.elementTexts self pos vs) (Eval.elementTexts other pos vs)
      Anything := by
  induction vs generalizing m with
  | nil => exact .pure fun _ => trivial
  | cons v vs ih =>
    have hv : sure → m.heap.Has v := fun h => hvs h v List.mem_cons_self
    have hrest : sure → AllPresent vs m := fun h w hw => hvs h w (List.mem_cons_of_mem _ hw)
    -- the texts of the elements that follow are asked for in the same way after any first text
    have hthen (first : String) {m' : Machine} (hl : sure → m.Leads m') : Routine sure self other m'
        (do return first :: (← Eval.elementTexts self pos vs))
        (do return first :: (← Eval.elementTexts other pos vs)) Anything :=
      (ih fun h => (hl h).all (hrest h)).bind fun _ _ _ _ => .pure fun _ => trivial
    refine (unwrap hv).bind fun element m₁ hl₁ _ => ?_
    cases element with
    | text s => exact value (hthen _ hl₁)
    | _ =>
      exact (stringify (fun h => (hl₁ h).has (hv h)) pos).bind fun first _ hl₂ _ =>
        hthen first fun h => (hl₁ h).trans (hl₂ h)

/-- `to_str` is a routine. -/
theorem toText (hc : sure → c.Within m.heap) :
    Routine sure self other m (Eval.toText self c) (Eval.toText other c) Present := by
  refine (unwrap fun h => (hc h).this).bind fun v _ _ _ => ?_
  cases v with
  | array a =>
    refine .read (fun _ _ => rfl) fun _ hl => ?_
    exact (elementTexts c.pos fun h => elements_present (hl h).is_steady a).bind
      fun _ _ _ _ => .pure fun _ => trivial
  | _ => exact .read (fun _ _ => rfl) fun _ _ => .pure fun _ => trivial

/-- A new structural type below another one, made from a template that gets more members. -/
theorem extendType {this template : ObjectRef} {fields methods : Members}
    (hthis : sure → m.heap.Has (.object this)) (htemplate : sure → m.heap.Has (.object template))
    (hfields : sure → m.heap.HasMembers fields) (hmethods : sure → m.heap.HasMembers methods) :
    Routine sure self other m
      (do
        Eval.modifyHeap fun h => h.modifyObject template fun o =>
          { o with members := NameMap.insertAll o.members fields }
        let made ← Eval.newObject
          (.type "" (some this) (methods.insert "instance" (.object template)) false)
        return Value.object made)
      (do
        Eval.modifyHeap fun h => h.modifyObject template fun o =>
          { o with members := NameMap.insertAll o.members fields }
        let made ← Eval.newObject
          (.type "" (some this) (methods.insert "instance" (.object template)) false)
        return Value.object made) Present := by
  refine (insertMembers template hfields).bind fun _ m₁ hl₁ _ => ?_
  have hobject : sure → m₁.heap.HasObject
      (.type "" (some this) (methods.insert "instance" (.object template)) false) := by
    intro h
    refine ⟨((hl₁ h).grows.heap.hasMembers (hmethods h)).insert ((hl₁ h).has (htemplate h)) "instance",
      fun p hp => ?_, nofun, nofun⟩
    obtain rfl := Option.some.inj hp
    exact (hl₁ h).has (hthis h)
  exact (newObject hobject).bind fun _ _ _ hmade => .pure hmade

/-- `extend` is a routine. -/
theorem extendBy (hc : sure → c.Within m.heap) :
    Routine sure self other m (Eval.extendBy c) (Eval.extendBy c) Present := by
  unfold Eval.extendBy
  refine (receiver hc).bind fun this m₁ hl₁ hthis => ?_
  refine (objectArgument (fun h => (hc h).leads (hl₁ h)) 0 _).bind fun properties m₂ hl₂ _ => ?_
  refine .read (fun _ _ => rfl) fun m₃ hl₃ => .read (fun _ _ => rfl) fun m₄ hl₄ => ?_
  have hthis₄ : sure → m₄.heap.Has (.object this) :=
    fun h => (((hl₂ h).trans (hl₃ h)).trans (hl₄ h)).has (hthis h)
  -- the new members are those that were there before the second look at the machine
  have hmembers₃ : sure → m₃.heap.HasMembers (m₃.heap.object properties).members :=
    fun h => (hl₃ h).is_steady.closed.members properties
  refine ite (fun _ => .read (fun _ _ => rfl) fun m₅ hl₅ => ?_) fun _ => ?_
  · have hselected {m' : Machine} (hl : sure → m₅.Leads m') (p : Value → Bool) :
        sure → m'.heap.HasMembers (selectMembers p (m₃.heap.object properties).members) := fun h =>
      ((((hl₄ h).trans (hl₅ h)).trans (hl h)).grows.heap.hasMembers (hmembers₃ h)).select p
    have hthis₆ {m' : Machine} (hl : sure → m₅.Leads m') : sure → m'.heap.Has (.object this) :=
      fun h => ((hl₅ h).trans (hl h)).has (hthis₄ h)
    dsimp only
    split
    · rename_i t ht
      refine (copyObject (fun h => (hl₅ h).is_steady.closed.has_lookup ht) (fun _ => by nofun)).bind
        fun template m₆ hl₆ htemplate => ?_
      exact extendType (hthis₆ hl₆) htemplate (hselected hl₆ _) (hselected hl₆ _)
    · refine (newObject fun _ => Heap.hasObject_plain _).bind fun template m₆ hl₆ htemplate => ?_
      exact extendType (hthis₆ hl₆) htemplate (hselected hl₆ _) (hselected hl₆ _)
  · refine (copyObject hthis₄ (fun _ => by nofun)).bind fun made m₅ hl₅ hmade => ?_
    have hmembers₅ : sure → m₅.heap.HasMembers (m₃.heap.object properties).members :=
      fun h => ((hl₄ h).trans (hl₅ h)).grows.heap.hasMembers (hmembers₃ h)
    exact (insertMembers made hmembers₅).bind fun _ _ hl₆ _ => .pure fun h => (hl₆ h).has (hmade h)

/-- `patch` is a routine. -/
theorem patchFrom (hc : sure → c.Within m.heap) :
    Routine sure self other m (Eval.patchFrom c) (Eval.patchFrom c) Present := by
  refine (receiver hc).bind fun this m₁ hl₁ hthis => ?_
  refine (objectArgument (fun h => (hc h).leads (hl₁ h)) 0 _).bind fun source m₂ hl₂ _ => ?_
  refine .read (fun _ _ => rfl) fun m₃ hl₃ => ?_
  refine (insertMembers this fun h => (hl₃ h).is_steady.closed.members source).bind
    fun _ m₄ hl₄ _ => .pure fun h => ?_
  exact (((hl₂ h).trans (hl₃ h)).trans (hl₄ h)).has (hthis h)

/-- `satisfies` is a routine. -/
theorem satisfiesType (hc : sure → c.Within m.heap) :
    Routine sure self other m (Eval.satisfiesType c) (Eval.satisfiesType c) Present :=
  (receiver hc).bind fun _ _ hl₁ _ =>
    (objectArgument (fun h => (hc h).leads (hl₁ h)) 0 _).bind fun _ _ _ _ =>
      .read (fun _ _ => rfl) fun _ _ => .pure fun _ => trivial

/-- `compare` is a routine. -/
theorem compareTo (hc : sure → c.Within m.heap) :
    Routine sure self other m (Eval.compareTo c) (Eval.compareTo c) Present :=
  (unwrap fun h => (hc h).this).bind fun _ _ hl₁ _ =>
    (unwrap fun h => ((hc h).leads (hl₁ h)).argument 0).bind fun _ _ _ _ => .pure fun _ => trivial

/-- `not` is a routine. -/
theorem negate (hc : sure → c.Within m.heap) :
    Routine sure self other m (Eval.negate self c) (Eval.negate other c) Present :=
  (isTrue (fun h => (hc h).this) c.pos).bind fun _ _ _ _ => .pure fun _ => trivial

/-- `and` and `or` are routines. -/
theorem combineTruth (f : Bool → Bool → Bool) (hc : sure → c.Within m.heap) :
    Routine sure self other m (Eval.combineTruth self f c) (Eval.combineTruth other f c) Present :=
  (isTrue (fun h => (hc h).this) c.pos).bind fun _ _ hl₁ _ =>
    (isTrue (fun h => ((hc h).leads (hl₁ h)).argument 0) c.pos).bind
      fun _ _ _ _ => .pure fun _ => trivial

/-- `property` is a routine. -/
theorem propertyOf (hc : sure → c.Within m.heap) :
    Routine sure self other m (Eval.propertyOf c) (Eval.propertyOf c) Present := by
  refine (receiver hc).bind fun this m₁ hl₁ _ => ?_
  refine (unwrap fun h => ((hc h).leads (hl₁ h)).argument 0).bind fun v m₂ _ _ => ?_
  cases v with
  | text name =>
    refine .read (fun _ _ => rfl) fun m₃ hl₃ => ?_
    refine (withHeap (Q := fun type m' => ∀ t, type = some t → m'.heap.isType t = true)
      (fun h => h.lengthened_property _ _ _) fun _ hm₃ => ?_).bind fun type _ _ htype => ?_
    · exact hm₃.closed.property (fun _ _ ht => m₃.isType_of_runtimeType? ht) this name
    · cases type with
      | some t => exact .pure fun h => Heap.has_of_isType (htype h t rfl)
      | none => exact .pure fun _ => trivial
  | _ => exact .raise rfl c.pos

/-! ## Members of scalars -/

/-- Making an integer of a value. -/
theorem asInt (v : Value) (pos : Position) :
    Routine sure self other m (Eval.asInt v pos) (Eval.asInt v pos) Present := by
  unfold Eval.asInt
  cases v with
  | int i => exact .pure fun _ => trivial
  | bool b => exact .pure fun _ => trivial
  | float x => exact ite (fun _ => .pure fun _ => trivial) fun _ => .raise rfl pos
  | text s =>
    dsimp only
    split
    · exact .pure fun _ => trivial
    · exact .raise rfl pos
  | _ => exact .raise rfl pos

/-- Making a binary64 number of a value. -/
theorem asFloat (v : Value) (pos : Position) :
    Routine sure self other m (Eval.asFloat v pos) (Eval.asFloat v pos) Present := by
  unfold Eval.asFloat
  cases v with
  | int i => exact .pure fun _ => trivial
  | bool b => exact .pure fun _ => trivial
  | float x => exact .pure fun _ => trivial
  | text s =>
    dsimp only
    split
    · exact .pure fun _ => trivial
    · exact .raise rfl pos
  | _ => exact .raise rfl pos

/-- Bringing a value to the kind of a scalar type. -/
theorem coerce (default : Value) {v : Value} (hv : sure → m.heap.Has v) (pos : Position) :
    Routine sure self other m (Eval.coerce self default v pos) (Eval.coerce other default v pos)
      Present := by
  cases default with
  | int i => exact asInt v pos
  | float x => exact asFloat v pos
  | text s =>
    cases v with
    | text s => exact .pure fun _ => trivial
    | _ => exact (stringify hv pos).bind fun _ _ _ _ => .pure fun _ => trivial
  | bool b =>
    cases v with
    | bool b => exact .pure fun _ => trivial
    | _ => exact (isTrue hv pos).bind fun _ _ _ _ => .pure fun _ => trivial
  | array a =>
    cases v with
    | array a => exact .pure hv
    | _ => exact .raise rfl pos
  | null =>
    cases v with
    | procedure p => exact .pure fun _ => trivial
    | native n => exact .pure fun _ => trivial
    | null => exact .pure fun _ => trivial
    | _ => exact .raise rfl pos
  | _ => cases v <;> exact .raise rfl pos

/-- `construct` of the scalar types is a routine. -/
theorem constructScalar (hc : sure → c.Within m.heap) :
    Routine sure self other m (Eval.constructScalar self c) (Eval.constructScalar other c) Present := by
  unfold Eval.constructScalar
  refine (receiver hc).bind fun this m₁ hl₁ _ => ?_
  have harguments := fun h => ((hc h).leads (hl₁ h)).arguments
  cases hvalues : c.arguments with
  | nil => exact .pure fun _ => trivial
  | cons v vs =>
    rw [hvalues] at harguments
    refine (unwrap fun h => harguments h v List.mem_cons_self).bind fun v m₂ _ hv => ?_
    refine .read (fun _ _ => rfl) fun m₃ hl₃ => ?_
    refine (coerce _ (fun h => (hl₃ h).has (hv h)) c.pos).bind fun stored m₄ _ hstored => ?_
    exact (assignMember this _ hstored).bind fun _ _ _ _ => .pure fun _ => trivial

/-- `bool` of the scalar types is a routine. -/
theorem scalarTruth (c : NativeCall) :
    Routine sure self other m (Eval.scalarTruth c) (Eval.scalarTruth c) Present :=
  .read (fun _ _ => rfl) fun _ _ => .pure fun _ => trivial

/-- `to_int` is a routine. -/
theorem toInt (hc : sure → c.Within m.heap) :
    Routine sure self other m (Eval.toInt c) (Eval.toInt c) Present :=
  (unwrap fun h => (hc h).this).bind fun v _ _ _ => asInt v c.pos

/-- `to_float` is a routine. -/
theorem toFloat (hc : sure → c.Within m.heap) :
    Routine sure self other m (Eval.toFloat c) (Eval.toFloat c) Present :=
  (unwrap fun h => (hc h).this).bind fun v _ _ _ => asFloat v c.pos

/-- Asking for two numbers. -/
theorem numericOperands (action : String) (hc : sure → c.Within m.heap) :
    Routine sure self other m (Eval.numericOperands action c) (Eval.numericOperands action c)
      Anything :=
  (unwrap fun h => (hc h).this).bind fun _ _ hl₁ _ =>
    (unwrap fun h => ((hc h).leads (hl₁ h)).argument 0).bind fun _ _ _ _ =>
      ite (fun _ => .pure fun _ => trivial) fun _ => .raise rfl c.pos

/-- The result of an operation on numbers is a number. -/
theorem has_result {r : ArithmeticRule} {left right v : Value} (hv : r.result? left right = some v)
    (h : Heap) : h.Has v := by
  unfold ArithmeticRule.result? at hv
  split at hv
  · obtain ⟨i, -, rfl⟩ := Option.map_eq_some_iff.mp hv
    trivial
  · obtain rfl := Option.some.inj hv
    trivial

/-- Arithmetic is a routine. -/
theorem arithmetic (r : ArithmeticRule) (hc : sure → c.Within m.heap) :
    Routine sure self other m (Eval.arithmetic r c) (Eval.arithmetic r c) Present := by
  refine (numericOperands r.action hc).bind fun operands _ _ _ => ?_
  dsimp only
  split
  · rename_i v hv
    exact .pure fun _ => has_result hv _
  · exact .raise rfl c.pos

/-- Division is a routine. -/
theorem division (r : ArithmeticRule) (hc : sure → c.Within m.heap) :
    Routine sure self other m (Eval.division r c) (Eval.division r c) Present :=
  (numericOperands r.action hc).bind fun _ _ hl₁ _ =>
    ite (fun _ => .raise rfl c.pos) fun _ => arithmetic r fun h => (hc h).leads (hl₁ h)

/-- `neg` is a routine. -/
theorem negateNumber (hc : sure → c.Within m.heap) :
    Routine sure self other m (Eval.negateNumber c) (Eval.negateNumber c) Present := by
  refine (unwrap fun h => (hc h).this).bind fun v _ _ _ => ?_
  cases v with
  | int i =>
    dsimp only
    split
    · exact .pure fun _ => trivial
    · exact .raise rfl c.pos
  | float x => exact .pure fun _ => trivial
  | _ => exact .raise rfl c.pos

/-- `pos` is a routine. -/
theorem identity (hc : sure → c.Within m.heap) :
    Routine sure self other m (Eval.identity c) (Eval.identity c) Present :=
  (unwrap fun h => (hc h).this).bind fun _ _ _ hv => ite (fun _ => .pure hv) fun _ => .raise rfl c.pos

/-- Comparing is a routine. -/
theorem comparison (symbol : String) (accept : Ordering → Bool) (hc : sure → c.Within m.heap) :
    Routine sure self other m (Eval.comparison symbol accept c) (Eval.comparison symbol accept c)
      Present := by
  refine (unwrap fun h => (hc h).this).bind fun left m₁ hl₁ _ => ?_
  refine (unwrap fun h => ((hc h).leads (hl₁ h)).argument 0).bind fun right _ _ _ => ?_
  cases left.ordering? right with
  | some o => exact .pure fun _ => trivial
  | none => exact .raise rfl c.pos

/-- `len` of texts is a routine. -/
theorem textLength (hc : sure → c.Within m.heap) :
    Routine sure self other m (Eval.textLength c) (Eval.textLength c) Present :=
  (textReceiver hc).bind fun _ _ _ _ => .pure fun _ => trivial

/-- `add` of texts is a routine. -/
theorem appendText (hc : sure → c.Within m.heap) :
    Routine sure self other m (Eval.appendText self c) (Eval.appendText other c) Present :=
  (textReceiver hc).bind fun _ _ hl₁ _ =>
    (stringify (fun h => ((hc h).leads (hl₁ h)).argument 0) c.pos).bind
      fun _ _ _ _ => .pure fun _ => trivial

/-- `at` of texts is a routine. -/
theorem charAt (hc : sure → c.Within m.heap) :
    Routine sure self other m (Eval.charAt c) (Eval.charAt c) Present :=
  (textReceiver hc).bind fun _ _ hl₁ _ =>
    (indexArgument (fun h => (hc h).leads (hl₁ h)) 0).bind fun _ _ _ _ =>
      (resolveIndex c _ _).bind fun _ _ _ _ => .pure fun _ => trivial

/-- The extreme value is one of the candidates. -/
theorem extremum_best (name : String) (wanted : Ordering) (c : NativeCall) {vs : List Value}
    (hvs : sure → AllPresent vs m) {current : Value} (hcurrent : sure → m.heap.Has current) :
    Routine sure self other m (Eval.extremum.best name wanted c current vs)
      (Eval.extremum.best name wanted c current vs) Present := by
  induction vs generalizing current m with
  | nil => exact .pure hcurrent
  | cons v vs ih =>
    refine (unwrap fun h => hvs h v List.mem_cons_self).bind fun candidate m₁ hl₁ hcandidate => ?_
    have hrest : sure → AllPresent vs m₁ :=
      fun h => (hl₁ h).all fun w hw => hvs h w (List.mem_cons_of_mem _ hw)
    cases candidate.ordering? current with
    | some o =>
      refine ih hrest fun h => ?_
      split
      · exact hcandidate h
      · exact (hl₁ h).has (hcurrent h)
    | none => exact .raise rfl c.pos

/-- The extreme one of several candidates is one of them. -/
theorem extremum_of (name : String) (wanted : Ordering) (c : NativeCall) (candidates : List Value) :
    (sure → AllPresent candidates m) → Routine sure self other m
      (match candidates with
        | [] => Eval.raise (.noCandidates name) c.pos
        | v :: vs => do Eval.extremum.best name wanted c (← Eval.unwrap v) vs)
      (match candidates with
        | [] => Eval.raise (.noCandidates name) c.pos
        | v :: vs => do Eval.extremum.best name wanted c (← Eval.unwrap v) vs) Present := by
  intro hcandidates
  cases candidates with
  | nil => exact .raise rfl c.pos
  | cons v vs =>
    refine (unwrap fun h => hcandidates h v List.mem_cons_self).bind fun first m₁ hl₁ hfirst => ?_
    exact extremum_best name wanted c
      (fun h => (hl₁ h).all fun w hw => hcandidates h w (List.mem_cons_of_mem _ hw)) hfirst

/-- `max` and `min` are routines. -/
theorem extremum (name : String) (wanted : Ordering) (hc : sure → c.Within m.heap) :
    Routine sure self other m (Eval.extremum name wanted c) (Eval.extremum name wanted c) Present := by
  have harguments := fun h => (hc h).arguments
  unfold Eval.extremum
  dsimp only
  split
  · rename_i single hsingle
    rw [hsingle] at harguments
    refine (unwrap fun h => harguments h single List.mem_cons_self).bind fun v m₁ _ hv => ?_
    cases v with
    | array a =>
      exact .read (fun _ _ => rfl) fun _ hl =>
        value (extremum_of name wanted c _ fun h => elements_present (hl h).is_steady a)
    | _ => exact value (extremum_of name wanted c _ fun h => allPresent_singleton (hv h))
  · exact value (extremum_of name wanted c _ harguments)

/-! ## Members of arrays and functions -/

/-- `len` of arrays is a routine. -/
theorem arrayLength (hc : sure → c.Within m.heap) :
    Routine sure self other m (Eval.arrayLength c) (Eval.arrayLength c) Present :=
  (arrayReceiver hc).bind fun _ _ _ _ => .read (fun _ _ => rfl) fun _ _ => .pure fun _ => trivial

/-- `at` of arrays is a routine. -/
theorem elementAt (hc : sure → c.Within m.heap) :
    Routine sure self other m (Eval.elementAt c) (Eval.elementAt c) Present := by
  refine (arrayReceiver hc).bind fun a m₁ hl₁ _ => ?_
  refine (indexArgument (fun h => (hc h).leads (hl₁ h)) 0).bind fun _ m₂ _ _ => ?_
  refine .read (fun _ _ => rfl) fun m₃ hl₃ => ?_
  refine (resolveIndex c _ _).bind fun i m₄ hl₄ _ => .pure fun h => ?_
  rcases hv : (m₃.heap.elements a)[i]? with _ | v
  · trivial
  · exact (hl₄ h).has ((hl₃ h).is_steady.closed.elements a v (Array.mem_of_getElem? hv))

/-- `set` of arrays is a routine. -/
theorem setElement (hc : sure → c.Within m.heap) :
    Routine sure self other m (Eval.setElement c) (Eval.setElement c) Present := by
  refine (arrayReceiver hc).bind fun a m₁ hl₁ _ => ?_
  refine (indexArgument (fun h => (hc h).leads (hl₁ h)) 0).bind fun _ m₂ hl₂ _ => ?_
  refine .read (fun _ _ => rfl) fun m₃ hl₃ => (resolveIndex c _ _).bind fun i m₄ hl₄ _ => ?_
  have hvalue : sure → m₄.heap.Has (c.argument 1) := fun h =>
    ((((hl₁ h).trans (hl₂ h)).trans (hl₃ h)).trans (hl₄ h)).has ((hc h).argument 1)
  refine (modifyHeap (fun h => h.lengthened_modifyArray a fun _ => by simp) fun h hm₄ => ?_).bind
    fun _ _ hl₅ _ => .pure fun h => (hl₅ h).has (hvalue h)
  refine hm₄.closed.modifyArray a fun v hv => ?_
  rcases Array.mem_or_eq_of_mem_setIfInBounds hv with hv | rfl
  · exact hm₄.closed.elements a v hv
  · exact hvalue h

/-- `append` of arrays is a routine. -/
theorem appendElement (hc : sure → c.Within m.heap) :
    Routine sure self other m (Eval.appendElement c) (Eval.appendElement c) Present := by
  refine (arrayReceiver hc).bind fun a m₁ hl₁ _ => ?_
  refine (modifyHeap (fun h => h.lengthened_modifyArray a fun _ => by simp) fun h hm₁ => ?_).bind
    fun _ _ _ _ => .pure fun _ => trivial
  refine hm₁.closed.modifyArray a fun v hv => ?_
  rcases Array.mem_push.mp hv with hv | rfl
  · exact hm₁.closed.elements a v hv
  · exact ((hc h).leads (hl₁ h)).argument 0

/-- `clone` of arrays is a routine. -/
theorem cloneArray (hc : sure → c.Within m.heap) :
    Routine sure self other m (Eval.cloneArray c) (Eval.cloneArray c) Present :=
  (arrayReceiver hc).bind fun a _ _ _ => .read (fun _ _ => rfl) fun _ hl =>
    newArray fun h => elements_present (hl h).is_steady a

/-- Calling a function with the elements of an array is a routine. -/
theorem iterateFrom {callback : Value} (hcallback : sure → m.heap.Has callback) (a : ArrayRef)
    (pos : Position) (fuel i : Nat) :
    Routine sure self other m (Eval.iterateFrom self callback a pos fuel i)
      (Eval.iterateFrom other callback a pos fuel i) Present := by
  induction fuel generalizing i m with
  | zero => exact .exhausted
  | succ fuel ih =>
    refine .read (fun _ _ => rfl) fun m₁ hl₁ => ?_
    cases hv : (m₁.heap.elements a)[i]? with
    | some v =>
      have helement : sure → m₁.heap.Has v :=
        fun h => (hl₁ h).is_steady.closed.elements a v (Array.mem_of_getElem? hv)
      refine (callFree (fun h => (hl₁ h).has (hcallback h))
        (fun h => allPresent_singleton (helement h)) pos).discard.bind fun _ m₂ hl₂ _ => ?_
      exact ih (fun h => ((hl₁ h).trans (hl₂ h)).has (hcallback h)) (i + 1)
    | none => exact .pure fun _ => trivial

/-- `iterate` is a routine. -/
theorem iterate (fuel : Nat) (hc : sure → c.Within m.heap) :
    Routine sure self other m (Eval.iterate self fuel c) (Eval.iterate other fuel c) Present :=
  (arrayReceiver hc).bind fun a _ hl₁ _ =>
    iterateFrom (fun h => ((hc h).leads (hl₁ h)).argument 0) a c.pos fuel 0

/-- `call` of functions is a routine. -/
theorem callFunction (hc : sure → c.Within m.heap) :
    Routine sure self other m (Eval.callFunction self c) (Eval.callFunction other c) Present := by
  refine (unwrap fun h => (hc h).this).bind fun function m₁ hl₁ hfunction => ?_
  refine (packedArguments fun h => (hc h).leads (hl₁ h)).bind fun arguments m₂ hl₂ harguments => ?_
  exact callFree (fun h => (hl₂ h).has (hfunction h)) harguments c.pos

/-! ## Macros -/

/-- Asking for the files that a program imports. -/
theorem gather (fuel : Nat) (paths : List String)
    (known : List (String × Except FileError String)) :
    Routine sure self other m (Eval.gather fuel paths known) (Eval.gather fuel paths known)
      Anything := by
  induction fuel generalizing paths known m with
  | zero => exact .exhausted
  | succ fuel ih =>
    cases paths with
    | nil => exact .pure fun _ => trivial
    | cons path paths =>
      refine ite (fun _ => ih _ _) fun _ => (ask _).bind fun answer _ _ _ => ?_
      cases answer with
      | contents result =>
        cases result with
        | ok text => exact ih _ _
        | error e => exact ih _ _
      | _ => exact ih _ _

/-- Finding the files that a program may import. -/
theorem library (fuel : Nat) (paths : List String) :
    Routine sure self other m (Eval.library fuel paths) (Eval.library fuel paths) Anything := by
  unfold Eval.library
  refine .read (fun _ _ => rfl) fun m' _ => ?_
  cases m'.host.world with
  | simulated s => exact .pure fun _ => trivial
  | replayed answers => exact (gather fuel paths []).bind fun _ _ _ _ => .pure fun _ => trivial

/-- Reading a program. -/
theorem readText (fuel : Nat) (file : String) (imports : List String) (source : String) :
    Routine sure self other m (Eval.readText fuel file imports source)
      (Eval.readText fuel file imports source) Anything :=
  (library fuel _).bind fun _ _ _ _ => .pure fun _ => trivial

/-- Preparing a program for running. -/
theorem load (statements : List Statement) :
    Routine sure self other m (Eval.load statements) (Eval.load statements) Anything := by
  refine .read (fun _ _ => rfl) fun m' _ => ?_
  have hcount : Outside fun m : Machine => ((), { m with loads := m'.loads + 1 }) :=
    ⟨fun _ _ => rfl, fun _ _ => rfl, fun m => ⟨_, m.host, m.events, rfl⟩⟩
  exact (outside hcount).bind fun _ _ _ _ => .pure fun _ => trivial

/-- Reading a program and preparing it for running, unless it has errors. -/
theorem readAndLoad (fuel : Nat) (file : String) (imports : List String) (source : String) :
    Routine sure self other m
      (do
        let reading ← Eval.readText fuel file imports source
        if reading.errors.isEmpty then return .ok (← Eval.load reading.statements)
        else return .error reading.errors : Eval (Except (List Diagnostic) (List Statement)))
      (do
        let reading ← Eval.readText fuel file imports source
        if reading.errors.isEmpty then return .ok (← Eval.load reading.statements)
        else return .error reading.errors) Anything := by
  refine (readText fuel file imports source).bind fun reading _ _ _ => ?_
  refine ite (fun _ => (load _).bind fun _ _ _ _ => ?_) fun _ => .pure fun _ => trivial
  exact .pure fun _ => trivial

/-- Running statements for the value of the last one. -/
theorem runForValue (ss : List Statement) {last : Value} (hlast : sure → m.heap.Has last) :
    Routine sure self other m (Eval.runForValue self last ss) (Eval.runForValue other last ss)
      Present := by
  induction ss generalizing last m with
  | nil => exact .pure hlast
  | cons s ss ih => exact (work (.statement s) fun _ => trivial).bind fun _ _ _ hv => ih hv

/-- Expanding a text. -/
theorem expand (fuel : Nat) (source : String) (pos : Position) :
    Routine sure self other m (Eval.expand self fuel source pos) (Eval.expand other fuel source pos)
      Present := by
  refine .read (fun _ _ => rfl) fun m' _ => (readText fuel _ [] source).bind fun reading _ _ _ => ?_
  refine ite (fun _ => (load _).bind fun statements m₂ _ _ => ?_) fun _ => .raise rfl pos
  have hnull : sure → m₂.heap.Has .null := fun _ => trivial
  exact runForValue statements hnull

/-- `construct` of macros is a routine. -/
theorem constructMacro (hc : sure → c.Within m.heap) :
    Routine sure self other m (Eval.constructMacro c) (Eval.constructMacro c) Present := by
  refine (receiver hc).bind fun this m₁ hl₁ _ => ?_
  refine (unwrap fun h => ((hc h).leads (hl₁ h)).argument 0).bind fun v m₂ _ hv => ?_
  cases v with
  | procedure p => exact (assignMember this _ hv).bind fun _ _ _ _ => .pure fun _ => trivial
  | native n => exact (assignMember this _ hv).bind fun _ _ _ _ => .pure fun _ => trivial
  | _ => exact .raise rfl c.pos

/-- `call` of macros is a routine. -/
theorem callMacro (fuel : Nat) (hc : sure → c.Within m.heap) :
    Routine sure self other m (Eval.callMacro self fuel c) (Eval.callMacro other fuel c) Present := by
  refine (receiver hc).bind fun this m₁ hl₁ hthis => ?_
  refine (packedArguments fun h => (hc h).leads (hl₁ h)).bind fun arguments m₂ hl₂ harguments => ?_
  refine (member this _ c.pos).bind fun function m₃ hl₃ hfunction => ?_
  refine (callFor hfunction (fun h => ((hl₂ h).trans (hl₃ h)).has (hthis h))
    (fun h => (hl₃ h).all (harguments h)) c.pos).bind fun result m₄ _ hresult => ?_
  refine (unwrap hresult).bind fun v m₅ hl₅ _ => ?_
  cases v with
  | text source => exact expand fuel source c.pos
  | _ => exact .pure fun h => (hl₅ h).has (hresult h)

/-- `expand` of macros and `macro_expand` are routines. -/
theorem expandArgument (fuel : Nat) (hc : sure → c.Within m.heap) :
    Routine sure self other m (Eval.expandArgument self fuel c) (Eval.expandArgument other fuel c)
      Present := by
  refine (unwrap fun h => (hc h).argument 0).bind fun v _ _ _ => ?_
  cases v with
  | text source => exact expand fuel source c.pos
  | _ => exact .raise rfl c.pos

/-! ## The console, files and the clock -/

/-- Asking values for their texts. -/
theorem stringifyAll (pos : Position) {vs : List Value} (hvs : sure → AllPresent vs m) :
    Routine sure self other m (Eval.stringifyAll self pos vs) (Eval.stringifyAll other pos vs)
      Anything := by
  induction vs generalizing m with
  | nil => exact .pure fun _ => trivial
  | cons v vs ih =>
    refine (stringify (fun h => hvs h v List.mem_cons_self) pos).bind fun _ m₁ hl₁ _ => ?_
    exact (ih fun h => (hl₁ h).all fun w hw => hvs h w (List.mem_cons_of_mem _ hw)).bind
      fun _ _ _ _ => .pure fun _ => trivial

/-- Asking for the text of the arguments. -/
theorem argumentText (hc : sure → c.Within m.heap) :
    Routine sure self other m (Eval.argumentText self c) (Eval.argumentText other c) Anything :=
  (stringifyAll c.pos fun h => (hc h).arguments).bind fun _ _ _ _ => .pure fun _ => trivial

/-- `print` is a routine. -/
theorem print (hc : sure → c.Within m.heap) :
    Routine sure self other m (Eval.print self c) (Eval.print other c) Present :=
  (argumentText hc).bind fun _ _ _ _ => (emit _ c.pos).bind fun _ _ _ _ => .pure fun _ => trivial

/-- `write` is a routine. -/
theorem write (hc : sure → c.Within m.heap) :
    Routine sure self other m (Eval.write self c) (Eval.write other c) Present :=
  (argumentText hc).bind fun _ _ _ _ => (emit _ c.pos).bind fun _ _ _ _ => .pure fun _ => trivial

/-- `input` is a routine. -/
theorem input (hc : sure → c.Within m.heap) :
    Routine sure self other m (Eval.input self c) (Eval.input other c) Present := by
  refine (argumentText hc).bind fun text _ _ _ => (emit text c.pos).bind fun _ _ _ _ => ?_
  refine (ask .readLine).bind fun answer _ _ _ => ?_
  cases answer with
  | line result =>
    cases result with
    | ok text => exact .pure fun _ => trivial
    | error e => exact .raise rfl c.pos
  | _ => exact .pure fun _ => trivial

/-- `read_file` is a routine. -/
theorem readFile (hc : sure → c.Within m.heap) :
    Routine sure self other m (Eval.readFile c) (Eval.readFile c) Present := by
  refine (textArgument hc 0).bind fun path _ _ _ => (ask (.readFile path)).bind fun answer _ _ _ => ?_
  cases answer with
  | contents result =>
    cases result with
    | ok text => exact .pure fun _ => trivial
    | error e => exact .raise rfl c.pos
  | _ => exact .pure fun _ => trivial

/-- `write_file` is a routine. -/
theorem writeFile (hc : sure → c.Within m.heap) :
    Routine sure self other m (Eval.writeFile self c) (Eval.writeFile other c) Present := by
  refine (textArgument hc 0).bind fun path m₁ hl₁ _ => ?_
  refine (stringify (fun h => ((hc h).leads (hl₁ h)).argument 1) c.pos).bind fun text _ _ _ => ?_
  refine (ask (.writeFile path text)).bind fun answer _ _ _ => ?_
  cases answer with
  | written result =>
    cases result with
    | ok _ => exact .pure fun _ => trivial
    | error e => exact .raise rfl c.pos
  | _ => exact .pure fun _ => trivial

/-- `now` is a routine. -/
theorem now : Routine sure self other m Eval.now Eval.now Present := by
  refine (ask .time).bind fun answer _ _ _ => ?_
  cases answer <;> exact .pure fun _ => trivial

/-- `sleep` is a routine. -/
theorem sleep (hc : sure → c.Within m.heap) :
    Routine sure self other m (Eval.sleep c) (Eval.sleep c) Present := by
  have hpause (seconds : Float) {m' : Machine} : Routine sure self other m'
      (do
        Functor.discard <| Eval.ask (.pause seconds)
        return Value.null)
      (do
        Functor.discard <| Eval.ask (.pause seconds)
        return Value.null) Present :=
    (ask _).discard.bind fun _ _ _ _ => .pure fun _ => trivial
  have hrefuse (v : Value) {m' : Machine} : Routine sure self other m'
      (do
        let seconds : Float ← Eval.raise (.cannotSleep (← Eval.inspect v)) c.pos
        Functor.discard <| Eval.ask (.pause seconds)
        return Value.null)
      (do
        let seconds : Float ← Eval.raise (.cannotSleep (← Eval.inspect v)) c.pos
        Functor.discard <| Eval.ask (.pause seconds)
        return Value.null) Present :=
    (inspect v).bind fun _ _ _ _ => (raise (Q := Anything) rfl c.pos).bind
      fun seconds _ _ _ => hpause seconds
  refine (unwrap fun h => (hc h).argument 0).bind fun v _ _ _ => ?_
  cases v with
  | int i => exact ite (fun _ => value (hpause _)) fun _ => hrefuse _
  | float x => exact ite (fun _ => value (hpause _)) fun _ => hrefuse _
  | _ => exact hrefuse _

/-- `exit` is a routine. -/
theorem exit (hc : sure → c.Within m.heap) :
    Routine sure self other m (Eval.exit c) (Eval.exit c) Present := by
  refine (unwrap fun h => (hc h).argument 0).bind fun v _ _ _ => ?_
  cases v with
  | int i => exact ite (fun _ => .exited _) fun _ => .raise rfl c.pos
  | null => exact .exited 0
  | _ => exact (inspect _).bind fun _ _ _ _ => .raise rfl c.pos

/-- `color` is a routine. -/
theorem color (hc : sure → c.Within m.heap) :
    Routine sure self other m (Eval.color self c) (Eval.color other c) Present := by
  refine (textArgument hc 0).bind fun name m₁ hl₁ _ => ?_
  refine (stringify (fun h => ((hc h).leads (hl₁ h)).argument 1) c.pos).bind fun text _ _ _ => ?_
  cases colorCode? name with
  | some code => exact .pure fun _ => trivial
  | none => exact .raise rfl c.pos

/-! ## All of them -/

/-- Every native function is a routine. -/
theorem callNative (fuel : Nat) (n : Native) (hc : sure → c.Within m.heap) :
    Routine sure self other m (Eval.callNative fuel self n c) (Eval.callNative fuel other n c)
      Present := by
  cases n with
  | newInstance => exact newInstance hc
  | typeOf => exact typeOf c
  | toText => exact toText hc
  | extendBy => exact extendBy hc
  | patchFrom => exact patchFrom hc
  | satisfiesType => exact satisfiesType hc
  | compareTo => exact compareTo hc
  | negate => exact negate hc
  | alwaysTrue => exact .pure fun _ => trivial
  | conjunction | disjunction => exact combineTruth _ hc
  | propertyOf => exact propertyOf hc
  | constructScalar => exact constructScalar hc
  | scalarTruth => exact scalarTruth c
  | toInt => exact toInt hc
  | toFloat => exact toFloat hc
  | addNumber | subtract | multiply => exact arithmetic _ hc
  | divide | modulo => exact division _ hc
  | isLess | isLessEqual | isGreater | isGreaterEqual => exact comparison _ _ hc
  | negateNumber => exact negateNumber hc
  | identity => exact identity hc
  | textLength => exact textLength hc
  | appendText => exact appendText hc
  | charAt => exact charAt hc
  | arrayLength => exact arrayLength hc
  | elementAt => exact elementAt hc
  | setElement => exact setElement hc
  | appendElement => exact appendElement hc
  | cloneArray => exact cloneArray hc
  | iterate => exact iterate fuel hc
  | callFunction => exact callFunction hc
  | constructMacro => exact constructMacro hc
  | callMacro => exact callMacro fuel hc
  | expandMember | expandText => exact expandArgument fuel hc
  | maximum | minimum => exact extremum _ _ hc
  | print => exact print hc
  | write => exact write hc
  | input => exact input hc
  | readFile => exact readFile hc
  | writeFile => exact writeFile hc
  | now => exact now
  | sleep => exact sleep hc
  | exit => exact exit hc
  | color => exact color hc

end Routine

end Eval

end ProtoScript
