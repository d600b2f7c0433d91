import ProtoScript.Eval.Message
import ProtoScript.Proofs.Routine.Basic

/-!
# Messages are routines

Boxing a value makes a copy of a template whose parent is the type, and everything else about messages
is a sequence of steps that are known and of work that is left to `self`.
-/

namespace ProtoScript

namespace Eval

namespace Routine

variable {sure : Prop} {self other : Work → Eval Value} {m : Machine}

/-- Making an instance of a type. -/
theorem construct {type : ObjectRef} (htype : sure → m.heap.Has (.object type))
    {arguments : List Value} (harguments : sure → AllPresent arguments m) (pos : Position) :
    Routine sure self other m (Eval.construct self type arguments pos)
      (Eval.construct other type arguments pos) ObjectPresent := by
  unfold Eval.construct
  refine .read (fun _ _ => rfl) fun m₁ hl₁ => ?_
  dsimp only
  split
  · rename_i template htemplate
    have hparent : sure → ∀ p, some type = some p → m₁.heap.Has (.object p) := by
      intro h p hp
      obtain rfl := Option.some.inj hp
      exact (hl₁ h).has (htype h)
    refine (copyObject (fun h => (hl₁ h).is_steady.closed.has_lookup htemplate) hparent).bind
      fun made m₂ hl₂ hmade => .read (fun _ _ => rfl) fun m₃ hl₃ => ?_
    have hmade₃ : sure → m₃.heap.Has (.object made) := fun h => (hl₃ h).has (hmade h)
    have harguments₃ : sure → AllPresent arguments m₃ :=
      fun h => (((hl₁ h).trans (hl₂ h)).trans (hl₃ h)).all (harguments h)
    -- whatever the constructor yields, the instance is what was made before
    have hafter : ∀ m₄, (sure → m₃.Leads m₄) →
        Routine sure self other m₄ (Pure.pure made) (Pure.pure made) ObjectPresent :=
      fun m₄ hl₄ => .pure fun h => (hl₄ h).has (hmade₃ h)
    split
    · rename_i n _
      have hn : sure → m₃.heap.Has (.native n) := fun _ => trivial
      exact (callFor hn hmade₃ harguments₃ pos).discard.bind fun _ m₄ hl₄ _ => hafter m₄ hl₄
    · rename_i p _
      have hp : sure → m₃.heap.Has (.procedure p) := fun _ => trivial
      exact (callFor hp hmade₃ harguments₃ pos).discard.bind fun _ m₄ hl₄ _ => hafter m₄ hl₄
    · exact (inspect _).bind fun _ m₄ hl₄ _ => (raise (Q := Anything) rfl pos).bind
        fun _ m₅ hl₅ _ => hafter m₅ fun h => (hl₄ h).trans (hl₅ h)
    · exact .pure hmade₃
  · exact .raise rfl pos

/-- Boxing a value. -/
theorem box {v : Value} (hv : sure → m.heap.Has v) (pos : Position) :
    Routine sure self other m (Eval.box self v pos) (Eval.box other v pos) ObjectPresent := by
  unfold Eval.box
  cases v with
  | object o => exact .pure hv
  | _ =>
    refine (runtimeType? _).bind fun type m₁ hl₁ htype => ?_
    cases type with
    | none => exact (inspect _).bind fun _ _ _ _ => .raise rfl pos
    | some type =>
      exact construct (fun h => Heap.has_of_isType (htype h type rfl))
        (fun h => allPresent_singleton ((hl₁ h).has (hv h))) pos

/-- Sending a message. -/
theorem send {receiver : Value} (hreceiver : sure → m.heap.Has receiver) (method : String)
    {arguments : List Value} (harguments : sure → AllPresent arguments m) (pos : Position) :
    Routine sure self other m (Eval.send self receiver method arguments pos)
      (Eval.send other receiver method arguments pos) Present := by
  refine (box hreceiver pos).bind fun o m₁ hl₁ ho => ?_
  refine (member o method pos).bind fun function m₂ hl₂ hfunction => ?_
  exact callFor hfunction (fun h => (hl₂ h).has (ho h))
    (fun h => ((hl₁ h).trans (hl₂ h)).all (harguments h)) pos

/-- Asking a value whether it counts as true. -/
theorem isTrue {v : Value} (hv : sure → m.heap.Has v) (pos : Position) :
    Routine sure self other m (Eval.isTrue self v pos) (Eval.isTrue other v pos) Anything := by
  refine (send hv "bool" (fun _ => allPresent_nil) pos).bind fun answer _ _ hanswer => ?_
  refine (unwrap hanswer).bind fun truth _ _ _ => ?_
  cases truth with
  | int i => exact .pure fun _ => trivial
  | bool b => exact .pure fun _ => trivial
  | _ => exact .raise rfl pos

/-- Asking a value for its text. -/
theorem stringify {v : Value} (hv : sure → m.heap.Has v) (pos : Position) :
    Routine sure self other m (Eval.stringify self v pos) (Eval.stringify other v pos) Anything := by
  refine (send hv "to_str" (fun _ => allPresent_nil) pos).bind fun answer _ _ hanswer => ?_
  refine (unwrap hanswer).bind fun text _ _ _ => ?_
  cases text with
  | text s => exact .pure fun _ => trivial
  | _ => exact .read (fun _ _ => rfl) fun _ _ => .pure fun _ => trivial

/-- Evaluating an expression that denotes a type. -/
theorem evaluateType (e : Expression) :
    Routine sure self other m (Eval.evaluateType self e) (Eval.evaluateType other e)
      fun d m' => m'.heap.isType d = true := by
  refine (expression e).bind fun v _ _ _ => .read (fun _ _ => rfl) fun m' _ => ?_
  dsimp only
  cases v with
  | object o => exact ite (fun ho => .pure fun _ => ho) fun _ => .raise rfl _
  | _ => exact .raise rfl _

/-- Evaluating arguments. -/
theorem evaluateArguments (es : List Expression) :
    Routine sure self other m (Eval.evaluateArguments self es) (Eval.evaluateArguments other es)
      AllPresent := by
  induction es generalizing m with
  | nil => exact .pure fun _ => allPresent_nil
  | cons e es ih =>
    have hplain (e : Expression) : Routine sure self other m
        (do return (← self (.expression e)) :: (← Eval.evaluateArguments self es))
        (do return (← other (.expression e)) :: (← Eval.evaluateArguments other es)) AllPresent := by
      refine (expression e).bind fun first m₁ _ hfirst => ?_
      refine ih.bind fun rest m₂ hl₂ hrest => .pure fun h v hv => ?_
      rcases List.mem_cons.mp hv with rfl | hv
      · exact (hl₂ h).has (hfirst h)
      · exact hrest h v hv
    cases e with
    | splat e pos =>
      refine (expression e).bind fun v _ _ hv => (unwrap hv).bind fun spread _ _ _ => ?_
      cases spread with
      | array a =>
        refine .read (fun _ _ => rfl) fun m₃ hl₃ => ih.bind fun rest m₄ hl₄ hrest => ?_
        refine .pure fun h v hv => ?_
        rcases List.mem_append.mp hv with hv | hv
        · exact (hl₄ h).has (elements_present (hl₃ h).is_steady a v hv)
        · exact hrest h v hv
      | _ => exact .raise rfl pos
    | _ => exact hplain _

/-- Sending a message to the value of an expression. -/
theorem sendTo (target : Expression) (method : String) (arguments : List Expression)
    (pos : Position) :
    Routine sure self other m (Eval.sendTo self target method arguments pos)
      (Eval.sendTo other target method arguments pos) Present := by
  refine (expression target).bind fun v m₁ _ hv => (box hv pos).bind fun o m₂ _ ho => ?_
  refine (member o method pos).bind fun function m₃ hl₃ hfunction => ?_
  refine (evaluateArguments arguments).bind fun values m₄ hl₄ hvalues => ?_
  exact callFor (fun h => (hl₄ h).has (hfunction h)) (fun h => ((hl₃ h).trans (hl₄ h)).has (ho h))
    hvalues pos

end Routine

end Eval

end ProtoScript
