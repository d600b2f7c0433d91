import ProtoScript.Eval.Statement
import ProtoScript.Proofs.Routine.Message

/-!
# Expressions that are routines

Looking a variable up is a look at the machine, so most expressions are routines: operations, calls,
accesses to members and elements, and assignments to these.  Two kinds of expressions are not, since
they write to variables by themselves: an assignment to a variable, and an object literal, whose
members are variables as long as it is evaluated.
-/

namespace ProtoScript

/-- An expression that writes to no variable by itself. -/
def Expression.IsRoutine : Expression → Prop
  | .assign (.variable _ _) _ _ | .object _ _ => False
  | _ => True

/-- An expression is an assignment to a variable, an object literal, or a routine. -/
theorem Expression.routine_cases (e : Expression) :
    (∃ name pos' value pos, e = .assign (.variable name pos') value pos) ∨
      (∃ members pos, e = .object members pos) ∨ e.IsRoutine := by
  match e with
  | .assign (.variable name pos') value pos => exact .inl ⟨name, pos', value, pos, rfl⟩
  | .object members pos => exact .inr (.inl ⟨members, pos, rfl⟩)
  | .assign (.literal ..) .. | .assign (.unary ..) .. | .assign (.binary ..) ..
  | .assign (.assign ..) .. | .assign (.call ..) .. | .assign (.member ..) ..
  | .assign (.index ..) .. | .assign (.procedure ..) .. | .assign (.array ..) ..
  | .assign (.object ..) .. | .assign (.splat ..) .. | .assign (.mixin ..) .. => exact .inr (.inr trivial)
  | .literal .. | .variable .. | .unary .. | .binary .. | .call .. | .member .. | .index ..
  | .procedure .. | .array .. | .splat .. | .mixin .. => exact .inr (.inr trivial)

namespace Eval

/-- What a core variable holds is in the heap. -/
theorem has_globalType {m : Machine} {name : String} {t : ObjectRef}
    (ht : m.globalType? name = some t) : m.heap.Has (.object t) := by
  obtain ⟨-, -, -, htype⟩ := Machine.globalType?_eq_some_iff.mp ht
  exact Heap.has_of_isType htype

namespace Routine

variable {sure : Prop} {self other : Work → Eval Value} {m : Machine}

/-- Looking up a variable. -/
theorem lookupVariable (name : String) (pos : Position) :
    Routine sure self other m (Eval.lookupVariable name pos) (Eval.lookupVariable name pos)
      Present := by
  refine .read (fun _ _ => rfl) fun m' hl => ?_
  split
  · rename_i c hc
    refine .pure fun h => ?_
    rcases hv : (m'.scopes.cell c).contents with _ | v
    · simp [Present, Cell.value, hv, Heap.Has]
    · simp only [Present, Cell.value, hv, Option.getD_some]
      exact (hl h).is_steady.contents c v hv
  · exact .raise rfl pos

/-! ## Calls -/

/-- Calling something that is no function: an object may have a member for it, and anything else is
boxed. -/
theorem callOther {v : Value} (hv : sure → m.heap.Has v) {receiver : Option ObjectRef}
    (hreceiver : sure → ∀ o, receiver = some o → m.heap.Has (.object o)) {arguments : List Value}
    (harguments : sure → AllPresent arguments m) (pos : Position) :
    Routine sure self other m (Eval.callOther self v receiver arguments pos)
      (Eval.callOther other v receiver arguments pos) Present := by
  have hboxed : Routine sure self other m
      (do
        let o ← Eval.box self v pos
        self (.call (.object o) receiver arguments pos))
      (do
        let o ← Eval.box other v pos
        other (.call (.object o) receiver arguments pos)) Present :=
    (box hv pos).bind fun o m₁ hl₁ ho => .work _ fun h =>
      ⟨ho h, fun o' ho' => (hl₁ h).has (hreceiver h o' ho'), (hl₁ h).all (harguments h)⟩
  cases v with
  | object o =>
    refine .read (fun _ _ => rfl) fun m₁ hl₁ => ?_
    dsimp only
    cases hcall : m₁.heap.lookup? o "call" with
    | some function =>
      refine (newArray fun h => (hl₁ h).all (harguments h)).bind fun packed m₂ hl₂ hpacked => ?_
      exact callFor (fun h => (hl₂ h).has ((hl₁ h).is_steady.closed.has_lookup hcall))
        (fun h => ((hl₁ h).trans (hl₂ h)).has (hv h)) (fun h => allPresent_singleton (hpacked h)) pos
    | none => exact .raise rfl pos
  | _ => exact hboxed

/-- A call in an expression: of a member of something, or of the value of the callee. -/
theorem callExpression (callee : Expression) (arguments : List Expression) (pos : Position) :
    Routine sure self other m (Eval.callExpression self callee arguments pos)
      (Eval.callExpression other callee arguments pos) Present := by
  have hplain (callee : Expression) : Routine sure self other m
      (do
        let function ← self (.expression callee)
        let values ← Eval.evaluateArguments self arguments
        self (.call function none values pos))
      (do
        let function ← other (.expression callee)
        let values ← Eval.evaluateArguments other arguments
        other (.call function none values pos)) Present := by
    refine (expression callee).bind fun function m₁ _ hfunction => ?_
    refine (evaluateArguments arguments).bind fun values m₂ hl₂ hvalues => ?_
    exact callFree (fun h => (hl₂ h).has (hfunction h)) hvalues pos
  cases callee with
  | member target name _ => exact sendTo target name arguments pos
  | _ => exact hplain _

/-! ## Operators and objects -/

/-- Making an object of members. -/
theorem makeObject (ds : List Declaration) {members : Members}
    (hmembers : sure → m.heap.HasMembers members) :
    Routine sure self other m (Eval.makeObject ds members) (Eval.makeObject ds members) Present := by
  refine .read (fun _ _ => rfl) fun m₁ hl₁ => ?_
  have hobject : sure → m₁.heap.HasObject
      (if describesType ds then .type "" (m₁.globalType? "Object") members false
        else .plain (m₁.globalType? "Object") members) := by
    intro h
    have hmembers₁ := (hl₁ h).grows.heap.hasMembers (hmembers h)
    split
    · exact ⟨hmembers₁, fun _ hp => has_globalType hp, nofun, nofun⟩
    · exact ⟨hmembers₁, fun _ hp => has_globalType hp, nofun, nofun⟩
  exact (newObject hobject).bind fun _ _ _ ho => .pure ho

/-- The operators that the language decides by itself. -/
theorem builtInBinary (op : BinaryOperator) (left right : Value) (pos : Position) :
    Routine sure self other m (Eval.builtInBinary op left right pos)
      (Eval.builtInBinary op left right pos) Present := by
  refine .read (fun _ _ => rfl) fun m₁ hl₁ => ite (fun _ => .pure fun _ => trivial) fun _ => ?_
  split
  · exact .pure fun _ => trivial
  · rename_i a b _ _
    refine ite (fun htypes => ?_) fun _ => .raise rfl pos
    obtain ⟨ha, hb⟩ := Bool.and_eq_true_iff.mp htypes
    have hmade {m' : Machine} {o : Object} (ho : sure → m'.heap.HasObject o) :
        Routine sure self other m' (do return Value.object (← Eval.newObject o))
          (do return Value.object (← Eval.newObject o)) Present :=
      (newObject ho).bind fun _ _ _ hmade => .pure hmade
    dsimp only
    refine ite (fun _ => value (hmade fun _ => ?_)) fun _ => ?_
    · refine ⟨Heap.hasMembers_empty _, fun _ hp => has_globalType hp, fun l r hkind => ?_, nofun⟩
      obtain ⟨rfl, rfl⟩ := ObjectKind.union.inj hkind
      exact ⟨ha, hb⟩
    · refine (withHeap (Q := fun o m' => m'.heap.HasObject o) (fun h => h.lengthened_merge _ _ _)
        fun _ hm₁ => ?_).bind fun o _ _ ho => hmade ho
      exact hm₁.closed.merge (fun _ _ ht => m₁.isType_of_runtimeType? ht) a b
  · exact .raise rfl pos

/-- An operation on two expressions. -/
theorem binary (op : BinaryOperator) (left right : Expression) (pos : Position) :
    Routine sure self other m (Eval.binary self op left right pos)
      (Eval.binary other op left right pos) Present := by
  unfold Eval.binary
  cases op.dispatch with
  | send method => exact sendTo left method [right] pos
  | sendThenNegate method =>
    exact (sendTo left method [right] pos).bind fun result _ _ hresult =>
      send hresult "not" (fun _ => allPresent_nil) pos
  | builtIn =>
    exact (expression left).bind fun l _ _ _ => (expression right).bind fun r _ _ _ =>
      builtInBinary op l r pos

/-! ## Expressions -/

/-- An assignment to anything but a variable. -/
theorem assign {target : Expression} (htarget : ∀ name pos, target ≠ .variable name pos)
    (value : Expression) (pos : Position) :
    Routine sure self other m (Eval.assign self target value pos) (Eval.assign other target value pos)
      Present := by
  match target with
  | .variable name pos' => exact absurd rfl (htarget name pos')
  | .member object name _ =>
    refine (expression object).bind fun v _ _ hv => (box hv pos).bind fun o _ _ _ => ?_
    refine (expression value).bind fun v _ _ hv => ?_
    exact (assignMember o name hv).bind fun _ _ hl _ => .pure fun h => (hl h).has (hv h)
  | .index object key _ => exact sendTo object "set" [key, value] pos
  | .literal .. | .unary .. | .binary .. | .assign .. | .call .. | .procedure .. | .array ..
  | .object .. | .splat .. | .mixin .. => exact .raise rfl pos

/-- Evaluating several expressions. -/
theorem evaluateAll (es : List Expression) :
    Routine sure self other m (Eval.evaluateAll self es) (Eval.evaluateAll other es) AllPresent := by
  induction es generalizing m with
  | nil => exact .pure fun _ => allPresent_nil
  | cons e es ih =>
    refine (expression e).bind fun first _ _ hfirst => ih.bind fun rest _ hl hrest => ?_
    refine .pure fun h v hv => ?_
    rcases List.mem_cons.mp hv with rfl | hv
    · exact (hl h).has (hfirst h)
    · exact hrest h v hv

/-- Evaluating an expression that writes to no variable by itself. -/
theorem evaluate {e : Expression} (he : e.IsRoutine) :
    Routine sure self other m (Eval.evaluate self e) (Eval.evaluate other e) Present := by
  match e with
  | .literal value _ =>
    refine .pure fun _ => ?_
    cases value <;> trivial
  | .variable name pos => exact lookupVariable name pos
  | .unary op operand pos => exact sendTo operand op.method [] pos
  | .binary op left right pos => exact binary op left right pos
  | .assign target value pos =>
    refine assign (fun name pos' htarget => ?_) value pos
    subst htarget
    exact he
  | .call callee arguments pos => exact callExpression callee arguments pos
  | .member target name pos =>
    exact (expression target).bind fun v _ _ hv => (box hv pos).bind fun o _ _ _ => member o name pos
  | .index target key pos => exact sendTo target "at" [key] pos
  | .procedure p => exact .pure fun _ => trivial
  | .array elements _ => exact (evaluateAll elements).bind fun vs _ _ hvs => newArray hvs
  | .object members pos => exact False.elim he
  | .splat _ pos => exact .raise rfl pos
  | .mixin tokens _ => exact .pure fun _ => trivial

/-- Asking the value of an expression whether it counts as true. -/
theorem holds (e : Expression) :
    Routine sure self other m (Eval.holds self e) (Eval.holds other e) Anything :=
  (expression e).bind fun _ _ _ hv => isTrue hv e.pos

end Routine

end Eval

end ProtoScript
