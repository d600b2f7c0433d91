import ProtoScript.Proofs.Evaluation.Boxing
import ProtoScript.Proofs.Number.Nearest
import ProtoScript.Proofs.Session.Execute

/-!
# Integer expressions

An expression of integer literals and operators is evaluated through boxes, member lookup and native
functions.  `IntegerExpression.value` evaluates it directly: the left operand, then the right one, then
the operator on the two words.  The two agree, also on which operation fails first and how, and all
that the detour leaves behind is boxes at the end of the heap.

The proof goes operator by operator.  What each native function does with the box of an integer and
with another integer is stated first; then how a message gets to it; and the agreement is one
induction on the expression.
-/

namespace ProtoScript

/-! ## The direct evaluator -/

/-- An expression of integer literals and operators. -/
inductive IntegerExpression where
  | literal (i : Int64) (pos : Position)
  | unary (op : UnaryOperator) (operand : IntegerExpression) (pos : Position)
  | binary (op : BinaryOperator) (left right : IntegerExpression) (pos : Position)

/-- An operation that failed, and where. -/
structure Failure where
  problem : Problem
  pos : Position

namespace Number

/-- The word that stands for a truth value. -/
def truth (b : Bool) : Int64 := if b then 1 else 0

/-- The result of a checked operation. -/
def checked (action : String) : Option Int64 → Except Problem Int64
  | some i => .ok i
  | none => .error (.overflow action)

end Number

open Number

/-- What an operator does with a word. -/
def UnaryOperator.onInteger : UnaryOperator → Int64 → Except Problem Int64
  | minus, i => checked "negate" (neg? i)
  | plus, i => .ok i
  | bang, i => .ok (truth (i == 0))

/-- What an operator does with two words. -/
def BinaryOperator.onIntegers : BinaryOperator → Int64 → Int64 → Except Problem Int64
  | plus, a, b => checked "add" (add? a b)
  | minus, a, b => checked "subtract" (sub? a b)
  | times, a, b => checked "multiply" (mul? a b)
  | divide, a, b => if b = 0 then .error .divisionByZero else checked "divide" (floorDiv? a b)
  | modulo, a, b =>
    if b = 0 then .error .divisionByZero else checked "take the modulo of" (floorMod? a b)
  | less, a, b => .ok (truth (decide (a < b)))
  | lessEqual, a, b => .ok (truth (decide (a ≤ b)))
  | greater, a, b => .ok (truth (decide (b < a)))
  | greaterEqual, a, b => .ok (truth (decide (b ≤ a)))
  | equal, a, b => .ok (truth (a == b))
  | notEqual, a, b => .ok (truth (a != b))
  | and, a, b => .ok (truth (a != 0 && b != 0))
  | or, a, b => .ok (truth (a != 0 || b != 0))
  | bitOr, a, b => .ok (a ||| b)
  | bitAnd, a, b => .ok (a &&& b)
  | identical, a, b => .ok (truth (a == b))

namespace IntegerExpression

/-- The expression as a piece of a program. -/
def expression : IntegerExpression → Expression
  | literal i pos => .literal (.int i) pos
  | unary op operand pos => .unary op operand.expression pos
  | binary op left right pos => .binary op left.expression right.expression pos

/-- The value of the expression: operands first, from left to right, then the operator. -/
def value : IntegerExpression → Except Failure Int64
  | literal i _ => .ok i
  | unary op operand pos => do
    let a ← operand.value
    (op.onInteger a).mapError (⟨·, pos⟩)
  | binary op left right pos => do
    let a ← left.value
    let b ← right.value
    (op.onIntegers a b).mapError (⟨·, pos⟩)

/-- How deep the expression nests. -/
def depth : IntegerExpression → Nat
  | literal _ _ => 1
  | unary _ operand _ => operand.depth + 1
  | binary _ left right _ => max left.depth right.depth + 1

theorem depth_pos (e : IntegerExpression) : 0 < e.depth := by
  cases e <;> exact Nat.succ_pos _

end IntegerExpression

namespace Eval

/-- How a computation ends that has an integer or a failure as its result. -/
def concluded (m : Machine) : Except Failure Int64 → EStateM.Result Interruption Machine Value
  | .ok i => .ok (.int i) m
  | .error f =>
    let d := f.problem.diagnostic m.file f.pos
    .error (.raised d) { m with raised := m.raised ++ [d] }

/-- A computation ends with the given result, and all it has done besides is to add objects to the heap
of the machine that it was started on. -/
def Yields (m : Machine) (ending : EStateM.Result Interruption Machine Value)
    (result : Except Failure Int64) : Prop :=
  ∃ objects, ending = concluded (m.extended objects) result

variable {m : Machine}

/-! ## Putting computations together -/

/-- A computation that ends with its result right away yields it. -/
theorem yields_of_eq {ending : EStateM.Result Interruption Machine Value}
    {result : Except Failure Int64} (h : ending = concluded m result) : Yields m ending result :=
  ⟨[], by rw [h, m.extended_nil]⟩

/-- What is yielded after objects were added is yielded from before. -/
theorem Yields.of_extended {objects : List Object}
    {ending : EStateM.Result Interruption Machine Value} {result : Except Failure Int64}
    (h : Yields (m.extended objects) ending result) : Yields m ending result := by
  obtain ⟨others, hothers⟩ := h
  exact ⟨objects ++ others, by rw [hothers, m.extended_extended]⟩

/-- A failure ends both sides; otherwise the second step goes on with the integer. -/
theorem Yields.bind {x : Eval Value} {f : Value → Eval Value} {result : Except Failure Int64}
    {g : Int64 → Except Failure Int64} (hx : Yields m (x m) result)
    (hf : ∀ objects i, Yields (m.extended objects) (f (.int i) (m.extended objects)) (g i)) :
    Yields m ((x >>= f) m) (result >>= g) := by
  obtain ⟨objects, hx⟩ := hx
  cases result with
  | error e =>
    have hbind := bind_of_error (f := f) hx
    exact ⟨objects, hbind⟩
  | ok i =>
    have hbind := bind_of_ok (f := f) hx
    rw [hbind]
    exact (hf objects i).of_extended

/-! ## Comparing words -/

/-- Words are compared as the integers that they stand for: less. -/
theorem isLT_compare (a b : Int64) : (compare a.toInt b.toInt).isLT = decide (a < b) := by
  rw [Bool.eq_iff_iff, decide_eq_true_iff, Ordering.isLT_iff_eq_lt, Int.compare_eq_lt,
    Int64.lt_iff_toInt_lt]

/-- Words are compared as the integers that they stand for: greater. -/
theorem isGT_compare (a b : Int64) : (compare a.toInt b.toInt).isGT = decide (b < a) := by
  rw [Bool.eq_iff_iff, decide_eq_true_iff, Ordering.isGT_iff_eq_gt, Int.compare_eq_gt,
    Int64.lt_iff_toInt_lt]

/-- Words are compared as the integers that they stand for: less or equal. -/
theorem isLE_compare (a b : Int64) : (compare a.toInt b.toInt).isLE = decide (a ≤ b) := by
  rw [Bool.eq_iff_iff, decide_eq_true_iff, Ordering.isLE_iff_ne_gt, Int.compare_eq_gt,
    Int64.le_iff_toInt_le, Int.not_lt]

/-- Words are compared as the integers that they stand for: greater or equal. -/
theorem isGE_compare (a b : Int64) : (compare a.toInt b.toInt).isGE = decide (b ≤ a) := by
  rw [Bool.eq_iff_iff, decide_eq_true_iff, Ordering.isGE_iff_ne_lt, Int.compare_eq_lt,
    Int64.le_iff_toInt_le, Int.not_lt]

/-! ## What native functions do with integers -/

section

variable {c : NativeCall} {a b : Int64} (ha : unwrap c.this m = .ok (.int a) m)

include ha

/-- Negating an integer is checked. -/
theorem negateNumber_of_int :
    negateNumber c m = concluded m ((checked "negate" (neg? a)).mapError (⟨·, c.pos⟩)) := by
  unfold negateNumber
  rw [bind_of_ok ha]
  simp only
  cases neg? a <;> rfl

variable (hb : unwrap (c.argument 0) m = .ok (.int b) m)

include hb

/-- Two integers are taken as they are. -/
theorem numericOperands_of_ints (action : String) :
    numericOperands action c m = .ok (.int a, .int b) m := by
  unfold numericOperands
  rw [bind_of_ok ha, bind_of_ok hb]
  rfl

/-- Arithmetic on two integers is checked. -/
theorem arithmetic_of_ints (r : ArithmeticRule) :
    arithmetic r c m =
      concluded m ((checked r.action (r.onInts a b)).mapError (⟨·, c.pos⟩)) := by
  unfold arithmetic
  rw [bind_of_ok (numericOperands_of_ints ha hb r.action)]
  simp only [ArithmeticRule.result?]
  cases r.onInts a b <;> rfl

/-- Division of two integers is checked, for a divisor of zero first. -/
theorem division_of_ints (r : ArithmeticRule) :
    division r c m =
      concluded m ((if b = 0 then .error .divisionByZero else checked r.action (r.onInts a b)).mapError
        (⟨·, c.pos⟩)) := by
  have hzero : ((Value.int b).toFloat == 0.0) = (b == 0) := ofInt64_beq_zero b
  unfold division
  rw [bind_of_ok (numericOperands_of_ints ha hb r.action)]
  simp only [hzero, beq_iff_eq]
  by_cases hb' : b = 0
  · rw [if_pos hb', if_pos hb']
    rfl
  · rw [if_neg hb', if_neg hb']
    exact arithmetic_of_ints ha hb r

end

section

variable {o : ObjectRef} {a b : Int64} (ho : m.heap.object o = .boxed a) (pos : Position)

theorem unwrap_argument (receiver : Option ObjectRef) :
    unwrap (NativeCall.argument ⟨receiver, [.int b], pos⟩ 0) m = .ok (.int b) m := rfl

include ho

theorem unwrap_this (arguments : List Value) :
    unwrap (NativeCall.this ⟨some o, arguments, pos⟩) m = .ok (.int a) m :=
  unwrap_of_denotes (.inr ⟨o, rfl, ho⟩)

/-- Arithmetic on a boxed integer and an integer. -/
theorem arithmetic_boxed (r : ArithmeticRule) :
    arithmetic r ⟨some o, [.int b], pos⟩ m =
      concluded m ((checked r.action (r.onInts a b)).mapError (⟨·, pos⟩)) :=
  arithmetic_of_ints (unwrap_this ho pos _) (unwrap_argument pos _) r

/-- Division of a boxed integer by an integer. -/
theorem division_boxed (r : ArithmeticRule) :
    division r ⟨some o, [.int b], pos⟩ m =
      concluded m ((if b = 0 then .error .divisionByZero else checked r.action (r.onInts a b)).mapError
        (⟨·, pos⟩)) :=
  division_of_ints (unwrap_this ho pos _) (unwrap_argument pos _) r

/-- Comparing a boxed integer with an integer. -/
theorem comparison_boxed (mark : String) (accept : Ordering → Bool) :
    comparison mark accept ⟨some o, [.int b], pos⟩ m =
      concluded m (.ok (truth (accept (compare a.toInt b.toInt)))) := by
  unfold comparison
  rw [bind_of_ok (unwrap_this ho pos _), bind_of_ok (unwrap_argument pos _)]
  rfl

/-- Testing a boxed integer and an integer for equality. -/
theorem compareTo_boxed :
    compareTo ⟨some o, [.int b], pos⟩ m = concluded m (.ok (truth (a == b))) := by
  have hequals : (Value.int a).equals (.int b) = (a == b) := by
    rw [Bool.eq_iff_iff, beq_iff_eq, ← Int64.toInt_inj, ← Int.compare_eq_eq]
    exact beq_iff_eq
  unfold compareTo
  rw [bind_of_ok (unwrap_this ho pos _), bind_of_ok (unwrap_argument pos _), hequals]
  rfl

/-- Negating a boxed integer. -/
theorem negateNumber_boxed :
    negateNumber ⟨some o, [], pos⟩ m =
      concluded m ((checked "negate" (neg? a)).mapError (⟨·, pos⟩)) :=
  negateNumber_of_int (unwrap_this ho pos _)

/-- A boxed integer as a number is the integer. -/
theorem identity_boxed : identity ⟨some o, [], pos⟩ m = concluded m (.ok a) := by
  unfold identity
  rw [bind_of_ok (unwrap_this ho pos _)]
  rfl

/-- The logical negation of a boxed integer. -/
theorem negate_boxed (hm : m.Installed) (n : Nat) :
    Yields m (negate (run (n + 1)) ⟨some o, [], pos⟩ m) (.ok (truth (a == 0))) := by
  obtain ⟨objects, htrue⟩ := isTrue_of_denotes hm n (.inr ⟨o, rfl, ho⟩) pos
  refine ⟨objects, ?_⟩
  have hnot : (!(a != 0)) = (a == 0) := Bool.not_not _
  unfold negate
  refine (bind_of_ok htrue).trans ?_
  rw [hnot]
  rfl

/-- Combining the truth values of a boxed integer and an integer. -/
theorem combineTruth_boxed (hm : m.Installed) (n : Nat) (f : Bool → Bool → Bool) :
    Yields m (combineTruth (run (n + 1)) f ⟨some o, [.int b], pos⟩ m)
      (.ok (truth (f (a != 0) (b != 0)))) := by
  obtain ⟨objects, hleft⟩ := isTrue_of_denotes hm n (.inr ⟨o, rfl, ho⟩) pos
  obtain ⟨others, hright⟩ :=
    isTrue_of_denotes (hm.extended objects) n (v := .int b) (i := b) (.inl rfl) pos
  refine ⟨objects ++ others, ?_⟩
  unfold combineTruth
  refine (bind_of_ok hleft).trans ((bind_of_ok hright).trans ?_)
  rw [m.extended_extended]
  rfl

end

/-! ## How messages get to native functions -/

/-- An integer expression is no spread argument. -/
theorem evaluateArguments_integer (self : Work → Eval Value) (e : IntegerExpression) :
    evaluateArguments self [e.expression] =
      (self (.expression e.expression) >>= fun v => pure [v]) := by
  cases e <;> simp [IntegerExpression.expression, evaluateArguments]

/-- What a native function does with the box of an integer and with another integer. -/
def ActsOn (n : Nat) (native : Native) (pos : Position)
    (result : Int64 → Int64 → Except Problem Int64) : Prop :=
  ∀ m o a b, Machine.Installed m → m.heap.object o = .boxed a →
    Yields m (callNative n (run n) native ⟨some o, [.int b], pos⟩ m)
      ((result a b).mapError (⟨·, pos⟩))

/-- The two operands are evaluated from left to right, and then handed to the native function. -/
theorem sendTo_yields (hm : m.Installed) {n : Nat} {left right : IntegerExpression} {method : String}
    {native : Native} {pos : Position} {result : Int64 → Int64 → Except Problem Int64}
    (hmethod : integerMember? method = some (.native native)) (hname : Heap.payload ≠ method)
    (hleft : Yields m (run (n + 1) (.expression left.expression) m) left.value)
    (hright : ∀ m', Machine.Installed m' →
      Yields m' (run (n + 1) (.expression right.expression) m') right.value)
    (hnative : ActsOn n native pos result) :
    Yields m (sendTo (run (n + 1)) left.expression method [right.expression] pos m)
      (do
        let a ← left.value
        let b ← right.value
        (result a b).mapError (⟨·, pos⟩)) := by
  unfold sendTo
  rw [evaluateArguments_integer]
  refine hleft.bind fun objects a => ?_
  have hm₁ := hm.extended objects
  generalize m.extended objects = m₁ at hm₁ ⊢
  have hm₂ := hm₁.extended [.boxed a]
  have ho := m₁.object_extended_singleton (.boxed a)
  refine Yields.of_extended (?_ : Yields (m₁.extended [.boxed a]) _ _)
  rw [bind_of_ok (box_int hm₁ n a pos), bind_of_ok (member_boxed hm₂ ho hmethod hname pos), bind_assoc]
  refine (hright _ hm₂).bind fun others b => ?_
  exact hnative _ _ a b (hm₂.extended others) (Machine.boxed_extended ho others)

section

variable {n : Nat} {native : Native} (pos : Position)

/-- An arithmetic operation acts as its rule says. -/
theorem actsOn_arithmetic (r : ArithmeticRule)
    (h : ∀ c, callNative n (run n) native c = arithmetic r c) :
    ActsOn n native pos fun a b => checked r.action (r.onInts a b) := by
  intro m o a b _ ho
  rw [h]
  exact yields_of_eq (arithmetic_boxed ho pos r)

/-- A division acts as its rule says. -/
theorem actsOn_division (r : ArithmeticRule)
    (h : ∀ c, callNative n (run n) native c = division r c) :
    ActsOn n native pos fun a b =>
      if b = 0 then .error .divisionByZero else checked r.action (r.onInts a b) := by
  intro m o a b _ ho
  rw [h]
  exact yields_of_eq (division_boxed ho pos r)

/-- A comparison acts as the order of words says. -/
theorem actsOn_comparison (mark : String) {accept : Ordering → Bool} {holds : Int64 → Int64 → Bool}
    (haccept : ∀ a b : Int64, accept (compare a.toInt b.toInt) = holds a b)
    (h : ∀ c, callNative n (run n) native c = comparison mark accept c) :
    ActsOn n native pos fun a b => .ok (truth (holds a b)) := by
  intro m o a b _ ho
  rw [h, comparison_boxed ho pos, haccept]
  exact yields_of_eq rfl

/-- A combination of truth values acts on integers as on their truth values. -/
theorem actsOn_combineTruth {f : Bool → Bool → Bool}
    (h : ∀ c, callNative (n + 1) (run (n + 1)) native c = combineTruth (run (n + 1)) f c) :
    ActsOn (n + 1) native pos fun a b => .ok (truth (f (a != 0) (b != 0))) := by
  intro m o a b hm ho
  rw [h]
  exact combineTruth_boxed ho pos hm n f

/-- Equality acts as the equality of words. -/
theorem actsOn_compareTo : ActsOn n .compareTo pos fun a b => .ok (truth (a == b)) :=
  fun _ _ _ _ _ ho => yields_of_eq (compareTo_boxed ho pos)

end

/-- Every operator that is a message finds a native function that does what it does with words. -/
theorem exists_native_of_send {op : BinaryOperator} {method : String}
    (h : op.dispatch = .send method) (n : Nat) (pos : Position) :
    ∃ native, integerMember? method = some (.native native) ∧ Heap.payload ≠ method ∧
      ActsOn (n + 1) native pos op.onIntegers := by
  cases op with
  | plus => cases h; exact ⟨.addNumber, rfl, by decide, actsOn_arithmetic pos .add fun _ => rfl⟩
  | minus => cases h; exact ⟨.subtract, rfl, by decide, actsOn_arithmetic pos .subtract fun _ => rfl⟩
  | times => cases h; exact ⟨.multiply, rfl, by decide, actsOn_arithmetic pos .multiply fun _ => rfl⟩
  | divide => cases h; exact ⟨.divide, rfl, by decide, actsOn_division pos .divide fun _ => rfl⟩
  | modulo => cases h; exact ⟨.modulo, rfl, by decide, actsOn_division pos .modulo fun _ => rfl⟩
  | less => cases h; exact ⟨.isLess, rfl, by decide, actsOn_comparison pos "<" isLT_compare fun _ => rfl⟩
  | lessEqual =>
    cases h; exact ⟨.isLessEqual, rfl, by decide, actsOn_comparison pos "<=" isLE_compare fun _ => rfl⟩
  | greater =>
    cases h; exact ⟨.isGreater, rfl, by decide, actsOn_comparison pos ">" isGT_compare fun _ => rfl⟩
  | greaterEqual =>
    cases h; exact ⟨.isGreaterEqual, rfl, by decide, actsOn_comparison pos ">=" isGE_compare fun _ => rfl⟩
  | equal => cases h; exact ⟨.compareTo, rfl, by decide, actsOn_compareTo pos⟩
  | and => cases h; exact ⟨.conjunction, rfl, by decide, actsOn_combineTruth pos fun _ => rfl⟩
  | or => cases h; exact ⟨.disjunction, rfl, by decide, actsOn_combineTruth pos fun _ => rfl⟩
  | notEqual | bitOr | bitAnd | identical => cases h

/-- An integer that is sent `not` answers whether it is zero. -/
theorem send_not (hm : m.Installed) (n : Nat) (i : Int64) (pos : Position) :
    Yields m (send (run (n + 2)) (.int i) "not" [] pos m) (.ok (truth (i == 0))) := by
  have hmethod : integerMember? "not" = some (.native .negate) := rfl
  obtain ⟨o, objects, ho, hsend⟩ :=
    send_of_denotes hm (n + 1) (v := .int i) (.inl rfl) hmethod (by decide) [] pos
  rw [hsend]
  exact (negate_boxed ho pos (hm.extended objects) n).of_extended

/-! ## Expressions -/

section

variable {n : Nat} {left right : IntegerExpression} (hm : m.Installed)
  (hleft : Yields m (run (n + 2) (.expression left.expression) m) left.value)
  (hright : ∀ m', Machine.Installed m' →
    Yields m' (run (n + 2) (.expression right.expression) m') right.value) (pos : Position)

include hm hleft

/-- A unary operator yields what it is said to, if its operand does. -/
theorem unary_yields (op : UnaryOperator) :
    Yields m (sendTo (run (n + 2)) left.expression op.method [] pos m)
      (IntegerExpression.unary op left pos).value := by
  have hsend (m' : Machine) (hm' : m'.Installed) (a : Int64) :
      Yields m' (send (run (n + 2)) (.int a) op.method [] pos m')
        ((op.onInteger a).mapError (⟨·, pos⟩)) := by
    cases op with
    | bang => exact send_not hm' n a pos
    | minus =>
      have hmethod : integerMember? "neg" = some (.native .negateNumber) := rfl
      obtain ⟨o, objects, ho, hsend⟩ :=
        send_of_denotes hm' (n + 1) (v := .int a) (.inl rfl) hmethod (by decide) [] pos
      exact ⟨objects, hsend.trans (negateNumber_boxed ho pos)⟩
    | plus =>
      have hmethod : integerMember? "pos" = some (.native .identity) := rfl
      obtain ⟨o, objects, ho, hsend⟩ :=
        send_of_denotes hm' (n + 1) (v := .int a) (.inl rfl) hmethod (by decide) [] pos
      exact ⟨objects, hsend.trans (identity_boxed ho pos)⟩
  exact hleft.bind fun objects a => hsend _ (hm.extended objects) a

include hright

/-- Whether two integers differ is asked in two messages: `compare`, and `not` to the answer. -/
theorem notEqual_yields :
    Yields m (binary (run (n + 2)) .notEqual left.expression right.expression pos m)
      (IntegerExpression.binary .notEqual left right pos).value := by
  have hname : Heap.payload ≠ "compare" := by decide
  have hequal := sendTo_yields hm rfl hname hleft hright (actsOn_compareTo pos)
  have hboth := hequal.bind (f := fun v => send (run (n + 2)) v "not" [] pos)
    (g := fun i => .ok (truth (i == 0))) fun objects i => send_not (hm.extended objects) n i pos
  have hnot (a b : Int64) : truth (truth (a == b) == 0) = truth (a != b) := by
    by_cases hab : a = b <;> simp [truth, hab]
  have hvalue : (IntegerExpression.binary .notEqual left right pos).value = (do
      let i ← (do
        let a ← left.value
        let b ← right.value
        (Except.ok (truth (a == b)) : Except Problem Int64).mapError (⟨·, pos⟩))
      .ok (truth (i == 0))) := by
    rw [IntegerExpression.value]
    cases left.value with
    | error f => rfl
    | ok a =>
      cases right.value with
      | error f => rfl
      | ok b => exact congrArg Except.ok (hnot a b).symm
  rw [hvalue]
  exact hboth

/-- The operators that the language decides by itself. -/
theorem builtIn_yields {op : BinaryOperator} (hop : op.dispatch = .builtIn) :
    Yields m (binary (run (n + 2)) op left.expression right.expression pos m)
      (IntegerExpression.binary op left right pos).value := by
  unfold binary
  rw [hop]
  refine hleft.bind fun objects a => (hright _ (hm.extended objects)).bind fun others b => ?_
  cases op with
  | bitOr | bitAnd | identical => exact yields_of_eq rfl
  | _ => cases hop

/-- A binary operator yields what it is said to, if its operands do. -/
theorem binary_yields (op : BinaryOperator) :
    Yields m (binary (run (n + 2)) op left.expression right.expression pos m)
      (IntegerExpression.binary op left right pos).value := by
  cases hdispatch : op.dispatch with
  | send method =>
    obtain ⟨native, hmethod, hname, hnative⟩ := exists_native_of_send hdispatch n pos
    unfold binary
    rw [hdispatch]
    exact sendTo_yields hm hmethod hname hleft hright hnative
  | sendThenNegate method =>
    cases op with
    | notEqual => exact notEqual_yields hm hleft hright pos
    | _ => cases hdispatch
  | builtIn => exact builtIn_yields hm hleft hright pos hdispatch

end

/-- Evaluating an integer expression yields its value, as long as the bound on nesting is above its
depth. -/
theorem run_integer (e : IntegerExpression) {m : Machine} (hm : m.Installed) {n : Nat}
    (hn : e.depth < n) : Yields m (run n (.expression e.expression) m) e.value := by
  induction e generalizing m n with
  | literal i pos =>
    obtain ⟨k, rfl⟩ : ∃ k, n = k + 1 := ⟨n - 1, by omega⟩
    exact yields_of_eq rfl
  | unary op operand pos ih =>
    have hdepth : 1 ≤ operand.depth := operand.depth_pos
    simp only [IntegerExpression.depth] at hn
    obtain ⟨k, rfl⟩ : ∃ k, n = k + 3 := ⟨n - 3, by omega⟩
    exact unary_yields hm (ih hm (by omega)) pos op
  | binary op left right pos ihleft ihright =>
    have hdepth : 1 ≤ left.depth := left.depth_pos
    simp only [IntegerExpression.depth] at hn
    obtain ⟨k, rfl⟩ : ∃ k, n = k + 3 := ⟨n - 3, by omega⟩
    exact binary_yields hm (ihleft hm (by omega)) (fun m' hm' => ihright hm' (by omega)) pos op

end Eval

/-- The machine has more objects than before, and otherwise nothing has changed but the record of
errors. -/
structure Machine.OnlyAdds (m m' : Machine) : Prop where
  objects_le : m.heap.objects.size ≤ m'.heap.objects.size
  object_eq : ∀ o : ObjectRef, o.index < m.heap.objects.size → m'.heap.object o = m.heap.object o
  arrays_eq : m'.heap.arrays = m.heap.arrays
  scopes_eq : m'.scopes = m.scopes
  current_eq : m'.current = m.current
  operands_eq : m'.operands = m.operands
  file_eq : m'.file = m.file
  loads_eq : m'.loads = m.loads
  host_eq : m'.host = m.host
  events_eq : m'.events = m.events

/-- Adding objects and recording errors only adds something. -/
theorem Machine.onlyAdds_extended (m : Machine) (objects : List Object) (raised : List Diagnostic) :
    m.OnlyAdds { m.extended objects with raised } where
  objects_le := (Heap.grown_append m.heap objects []).objects_le
  object_eq _ ho := object_extended_of_lt objects ho
  arrays_eq := by simp [extended, Heap.append]
  scopes_eq := rfl
  current_eq := rfl
  operands_eq := rfl
  file_eq := rfl
  loads_eq := rfl
  host_eq := rfl
  events_eq := rfl

/-- Evaluating an integer expression through messages gives what the direct evaluator gives: the same
integer, or the first failure in its order, raised at the place of the operator that failed.  Nothing
that was there before has changed. -/
theorem integers_evaluate_directly (e : IntegerExpression) {m : Machine} (hm : m.Installed) {n : Nat}
    (hn : e.depth < n) :
    ∃ m', m.OnlyAdds m' ∧
      match e.value with
      | .ok i => Eval.run n (.expression e.expression) m = .ok (.int i) m' ∧ m'.raised = m.raised
      | .error f =>
        Eval.run n (.expression e.expression) m =
            .error (.raised (f.problem.diagnostic m.file f.pos)) m' ∧
          m'.raised = m.raised ++ [f.problem.diagnostic m.file f.pos] := by
  obtain ⟨objects, hrun⟩ := Eval.run_integer e hm hn
  cases hvalue : e.value with
  | ok i =>
    rw [hvalue] at hrun
    exact ⟨m.extended objects, m.onlyAdds_extended objects m.raised, hrun, rfl⟩
  | error f =>
    rw [hvalue] at hrun
    exact ⟨_, m.onlyAdds_extended objects _, hrun, rfl⟩

/-- `3 - 5 % 0 / (2 * 9223372036854775807)`: the remainder fails before the product, which would
overflow. -/
def IntegerExpression.twiceFailing : IntegerExpression :=
  .binary .minus (.literal 3 ⟨1, 1⟩)
    (.binary .divide (.binary .modulo (.literal 5 ⟨1, 5⟩) (.literal 0 ⟨1, 9⟩) ⟨1, 7⟩)
      (.binary .times (.literal 2 ⟨1, 14⟩) (.literal 9223372036854775807 ⟨1, 18⟩) ⟨1, 16⟩) ⟨1, 11⟩)
    ⟨1, 3⟩

/-- The first of two failing operations is reported, at its own place. -/
theorem integers_evaluate_directly_twiceFailing :
    Machine.bare.Installed ∧ IntegerExpression.twiceFailing.depth < 5 ∧
      ∃ m', Machine.bare.OnlyAdds m' ∧
        Eval.run 5 (.expression IntegerExpression.twiceFailing.expression) .bare =
          .error (.raised (Problem.divisionByZero.diagnostic "main" ⟨1, 7⟩)) m' ∧
        m'.raised = [Problem.divisionByZero.diagnostic "main" ⟨1, 7⟩] := by
  have hbare : Machine.bare.Installed := Machine.fresh_installed "main" (.replayed []) []
  have hdepth : IntegerExpression.twiceFailing.depth < 5 := by decide
  obtain ⟨m', hadds, hrun, hraised⟩ := integers_evaluate_directly IntegerExpression.twiceFailing hbare hdepth
  exact ⟨hbare, hdepth, m', hadds, hrun, hraised⟩

end ProtoScript
