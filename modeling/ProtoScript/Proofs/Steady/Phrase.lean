import ProtoScript.Eval.Statement
import ProtoScript.Proofs.Steady.Call

/-!
# Expressions and statements are safe

A variable gets its value in three places: where it is declared, where a macro is defined, and where it
is assigned to.  A declaration evaluates the type, declares the variable, evaluates the value, and only
then checks it; the value may be named in between, which does not change what nominal types it belongs
to.  An assignment looks the variable up after the value was evaluated, and checks the value against the
type that the variable was declared with.

An assignment may be to a core variable.  The machine is orderly even then, and lands if the core
variables still hold the core types: the assignment settles, but need not be safe.
-/

namespace ProtoScript

namespace Eval

/-- The machine on which a computation ends. -/
def ended {α : Type} : EStateM.Result Interruption Machine α → Machine
  | .ok _ m | .error _ m => m

/-- From a machine, a computation agrees with another one, and lands if the core variables hold the core
types when it ends, unless it was cut off. -/
def SettlesAt (cut : Interruption) (m : Machine) (x y : Eval Value) : Prop :=
  (x m = y m ∧ ((ended (x m)).KeepsCore → Lands m Present (x m))) ∨ ∃ m', x m = .error cut m'

section

variable {cut : Interruption} {m : Machine} {self other : Work → Eval Value}

/-- What is safe settles. -/
theorem SafeAt.settles {x y : Eval Value} (hx : SafeAt cut m x y Present) : SettlesAt cut m x y :=
  hx.imp_left fun ⟨hagree, hlands⟩ => ⟨hagree, fun _ => hlands⟩

/-- What comes after a safe step may settle. -/
theorem SettlesAt.bind {α : Type} {x y : Eval α} {f g : α → Eval Value} {P : α → Machine → Prop}
    (hx : SafeAt cut m x y P)
    (hf : ∀ a m₁, m.Leads m₁ → P a m₁ → SettlesAt cut m₁ (f a) (g a)) :
    SettlesAt cut m (x >>= f) (y >>= g) := by
  rcases hx with ⟨hagree, hlands⟩ | ⟨m₁, hcut⟩
  · cases hres : x m with
    | ok a m₁ =>
      rw [hres] at hlands hagree
      have hnext := hf a m₁ hlands.1 hlands.2
      unfold SettlesAt at hnext ⊢
      rw [bind_of_ok hres, bind_of_ok hagree.symm]
      exact hnext.imp_left fun ⟨hagree', hlands'⟩ =>
        ⟨hagree', fun hcore => (hlands' hcore).trans hlands.1⟩
    | error e m₁ =>
      rw [hres] at hlands hagree
      unfold SettlesAt
      rw [bind_of_error hres, bind_of_error hagree.symm]
      exact .inl ⟨rfl, fun _ => hlands⟩
  · exact .inr ⟨m₁, bind_of_error hcut⟩

/-- What is done with the machine itself may settle. -/
theorem SettlesAt.get {f g : Machine → Eval Value} (hf : SettlesAt cut m (f m) (g m)) :
    SettlesAt cut m (MonadState.get >>= f) (MonadState.get >>= g) :=
  hf

namespace SafeAt

/-! ## Declarations -/

/-- The type of a declaration is a type. -/
theorem declaredType (h : Reliable cut self other) (hm : m.Steady) (d : Declaration) :
    SafeAt cut m (Eval.declaredType self d) (Eval.declaredType other d)
      fun type m' => ∀ t, type = some t → m'.heap.isType t = true := by
  unfold Eval.declaredType
  cases d.type with
  | some e =>
    refine (evaluateType h hm e).bind fun type m₁ hl₁ htype => pure hl₁.is_steady fun t ht => ?_
    obtain rfl := Option.some.inj ht
    exact htype
  | none => exact pure hm nofun

/-- A check leaves the machine as it is, and after it the variable may be given the value. -/
theorem checkDeclared (hm : m.Steady) (v : Value) (type : Option ObjectRef) (pos : Position) :
    SafeAt cut m (Eval.checkDeclared v type pos) (Eval.checkDeclared v type pos)
      fun _ m' => m' = m ∧ ∀ d, type = some d → m.heap.IsNominal d → m.heap.Belongs v d := by
  cases type with
  | some t =>
    refine (typecheck hm v t pos).mono fun _ m' _ ⟨hsame, hbelongs⟩ => ⟨hsame, fun d hd => ?_⟩
    obtain rfl := Option.some.inj hd
    exact hbelongs
  | none => exact pure hm ⟨rfl, nofun⟩

/-- Filling a declared cell with a value that fits its type is safe. -/
theorem settle (hm : m.Steady) (name : String) {type : Option ObjectRef} {c : CellRef} {v : Value}
    (hc : Declared type c m) (hv : m.heap.Has v) (hfit : Fitting m type v) :
    SafeAt cut m (Eval.settle name c v) (Eval.settle name c v) Present := by
  have hput {m₁ : Machine} (hl₁ : m.Leads m₁) : SafeAt cut m₁
      (do
        Eval.putCell c v
        return v)
      (do
        Eval.putCell c v
        return v) Present := by
    have hbelongs := hfit.leads hm hl₁ hv
    refine (putCell hl₁.is_steady (hc.leads hl₁) (hl₁.has hv) fun d hd => (hbelongs d hd).2).bind
      fun _ m₂ hl₂ _ => ?_
    exact pure hl₂.is_steady ((hl₁.trans hl₂).has hv)
  cases v with
  | object o => exact (modifyHeap hm (hm.closed.nameObject o name)).bind fun _ m₁ hl₁ _ => hput hl₁
  | _ => exact value (hput (.refl hm))

/-- Running a declaration is safe. -/
theorem runDeclaration (h : Reliable cut self other) (hm : m.Steady) (d : Declaration) :
    SafeAt cut m (Eval.runDeclaration self d) (Eval.runDeclaration other d) Present := by
  unfold Eval.runDeclaration
  refine (declaredType h hm d).bind fun type m₁ hl₁ htype => ?_
  refine (declare hl₁.is_steady d.name htype d.pos).bind fun c m₂ hl₂ hc => ?_
  cases d.value with
  | none => exact pure hl₂.is_steady trivial
  | some e =>
    refine (expression h hl₂.is_steady e).bind fun v m₃ hl₃ hv => ?_
    refine (checkDeclared hl₃.is_steady v type d.pos).bind ?_
    rintro _ m₄ - ⟨rfl, hbelongs⟩
    refine settle hl₃.is_steady d.name (hc.leads hl₃) hv fun t ht => ?_
    exact ⟨(hl₂.trans hl₃).grows.heap.isType (htype t ht), hbelongs t ht⟩

/-! ## Objects -/

/-- Evaluating the members of an object is safe, and their values are in the heap. -/
theorem objectMembers (h : Reliable cut self other) (hm : m.Steady) (ds : List Declaration)
    {members : Members} (hmembers : m.heap.HasMembers members) :
    SafeAt cut m (Eval.objectMembers self members ds) (Eval.objectMembers other members ds)
      fun found m' => m'.heap.HasMembers found := by
  induction ds generalizing members m with
  | nil => exact pure hm hmembers
  | cons d ds ih =>
    have hnext {m₁ : Machine} (hl₁ : m.Leads m₁) {v : Value} (hv : m₁.heap.Has v) :=
      ih hl₁.is_steady ((hl₁.grows.heap.hasMembers hmembers).insert hv d.name)
    unfold Eval.objectMembers
    dsimp only
    cases d.value with
    | some e => exact (runDeclaration h hm d).bind fun v m₁ hl₁ hv => hnext hl₁ hv
    | none =>
      cases d.type with
      | none => exact (runDeclaration h hm d).bind fun v m₁ hl₁ hv => hnext hl₁ hv
      | some e =>
        refine (evaluateType h hm e).bind fun type m₁ hl₁ htype => ?_
        have hdeclared : ∀ t, some type = some t → m₁.heap.isType t = true := by
          intro t ht
          obtain rfl := Option.some.inj ht
          exact htype
        refine (declare hl₁.is_steady d.name hdeclared d.pos).discard.bind fun _ m₂ hl₂ _ => value ?_
        exact hnext (hl₁.trans hl₂) (Heap.has_of_isType (hl₂.grows.heap.isType htype))

/-- An object literal goes back to the scope where it started, however its members end. -/
theorem objectLiteral (h : Reliable cut self other) (hm : m.Steady) (ds : List Declaration) :
    SafeAt cut m (Eval.objectLiteral self ds) (Eval.objectLiteral other ds) Present := by
  unfold Eval.objectLiteral
  refine get ((openScope hm).bind fun _ m₁ hl₁ _ => ?_)
  refine (objectMembers h hl₁.is_steady ds (Heap.hasMembers_empty _)).observe ?_ ?_ ?_
  · intro members m₂ hl₂ hmembers
    refine (modified (hl₂.is_steady.same rfl rfl rfl)).bind fun _ m₃ hl₃ _ => ?_
    exact Routine.safe h hl₃.is_steady
      (.makeObject ds fun _ => hl₃.grows.heap.hasMembers hmembers)
  · intro e m₂ hl₂
    refine (modified (hl₂.is_steady.same rfl rfl rfl)).bind fun _ m₃ hl₃ _ => ?_
    exact throw hl₃.is_steady e
  · intro m₂
    exact ⟨_, rfl⟩

/-! ## Assignments -/

end SafeAt

/-- An assignment to a variable, which may be a core variable. -/
theorem SettlesAt.assign_variable (h : Reliable cut self other) (hm : m.Steady) (name : String)
    (pos' : Position) (value : Expression) (pos : Position) :
    SettlesAt cut m (Eval.assign self (.variable name pos') value pos)
      (Eval.assign other (.variable name pos') value pos) := by
  refine .bind (SafeAt.expression h hm value) fun v m₁ hl₁ hv => ?_
  refine .get ?_
  cases m₁.scopes.find? m₁.current name with
  | none => exact (SafeAt.raise hl₁.is_steady _ pos).settles
  | some c =>
    refine .bind (SafeAt.checkDeclared hl₁.is_steady v _ pos) ?_
    rintro _ m₂ - ⟨rfl, hbelongs⟩
    obtain ⟨horderly, hgrows⟩ := hl₁.is_steady.put_orderly hv hbelongs
    exact .inl ⟨rfl, fun hcore => ⟨⟨⟨horderly, hcore⟩, hgrows⟩, hv⟩⟩

namespace SafeAt

/-! ## Expressions -/

/-- Evaluating an expression is safe, unless it assigns to a variable. -/
theorem evaluate (h : Reliable cut self other) (hm : m.Steady) {e : Expression}
    (he : ∀ name pos' value pos, e ≠ .assign (.variable name pos') value pos) :
    SafeAt cut m (Eval.evaluate self e) (Eval.evaluate other e) Present := by
  obtain ⟨name, pos', value, pos, heq⟩ | ⟨members, pos, rfl⟩ | hroutine := e.routine_cases
  · exact absurd heq (he name pos' value pos)
  · exact objectLiteral h hm members
  · exact Routine.safe h hm (.evaluate hroutine)

/-! ## Statements -/

/-- Running a block is safe. -/
theorem runBlock (h : Reliable cut self other) (hm : m.Steady) (b : Block) :
    SafeAt cut m (Eval.runBlock self b) (Eval.runBlock other b) Anything := by
  refine (openScope hm).bind fun _ m₁ hl₁ _ => ?_
  exact (runStatements h hl₁.is_steady b.statements).bind fun _ m₂ hl₂ _ =>
    closeScope hl₂.is_steady b.pos

/-- Running the first branch that holds is safe. -/
theorem runBranches (h : Reliable cut self other) (hm : m.Steady) (otherwise : Option Block)
    (bs : List Branch) :
    SafeAt cut m (Eval.runBranches self otherwise bs) (Eval.runBranches other otherwise bs)
      Anything := by
  induction bs generalizing m with
  | nil =>
    cases otherwise with
    | some b => exact runBlock h hm b
    | none => exact pure hm trivial
  | cons b bs ih =>
    refine (holds h hm b.condition).bind fun _ m₁ hl₁ _ => ?_
    exact ite (fun _ => runBlock h hl₁.is_steady b.body) fun _ => ih hl₁.is_steady

/-- Defining a macro is safe. -/
theorem runMacroDefinition (h : Reliable cut self other) (hm : m.Steady) (name : String)
    (body : Procedure) (pos : Position) :
    SafeAt cut m (Eval.runMacroDefinition self name body pos)
      (Eval.runMacroDefinition other name body pos) Present := by
  refine (lookupVariable h hm "Macro" pos).bind fun type m₁ hl₁ htype => ?_
  have hbody : m₁.heap.Has (.procedure body) := trivial
  refine (send h hl₁.is_steady htype "new" (allPresent_singleton hbody) pos).bind
    fun made m₂ hl₂ hmade => ?_
  have huntyped : ∀ d, none = some d → m₂.heap.isType d = true := nofun
  refine (declare hl₂.is_steady name huntyped pos).bind fun c m₃ hl₃ hc => ?_
  refine (putCell hl₃.is_steady hc (hl₃.has hmade) nofun).bind fun _ m₄ hl₄ _ => ?_
  exact pure hl₄.is_steady ((hl₃.trans hl₄).has hmade)

/-- The statements of an import are safe, also those that come after one that fails. -/
theorem runImported (h : Reliable cut self other) (hm : m.Steady) (scope : ScopeRef) (height : Nat)
    {last : Value} (hlast : m.heap.Has last) (ss : List Statement) :
    SafeAt cut m (Eval.runImported self scope height last ss)
      (Eval.runImported other scope height last ss) Present := by
  induction ss generalizing last m with
  | nil => exact pure hm hlast
  | cons s ss ih =>
    have hs : SafeAt cut m (self (.statement s)) (other (.statement s)) Present := work h hm trivial
    refine hs.observe ?_ ?_ ?_
    · intro v m₁ hl₁ hv
      exact ih hl₁.is_steady hv
    · intro e m₁ hl₁
      cases e with
      | raised d =>
        refine (modified (hl₁.is_steady.same rfl rfl rfl)).bind fun _ m₂ hl₂ _ => ?_
        refine (unwindTo hl₂.is_steady height).bind fun _ m₃ hl₃ _ => ?_
        exact ih hl₃.is_steady (((hl₁.trans hl₂).trans hl₃).has hlast)
      | _ => exact throw hl₁.is_steady _
    · intro m₁
      have hfinal := h.final
      cases cut with
      | raised d => exact hfinal.elim
      | _ => exact ⟨_, rfl⟩

/-- Running an import is safe. -/
theorem runImport (h : Reliable cut self other) (hm : m.Steady) (file : String)
    (statements : List Statement) :
    SafeAt cut m (Eval.runImport self file statements) (Eval.runImport other file statements)
      Present := by
  unfold Eval.runImport
  refine get (get (get ?_))
  refine (modified (hm.same rfl rfl rfl)).bind fun _ m₁ hl₁ _ => ?_
  have hnull : m₁.heap.Has .null := trivial
  refine (runImported h hl₁.is_steady _ _ hnull statements).observe ?_ ?_ ?_
  · intro v m₂ hl₂ hv
    refine (modified (hl₂.is_steady.same rfl rfl rfl)).bind fun _ m₃ hl₃ _ => ?_
    exact pure hl₃.is_steady (hl₃.has hv)
  · intro e m₂ hl₂
    refine (modified (hl₂.is_steady.same rfl rfl rfl)).bind fun _ m₃ hl₃ _ => ?_
    exact throw hl₃.is_steady e
  · intro m₂
    exact ⟨_, rfl⟩

/-- Running a statement is safe. -/
theorem runStatement (h : Reliable cut self other) (hm : m.Steady) (fuel : Nat) (s : Statement) :
    SafeAt cut m (Eval.runStatement self fuel s) (Eval.runStatement other fuel s) Present := by
  cases s with
  | expression e => exact expression h hm e
  | declare d => exact runDeclaration h hm d
  | block b => exact (runBlock h hm b).bind fun _ _ hl₁ _ => pure hl₁.is_steady trivial
  | ifElse branches otherwise _ =>
    exact (runBranches h hm otherwise branches).bind fun _ _ hl₁ _ => pure hl₁.is_steady trivial
  | whileDo condition body _ =>
    refine (whileTrue hm (fun m' hm' => holds h hm' condition) (fun m' hm' => runBlock h hm' body)
      fuel).bind fun _ m₁ hl₁ _ => ?_
    exact pure hl₁.is_steady trivial
  | forIn _ iterable body pos =>
    refine (expression h hm iterable).bind fun v m₁ hl₁ hv => ?_
    have hbody : m₁.heap.Has (.procedure body) := trivial
    refine (send h hl₁.is_steady hv "iterate" (allPresent_singleton hbody) pos).discard.bind
      fun _ m₂ hl₂ _ => ?_
    exact pure hl₂.is_steady trivial
  | returnWith e pos =>
    refine (expression h hm e).bind fun v m₁ hl₁ hv => ?_
    exact (pushOperand hl₁.is_steady hv).bind fun _ m₂ hl₂ _ => throw hl₂.is_steady _
  | importFile _ file statements _ => exact runImport h hm file statements
  | defineMacro name body pos => exact runMacroDefinition h hm name body pos
  | empty _ => exact pure hm trivial

end SafeAt

end

end Eval

end ProtoScript
