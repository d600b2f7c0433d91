import ProtoScript.Proofs.Evaluation.Parameters
import ProtoScript.Proofs.Session.Bindings
import ProtoScript.Proofs.Session.Import

/-!
# Declarations that fail

A declaration is evaluated in three parts: its type, then the variable, then its value, which is checked
and put into the variable.  Errors can stop it in each of them, and names stay bound whatever happens.  So
it depends on the part that failed whether the name can be declared again.

* If the type cannot be evaluated, no variable was made: the scopes are as the type left them, and
  the name is free unless it was bound before.
* If the name is bound already, the declaration is refused, and the scopes are as the type left them.
* If the value cannot be evaluated or does not have the type, the variable is there, without a value, and
  every other declaration of the name in the same scope is refused.
-/

namespace ProtoScript

/-- A scope binds a name. -/
def Scopes.Binds (s : Scopes) (r : ScopeRef) (name : String) : Prop :=
  ∃ c, s.findLocal? r name = some c

/-- A name that was taken stays taken. -/
theorem Scopes.Keeps.binds {s t : Scopes} (h : s.Keeps t) {r : ScopeRef} {name : String}
    (hname : s.Binds r name) : t.Binds r name :=
  let ⟨c, hc⟩ := hname
  ⟨c, h r name c hc⟩

/-- A name that is not bound is not found. -/
theorem Scopes.findLocal?_of_not_binds {s : Scopes} {r : ScopeRef} {name : String}
    (h : ¬ s.Binds r name) : s.findLocal? r name = none :=
  Option.eq_none_iff_forall_ne_some.mpr fun c hc => h ⟨c, hc⟩

namespace Eval

/-! ## The parts of a declaration -/

/-- What is left of a declaration when its variable was made. -/
def fill (self : Work → Eval Value) (d : Declaration) (type : Option ObjectRef) (c : CellRef) :
    Eval Value :=
  match d.value with
  | some e => do
    let v ← self (.expression e)
    checkDeclared v type d.pos
    settle d.name c v
  | none => return .null

/-- A declaration evaluates the type, takes the name, and fills its cell. -/
theorem runDeclaration_eq_fill (self : Work → Eval Value) (d : Declaration) :
    runDeclaration self d = (do
      let type ← declaredType self d
      let c ← declare d.name type d.pos
      fill self d type c) :=
  rfl

section

variable {self : Work → Eval Value} {d : Declaration} {m m₁ : Machine}

/-- If the type fails, so does the declaration, before the name is taken. -/
theorem runDeclaration_of_untyped {e : Interruption} (htype : declaredType self d m = .error e m₁) :
    runDeclaration self d m = .error e m₁ :=
  bind_of_error htype

/-- A name that is taken is refused. -/
theorem runDeclaration_of_taken {type : Option ObjectRef} (htype : declaredType self d m = .ok type m₁)
    (hname : m₁.scopes.Binds m₁.current d.name) :
    runDeclaration self d m =
      .error (.raised ((Problem.alreadyDefined d.name).diagnostic m₁.file d.pos))
        { m₁ with raised := m₁.raised ++ [(Problem.alreadyDefined d.name).diagnostic m₁.file d.pos] } := by
  obtain ⟨c, hc⟩ := hname
  have hdeclare := declare_of_bound (m := m₁) (by rw [hc]; exact Option.some_ne_none c) type d.pos
  rw [runDeclaration_eq_fill, bind_of_ok htype, bind_of_error hdeclare]

/-- A name that is free is taken before its cell is filled. -/
theorem runDeclaration_of_free {type : Option ObjectRef} (htype : declaredType self d m = .ok type m₁)
    (hname : ¬ m₁.scopes.Binds m₁.current d.name) :
    runDeclaration self d m =
      fill self d type (m₁.scopes.bind m₁.current d.name type).1
        { m₁ with scopes := (m₁.scopes.bind m₁.current d.name type).2 } := by
  have hdeclare := declare_of_unbound (Scopes.findLocal?_of_not_binds hname) type d.pos
  rw [runDeclaration_eq_fill, bind_of_ok htype, bind_of_ok hdeclare]

end

/-- Filling the cell of a declaration is oblivious. -/
theorem Oblivious.fill (n : Nat) (d : Declaration) (type : Option ObjectRef) (c : CellRef) :
    Oblivious (fill (run n) d type c) := by
  unfold Eval.fill
  cases d.value with
  | none => exact .pure _
  | some e =>
    exact (run_oblivious n _).bind fun v =>
      (Oblivious.checkDeclared v type d.pos).bind fun _ => .settle d.name c v

/-! ## The name of a declaration -/

/-- The type of a declaration is evaluated in the scope of the declaration, which stays the current
one. -/
theorem declaredType_ok {n : Nat} {d : Declaration} {type : Option ObjectRef} {m m₁ : Machine}
    (hm : m.Sound) (htype : declaredType (run n) d m = .ok type m₁) :
    m₁.Sound ∧ m₁.current = m.current ∧ m₁.file = m.file ∧ m.scopes.Keeps m₁.scopes := by
  have hend := (Kept.declaredType (run_trusted n) d m hm).ending
  rw [htype] at hend
  have hkeeps := (Oblivious.declaredType (run_oblivious n) d).keeps m
  rw [htype] at hkeeps
  exact ⟨hend.1.is_sound, hend.2.1, hend.1.file_eq, hkeeps⟩

/-- If the name of a declaration is free when the type was evaluated, it is bound from then on, also if
the declaration fails. -/
theorem binds_of_free {n : Nat} {d : Declaration} {type : Option ObjectRef} {m m₁ : Machine}
    (hm : m.Sound) (htype : declaredType (run n) d m = .ok type m₁)
    (hname : ¬ m₁.scopes.Binds m₁.current d.name) :
    (ended (runDeclaration (run n) d m)).scopes.Binds m.current d.name := by
  obtain ⟨hm₁, hcurrent, -, -⟩ := declaredType_ok hm htype
  have hbound := Scopes.findLocal?_bind_self hm₁.current_lt d.name type
  rw [runDeclaration_of_free htype hname, ← hcurrent]
  exact ((Oblivious.fill n d type _).keeps _).binds ⟨_, hbound⟩

/-- The scopes are as the type of a declaration left them, unless the type was evaluated and the name was
free. -/
theorem scopes_of_not_free {n : Nat} {d : Declaration} {m : Machine} (hm : m.Sound)
    (h : ∀ type m₁, declaredType (run n) d m = .ok type m₁ → m₁.scopes.Binds m.current d.name) :
    (ended (runDeclaration (run n) d m)).scopes = (ended (declaredType (run n) d m)).scopes := by
  cases htype : declaredType (run n) d m with
  | error e m₁ =>
    rw [runDeclaration_of_untyped htype]
    rfl
  | ok type m₁ =>
    obtain ⟨-, hcurrent, -, -⟩ := declaredType_ok hm htype
    have hname := h type m₁ htype
    rw [← hcurrent] at hname
    rw [runDeclaration_of_taken htype hname]
    rfl

/-- However a declaration ends, its name is bound in its scope exactly if the type bound it or was
evaluated. -/
theorem binds_runDeclaration_iff {n : Nat} {d : Declaration} {m : Machine} (hm : m.Sound) :
    (ended (runDeclaration (run n) d m)).scopes.Binds m.current d.name ↔
      (ended (declaredType (run n) d m)).scopes.Binds m.current d.name ∨
        ∃ type m₁, declaredType (run n) d m = .ok type m₁ := by
  cases htype : declaredType (run n) d m with
  | error e m₁ =>
    rw [runDeclaration_of_untyped htype]
    refine ⟨.inl, Or.rec id ?_⟩
    rintro ⟨type, m₂, ⟨⟩⟩
  | ok type m₁ =>
    refine ⟨fun _ => .inr ⟨type, m₁, rfl⟩, fun _ => ?_⟩
    obtain ⟨-, hcurrent, -, -⟩ := declaredType_ok hm htype
    by_cases hname : m₁.scopes.Binds m₁.current d.name
    · rw [runDeclaration_of_taken htype hname, ← hcurrent]
      exact hname
    · exact binds_of_free hm htype hname

end Eval

namespace Session

open Eval (declaredType ended run)

/-! ## Declarations of a session -/

/-- A declaration is refused: it ends when its type was evaluated, and the last of its errors says that the
name is defined already. -/
def Refuses (n : Nat) (d : Declaration) (m : Machine) : Prop :=
  ∃ type m₁ m', declaredType (run n) d { m with raised := [] } = .ok type m₁ ∧
    execute (n + 1) (.declare d) m =
      .ok (.error (m₁.raised ++ [(Problem.alreadyDefined d.name).diagnostic m.file d.pos])) m' ∧
    m'.scopes = m₁.scopes

/-- A declaration with a type that can be evaluated is refused exactly if its name is bound then. -/
theorem refuses_iff {n : Nat} {d : Declaration} {type : Option ObjectRef} {m m₁ : Machine} (hm : m.Sound)
    (htype : declaredType (run n) d { m with raised := [] } = .ok type m₁) :
    Refuses n d m ↔ m₁.scopes.Binds m.current d.name := by
  obtain ⟨-, hcurrent, hfile, -⟩ := Eval.declaredType_ok (sound_without_errors hm) htype
  dsimp only at hcurrent hfile
  constructor
  · rintro ⟨type', m₂, m', htype', hexecute, hscopes⟩
    rw [htype] at htype'
    cases htype'
    -- otherwise the name would be bound in the end, but the scopes are those that the type left
    by_contra hname
    refine hname ?_
    rw [← hcurrent] at hname
    rw [← hscopes, scopes_of_execute hexecute]
    exact Eval.binds_of_free (sound_without_errors hm) htype hname
  · intro hname
    rw [← hcurrent] at hname
    have hrun : run (n + 1) (.statement (.declare d)) { m with raised := [] } = _ :=
      Eval.runDeclaration_of_taken htype hname
    rw [hfile] at hrun
    exact ⟨type, m₁, _, htype, execute_of_raised hrun (List.concat_ne_nil _ _), rfl⟩

end Session

open Eval (declaredType ended run) in
/-- When a declaration has failed, its name is bound in the scope where it was run exactly if evaluating the
type has left it bound or was successful.  Unless the type was evaluated and the name was free then, the
scopes are as evaluating the type left them.  As long as nothing else binds the name there, another
declaration of it, whose type can be evaluated, is refused exactly if the one that failed has left the name
bound. -/
theorem failed_declaration_leaves_name {n : Nat} {d : Declaration} {es : List Diagnostic} {m m' : Machine}
    (hm : m.Sound) (h : Session.execute (n + 1) (.declare d) m = .ok (.error es) m') :
    (m'.scopes.Binds m.current d.name ↔
      (ended (declaredType (run n) d { m with raised := [] })).scopes.Binds m.current d.name ∨
        ∃ type m₁, declaredType (run n) d { m with raised := [] } = .ok type m₁) ∧
    ((∀ type m₁, declaredType (run n) d { m with raised := [] } = .ok type m₁ →
        m₁.scopes.Binds m.current d.name) →
      m'.scopes = (ended (declaredType (run n) d { m with raised := [] })).scopes) ∧
    ∀ (k : Nat) (again : Declaration) (later typed : Machine) (type : Option ObjectRef),
      again.name = d.name → later.Sound → later.current = m.current → m'.scopes.Keeps later.scopes →
      declaredType (run k) again { later with raised := [] } = .ok type typed →
      (typed.scopes.Binds m.current d.name → m'.scopes.Binds m.current d.name) →
      (Session.Refuses k again later ↔ m'.scopes.Binds m.current d.name) := by
  have hscopes : m'.scopes = (ended (Eval.runDeclaration (run n) d { m with raised := [] })).scopes :=
    Session.scopes_of_execute h
  have hcleared := Session.sound_without_errors hm
  refine ⟨?_, ?_, ?_⟩
  · rw [hscopes]
    exact Eval.binds_runDeclaration_iff hcleared
  · intro hnotfree
    rw [hscopes]
    exact Eval.scopes_of_not_free hcleared hnotfree
  · intro k again later typed type hname hlater hcurrent hkeeps htype hnothing
    obtain ⟨-, -, -, htyped⟩ := Eval.declaredType_ok (Session.sound_without_errors hlater) htype
    rw [Session.refuses_iff hlater htype, hname, hcurrent]
    exact ⟨hnothing, (hkeeps.trans htyped).binds⟩

/-- The declaration `let x: Missing = 5;`. -/
def Declaration.ofMissingType : Declaration :=
  ⟨"x", some (.variable "Missing" ⟨1, 8⟩), some (.literal (.int 5) ⟨1, 18⟩), ⟨1, 1⟩⟩

/-- The declaration `let x: Int = "s";`. -/
def Declaration.ofWrongType : Declaration :=
  ⟨"x", some (.variable "Int" ⟨1, 8⟩), some (.literal (.text "s") ⟨1, 14⟩), ⟨1, 1⟩⟩

/-- The declaration `let x: Int = 5;`, in the next line. -/
def Declaration.corrected : Declaration :=
  ⟨"x", some (.variable "Int" ⟨2, 8⟩), some (.literal (.int 5) ⟨2, 14⟩), ⟨2, 1⟩⟩

set_option maxRecDepth 4000 in
/-- After `let x: Missing = 5;`, the name is free, and `let x: Int = 5;` is not refused. -/
theorem failed_declaration_leaves_name_missing :
    ∃ es m', Machine.bare.Sound ∧
      Session.execute 2 (.declare .ofMissingType) .bare = .ok (.error es) m' ∧
      ¬ m'.scopes.Binds Scopes.root "x" ∧ ¬ Session.Refuses 1 .corrected m' := by
  have hm : Machine.bare.Sound := Machine.fresh_sound "main" (.replayed []) []
  obtain ⟨es, m', h, hcurrent, hname, type, typed, htype, hscopes⟩ : ∃ es m',
      Session.execute 2 (.declare .ofMissingType) .bare = .ok (.error es) m' ∧
      m'.current = Scopes.root ∧ m'.scopes.findLocal? Scopes.root "x" = none ∧
      ∃ type typed, Eval.declaredType (Eval.run 1) .corrected { m' with raised := [] } = .ok type typed ∧
        typed.scopes = m'.scopes :=
    ⟨_, _, rfl, rfl, rfl, _, _, rfl, rfl⟩
  obtain ⟨-, -, hagain⟩ := failed_declaration_leaves_name hm h
  have hfree : ¬ m'.scopes.Binds Scopes.root "x" := by
    rintro ⟨c, hc⟩
    rw [hname] at hc
    cases hc
  have hiff := hagain 1 .corrected m' typed type rfl (Session.execute_tidied hm h).1.is_sound hcurrent
    (.refl _) htype (by rw [hscopes]; exact id)
  exact ⟨es, m', hm, h, hfree, fun hrefuses => hfree (hiff.mp hrefuses)⟩

set_option maxRecDepth 4000 in
/-- After `let x: Int = "s";`, which has failed, the name is bound, and `let x: Int = 5;` is refused. -/
theorem wrong_value_takes_name :
    ∃ m' m'', ¬ Machine.bare.scopes.Binds Scopes.root "x" ∧
      Session.execute 2 (.declare .ofWrongType) .bare =
        .ok (.error [(Problem.typeMismatch "Int" "Str").diagnostic "main" ⟨1, 1⟩]) m' ∧
      m'.current = Scopes.root ∧ m'.scopes.Binds Scopes.root "x" ∧
      Session.execute 2 (.declare .corrected) m' =
        .ok (.error [(Problem.alreadyDefined "x").diagnostic "main" ⟨2, 1⟩]) m'' := by
  refine ⟨_, _, ?_, rfl, rfl, ⟨⟨14⟩, rfl⟩, rfl⟩
  rintro ⟨c, hc⟩
  cases hc

end ProtoScript
