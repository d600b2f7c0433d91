import ProtoScript.Proofs.Grammar.Mirror
import ProtoScript.Proofs.Grammar.Soundness

/-!
# Two readings of the same tokens

Two readers are twins if they know the same about the file they read, up to relocation, and if the
phrases inside a rule are read alike.  Then each rule reads alike.  A rule reads the phrases inside it
only after it has consumed a token, so nothing has to be known about readers at all tokens.  By induction
on the number of tokens that are left, whole readings are alike: what is read depends neither on places
nor on how deep rules may nest, as long as they may nest deep enough, nor on files that are not named in
the tokens.
-/

namespace ProtoScript

/-! ## Paths in tokens -/

/-- The path that two tokens import, if they do. -/
def pathOf? : Token → Token → Option String
  | .keyword .importWord, .text path => some path
  | _, _ => none

/-- The paths in tokens are found from the first two on. -/
theorem importedPaths_cons_cons (t u : Lexeme) (ts : List Lexeme) :
    importedPaths (t :: u :: ts) =
      (pathOf? t.token u.token).toList ++ importedPaths (u :: ts) := by
  conv_lhs => unfold importedPaths
  split
  · rename_i path ht hu
    rw [ht, hu]
    rfl
  · rename_i hother
    have hnone : pathOf? t.token u.token = none := by
      unfold pathOf?
      split
      · rename_i ht hu
        exact (hother _ ht hu).elim
      · rfl
    rw [hnone]
    rfl

/-- What is imported further on is imported. -/
theorem importedPaths_subset_cons (t : Lexeme) (ts : List Lexeme) :
    importedPaths ts ⊆ importedPaths (t :: ts) := by
  cases ts with
  | nil => exact List.nil_subset _
  | cons u ts =>
    rw [importedPaths_cons_cons]
    exact List.subset_append_right _ _

/-- What is imported in the last part of the tokens is imported. -/
theorem importedPaths_subset {us ts : List Lexeme} (h : us <:+ ts) :
    importedPaths us ⊆ importedPaths ts := by
  obtain ⟨front, rfl⟩ := h
  induction front with
  | nil => exact List.Subset.refl _
  | cons t front ih => exact List.Subset.trans ih (importedPaths_subset_cons t _)

namespace Grammar

variable {τ : Relocation} {ctx ctx' : Context} {self self' : {α : Type} → Goal α → Reader α}
  {ts : List Lexeme}

/-- What two readers of the same tokens have in common. -/
structure Twins (τ : Relocation) (ctx ctx' : Context)
    (inner inner' : {α : Type} → Goal α → Reader α) (ts : List Lexeme) : Prop where
  last : ctx'.last = τ.place ctx.last
  fault : ∀ e : Fault, τ.error (e.diagnostic ctx.file) = (τ.fault e).diagnostic ctx'.file
  bring : ∀ path ∈ importedPaths ts, ctx'.bring path = τ.brought path (ctx.bring path)
  phrase : ∀ {α : Type} (g : Goal α),
    Mirrors τ (Inside ts) (inner g) (inner' (g.relocated τ)) (g.image τ) fun _ _ => True

namespace Twins

/-- The phrases inside a rule. -/
theorem inside (h : Twins τ ctx ctx' self self' ts) {α : Type} (g : Goal α) :
    Mirrors τ (Inside ts) (self g) (self' (g.relocated τ)) (g.image τ) fun _ => Inside ts :=
  ((h.phrase g).keep fun _ _ => Inside.onward).mono (fun _ => id) fun _ _ hc => hc.2

/-! ## Expressions -/

/-- A procedure that is written with an arrow. -/
theorem lambda (h : Twins τ ctx ctx' self self' ts) (name : String) (pos : Position) :
    Mirrors τ (Inside ts) (Grammar.lambda self name pos) (Grammar.lambda self' name (τ.place pos))
      (Expression.relocated τ) fun _ => Inside ts := by
  unfold Grammar.lambda
  refine (h.inside .expression).bind fun body => .pure ?_ fun _ => id
  simp only [Goal.image, Expression.relocated, Procedure.relocated, Parameter.allRelocated,
    Parameter.relocated, Expression.optionRelocated, Parameter.optionRelocated, Block.relocated,
    Statement.allRelocated, Statement.relocated, Expression.pos_relocated]

/-- Where a mixin ends does not depend on places. -/
theorem balanced?_relocated (depth : Nat) (us : List Lexeme) :
    balanced? depth (us.map (Lexeme.relocated τ)) =
      (balanced? depth us).map (Prod.map (List.map (Lexeme.relocated τ))
        (List.map (Lexeme.relocated τ))) := by
  induction us generalizing depth with
  | nil => rfl
  | cons t us ih =>
    have hmore : ∀ d, (balanced? d (us.map (Lexeme.relocated τ))).map
          (fun r => (t.relocated τ :: r.1, r.2)) =
        ((balanced? d us).map fun r => (t :: r.1, r.2)).map
          (Prod.map (List.map (Lexeme.relocated τ)) (List.map (Lexeme.relocated τ))) := by
      intro d
      rw [ih d, Option.map_map, Option.map_map]
      rfl
    obtain ⟨token, pos⟩ := t
    cases token with
    | mark m =>
      cases m with
      | closeBrace =>
        cases depth with
        | zero => rfl
        | succ depth => exact hmore depth
      | openBrace => exact hmore (depth + 1)
      | _ => exact hmore depth
    | _ => exact hmore depth

/-- The tokens of a mixin. -/
theorem mixin (h : Twins τ ctx ctx' self self' ts) (pos : Position) :
    Mirrors τ (Inside ts) (Grammar.mixin ctx pos) (Grammar.mixin ctx' (τ.place pos))
      (Expression.relocated τ) fun _ => Inside ts := by
  unfold Grammar.mixin
  refine (Mirrors.expect h.last _).inside.bind fun _ => ?_
  refine Mirrors.get.bind fun c₀ => ?_
  rw [show (τ.cursor c₀).rest = c₀.rest.map (Lexeme.relocated τ) from rfl, balanced?_relocated]
  cases hb : balanced? 0 c₀.rest with
  | some r =>
    obtain ⟨captured, rest⟩ := r
    obtain ⟨endPos, hrest, -⟩ := balanced_of_balanced? hb
    have hsuffix : rest <:+ c₀.rest := by
      rw [hrest]
      exact (List.suffix_cons _ _).trans (List.suffix_append _ _)
    refine (Mirrors.goOn ?_).bind fun _ => .pure rfl fun _ => id
    rintro c ⟨hc, rfl⟩
    exact ⟨hc, hsuffix⟩
  | none =>
    have hend : ∀ c, (Inside ts c ∧ c₀ = c) → Inside ts c ∧ [] <:+ c.rest :=
      fun c hc => ⟨hc.1, List.nil_suffix⟩
    exact (Mirrors.goOn hend).bind fun _ => .fail _ _

/-- A phrase that starts with a token of its own. -/
theorem primary (h : Twins τ ctx ctx' self self' ts) :
    Mirrors τ (Within ts) (Grammar.primary ctx self) (Grammar.primary ctx' self')
      (Expression.relocated τ) fun _ => Inside ts := by
  unfold Grammar.primary
  refine (Mirrors.next? h.last).bind fun found => ?_
  obtain ⟨token, pos⟩ := found
  cases token with
  | none => exact .fail _ _
  | some t =>
    refine Mirrors.mono (P := Inside ts) ?_ (fun c hc => hc.2 rfl) fun _ _ => id
    cases t with
    | number spelling =>
      dsimp only [Prod.map, id]
      cases Literal.ofNumeral? spelling with
      | some value => exact .pure rfl fun _ => id
      | none => exact .fail _ _
    | text contents => exact .pure rfl fun _ => id
    | name spelling =>
      refine (Mirrors.accept? _).inside.bind fun arrow => ?_
      cases arrow with
      | some arrowPos => exact h.lambda spelling pos
      | none => exact .pure rfl fun _ => id
    | keyword k =>
      cases k with
      | trueWord | falseWord | nullWord => exact .pure rfl fun _ => id
      | funcWord => exact (h.inside (.procedure pos)).bind fun p => .pure rfl fun _ => id
      | mixinWord => exact h.mixin pos
      | _ => exact .fail _ _
    | mark m =>
      cases m with
      | openParen =>
        refine (h.inside .expression).bind fun e => (Mirrors.expect h.last _).inside.bind fun _ => ?_
        cases e with
        | «variable» spelling pos =>
          refine (Mirrors.accept? _).inside.bind fun arrow => ?_
          cases arrow with
          | some arrowPos => exact h.lambda spelling pos
          | none => exact .pure rfl fun _ => id
        | _ => exact .pure rfl fun _ => id
      | openBracket => exact (h.inside (.elements true)).bind fun es => .pure rfl fun _ => id
      | openBrace => exact (h.inside .members).bind fun ds => .pure rfl fun _ => id
      | _ => exact .fail _ _

/-- Calls, members and indices behind an expression. -/
theorem suffixes (h : Twins τ ctx ctx' self self' ts) (target : Expression) :
    Mirrors τ (Within ts) (Grammar.suffixes ctx self target)
      (Grammar.suffixes ctx' self' (target.relocated τ)) (Expression.relocated τ)
      fun _ => Within ts := by
  unfold Grammar.suffixes
  refine (Mirrors.here h.last).bind fun pos => Mirrors.peek?.bind fun found => ?_
  cases found with
  | none => exact .pure rfl fun c hc => hc.1
  | some t =>
    cases t with
    | mark m =>
      cases m with
      | dot =>
        refine Mirrors.skip.bind fun _ => (Mirrors.name h.last).inside.bind fun member => ?_
        exact (h.inside (.suffixes (.member target member pos))).mono (fun _ => id)
          fun _ _ hc => hc.within
      | openParen =>
        refine Mirrors.skip.bind fun _ => (h.inside (.arguments true)).bind fun arguments => ?_
        exact (h.inside (.suffixes (.call target arguments pos))).mono (fun _ => id)
          fun _ _ hc => hc.within
      | openBracket =>
        refine Mirrors.skip.bind fun _ => (h.inside .expression).bind fun key => ?_
        refine (Mirrors.expect h.last _).inside.bind fun _ => ?_
        exact (h.inside (.suffixes (.index target key pos))).mono (fun _ => id)
          fun _ _ hc => hc.within
      | _ => exact .pure rfl fun c hc => hc.1
    | _ => exact .pure rfl fun c hc => hc.1

/-- An expression without binary operators. -/
theorem unary (h : Twins τ ctx ctx' self self' ts) :
    Mirrors τ (Within ts) (Grammar.unary ctx self) (Grammar.unary ctx' self')
      (Expression.relocated τ) fun _ => Inside ts := by
  unfold Grammar.unary
  refine (Mirrors.here h.last).bind fun pos => Mirrors.peek?.bind fun found => ?_
  rw [id]
  cases hop : found.bind UnaryOperator.ofToken? with
  | some op =>
    obtain ⟨t, rfl, -⟩ := Option.bind_eq_some_iff.mp hop
    exact Mirrors.skip.bind fun _ => (h.inside .unary).bind fun e => .pure rfl fun _ => id
  | none =>
    refine (h.primary.mono (fun c hc => hc.1) fun _ _ => id).bind fun target => ?_
    exact (h.suffixes target).inside

/-- More operators behind an expression. -/
theorem operators (h : Twins τ ctx ctx' self self' ts) (rank : Nat) (left : Expression) :
    Mirrors τ (Within ts) (Grammar.operators ctx self rank left)
      (Grammar.operators ctx' self' rank (left.relocated τ)) (Expression.relocated τ)
      fun _ => Within ts := by
  unfold Grammar.operators
  refine (Mirrors.here h.last).bind fun pos => Mirrors.peek?.bind fun found => ?_
  rw [id]
  cases hop : found.bind BinaryOperator.ofToken? with
  | some op =>
    obtain ⟨t, rfl, -⟩ := Option.bind_eq_some_iff.mp hop
    dsimp only
    split
    · refine Mirrors.skip.bind fun _ => (h.inside (.operand (op.rank + 1))).bind fun right => ?_
      exact (h.inside (.operators rank (.binary op left right pos))).mono (fun _ => id)
        fun _ _ hc => hc.within
    · exact .pure rfl fun c hc => hc.1
  | none => exact .pure rfl fun c hc => hc.1

/-- An expression whose binary operators have at least the given rank. -/
theorem operand (h : Twins τ ctx ctx' self self' ts) (rank : Nat) :
    Mirrors τ (Within ts) (Grammar.operand ctx self rank) (Grammar.operand ctx' self' rank)
      (Expression.relocated τ) fun _ => Inside ts := by
  unfold Grammar.operand
  exact h.unary.bind fun left => (h.operators rank left).inside

/-- An expression of any kind. -/
theorem expression (h : Twins τ ctx ctx' self self' ts) :
    Mirrors τ (Within ts) (Grammar.expression ctx self) (Grammar.expression ctx' self')
      (Expression.relocated τ) fun _ => Inside ts := by
  unfold Grammar.expression
  refine (h.operand 0).bind fun target => (Mirrors.here h.last).bind fun pos =>
    Mirrors.peek?.bind fun found => ?_
  rw [id]
  cases hfound : found.bind assignment? with
  | some compound =>
    obtain ⟨t, rfl, -⟩ := Option.bind_eq_some_iff.mp hfound
    rw [Expression.isTarget_relocated]
    dsimp only
    split
    · refine (Mirrors.skip.mono (fun c hc => ⟨hc.1.within, hc.2⟩) fun _ _ => id).bind fun _ =>
        (h.inside .expression).bind fun value => ?_
      cases compound with
      | some op => exact .pure rfl fun _ => id
      | none => exact .pure rfl fun _ => id
    · exact .fail _ _
  | none => exact .pure rfl fun c hc => hc.1

/-! ## Lists -/

/-- The comma before an item. -/
theorem separator (h : Twins τ ctx ctx' self self' ts) (first : Bool) :
    Mirrors τ (Within ts) (Grammar.separator ctx first) (Grammar.separator ctx' first) id
      fun _ => Within ts := by
  unfold Grammar.separator
  cases first with
  | true => exact .pure rfl fun _ => id
  | false => exact (Mirrors.expect h.last _).bind fun _ => .pure rfl fun _ hc => hc.within

/-- The arguments of a call. -/
theorem arguments (h : Twins τ ctx ctx' self self' ts) (first : Bool) :
    Mirrors τ (Within ts) (Grammar.arguments ctx self first) (Grammar.arguments ctx' self' first)
      (Expression.allRelocated τ) fun _ => Within ts := by
  unfold Grammar.arguments
  refine (Mirrors.check _).bind fun found => ?_
  cases found with
  | true =>
    refine (Mirrors.skip.mono (fun c hc => ⟨hc.1, hc.2 rfl⟩) fun _ _ => id).bind fun _ => ?_
    exact .pure rfl fun _ hc => hc.within
  | false =>
    refine ((h.separator first).mono (fun c hc => hc.1) fun _ _ => id).bind fun _ => ?_
    refine (Mirrors.accept? _).bind fun star => ?_
    cases star with
    | some pos =>
      refine ((h.inside .expression).mono (fun c hc => hc.2 rfl) fun _ _ => id).bind fun e => ?_
      refine (Mirrors.check _).bind fun found => ?_
      cases found with
      | true =>
        refine (Mirrors.skip.mono (fun c hc => ⟨hc.1.within, hc.2 rfl⟩) fun _ _ => id).bind
          fun _ => ?_
        exact .pure rfl fun _ hc => hc.within
      | false => exact (Mirrors.here h.last).bind fun _ => .fail _ _
    | none =>
      refine (h.expression.mono (fun c hc => hc.1) fun _ _ => id).bind fun e => ?_
      refine (h.inside (.arguments false)).bind fun es => ?_
      exact .pure rfl fun _ hc => hc.within

/-- The elements of an array. -/
theorem elements (h : Twins τ ctx ctx' self self' ts) (first : Bool) :
    Mirrors τ (Within ts) (Grammar.elements ctx self first) (Grammar.elements ctx' self' first)
      (Expression.allRelocated τ) fun _ => Within ts := by
  unfold Grammar.elements
  refine (Mirrors.check _).bind fun found => ?_
  cases found with
  | true =>
    refine (Mirrors.skip.mono (fun c hc => ⟨hc.1, hc.2 rfl⟩) fun _ _ => id).bind fun _ => ?_
    exact .pure rfl fun _ hc => hc.within
  | false =>
    refine ((h.separator first).mono (fun c hc => hc.1) fun _ _ => id).bind fun _ => ?_
    refine h.expression.bind fun e => (h.inside (.elements false)).bind fun es => ?_
    exact .pure rfl fun _ hc => hc.within

/-- A phrase that follows a mark. -/
theorem after? (h : Twins τ ctx ctx' self self' ts) {α : Type} (m : Mark) (g : Goal α) :
    Mirrors τ (Inside ts) (Grammar.after? self m g) (Grammar.after? self' m (g.relocated τ))
      (Option.map (g.image τ)) fun _ => Inside ts := by
  unfold Grammar.after?
  refine (Mirrors.accept? _).inside.bind fun found => ?_
  cases found with
  | some pos => exact (h.inside g).bind fun a => .pure rfl fun _ => id
  | none => exact .pure rfl fun _ => id

/-- An optional expression is relocated if it is there. -/
theorem optionRelocated_eq_map (e : Option Expression) :
    Expression.optionRelocated τ e = e.map (Expression.relocated τ) := by
  cases e <;> simp only [Expression.optionRelocated, Option.map]

/-- A name with an optional type and an optional value. -/
theorem declaration (h : Twins τ ctx ctx' self self' ts) (pos : Position) :
    Mirrors τ (Within ts) (Grammar.declaration ctx self pos)
      (Grammar.declaration ctx' self' (τ.place pos)) (Declaration.relocated τ)
      fun _ => Inside ts := by
  unfold Grammar.declaration
  refine (Mirrors.name h.last).bind fun spelling => (h.after? .colon (.operand 0)).bind fun type =>
    (h.after? .equal .expression).bind fun value => .pure ?_ fun _ => id
  simp only [Declaration.relocated, optionRelocated_eq_map, Goal.image, id]

/-- The members of an object. -/
theorem members (h : Twins τ ctx ctx' self self' ts) :
    Mirrors τ (Within ts) (Grammar.members ctx self) (Grammar.members ctx' self')
      (Declaration.allRelocated τ) fun _ => Within ts := by
  unfold Grammar.members
  refine (Mirrors.check _).bind fun found => ?_
  cases found with
  | true =>
    refine (Mirrors.skip.mono (fun c hc => ⟨hc.1, hc.2 rfl⟩) fun _ _ => id).bind fun _ => ?_
    exact .pure rfl fun _ hc => hc.within
  | false =>
    refine (Mirrors.here h.last).bind fun pos => ?_
    refine ((h.declaration pos).mono (fun c hc => hc.1) fun _ _ => id).bind fun d => ?_
    refine (Mirrors.expect h.last _).inside.bind fun _ => (h.inside .members).bind fun ds => ?_
    exact .pure rfl fun _ hc => hc.within

/-! ## Statements -/

/-- The parameters of a procedure. -/
theorem parameters (h : Twins τ ctx ctx' self self' ts) (first : Bool) (rest : Option Parameter) :
    Mirrors τ (Within ts) (Grammar.parameters ctx self first rest)
      (Grammar.parameters ctx' self' first (Parameter.optionRelocated τ rest))
      (Prod.map (Parameter.allRelocated τ) (Parameter.optionRelocated τ)) fun _ => Within ts := by
  unfold Grammar.parameters
  refine (Mirrors.check _).bind fun found => ?_
  cases found with
  | true =>
    refine (Mirrors.skip.mono (fun c hc => ⟨hc.1, hc.2 rfl⟩) fun _ _ => id).bind fun _ => ?_
    exact .pure rfl fun _ hc => hc.within
  | false =>
    refine ((h.separator first).mono (fun c hc => hc.1) fun _ _ => id).bind fun _ => ?_
    refine (Mirrors.here h.last).bind fun pos => ?_
    cases rest with
    | some p => exact .fail _ _
    | none =>
      refine (Mirrors.accept? _).bind fun star => ?_
      refine ((Mirrors.name h.last).mono (fun c hc => hc.1) fun _ _ => id).bind fun spelling => ?_
      refine (h.after? .colon (.operand 0)).bind fun type => ?_
      have hparameter : (⟨spelling, type.map (Expression.relocated τ), τ.place pos⟩ : Parameter) =
          Parameter.relocated τ ⟨spelling, type, pos⟩ := by
        simp only [Parameter.relocated, optionRelocated_eq_map]
      dsimp only [id, Goal.image]
      rw [hparameter]
      cases star with
      | some starPos =>
        exact (h.inside (.parameters false (some ⟨spelling, type, pos⟩))).mono (fun _ => id)
          fun _ _ hc => hc.within
      | none =>
        refine (h.inside (.parameters false none)).bind fun more => ?_
        exact .pure rfl fun _ hc => hc.within

/-- Statements between braces. -/
theorem block (h : Twins τ ctx ctx' self self' ts) :
    Mirrors τ (Within ts) (Grammar.block ctx self) (Grammar.block ctx' self') (Block.relocated τ)
      fun _ => Inside ts := by
  unfold Grammar.block
  exact (Mirrors.expect h.last _).bind fun pos => (h.inside (.statements true)).bind fun ss =>
    (Mirrors.expect h.last _).inside.bind fun _ => .pure rfl fun _ => id

/-- The parameters and the body of a procedure. -/
theorem procedure (h : Twins τ ctx ctx' self self' ts) (pos : Position) :
    Mirrors τ (Within ts) (Grammar.procedure ctx self pos)
      (Grammar.procedure ctx' self' (τ.place pos)) (Procedure.relocated τ) fun _ => Inside ts := by
  unfold Grammar.procedure
  exact (Mirrors.expect h.last _).bind fun _ => (h.inside (.parameters true none)).bind fun ps =>
    (h.inside .block).bind fun body => .pure rfl fun _ => id

/-- A condition and a block. -/
theorem branch (h : Twins τ ctx ctx' self self' ts) :
    Mirrors τ (Inside ts) (Grammar.branch self) (Grammar.branch self') (Branch.relocated τ)
      fun _ => Inside ts := by
  unfold Grammar.branch
  exact (h.inside .expression).bind fun condition => (h.inside .block).bind fun body =>
    .pure rfl fun _ => id

/-- The further branches of a choice. -/
theorem branches (h : Twins τ ctx ctx' self self' ts) :
    Mirrors τ (Within ts) (Grammar.branches self) (Grammar.branches self') (Branch.allRelocated τ)
      fun _ => Within ts := by
  unfold Grammar.branches
  refine (Mirrors.accept? _).bind fun found => ?_
  cases found with
  | some pos =>
    refine (h.branch.mono (fun c hc => hc.2 rfl) fun _ _ => id).bind fun b => ?_
    exact (h.inside .branches).bind fun bs => .pure rfl fun _ hc => hc.within
  | none => exact .pure rfl fun c hc => hc.1

/-- A choice, after its first word. -/
theorem ifElse (h : Twins τ ctx ctx' self self' ts) (pos : Position) :
    Mirrors τ (Inside ts) (Grammar.ifElse self pos) (Grammar.ifElse self' (τ.place pos))
      (Statement.relocated τ) fun _ => Inside ts := by
  unfold Grammar.ifElse
  refine h.branch.bind fun first => (h.inside .branches).bind fun more => ?_
  refine (Mirrors.accept? _).inside.bind fun found => ?_
  cases found with
  | some elsePos => exact (h.inside .block).bind fun body => .pure rfl fun _ => id
  | none => exact .pure rfl fun _ => id

/-- A loop over the elements of an array, after its first word. -/
theorem forIn (h : Twins τ ctx ctx' self self' ts) (pos : Position) :
    Mirrors τ (Inside ts) (Grammar.forIn ctx self pos) (Grammar.forIn ctx' self' (τ.place pos))
      (Statement.relocated τ) fun _ => Inside ts := by
  unfold Grammar.forIn
  exact (Mirrors.here h.last).bind fun namePos => (Mirrors.name h.last).inside.bind fun spelling =>
    (Mirrors.expect h.last _).inside.bind fun _ => (h.inside .expression).bind fun iterable =>
      (h.inside .block).bind fun body => .pure rfl fun _ => id

/-- A named procedure, after its first word. -/
theorem namedProcedure (h : Twins τ ctx ctx' self self' ts) (pos : Position) :
    Mirrors τ (Inside ts) (Grammar.namedProcedure ctx self pos)
      (Grammar.namedProcedure ctx' self' (τ.place pos)) (Statement.relocated τ)
      fun _ => Inside ts := by
  unfold Grammar.namedProcedure
  exact (Mirrors.name h.last).inside.bind fun spelling => (h.inside (.procedure pos)).bind fun p =>
    .pure rfl fun _ => id

/-- A macro, after its first word. -/
theorem defineMacro (h : Twins τ ctx ctx' self self' ts) (pos : Position) :
    Mirrors τ (Inside ts) (Grammar.defineMacro ctx self pos)
      (Grammar.defineMacro ctx' self' (τ.place pos)) (Statement.relocated τ)
      fun _ => Inside ts := by
  unfold Grammar.defineMacro
  refine (Mirrors.name h.last).inside.bind fun spelling => (h.inside (.procedure pos)).bind fun p => ?_
  obtain ⟨fixed, rest, body, procedurePos, origin⟩ := p
  exact .pure rfl fun _ => id

/-- The statements of another file. -/
theorem importPath {P : Cursor → Prop} {path : String} (pos : Position)
    (hbring : ctx'.bring path = τ.brought path (ctx.bring path))
    (hP : ∀ c c', P c → c.Onward c' → P c') :
    Mirrors τ P (Grammar.importPath ctx path pos) (Grammar.importPath ctx' path (τ.place pos))
      (Statement.relocated τ) fun _ => P := by
  unfold Grammar.importPath
  rw [hbring]
  cases ctx.bring path with
  | ok i => exact (Mirrors.recordAll i.errors hP).bind fun _ => .pure rfl fun _ => id
  | error complaint => exact .fail _ _

/-- An import, after its first word. -/
theorem importFile (h : Twins τ ctx ctx' self self' ts) (pos : Position) :
    Mirrors τ (fun c => ∃ t : Lexeme, t.token = .keyword .importWord ∧ t :: c.rest <:+ ts)
      (Grammar.importFile ctx pos) (Grammar.importFile ctx' (τ.place pos)) (Statement.relocated τ)
      fun _ => Inside ts := by
  unfold Grammar.importFile
  refine (Mirrors.next?_of h.last).bind fun found => ?_
  obtain ⟨token, textPos⟩ := found
  cases token with
  | none => exact .fail _ _
  | some u =>
    cases u with
    | text path =>
      refine Mirrors.assuming (p := path ∈ importedPaths ts) ?_ fun hpath => ?_
      · rintro c ⟨c₀, ⟨t, ht, hsuffix⟩, -, hl⟩
        obtain ⟨l, hl, hrest⟩ := hl _ rfl
        refine importedPaths_subset hsuffix ?_
        rw [hrest, importedPaths_cons_cons, ht, hl]
        exact List.mem_cons_self
      · refine Mirrors.mono (P := Inside ts) ?_ ?_ fun _ _ => id
        · exact (Mirrors.expect h.last _).inside.bind fun _ =>
            importPath pos (h.bring path hpath) fun _ _ => Inside.onward
        · rintro c ⟨c₀, ⟨t, -, hsuffix⟩, ho, -⟩
          exact (Inside.of_cons hsuffix).onward ho
    | _ => exact .fail _ _

/-- The end of a procedure, after its first word. -/
theorem returnWith (h : Twins τ ctx ctx' self self' ts) (pos : Position) :
    Mirrors τ (Inside ts) (Grammar.returnWith ctx self pos)
      (Grammar.returnWith ctx' self' (τ.place pos)) (Statement.relocated τ)
      fun _ => Inside ts := by
  unfold Grammar.returnWith
  refine (Mirrors.check _).bind fun found => ?_
  have hend : ∀ value : Expression, Mirrors τ (Inside ts)
      (Grammar.endStatement ctx >>= fun _ => Pure.pure (Statement.returnWith value pos))
      (Grammar.endStatement ctx' >>= fun _ =>
        Pure.pure (Statement.returnWith (value.relocated τ) (τ.place pos)))
      (Statement.relocated τ) fun _ => Inside ts :=
    fun value => (Mirrors.endStatement h.last h.fault).inside.bind fun _ => .pure rfl fun _ => id
  cases found with
  | true => exact (hend (.literal .null pos)).mono (fun c hc => hc.1) fun _ _ => id
  | false => exact ((h.inside .expression).mono (fun c hc => hc.1) fun _ _ => id).bind hend

/-- An expression, as a statement. -/
theorem expressionStatement (h : Twins τ ctx ctx' self self' ts) :
    Mirrors τ (Within ts) (Grammar.expressionStatement ctx self)
      (Grammar.expressionStatement ctx' self') (Statement.relocated τ) fun _ => Inside ts := by
  unfold Grammar.expressionStatement
  exact h.expression.bind fun e => (Mirrors.endStatement h.last h.fault).inside.bind fun _ =>
    .pure rfl fun _ => id

/-- Whether a named procedure comes next does not depend on places. -/
theorem startsNamedProcedure_relocated (us : List Lexeme) :
    startsNamedProcedure (us.map (Lexeme.relocated τ)) = startsNamedProcedure us := by
  cases us with
  | nil => rfl
  | cons t us =>
    cases us with
    | nil => rfl
    | cons u us => rfl

/-- A statement. -/
theorem statement (h : Twins τ ctx ctx' self self' ts) :
    Mirrors τ (Within ts) (Grammar.statement ctx self) (Grammar.statement ctx' self')
      (Statement.relocated τ) fun _ => Inside ts := by
  unfold Grammar.statement
  refine (Mirrors.here h.last).bind fun pos => Mirrors.get.bind fun c₀ => ?_
  rw [show (τ.cursor c₀).rest = c₀.rest.map (Lexeme.relocated τ) from rfl,
    startsNamedProcedure_relocated]
  cases hnamed : startsNamedProcedure c₀.rest with
  | true =>
    have hskip : ∀ c, (Within ts c ∧ c₀ = c) →
        Within ts c ∧ some (Token.keyword .funcWord) = c.rest.head?.map (·.token) := by
      rintro c ⟨hc, rfl⟩
      exact ⟨hc, token_of_startsNamedProcedure hnamed⟩
    exact (Mirrors.skip.mono hskip fun _ _ => id).bind fun _ => h.namedProcedure pos
  | false =>
    refine Mirrors.peek?.bind fun found => ?_
    have hother : Mirrors τ (fun c => (Within ts c ∧ c₀ = c) ∧ found = c.rest.head?.map (·.token))
        (Grammar.expressionStatement ctx self) (Grammar.expressionStatement ctx' self')
        (Statement.relocated τ) fun _ => Inside ts :=
      h.expressionStatement.mono (fun c hc => hc.1.1) fun _ _ => id
    cases found with
    | none => exact hother
    | some t =>
      have hskip : Mirrors τ
          (fun c => (Within ts c ∧ c₀ = c) ∧ some t = c.rest.head?.map (·.token))
          Grammar.skip Grammar.skip id fun _ => Inside ts :=
        Mirrors.skip.mono (fun c hc => ⟨hc.1.1, hc.2⟩) fun _ _ => id
      cases t with
      | keyword k =>
        cases k with
        | letWord =>
          refine hskip.bind fun _ => (h.declaration pos).inside.bind fun d => ?_
          exact (Mirrors.endStatement h.last h.fault).inside.bind fun _ => .pure rfl fun _ => id
        | ifWord => exact hskip.bind fun _ => h.ifElse pos
        | whileWord =>
          refine hskip.bind fun _ => h.branch.bind fun b => ?_
          obtain ⟨condition, body⟩ := b
          exact .pure rfl fun _ => id
        | forWord => exact hskip.bind fun _ => h.forIn pos
        | returnWord => exact hskip.bind fun _ => h.returnWith pos
        | importWord =>
          refine (Mirrors.skip_of.mono (fun c hc => ⟨hc.1.1, hc.2⟩) fun _ _ => id).bind fun _ => ?_
          exact h.importFile pos
        | macroWord => exact hskip.bind fun _ => h.defineMacro pos
        | _ => exact hother
      | mark m =>
        cases m with
        | openBrace =>
          refine (h.block.mono (fun c hc => hc.1.1) fun _ _ => id).bind fun b => ?_
          exact .pure rfl fun _ => id
        | semicolon => exact hskip.bind fun _ => .pure rfl fun _ => id
        | _ => exact hother
      | _ => exact hother

/-- A statement, or nothing if it cannot be read.  If there are tokens, at least one is consumed. -/
theorem statement? (h : Twins τ ctx ctx' self self' ts) :
    Mirrors τ (fun c => Within ts c ∧ c.rest ≠ []) (Grammar.statement? ctx self)
      (Grammar.statement? ctx' self') (Option.map (Statement.relocated τ)) fun _ => Inside ts := by
  unfold Grammar.statement?
  refine Mirrors.get.bind fun c₀ => ?_
  rw [show (τ.cursor c₀).rest = c₀.rest.map (Lexeme.relocated τ) from rfl, List.length_map]
  refine .handling ?_ ?_
  · refine (h.statement.mono (fun c hc => hc.1.1) fun _ _ => id).bind fun s => ?_
    exact .pure rfl fun _ => id
  · rintro c ⟨hc, rfl⟩ e
    refine ((Mirrors.recover c₀.rest (h.fault e)).mono (fun c' ho => ho.rest) fun _ _ => id).bind
      fun _ => .pure rfl fun c' hc' => ?_
    obtain ⟨hsuffix, hlt⟩ := hc'.2 hc.2
    exact ⟨hsuffix.trans hc.1, Nat.lt_of_lt_of_le hlt hc.1.length_le⟩

/-- Statements up to the end of the input, or up to a closing brace. -/
theorem statements (h : Twins τ ctx ctx' self self' ts) (inBlock : Bool) :
    Mirrors τ (Within ts) (Grammar.statements ctx self inBlock)
      (Grammar.statements ctx' self' inBlock) (Statement.allRelocated τ) fun _ => Within ts := by
  unfold Grammar.statements
  refine Mirrors.peek?.bind fun found => ?_
  cases found with
  | none => exact .pure rfl fun c hc => hc.1
  | some t =>
    dsimp only [id]
    split
    · exact .pure rfl fun c hc => hc.1
    · refine (h.statement?.mono ?_ fun _ _ => id).bind fun first =>
        (h.inside (.statements inBlock)).bind fun more => .pure ?_ fun c hc => hc.within
      · rintro c ⟨hc, hhead⟩
        refine ⟨hc, fun hnil => ?_⟩
        rw [hnil] at hhead
        cases hhead
      · cases first with
        | none => rfl
        | some s => rfl

/-- Each rule. -/
theorem rule (h : Twins τ ctx ctx' self self' ts) {α : Type} (g : Goal α) :
    Mirrors τ (Within ts) (Grammar.rule ctx self g) (Grammar.rule ctx' self' (g.relocated τ))
      (g.image τ) fun _ _ => True := by
  cases g with
  | expression => exact h.expression.forget
  | operand rank => exact (h.operand rank).forget
  | operators rank left => exact (h.operators rank left).forget
  | unary => exact h.unary.forget
  | suffixes target => exact (h.suffixes target).forget
  | arguments first => exact (h.arguments first).forget
  | elements first => exact (h.elements first).forget
  | members => exact h.members.forget
  | parameters first rest => exact (h.parameters first rest).forget
  | procedure pos => exact (h.procedure pos).forget
  | block => exact h.block.forget
  | branches => exact h.branches.forget
  | statements inBlock => exact (h.statements inBlock).forget

end Twins

/-! ## Whole readings -/

/-- Two readings are alike if both may nest as deep as there are tokens. -/
theorem read_mirrors (hlast : ctx'.last = τ.place ctx.last)
    (hfault : ∀ e : Fault, τ.error (e.diagnostic ctx.file) = (τ.fault e).diagnostic ctx'.file)
    (hbring : ∀ path ∈ importedPaths ts, ctx'.bring path = τ.brought path (ctx.bring path))
    {α : Type} (g : Goal α) (n n' : Nat) :
    Mirrors τ (fun c => Within ts c ∧ c.rest.length < n ∧ c.rest.length < n')
      (read ctx n g) (read ctx' n' (g.relocated τ)) (g.image τ) fun _ _ => True := by
  induction n generalizing n' α with
  | zero => exact fun c hc => absurd hc.2.1 (Nat.not_lt_zero _)
  | succ n ih =>
    cases n' with
    | zero => exact fun c hc => absurd hc.2.2 (Nat.not_lt_zero _)
    | succ n' =>
      -- the phrases inside the rule are read from fewer tokens than this one
      intro c hc
      obtain ⟨hwithin, hn, hn'⟩ := hc
      have htwins : Twins τ ctx ctx' (read ctx n) (read ctx' n') c.rest := by
        refine ⟨hlast, hfault, fun path hpath => hbring path (importedPaths_subset hwithin hpath), ?_⟩
        intro β g'
        refine (ih g' n').mono (fun c' hc' => ?_) fun _ _ => id
        have hlt := hc'.2
        exact ⟨hc'.1.trans hwithin, by omega, by omega⟩
      exact htwins.rule g c List.suffix_rfl

/-- The imports ahead of a program. -/
theorem importAll_mirrors {P : Cursor → Prop} {paths : List String}
    (hfault : ∀ e : Fault, τ.error (e.diagnostic ctx.file) = (τ.fault e).diagnostic ctx'.file)
    (hbring : ∀ path ∈ paths, ctx'.bring path = τ.brought path (ctx.bring path))
    (houtside : τ.place .outside = .outside) (hP : ∀ c c', P c → c.Onward c' → P c') :
    Mirrors τ P (importAll ctx paths) (importAll ctx' paths) (Statement.allRelocated τ)
      fun _ => P := by
  induction paths with
  | nil => exact .pure rfl fun _ => id
  | cons path paths ih =>
    unfold importAll
    have hpath : Mirrors τ P (importPath ctx path .outside) (importPath ctx' path .outside)
        (Statement.relocated τ) fun _ => P := by
      have h := Twins.importPath .outside (hbring path (List.mem_cons_self ..)) hP
      rwa [houtside] at h
    have hsome : Mirrors τ P (importPath ctx path .outside >>= fun s => Pure.pure (some s))
        (importPath ctx' path .outside >>= fun s => Pure.pure (some s))
        (Option.map (Statement.relocated τ)) fun _ => P :=
      hpath.bind fun s => .pure rfl fun _ => id
    refine (hsome.handling ?_).bind fun first => ?_
    · intro c hc e
      refine ((Mirrors.record (fun _ _ => .trans) (hfault e)).bind fun _ => .pure rfl ?_)
      intro c' ho
      exact hP c c' hc ho
    · refine (ih fun p hp => hbring p (List.mem_cons_of_mem _ hp)).bind fun more => ?_
      refine .pure ?_ fun _ => id
      cases first with
      | none => rfl
      | some s => rfl

/-- A whole program: the imports ahead of it, and its statements. -/
theorem program_mirrors {imports : List String} (hlast : ctx'.last = τ.place ctx.last)
    (hfault : ∀ e : Fault, τ.error (e.diagnostic ctx.file) = (τ.fault e).diagnostic ctx'.file)
    (hbring : ∀ path ∈ imports ++ importedPaths ts,
      ctx'.bring path = τ.brought path (ctx.bring path))
    (houtside : imports = [] ∨ τ.place .outside = .outside) :
    Mirrors τ (Within ts)
      (importAll ctx imports >>= fun imported =>
        read ctx (ts.length + 1) (.statements false) >>= fun more => Pure.pure (imported ++ more))
      (importAll ctx' imports >>= fun imported =>
        read ctx' (ts.length + 1) (.statements false) >>= fun more => Pure.pure (imported ++ more))
      (Statement.allRelocated τ) fun _ _ => True := by
  have himports : Mirrors τ (Within ts) (importAll ctx imports) (importAll ctx' imports)
      (Statement.allRelocated τ) fun _ => Within ts := by
    obtain rfl | houtside := houtside
    · exact .pure rfl fun _ => id
    · exact importAll_mirrors hfault (fun path hpath => hbring path (List.mem_append_left _ hpath))
        houtside fun _ _ => Within.onward
  have hread : Mirrors τ (Within ts) (read ctx (ts.length + 1) (.statements false))
      (read ctx' (ts.length + 1) (.statements false)) (Statement.allRelocated τ) fun _ _ => True := by
    refine (read_mirrors hlast hfault (fun path hpath => hbring path (List.mem_append_right _ hpath))
      (.statements false) (ts.length + 1) (ts.length + 1)).mono (fun c hc => ?_) fun _ _ => id
    have hlen := hc.length_le
    exact ⟨hc, by omega, by omega⟩
  refine himports.bind fun imported => hread.bind fun more => .pure ?_ fun _ _ => trivial
  simp only [Statement.allRelocated_eq_map, List.map_append]

/-- What is read from tokens at other places is what is read from them, relocated. -/
theorem readTokens_relocated {imports : List String} (hlast : ctx'.last = τ.place ctx.last)
    (hfault : ∀ e : Fault, τ.error (e.diagnostic ctx.file) = (τ.fault e).diagnostic ctx'.file)
    (hbring : ∀ path ∈ imports ++ importedPaths ts,
      ctx'.bring path = τ.brought path (ctx.bring path))
    (houtside : imports = [] ∨ τ.place .outside = .outside) :
    (∃ d ∈ (readTokens ctx imports ts).errors, τ.final d) ∨
      readTokens ctx' imports (ts.map (Lexeme.relocated τ)) =
        ⟨Statement.allRelocated τ (readTokens ctx imports ts).statements,
          (readTokens ctx imports ts).errors.map τ.error⟩ := by
  obtain ⟨-, -, hsame⟩ :=
    program_mirrors hlast hfault hbring houtside ⟨ts, []⟩ List.suffix_rfl
  change (Final τ (reached (_ : EStateM.Result Fault Cursor (List Statement))) ∨
    (importAll ctx' imports >>= fun imported => read ctx' (ts.length + 1) (.statements false) >>=
      fun more => Pure.pure (imported ++ more)) ⟨ts.map (Lexeme.relocated τ), []⟩ = _) at hsame
  unfold readTokens
  rw [List.length_map]
  cases hrun : (importAll ctx imports >>= fun imported =>
      read ctx (ts.length + 1) (.statements false) >>= fun more => Pure.pure (imported ++ more))
      ⟨ts, []⟩ with
  | ok statements c =>
    rw [hrun] at hsame
    simp only [hrun]
    refine hsame.imp id fun hy => ?_
    simp only [hy, Relocation.outcome, Relocation.cursor]
  | error e c =>
    rw [hrun] at hsame
    simp only [hrun]
    refine hsame.imp ?_ fun hy => ?_
    · -- a final error that was recorded before the fault is among those that are reported
      rintro ⟨d, hd, hfinal⟩
      exact ⟨d, List.mem_append_left _ hd, hfinal⟩
    · simp only [hy, Relocation.outcome, Relocation.cursor, Statement.allRelocated, List.map_append,
        List.map_cons, List.map_nil, hfault]

end Grammar

end ProtoScript
