import ProtoScript.Console
import ProtoScript.Proofs.Grammar.Progress
import ProtoScript.Proofs.Session.Execute
import ProtoScript.Proofs.Token.Brackets

/-!
# Brackets of programs

What is read without errors closes each bracket that it opens by a bracket of the same kind, before any
bracket around it is closed.  Every rule of the grammar that takes an opening bracket takes the closing
one too, or it fails; and where a rule goes on inside brackets that another one opened, it takes the
bracket that closes these.  The one phrase that is not read by rules is a mixin, whose tokens are kept as
they are up to the brace that closes it; of its parentheses and square brackets nothing is known.  Imports
put no tokens into the file, whatever they bring in.

So the prompt, which waits for another line as long as brackets are open, does not wait when the text that
was entered is a program.
-/

namespace ProtoScript

/-! ## The mixins of a program -/

mutual

/-- The tokens of the mixins in an expression. -/
def Expression.mixins : Expression → List (List Lexeme)
  | .literal .. | .variable .. => []
  | .mixin tokens _ => [tokens]
  | .unary _ e _ => e.mixins
  | .binary _ left right _ => left.mixins ++ right.mixins
  | .assign target value _ => target.mixins ++ value.mixins
  | .call callee arguments _ => callee.mixins ++ Expression.allMixins arguments
  | .member target _ _ => target.mixins
  | .index target key _ => target.mixins ++ key.mixins
  | .procedure p => p.mixins
  | .array elements _ => Expression.allMixins elements
  | .object members _ => Declaration.allMixins members
  | .splat e _ => e.mixins

/-- The tokens of the mixins in expressions. -/
def Expression.allMixins : List Expression → List (List Lexeme)
  | [] => []
  | e :: es => e.mixins ++ Expression.allMixins es

/-- The tokens of the mixins in an optional expression. -/
def Expression.optionMixins : Option Expression → List (List Lexeme)
  | none => []
  | some e => e.mixins

/-- The tokens of the mixins in a declaration. -/
def Declaration.mixins : Declaration → List (List Lexeme)
  | ⟨_, type, value, _⟩ => Expression.optionMixins type ++ Expression.optionMixins value

/-- The tokens of the mixins in declarations. -/
def Declaration.allMixins : List Declaration → List (List Lexeme)
  | [] => []
  | d :: ds => d.mixins ++ Declaration.allMixins ds

/-- The tokens of the mixins in a parameter. -/
def Parameter.mixins : Parameter → List (List Lexeme)
  | ⟨_, type, _⟩ => Expression.optionMixins type

/-- The tokens of the mixins in parameters. -/
def Parameter.allMixins : List Parameter → List (List Lexeme)
  | [] => []
  | p :: ps => p.mixins ++ Parameter.allMixins ps

/-- The tokens of the mixins in an optional parameter. -/
def Parameter.optionMixins : Option Parameter → List (List Lexeme)
  | none => []
  | some p => p.mixins

/-- The tokens of the mixins in a procedure. -/
def Procedure.mixins : Procedure → List (List Lexeme)
  | ⟨fixed, rest, body, _, _⟩ =>
    Parameter.allMixins fixed ++ Parameter.optionMixins rest ++ body.mixins

/-- The tokens of the mixins in a block. -/
def Block.mixins : Block → List (List Lexeme)
  | ⟨statements, _⟩ => Statement.allMixins statements

/-- The tokens of the mixins in an optional block. -/
def Block.optionMixins : Option Block → List (List Lexeme)
  | none => []
  | some b => b.mixins

/-- The tokens of the mixins in a branch. -/
def Branch.mixins : Branch → List (List Lexeme)
  | ⟨condition, body⟩ => condition.mixins ++ body.mixins

/-- The tokens of the mixins in branches. -/
def Branch.allMixins : List Branch → List (List Lexeme)
  | [] => []
  | b :: bs => b.mixins ++ Branch.allMixins bs

/-- The tokens of the mixins in a statement.  Those in the statements of an import stand in another
file. -/
def Statement.mixins : Statement → List (List Lexeme)
  | .expression e => e.mixins
  | .declare d => d.mixins
  | .block b => b.mixins
  | .ifElse branches otherwise _ => Branch.allMixins branches ++ Block.optionMixins otherwise
  | .whileDo condition body _ => condition.mixins ++ body.mixins
  | .forIn _ iterable body _ => iterable.mixins ++ body.mixins
  | .returnWith e _ => e.mixins
  | .importFile .. => []
  | .defineMacro _ body _ => body.mixins
  | .empty _ => []

/-- The tokens of the mixins in statements. -/
def Statement.allMixins : List Statement → List (List Lexeme)
  | [] => []
  | s :: ss => s.mixins ++ Statement.allMixins ss

end

/-- The mixins of statements in two portions. -/
theorem Statement.allMixins_append (ss ss' : List Statement) :
    Statement.allMixins (ss ++ ss') = Statement.allMixins ss ++ Statement.allMixins ss' := by
  induction ss with
  | nil => rfl
  | cons s ss ih => rw [List.cons_append, allMixins, allMixins, ih, List.append_assoc]

/-- The brackets of all these tokens are properly nested. -/
def AllNested (mixins : List (List Lexeme)) : Prop :=
  ∀ ts ∈ mixins, ProperlyNested ts

instance (mixins : List (List Lexeme)) : Decidable (AllNested mixins) :=
  inferInstanceAs (Decidable (∀ ts ∈ mixins, ProperlyNested ts))

theorem allNested_nil : AllNested [] :=
  fun _ hts => absurd hts List.not_mem_nil

/-- The mixins of two lists are nested if those of each are. -/
theorem allNested_append {ms ns : List (List Lexeme)} :
    AllNested (ms ++ ns) ↔ AllNested ms ∧ AllNested ns :=
  List.forall_mem_append

/-! ## Operators -/

/-- The mark of a unary operator is no bracket. -/
theorem UnaryOperator.unclosed?_mark (op : UnaryOperator) (stack : List Bracket) :
    (Token.mark op.mark).unclosed? stack = some stack := by
  cases op <;> rfl

/-- The mark of a binary operator is no bracket. -/
theorem BinaryOperator.unclosed?_mark (op : BinaryOperator) (stack : List Bracket) :
    (Token.mark op.mark).unclosed? stack = some stack := by
  cases op <;> rfl

namespace Grammar

/-- A token that assigns is no bracket. -/
theorem unclosed?_of_assignment? {t : Token} {compound : Option BinaryOperator}
    (h : assignment? t = some compound) (stack : List Bracket) : t.unclosed? stack = some stack := by
  cases compound with
  | none =>
    obtain rfl := eq_equal_of_assignment? h
    rfl
  | some op =>
    obtain ⟨m, rfl, hm⟩ := mem_compoundMarks_of_assignment? h
    simp only [compoundMarks, List.mem_cons, List.not_mem_nil, or_false, Prod.mk.injEq] at hm
    obtain ⟨rfl, -⟩ | ⟨rfl, -⟩ | ⟨rfl, -⟩ | ⟨rfl, -⟩ := hm <;> rfl

/-- A comma is no bracket. -/
theorem Separates.closes {first : Bool} {sep : List Lexeme} (h : Separates first sep) :
    Closes [] sep := by
  cases h with
  | first => exact .nil
  | comma pos => exact .other (fun _ => rfl) .nil

/-! ## What a goal closes -/

namespace Goal

/-- The brackets that were opened before a goal and are closed by it. -/
def closing : {α : Type} → Goal α → List Bracket
  | _, .arguments _ | _, .parameters .. => [.paren]
  | _, .elements _ => [.bracket]
  | _, .members => [.brace]
  | _, _ => []

/-- The mixins in what is read for a goal. -/
def mixins : {α : Type} → Goal α → α → List (List Lexeme)
  | _, .expression, e | _, .operand _, e | _, .operators .., e | _, .unary, e | _, .suffixes _, e =>
    e.mixins
  | _, .arguments _, es | _, .elements _, es => Expression.allMixins es
  | _, .members, ds => Declaration.allMixins ds
  | _, .parameters .., ps => Parameter.allMixins ps.1 ++ Parameter.optionMixins ps.2
  | _, .procedure _, p => p.mixins
  | _, .block, b => b.mixins
  | _, .branches, bs => Branch.allMixins bs
  | _, .statements _, ss => Statement.allMixins ss

/-- The mixins in what was read before and becomes a part of what is read for a goal. -/
def earlier : {α : Type} → Goal α → List (List Lexeme)
  | _, .operators _ e | _, .suffixes e => e.mixins
  | _, .parameters _ rest => Parameter.optionMixins rest
  | _, _ => []

/-- The tokens that are consumed for a goal close what they should, if the mixins do. -/
def Matches {α : Type} (g : Goal α) (used : List Lexeme) (a : α) (_ : List Lexeme) : Prop :=
  AllNested (g.mixins a) → AllNested g.earlier ∧ Closes g.closing used

end Goal

namespace Bracketed

variable {ctx : Context} {self : {α : Type} → Goal α → Reader α}

/-! ## Expressions -/

/-- The body of a procedure that is written with an arrow. -/
theorem lambda (hself : ∀ {α : Type} (g : Goal α), Reads true (self g) g.Matches) (name : String)
    (pos : Position) :
    Reads true (Grammar.lambda self name pos) fun used e _ => AllNested e.mixins → Closes [] used := by
  unfold Grammar.lambda
  refine (hself .expression).bind fun body u => .pure fun left hbody hm => ?_
  have hmixins : AllNested body.mixins := by
    simpa [Expression.mixins, Procedure.mixins, Parameter.allMixins, Parameter.mixins,
      Parameter.optionMixins, Expression.optionMixins, Block.mixins, Statement.allMixins,
      Statement.mixins] using hm
  rw [List.append_nil]
  exact (hbody hmixins).2

/-- A phrase that starts with a token of its own. -/
theorem primary (hself : ∀ {α : Type} (g : Goal α), Reads true (self g) g.Matches) :
    Reads true (Grammar.primary ctx self) fun used e _ => AllNested e.mixins → Closes [] used := by
  have hsingle {t : Token} {pos : Position} {u : List Lexeme} (hu : u = [⟨t, pos⟩])
      (ht : ∀ stack, t.unclosed? stack = some stack) : Closes [] (u ++ []) := by
    rw [hu]
    exact .other ht .nil
  unfold Grammar.primary
  refine Reads.next?.bind fun found u => ?_
  split
  · split
    · exact .pure fun left h _ => hsingle (h _ rfl) fun _ => rfl
    · exact .fail _ _
  · exact .pure fun left h _ => hsingle (h _ rfl) fun _ => rfl
  · exact .pure fun left h _ => hsingle (h _ rfl) fun _ => rfl
  · exact .pure fun left h _ => hsingle (h _ rfl) fun _ => rfl
  · exact .pure fun left h _ => hsingle (h _ rfl) fun _ => rfl
  · -- a name, which may be the parameter of a procedure
    rename_i spelling pos
    refine (Reads.accept? _).bind fun arrow u₁ => ?_
    cases arrow with
    | some arrowPos =>
      refine (lambda hself spelling pos).mono fun used e left hlambda harrow h hm => ?_
      rw [h _ rfl, harrow.1 _ rfl]
      exact .other (fun _ => rfl) (.other (fun _ => rfl) (hlambda hm))
    | none =>
      refine .pure fun left harrow h _ => ?_
      rw [harrow.2 rfl]
      exact hsingle (h _ rfl) fun _ => rfl
  · -- an expression in parentheses, which may be the parameter of a procedure
    rename_i openPos
    refine (hself .expression).bind fun e u₁ => (Reads.expect _).bind fun endPos u₂ => ?_
    have hparens {us : List Lexeme} (hclose : u₂ = [⟨.mark .closeParen, endPos⟩])
        (he : Closes [] u₁) (h : u = [⟨.mark .openParen, openPos⟩]) (hus : Closes [] us) :
        Closes [] (u ++ (u₁ ++ (u₂ ++ us))) := by
      rw [h, hclose]
      exact .opening (fun _ => rfl) (he.join (.closing (fun _ => rfl) hus))
    split
    · rename_i spelling pos
      refine (Reads.accept? _).bind fun arrow u₃ => ?_
      cases arrow with
      | some arrowPos =>
        refine (lambda hself spelling pos).mono fun used e left hlambda harrow hclose he h hm => ?_
        refine hparens hclose (he allNested_nil).2 (h _ rfl) ?_
        rw [harrow.1 _ rfl]
        exact .other (fun _ => rfl) (hlambda hm)
      | none =>
        refine .pure fun left harrow hclose he h hm => hparens hclose (he hm).2 (h _ rfl) ?_
        rw [harrow.2 rfl]
        exact .nil
    · exact .pure fun left hclose he h hm => hparens hclose (he hm).2 (h _ rfl) .nil
  · refine (hself (.elements true)).bind fun es u₁ => .pure fun left hes h hm => ?_
    rw [h _ rfl, List.append_nil]
    exact .opening (fun _ => rfl) (hes hm).2
  · refine (hself .members).bind fun ds u₁ => .pure fun left hds h hm => ?_
    rw [h _ rfl, List.append_nil]
    exact .opening (fun _ => rfl) (hds hm).2
  · rename_i pos
    refine (hself (.procedure pos)).bind fun p u₁ => .pure fun left hp h hm => ?_
    rw [h _ rfl, List.append_nil]
    exact .other (fun _ => rfl) (hp hm).2
  · rename_i pos
    refine (Reads.mixin pos).mono fun used e left hmixin h hm => ?_
    obtain ⟨openPos, endPos, ts, -, rfl, rfl⟩ := hmixin
    have hts : Closes [] ts := properlyNested_iff_closes.mp (hm ts (List.mem_singleton_self ts))
    rw [h _ rfl]
    exact .other (fun _ => rfl)
      (.opening (fun _ => rfl) (hts.join (.closing (fun _ => rfl) .nil)))
  · exact .fail _ _

/-- Calls, members and indices behind an expression. -/
theorem suffixes (hself : ∀ {α : Type} (g : Goal α), Reads true (self g) g.Matches)
    (target : Expression) :
    Reads true (Grammar.suffixes ctx self target) (Goal.suffixes target).Matches := by
  unfold Grammar.suffixes
  refine Reads.here.bind fun pos u₁ => Reads.peek?.bind fun found u₂ => ?_
  split
  · refine Reads.skip.bind fun _ u₃ => Reads.name.bind fun member u₄ =>
      (hself (.suffixes (.member target member pos))).mono ?_
    rintro used e left hmore ⟨namePos, rfl⟩ hskip ⟨rfl, hpeek⟩ ⟨rfl, hpos⟩ hm
    obtain rfl := Reads.eq_of_skip hpos hpeek hskip (by simp)
    obtain ⟨htarget, hused⟩ := hmore hm
    exact ⟨htarget, .other (fun _ => rfl) (.other (fun _ => rfl) hused)⟩
  · refine Reads.skip.bind fun _ u₃ => (hself (.arguments true)).bind fun arguments u₄ =>
      (hself (.suffixes (.call target arguments pos))).mono ?_
    rintro used e left hmore harguments hskip ⟨rfl, hpeek⟩ ⟨rfl, hpos⟩ hm
    obtain rfl := Reads.eq_of_skip hpos hpeek hskip (by simp)
    obtain ⟨hcall, hused⟩ := hmore hm
    obtain ⟨htarget, hargs⟩ := allNested_append.mp hcall
    exact ⟨htarget, .opening (fun _ => rfl) ((harguments hargs).2.append hused)⟩
  · refine Reads.skip.bind fun _ u₃ => (hself .expression).bind fun key u₄ =>
      (Reads.expect _).bind fun endPos u₅ => (hself (.suffixes (.index target key pos))).mono ?_
    rintro used e left hmore rfl hkey hskip ⟨rfl, hpeek⟩ ⟨rfl, hpos⟩ hm
    obtain rfl := Reads.eq_of_skip hpos hpeek hskip (by simp)
    obtain ⟨hindex, hused⟩ := hmore hm
    obtain ⟨htarget, hinside⟩ := allNested_append.mp hindex
    exact ⟨htarget,
      .opening (fun _ => rfl) ((hkey hinside).2.join (.closing (fun _ => rfl) hused))⟩
  · refine .pure ?_
    rintro left ⟨rfl, -⟩ ⟨rfl, -⟩ hm
    exact ⟨hm, .nil⟩

/-- An expression without binary operators. -/
theorem unary (hself : ∀ {α : Type} (g : Goal α), Reads true (self g) g.Matches) :
    Reads true (Grammar.unary ctx self) fun used e _ => AllNested e.mixins → Closes [] used := by
  unfold Grammar.unary
  refine Reads.here.bind fun pos u₁ => Reads.peek?.bind fun found u₂ => ?_
  cases hop : found.bind UnaryOperator.ofToken? with
  | some op =>
    obtain ⟨t, rfl, ht⟩ := Option.bind_eq_some_iff.mp hop
    refine Reads.skip.bind fun _ u₃ => (hself .unary).bind fun e u₄ => .pure ?_
    rintro left he hskip ⟨rfl, hpeek⟩ ⟨rfl, hpos⟩ hm
    obtain rfl := Reads.eq_of_skip hpos hpeek hskip (by simp)
    obtain rfl := UnaryOperator.eq_mark_of_ofToken? ht
    rw [List.append_nil]
    exact .other op.unclosed?_mark (he hm).2
  | none =>
    refine (primary hself).bind fun target u₃ => (suffixes hself target).mono ?_
    rintro used e left hmore htarget ⟨rfl, -⟩ ⟨rfl, -⟩ hm
    obtain ⟨hearlier, hused⟩ := hmore hm
    exact (htarget hearlier).join hused

/-- More operators behind an expression. -/
theorem operators (hself : ∀ {α : Type} (g : Goal α), Reads true (self g) g.Matches) (rank : Nat)
    (target : Expression) :
    Reads true (Grammar.operators ctx self rank target) (Goal.operators rank target).Matches := by
  unfold Grammar.operators
  refine Reads.here.bind fun pos u₁ => Reads.peek?.bind fun found u₂ => ?_
  cases hop : found.bind BinaryOperator.ofToken? with
  | some op =>
    obtain ⟨t, rfl, ht⟩ := Option.bind_eq_some_iff.mp hop
    dsimp only
    split
    · refine Reads.skip.bind fun _ u₃ => (hself (.operand (op.rank + 1))).bind fun right u₄ =>
        (hself (.operators rank (.binary op target right pos))).mono ?_
      rintro used e left hmore hright hskip ⟨rfl, hpeek⟩ ⟨rfl, hpos⟩ hm
      obtain rfl := Reads.eq_of_skip hpos hpeek hskip (by simp)
      obtain rfl := BinaryOperator.eq_mark_of_ofToken? ht
      obtain ⟨hbinary, hused⟩ := hmore hm
      obtain ⟨htarget, hmixins⟩ := allNested_append.mp hbinary
      exact ⟨htarget, .other op.unclosed?_mark ((hright hmixins).2.join hused)⟩
    · refine .pure ?_
      rintro left ⟨rfl, -⟩ ⟨rfl, -⟩ hm
      exact ⟨hm, .nil⟩
  | none =>
    refine .pure ?_
    rintro left ⟨rfl, -⟩ ⟨rfl, -⟩ hm
    exact ⟨hm, .nil⟩

/-- An expression whose binary operators have at least the given rank. -/
theorem operand (hself : ∀ {α : Type} (g : Goal α), Reads true (self g) g.Matches) (rank : Nat) :
    Reads true (Grammar.operand ctx self rank) fun used e _ =>
      AllNested e.mixins → Closes [] used := by
  unfold Grammar.operand
  refine (unary hself).bind fun e u => (operators hself rank e).mono ?_
  intro used e' left hmore he hm
  obtain ⟨hearlier, hused⟩ := hmore hm
  exact (he hearlier).join hused

/-- An expression of any kind. -/
theorem expression (hself : ∀ {α : Type} (g : Goal α), Reads true (self g) g.Matches) :
    Reads true (Grammar.expression ctx self) fun used e _ => AllNested e.mixins → Closes [] used := by
  unfold Grammar.expression
  refine (operand hself 0).bind fun target u₁ => Reads.here.bind fun pos u₂ =>
    Reads.peek?.bind fun found u₃ => ?_
  cases hfound : found.bind assignment? with
  | some compound =>
    obtain ⟨t, rfl, ht⟩ := Option.bind_eq_some_iff.mp hfound
    dsimp only
    split
    · refine Reads.skip.bind fun _ u₄ => (hself .expression).bind fun value u₅ => ?_
      cases compound with
      | some op =>
        refine .pure ?_
        rintro left hvalue hskip ⟨rfl, hpeek⟩ ⟨rfl, hpos⟩ htarget hm
        obtain rfl := Reads.eq_of_skip hpos hpeek hskip (by simp)
        obtain ⟨hmixins, hmore⟩ := allNested_append.mp hm
        obtain ⟨-, hmore⟩ := allNested_append.mp hmore
        rw [List.append_nil]
        exact (htarget hmixins).join
          (.other (unclosed?_of_assignment? ht) (hvalue hmore).2)
      | none =>
        refine .pure ?_
        rintro left hvalue hskip ⟨rfl, hpeek⟩ ⟨rfl, hpos⟩ htarget hm
        obtain rfl := Reads.eq_of_skip hpos hpeek hskip (by simp)
        obtain ⟨hmixins, hmore⟩ := allNested_append.mp hm
        rw [List.append_nil]
        exact (htarget hmixins).join (.other (unclosed?_of_assignment? ht) (hvalue hmore).2)
    · exact .fail _ _
  | none =>
    refine .pure ?_
    rintro left ⟨rfl, -⟩ ⟨rfl, -⟩ htarget hm
    exact (htarget hm).join .nil

/-! ## Lists -/

/-- The arguments of a call. -/
theorem arguments (hself : ∀ {α : Type} (g : Goal α), Reads true (self g) g.Matches) (first : Bool) :
    Reads true (Grammar.arguments ctx self first) (Goal.arguments first).Matches := by
  unfold Grammar.arguments
  refine (Reads.check _).bind fun closes u₁ => ?_
  cases closes with
  | true =>
    refine Reads.skip.bind fun _ u₂ => .pure ?_
    rintro left hskip ⟨rfl, hcheck⟩ -
    obtain ⟨pos, rfl⟩ := Reads.eq_of_check (hcheck.mp rfl) hskip (by simp)
    exact ⟨allNested_nil, .closing (fun _ => rfl) .nil⟩
  | false =>
    refine (Reads.separator first).bind fun _ u₂ => (Reads.accept? _).bind fun star u₃ => ?_
    cases star with
    | some pos =>
      refine (hself .expression).bind fun e u₄ => (Reads.check _).bind fun closes u₅ => ?_
      cases closes with
      | true =>
        refine Reads.skip.bind fun _ u₆ => .pure ?_
        rintro left hskip ⟨rfl, hcheck⟩ he hstar hsep ⟨rfl, -⟩ hm
        obtain ⟨endPos, rfl⟩ := Reads.eq_of_check (hcheck.mp rfl) hskip (by simp)
        obtain rfl := hstar.1 pos rfl
        have hused := (he (allNested_append.mp hm).1).2
        exact ⟨allNested_nil, hsep.closes.join
          (.other (fun _ => rfl) (hused.join (.closing (fun _ => rfl) .nil)))⟩
      | false => exact Reads.here.bind fun _ _ => .fail _ _
    | none =>
      refine (expression hself).bind fun e u₄ => (hself (.arguments false)).bind fun es u₅ => .pure ?_
      rintro left hes he hstar hsep ⟨rfl, -⟩ hm
      obtain rfl := hstar.2 rfl
      obtain ⟨hfirst, hmore⟩ := allNested_append.mp hm
      rw [List.append_nil]
      exact ⟨allNested_nil, hsep.closes.join ((he hfirst).join (hes hmore).2)⟩

/-- The elements of an array. -/
theorem elements (hself : ∀ {α : Type} (g : Goal α), Reads true (self g) g.Matches) (first : Bool) :
    Reads true (Grammar.elements ctx self first) (Goal.elements first).Matches := by
  unfold Grammar.elements
  refine (Reads.check _).bind fun closes u₁ => ?_
  cases closes with
  | true =>
    refine Reads.skip.bind fun _ u₂ => .pure ?_
    rintro left hskip ⟨rfl, hcheck⟩ -
    obtain ⟨pos, rfl⟩ := Reads.eq_of_check (hcheck.mp rfl) hskip (by simp)
    exact ⟨allNested_nil, .closing (fun _ => rfl) .nil⟩
  | false =>
    refine (Reads.separator first).bind fun _ u₂ => (expression hself).bind fun e u₃ =>
      (hself (.elements false)).bind fun es u₄ => .pure ?_
    rintro left hes he hsep ⟨rfl, -⟩ hm
    obtain ⟨hfirst, hmore⟩ := allNested_append.mp hm
    rw [List.append_nil]
    exact ⟨allNested_nil, hsep.closes.join ((he hfirst).join (hes hmore).2)⟩

/-- An expression after a mark that is no bracket, or nothing. -/
theorem after? (hself : ∀ {α : Type} (g : Goal α), Reads true (self g) g.Matches) {m : Mark}
    (hmark : ∀ stack, (Token.mark m).unclosed? stack = some stack) {g : Goal Expression}
    (hg : ∀ used e left, g.Matches used e left → AllNested e.mixins → Closes [] used) :
    Reads true (Grammar.after? self m g) fun used found _ =>
      AllNested (Expression.optionMixins found) → Closes [] used := by
  unfold Grammar.after?
  refine (Reads.accept? _).bind fun mark u₁ => ?_
  cases mark with
  | some pos =>
    refine (hself g).bind fun e u₂ => .pure ?_
    rintro left he haccept hm
    obtain rfl := haccept.1 pos rfl
    rw [List.append_nil]
    exact .other hmark (hg _ _ _ he hm)
  | none =>
    refine .pure ?_
    rintro left haccept -
    obtain rfl := haccept.2 rfl
    exact .nil

/-- The type of a variable or parameter, or nothing. -/
theorem typing (hself : ∀ {α : Type} (g : Goal α), Reads true (self g) g.Matches) :
    Reads true (Grammar.after? self .colon (.operand 0)) fun used type _ =>
      AllNested (Expression.optionMixins type) → Closes [] used :=
  after? hself (fun _ => rfl) fun _ _ _ h hm => (h hm).2

/-- A name with an optional type and an optional value. -/
theorem declaration (hself : ∀ {α : Type} (g : Goal α), Reads true (self g) g.Matches)
    (pos : Position) :
    Reads true (Grammar.declaration ctx self pos) fun used d _ =>
      AllNested d.mixins → Closes [] used := by
  unfold Grammar.declaration
  refine Reads.name.bind fun spelling u₁ => (typing hself).bind fun type u₂ =>
    (after? hself (fun _ => rfl) (g := .expression) fun _ _ _ h hm => (h hm).2).bind
      fun value u₃ => .pure ?_
  rintro left hvalue htype ⟨namePos, rfl⟩ hm
  obtain ⟨htypes, hvalues⟩ := allNested_append.mp hm
  rw [List.append_nil]
  exact .other (fun _ => rfl) ((htype htypes).join (hvalue hvalues))

/-- The members of an object. -/
theorem members (hself : ∀ {α : Type} (g : Goal α), Reads true (self g) g.Matches) :
    Reads true (Grammar.members ctx self) Goal.members.Matches := by
  unfold Grammar.members
  refine (Reads.check _).bind fun closes u₁ => ?_
  cases closes with
  | true =>
    refine Reads.skip.bind fun _ u₂ => .pure ?_
    rintro left hskip ⟨rfl, hcheck⟩ -
    obtain ⟨pos, rfl⟩ := Reads.eq_of_check (hcheck.mp rfl) hskip (by simp)
    exact ⟨allNested_nil, .closing (fun _ => rfl) .nil⟩
  | false =>
    refine Reads.here.bind fun pos u₂ => (declaration hself pos).bind fun d u₃ =>
      (Reads.expect _).bind fun endPos u₄ => (hself .members).bind fun ds u₅ => .pure ?_
    rintro left hds rfl hd ⟨rfl, -⟩ ⟨rfl, -⟩ hm
    obtain ⟨hfirst, hmore⟩ := allNested_append.mp hm
    rw [List.append_nil]
    exact ⟨allNested_nil, (hd hfirst).join (.other (fun _ => rfl) (hds hmore).2)⟩

/-- The parameters of a procedure. -/
theorem parameters (hself : ∀ {α : Type} (g : Goal α), Reads true (self g) g.Matches) (first : Bool)
    (rest : Option Parameter) :
    Reads true (Grammar.parameters ctx self first rest) (Goal.parameters first rest).Matches := by
  unfold Grammar.parameters
  refine (Reads.check _).bind fun closes u₁ => ?_
  cases closes with
  | true =>
    refine Reads.skip.bind fun _ u₂ => .pure ?_
    rintro left hskip ⟨rfl, hcheck⟩ hm
    obtain ⟨pos, rfl⟩ := Reads.eq_of_check (hcheck.mp rfl) hskip (by simp)
    exact ⟨hm, .closing (fun _ => rfl) .nil⟩
  | false =>
    refine (Reads.separator first).bind fun _ u₂ => Reads.here.bind fun pos u₃ => ?_
    cases rest with
    | some p => exact .fail _ _
    | none =>
      refine (Reads.accept? _).bind fun star u₄ => Reads.name.bind fun spelling u₅ =>
        (typing hself).bind fun type u₆ => ?_
      cases star with
      | some starPos =>
        refine (hself (.parameters false (some ⟨spelling, type, pos⟩))).mono ?_
        rintro used ps left hps htype ⟨namePos, rfl⟩ hstar ⟨rfl, -⟩ hsep ⟨rfl, -⟩ hm
        obtain rfl := hstar.1 starPos rfl
        obtain ⟨hlast, hused⟩ := hps hm
        exact ⟨allNested_nil, hsep.closes.join
          (.other (fun _ => rfl) (.other (fun _ => rfl) ((htype hlast).join hused)))⟩
      | none =>
        refine (hself (.parameters false none)).bind fun ps u₇ => .pure ?_
        rintro left hps htype ⟨namePos, rfl⟩ hstar ⟨rfl, -⟩ hsep ⟨rfl, -⟩ hm
        obtain rfl := hstar.2 rfl
        obtain ⟨hfixed, hrest⟩ := allNested_append.mp hm
        obtain ⟨hfirst, hmore⟩ := allNested_append.mp hfixed
        rw [List.append_nil]
        exact ⟨allNested_nil, hsep.closes.join (.other (fun _ => rfl)
          ((htype hfirst).join (hps (allNested_append.mpr ⟨hmore, hrest⟩)).2))⟩

/-! ## Statements -/

/-- Statements between braces. -/
theorem block (hself : ∀ {α : Type} (g : Goal α), Reads true (self g) g.Matches) :
    Reads true (Grammar.block ctx self) fun used b _ => AllNested b.mixins → Closes [] used := by
  unfold Grammar.block
  refine (Reads.expect _).bind fun pos u₁ => (hself (.statements true)).bind fun ss u₂ =>
    (Reads.expect _).bind fun endPos u₃ => .pure ?_
  rintro left rfl hss rfl hm
  exact .opening (fun _ => rfl) ((hss hm).2.join (.closing (fun _ => rfl) .nil))

/-- The parameters and the body of a procedure. -/
theorem procedure (hself : ∀ {α : Type} (g : Goal α), Reads true (self g) g.Matches) (pos : Position) :
    Reads true (Grammar.procedure ctx self pos) fun used p _ =>
      AllNested p.mixins → Closes [] used := by
  unfold Grammar.procedure
  refine (Reads.expect _).bind fun openPos u₁ => (hself (.parameters true none)).bind fun ps u₂ =>
    (hself .block).bind fun body u₃ => .pure ?_
  rintro left hbody hps rfl hm
  obtain ⟨hparameters, hstatements⟩ := allNested_append.mp hm
  rw [List.append_nil]
  exact .opening (fun _ => rfl) ((hps hparameters).2.append (hbody hstatements).2)

/-- A condition and a block. -/
theorem branch (hself : ∀ {α : Type} (g : Goal α), Reads true (self g) g.Matches) :
    Reads true (Grammar.branch self) fun used b _ => AllNested b.mixins → Closes [] used := by
  unfold Grammar.branch
  refine (hself .expression).bind fun condition u₁ => (hself .block).bind fun body u₂ => .pure ?_
  rintro left hbody hcondition hm
  obtain ⟨hfirst, hmore⟩ := allNested_append.mp hm
  rw [List.append_nil]
  exact (hcondition hfirst).2.join (hbody hmore).2

/-- The further branches of a choice. -/
theorem branches (hself : ∀ {α : Type} (g : Goal α), Reads true (self g) g.Matches) :
    Reads true (Grammar.branches self) Goal.branches.Matches := by
  unfold Grammar.branches
  refine (Reads.accept? _).bind fun word u₁ => ?_
  cases word with
  | some pos =>
    refine (branch hself).bind fun b u₂ => (hself .branches).bind fun bs u₃ => .pure ?_
    rintro left hbs hb hword hm
    obtain rfl := hword.1 pos rfl
    obtain ⟨hfirst, hmore⟩ := allNested_append.mp hm
    rw [List.append_nil]
    exact ⟨allNested_nil, .other (fun _ => rfl) ((hb hfirst).join (hbs hmore).2)⟩
  | none =>
    refine .pure ?_
    rintro left hword -
    obtain rfl := hword.2 rfl
    exact ⟨allNested_nil, .nil⟩

/-- A choice, after its first word. -/
theorem ifElse (hself : ∀ {α : Type} (g : Goal α), Reads true (self g) g.Matches) (pos : Position) :
    Reads true (Grammar.ifElse self pos) fun used s _ => AllNested s.mixins → Closes [] used := by
  unfold Grammar.ifElse
  refine (branch hself).bind fun b u₁ => (hself .branches).bind fun bs u₂ =>
    (Reads.accept? _).bind fun word u₃ => ?_
  cases word with
  | some elsePos =>
    refine (hself .block).bind fun other u₄ => .pure ?_
    rintro left hother hword hbs hb hm
    obtain rfl := hword.1 elsePos rfl
    obtain ⟨hbranches, hotherwise⟩ := allNested_append.mp hm
    obtain ⟨hfirst, hmore⟩ := allNested_append.mp hbranches
    rw [List.append_nil]
    exact (hb hfirst).join
      ((hbs hmore).2.join (.other (fun _ => rfl) (hother hotherwise).2))
  | none =>
    refine .pure ?_
    rintro left hword hbs hb hm
    obtain rfl := hword.2 rfl
    obtain ⟨hfirst, hmore⟩ := allNested_append.mp (allNested_append.mp hm).1
    exact (hb hfirst).join ((hbs hmore).2.join .nil)

/-- A loop over the elements of an array, after its first word. -/
theorem forIn (hself : ∀ {α : Type} (g : Goal α), Reads true (self g) g.Matches) (pos : Position) :
    Reads true (Grammar.forIn ctx self pos) fun used s _ => AllNested s.mixins → Closes [] used := by
  unfold Grammar.forIn
  refine Reads.here.bind fun namePos u₁ => Reads.name.bind fun spelling u₂ =>
    (Reads.expect _).bind fun inPos u₃ => (hself .expression).bind fun iterable u₄ =>
      (hself .block).bind fun body u₅ => .pure ?_
  rintro left hbody hiterable rfl ⟨pos', rfl⟩ ⟨rfl, -⟩ hm
  obtain ⟨hfirst, hmore⟩ := allNested_append.mp hm
  rw [List.append_nil]
  exact .other (fun _ => rfl)
    (.other (fun _ => rfl) ((hiterable hfirst).2.join (hbody hmore).2))

/-- A named procedure, after its first word. -/
theorem namedProcedure (hself : ∀ {α : Type} (g : Goal α), Reads true (self g) g.Matches)
    (pos : Position) :
    Reads true (Grammar.namedProcedure ctx self pos) fun used s _ =>
      AllNested s.mixins → Closes [] used := by
  unfold Grammar.namedProcedure
  refine Reads.name.bind fun spelling u₁ => (hself (.procedure pos)).bind fun p u₂ => .pure ?_
  rintro left hp ⟨namePos, rfl⟩ hm
  rw [List.append_nil]
  exact .other (fun _ => rfl) (hp hm).2

/-- A macro, after its first word. -/
theorem defineMacro (hself : ∀ {α : Type} (g : Goal α), Reads true (self g) g.Matches)
    (pos : Position) :
    Reads true (Grammar.defineMacro ctx self pos) fun used s _ =>
      AllNested s.mixins → Closes [] used := by
  unfold Grammar.defineMacro
  refine Reads.name.bind fun spelling u₁ => (hself (.procedure pos)).bind fun p u₂ => .pure ?_
  rintro left hp ⟨namePos, rfl⟩ hm
  have hmixins : AllNested p.mixins := by
    cases p
    exact hm
  rw [List.append_nil]
  exact .other (fun _ => rfl) (hp hmixins).2

/-- The end of a procedure, after its first word. -/
theorem returnWith (hself : ∀ {α : Type} (g : Goal α), Reads true (self g) g.Matches)
    (pos : Position) :
    Reads true (Grammar.returnWith ctx self pos) fun used s _ =>
      AllNested s.mixins → Closes [] used := by
  unfold Grammar.returnWith
  refine (Reads.check _).bind fun ends u₁ => ?_
  cases ends with
  | true =>
    refine Reads.endStatement.bind fun _ u₂ => .pure ?_
    rintro left ⟨endPos, rfl⟩ ⟨rfl, -⟩ -
    exact .other (fun _ => rfl) .nil
  | false =>
    refine (hself .expression).bind fun e u₂ => Reads.endStatement.bind fun _ u₃ => .pure ?_
    rintro left ⟨endPos, rfl⟩ he ⟨rfl, -⟩ hm
    exact (he hm).2.join (.other (fun _ => rfl) .nil)

/-- An expression as a statement. -/
theorem expressionStatement (hself : ∀ {α : Type} (g : Goal α), Reads true (self g) g.Matches) :
    Reads true (Grammar.expressionStatement ctx self) fun used s _ =>
      AllNested s.mixins → Closes [] used := by
  unfold Grammar.expressionStatement
  refine (expression hself).bind fun e u₁ => Reads.endStatement.bind fun _ u₂ => .pure ?_
  rintro left ⟨endPos, rfl⟩ he hm
  exact (he hm).join (.other (fun _ => rfl) .nil)

/-- A statement. -/
theorem statement (hself : ∀ {α : Type} (g : Goal α), Reads true (self g) g.Matches) :
    Reads true (Grammar.statement ctx self) fun used s _ =>
      AllNested s.mixins → Closes [] used := by
  unfold Grammar.statement
  refine Reads.here.bind fun pos u₁ => Reads.get.bind fun c u₂ => ?_
  split
  · rename_i hnamed
    refine Reads.skip.bind fun _ u₃ => (namedProcedure hself pos).mono ?_
    rintro used s left hs hskip ⟨rfl, hrest⟩ ⟨rfl, hpos⟩ hm
    have hpeek := token_of_startsNamedProcedure hnamed
    rw [hrest] at hpeek
    obtain rfl := Reads.eq_of_skip hpos hpeek hskip (by simp)
    exact .other (fun _ => rfl) (hs hm)
  · refine Reads.peek?.bind fun found u₃ => ?_
    split
    · refine Reads.skip.bind fun _ u₄ => (declaration hself pos).bind fun d u₅ =>
        Reads.endStatement.bind fun _ u₆ => .pure ?_
      rintro left ⟨endPos, rfl⟩ hd hskip ⟨rfl, hpeek⟩ ⟨rfl, -⟩ ⟨rfl, hpos⟩ hm
      obtain rfl := Reads.eq_of_skip hpos hpeek hskip (by simp)
      exact .other (fun _ => rfl) ((hd hm).join (.other (fun _ => rfl) .nil))
    · refine Reads.skip.bind fun _ u₄ => (ifElse hself pos).mono ?_
      rintro used s left hs hskip ⟨rfl, hpeek⟩ ⟨rfl, -⟩ ⟨rfl, hpos⟩ hm
      obtain rfl := Reads.eq_of_skip hpos hpeek hskip (by simp)
      exact .other (fun _ => rfl) (hs hm)
    · refine Reads.skip.bind fun _ u₄ => (branch hself).bind fun b u₅ => .pure ?_
      rintro left hb hskip ⟨rfl, hpeek⟩ ⟨rfl, -⟩ ⟨rfl, hpos⟩ hm
      obtain rfl := Reads.eq_of_skip hpos hpeek hskip (by simp)
      cases b
      rw [List.append_nil]
      exact .other (fun _ => rfl) (hb hm)
    · refine Reads.skip.bind fun _ u₄ => (forIn hself pos).mono ?_
      rintro used s left hs hskip ⟨rfl, hpeek⟩ ⟨rfl, -⟩ ⟨rfl, hpos⟩ hm
      obtain rfl := Reads.eq_of_skip hpos hpeek hskip (by simp)
      exact .other (fun _ => rfl) (hs hm)
    · refine Reads.skip.bind fun _ u₄ => (returnWith hself pos).mono ?_
      rintro used s left hs hskip ⟨rfl, hpeek⟩ ⟨rfl, -⟩ ⟨rfl, hpos⟩ hm
      obtain rfl := Reads.eq_of_skip hpos hpeek hskip (by simp)
      exact .other (fun _ => rfl) (hs hm)
    · refine Reads.skip.bind fun _ u₄ => (Reads.importFile pos).mono ?_
      rintro used s left ⟨path, textPos, endPos, rfl, -⟩ hskip ⟨rfl, hpeek⟩ ⟨rfl, -⟩ ⟨rfl, hpos⟩ -
      obtain rfl := Reads.eq_of_skip hpos hpeek hskip (by simp)
      exact .other (fun _ => rfl) (.other (fun _ => rfl) (.other (fun _ => rfl) .nil))
    · refine Reads.skip.bind fun _ u₄ => (defineMacro hself pos).mono ?_
      rintro used s left hs hskip ⟨rfl, hpeek⟩ ⟨rfl, -⟩ ⟨rfl, hpos⟩ hm
      obtain rfl := Reads.eq_of_skip hpos hpeek hskip (by simp)
      exact .other (fun _ => rfl) (hs hm)
    · refine (block hself).bind fun b u₄ => .pure ?_
      rintro left hb ⟨rfl, -⟩ ⟨rfl, -⟩ ⟨rfl, -⟩ hm
      exact (hb hm).join .nil
    · refine Reads.skip.bind fun _ u₄ => .pure ?_
      rintro left hskip ⟨rfl, hpeek⟩ ⟨rfl, -⟩ ⟨rfl, hpos⟩ -
      obtain rfl := Reads.eq_of_skip hpos hpeek hskip (by simp)
      exact .other (fun _ => rfl) .nil
    · refine (expressionStatement hself).mono ?_
      rintro used s left hs ⟨rfl, -⟩ ⟨rfl, -⟩ ⟨rfl, -⟩ hm
      exact hs hm

/-- If no error is recorded, a statement could be read. -/
theorem statement? (hself : ∀ {α : Type} (g : Goal α), Reads true (self g) g.Matches) :
    Reads true (Grammar.statement? ctx self) fun used found _ =>
      ∃ s, found = some s ∧ (AllNested s.mixins → Closes [] used) := by
  intro c found c' hok herr
  rw [Reads.statement?_apply] at hok
  cases hs : Grammar.statement ctx self c with
  | ok s c₁ =>
    rw [hs] at hok
    cases hok
    obtain ⟨herrs, hused⟩ := statement hself c s c' hs herr
    refine ⟨herrs, fun hadmits => ?_⟩
    obtain ⟨used, hrest, hcloses⟩ := hused hadmits
    exact ⟨used, hrest, s, rfl, hcloses⟩
  | error fault c₁ =>
    rw [hs] at hok
    cases hok
    simp at herr

/-- Statements up to the end of the input, or up to a closing brace. -/
theorem statements (hself : ∀ {α : Type} (g : Goal α), Reads true (self g) g.Matches)
    (inBlock : Bool) :
    Reads true (Grammar.statements ctx self inBlock) (Goal.statements inBlock).Matches := by
  unfold Grammar.statements
  refine Reads.peek?.bind fun found u₁ => ?_
  cases found with
  | none =>
    refine .pure ?_
    rintro left ⟨rfl, -⟩ -
    exact ⟨allNested_nil, .nil⟩
  | some t =>
    dsimp only
    split
    · refine .pure ?_
      rintro left ⟨rfl, -⟩ -
      exact ⟨allNested_nil, .nil⟩
    · refine (statement? hself).bind fun first u₂ =>
        (hself (.statements inBlock)).bind fun more u₃ => .pure ?_
      rintro left hmore ⟨s, rfl, hs⟩ ⟨rfl, -⟩ hm
      obtain ⟨hfirst, hrest⟩ := allNested_append.mp hm
      rw [List.append_nil]
      exact ⟨allNested_nil, (hs hfirst).join (hmore hrest).2⟩

/-! ## All goals -/

/-- The rule for each goal closes what it should. -/
theorem rule (hself : ∀ {α : Type} (g : Goal α), Reads true (self g) g.Matches) {α : Type}
    (g : Goal α) : Reads true (Grammar.rule ctx self g) g.Matches := by
  cases g with
  | expression => exact (expression hself).mono fun _ _ _ h hm => ⟨allNested_nil, h hm⟩
  | operand rank => exact (operand hself rank).mono fun _ _ _ h hm => ⟨allNested_nil, h hm⟩
  | operators rank left => exact operators hself rank left
  | unary => exact (unary hself).mono fun _ _ _ h hm => ⟨allNested_nil, h hm⟩
  | suffixes target => exact suffixes hself target
  | arguments first => exact arguments hself first
  | elements first => exact elements hself first
  | members => exact members hself
  | parameters first rest => exact parameters hself first rest
  | procedure pos => exact (procedure hself pos).mono fun _ _ _ h hm => ⟨allNested_nil, h hm⟩
  | block => exact (block hself).mono fun _ _ _ h hm => ⟨allNested_nil, h hm⟩
  | branches => exact branches hself
  | statements inBlock => exact statements hself inBlock

/-- However deep the rules may nest, they close what they should. -/
theorem read (depth : Nat) {α : Type} (g : Goal α) :
    Reads true (Grammar.read ctx depth g) g.Matches := by
  induction depth generalizing α g with
  | zero => exact Reads.here.bind fun _ _ => .fail _ _
  | succ depth ih => exact rule (fun g => ih g) g

end Bracketed

/-- The tokens of a file that is read without errors are properly nested, if those of its mixins are. -/
theorem properlyNested_of_readTokens {ctx : Context} {imports : List String} {ts : List Lexeme}
    (herrors : (readTokens ctx imports ts).errors = [])
    (hmixins : AllNested (Statement.allMixins (readTokens ctx imports ts).statements)) :
    ProperlyNested ts := by
  obtain ⟨imported, ss, c, -, hss, hread⟩ := exists_readTokens ctx imports ts
  rw [hread] at herrors hmixins
  rw [Statement.allMixins_append] at hmixins
  obtain ⟨-, hused⟩ := Bracketed.read _ (.statements false) _ ss c hss herrors
  obtain ⟨used, hts, hmatches⟩ := hused trivial
  have hend : c.rest = [] := by
    rcases readGoal_statements_end hss with hend | ⟨hblock, -⟩
    · exact hend
    · cases hblock
  rw [hend, List.append_nil] at hts
  rw [properlyNested_iff_closes, show ts = used from hts]
  exact (hmatches (allNested_append.mp hmixins).2).2

end Grammar

/-! ## The prompt -/

/-- A text is a program that the prompt may run: it is read without errors, and the brackets of its mixins
are properly nested. -/
structure IsComplete (library : Library) (file : String) (imports : List String) (source : String) :
    Prop where
  errors_eq : (readProgram library file imports source).errors = []
  mixins : AllNested (Statement.allMixins (readProgram library file imports source).statements)

/-- Whether a reading is complete can be found out by reading. -/
theorem isComplete_iff {library : Library} {file : String} {imports : List String} {source : String} :
    (readProgram library file imports source).errors.isEmpty = true ∧
      AllNested (Statement.allMixins (readProgram library file imports source).statements) ↔
      IsComplete library file imports source :=
  ⟨fun ⟨herrors, hmixins⟩ => ⟨List.isEmpty_iff.mp herrors, hmixins⟩,
    fun ⟨herrors, hmixins⟩ => ⟨List.isEmpty_iff.mpr herrors, hmixins⟩⟩

instance (library : Library) (file : String) (imports : List String) (source : String) :
    Decidable (IsComplete library file imports source) :=
  decidable_of_iff _ isComplete_iff

/-- The tokens of a program are properly nested. -/
theorem IsComplete.properlyNested {library : Library} {file : String} {imports : List String}
    {source : String} (h : IsComplete library file imports source) : ProperlyNested (scan source) := by
  obtain ⟨herrors, hmixins⟩ := h
  unfold readProgram at herrors hmixins
  rw [Grammar.readSource_eq] at herrors hmixins
  exact Grammar.properlyNested_of_readTokens herrors hmixins

namespace Console

open Session

/-- Asks for a line to come behind the text that was entered until then. -/
def nextLine (entered : String) : SessionM (Except Interruption Answer) := do
  showText (if entered.isEmpty then "> " else "... ")
  observe (Eval.ask .readLine)

/-- With another line, the prompt waits for one more if brackets are open, and else runs the text. -/
theorem prompt_of_nextLine {fuel rounds : Nat} {entered line : String} {m m' : Machine}
    (hline : line ≠ "") (h : nextLine entered m = .ok (.ok (.line (.ok line))) m') :
    prompt fuel (rounds + 1) entered m =
      if openBrackets (scan (entered ++ line)) > 0 then prompt fuel rounds (entered ++ line) m'
      else (do respond fuel (entered ++ line); prompt fuel rounds "") m' := by
  obtain ⟨u, m₁, hshown, hasked⟩ := exists_of_bind h
  have hnonempty : ¬ line.isEmpty = true := fun hempty => hline (String.isEmpty_iff.mp hempty)
  rw [prompt, bind_of_ok hshown, bind_of_ok hasked]
  dsimp only
  rw [if_neg hnonempty]
  split <;> rfl

/-- The brackets of a program are properly nested, so none of them is open in the end, and a text with an
open bracket is no program.  As soon as a line makes the text that was entered a program, the prompt runs
it and starts anew; whenever it waits for another line instead, the text is no program, whatever it might
import. -/
theorem programs_never_wait (library : Library) (file : String) (imports : List String) :
    (∀ source, IsComplete library file imports source →
      ProperlyNested (scan source) ∧ openBrackets (scan source) = 0) ∧
    (∀ source, openBrackets (scan source) > 0 → ¬ IsComplete library file imports source) ∧
    ∀ fuel rounds entered line m m', line ≠ "" → nextLine entered m = .ok (.ok (.line (.ok line))) m' →
      (IsComplete library file imports (entered ++ line) →
        prompt fuel (rounds + 1) entered m =
          (do respond fuel (entered ++ line); prompt fuel rounds "") m') ∧
      (openBrackets (scan (entered ++ line)) > 0 →
        prompt fuel (rounds + 1) entered m = prompt fuel rounds (entered ++ line) m' ∧
          ¬ IsComplete library file imports (entered ++ line)) := by
  have hclosed {source : String} (h : IsComplete library file imports source) :
      ¬ openBrackets (scan source) > 0 := by
    rw [h.properlyNested.openBrackets_eq]
    exact Int.lt_irrefl 0
  refine ⟨fun source h => ⟨h.properlyNested, h.properlyNested.openBrackets_eq⟩,
    fun source hopen h => hclosed h hopen, ?_⟩
  intro fuel rounds entered line m m' hline hasked
  constructor
  · intro h
    rw [prompt_of_nextLine hline hasked, if_neg (hclosed h)]
  · intro hopen
    rw [prompt_of_nextLine hline hasked, if_pos hopen]
    exact ⟨rfl, fun h => hclosed h hopen⟩

/-- The line `import "lib"; let f = func (a) {`. -/
def openLine : String :=
  "import \"lib\"; let f = func (a) \x7b\n"

/-- The line `if (a[0] == 1) { return mixin { g(a, [1]) }; } };`. -/
def closingLine : String :=
  "if (a[0] == 1) \x7b return mixin \x7b g(a, [1]) \x7d; \x7d \x7d;\n"

/-- The only file is `lib`, which contains a mixin with an open parenthesis. -/
def unclosedLibrary : Library :=
  ⟨fun path => if path = "lib" then .ok "mixin \x7b ( \x7d;" else .error .notFound, 1⟩

/-- A line that was recorded is the next one. -/
theorem exists_nextLine (entered : String) {line : String} {answers : List Answer} {m : Machine}
    (hhost : m.host = .replayed (.line (.ok line) :: answers)) :
    ∃ m', nextLine entered m = .ok (.ok (.line (.ok line))) m' ∧ m'.host = .replayed answers := by
  refine ⟨{ m with
    events := m.events.push (.prompt (if entered.isEmpty then "> " else "... "))
    host := .replayed answers }, ?_, rfl⟩
  obtain ⟨⟩ := m
  cases hhost
  rfl

/-- After the first of two lines the prompt waits, and after the second one it runs both.  That brackets
stay open in the mixin of an imported file does not matter. -/
theorem programs_never_wait_lines :
    ∃ m m₁ m₂, nextLine "" m = .ok (.ok (.line (.ok openLine))) m₁ ∧
      nextLine openLine m₁ = .ok (.ok (.line (.ok closingLine))) m₂ ∧
      ¬ IsComplete unclosedLibrary promptFile [] openLine ∧
      IsComplete unclosedLibrary promptFile [] (openLine ++ closingLine) ∧
      ProperlyNested (scan (openLine ++ closingLine)) ∧
      prompt 20 2 "" m = (do respond 20 (openLine ++ closingLine); prompt 20 0 "") m₂ := by
  have hopen : openBrackets (scan openLine) > 0 := by decide +kernel
  have hcomplete : IsComplete unclosedLibrary promptFile [] (openLine ++ closingLine) := by
    decide +kernel
  obtain ⟨hnested, hnone, hprompt⟩ := programs_never_wait unclosedLibrary promptFile []
  have hhost : (Machine.initial promptFile (.replayed [.line (.ok openLine), .line (.ok closingLine)])).host =
      .replayed [.line (.ok openLine), .line (.ok closingLine)] := rfl
  obtain ⟨m₁, hfirst, hhost₁⟩ := exists_nextLine "" hhost
  obtain ⟨m₂, hsecond, -⟩ := exists_nextLine openLine hhost₁
  refine ⟨_, m₁, m₂, hfirst, hsecond, hnone _ hopen, hcomplete, (hnested _ hcomplete).1, ?_⟩
  have hwaits := ((hprompt 20 1 "" openLine _ _ (by decide) hfirst).2 hopen).1
  rw [String.empty_append] at hwaits
  rw [hwaits]
  exact (hprompt 20 0 openLine closingLine _ _ (by decide) hsecond).1 hcomplete

/-- A mixin may keep tokens that are not nested, and then a text without errors may leave a bracket
open. -/
example : (readProgram unclosedLibrary promptFile [] "mixin \x7b ( \x7d;").errors.isEmpty = true ∧
    openBrackets (scan "mixin \x7b ( \x7d;") = 1 := by
  decide +kernel

end Console

end ProtoScript
