import Mathlib
import ProtoScript.Proofs.Grammar.Reread
import ProtoScript.Proofs.Grammar.Soundness

/-!
# Printed programs are read back

A program that was read without errors can be printed, and reading the printed tokens gives the program
back, up to places.

The grammar says what was read, so the proof is by induction on derivations: for each kind of phrase
`RoundTrips` says what it means to be read back, and each rule of the grammar preserves it.  The tokens
that were read first play no part in this.
-/

namespace ProtoScript

namespace Grammar

/-! ## What it means to be read back -/

/-- Whether a token may come after a type that may be missing. -/
def followsType (t : Token) : Bool :=
  follows 0 t && t != .mark .colon

/-- Whether a token may come after a statement that may have further branches. -/
def followsStatement (t : Token) : Bool :=
  t != .keyword .elifWord && t != .keyword .elseWord

/-- The tokens start like a statement. -/
def Begins : List Token → Prop
  | [] => False
  | t :: _ => followsStatement t = true ∧ t ≠ .mark .closeBrace

/-- A statement has a token. -/
theorem Begins.length_pos {ts : List Token} (h : Begins ts) : 0 < ts.length := by
  cases ts with
  | nil => exact h.elim
  | cons t ts => exact Nat.succ_pos _

section Meaning

variable (ctx : Context) (spell : Literal → String)

/-- The printed tokens of a phrase are read back by the rule for it.  Lists are printed with the token
that closes them. -/
def RoundTrips : {α : Type} → Phrase α → α → Prop
  | _, .expression, e | _, .level _, e | _, .unary, e | _, .suffixed, e | _, .primary, e =>
    Rereads ctx spell e
  | _, .arguments first, es => ∀ k, Consumes (arguments ctx (read ctx k) first) k
    (Expression.printItems spell first es ++ [.mark .closeParen]) anything
    (Expression.allBare · = Expression.allBare es)
  | _, .elements first, es => ∀ k, Consumes (elements ctx (read ctx k) first) k
    (Expression.printItems spell first es ++ [.mark .closeBracket]) anything
    (Expression.allBare · = Expression.allBare es)
  | _, .members, ds => ∀ k, Consumes (members ctx (read ctx k)) k
    (Declaration.printAll spell ds ++ [.mark .closeBrace]) anything
    (Declaration.allBare · = Declaration.allBare ds)
  | _, .typing, o => ∀ k, Consumes (after? (read ctx k) .colon (.operand 0)) k
    (Expression.printType spell o) followsType (Expression.optionBare · = Expression.optionBare o)
  | _, .initializer, o => ∀ k, Consumes (after? (read ctx k) .equal .expression) k
    (Expression.printValue spell o) ends (Expression.optionBare · = Expression.optionBare o)
  | _, .declaration _, d => ∀ pos k, Consumes (declaration ctx (read ctx k) pos) k (d.print spell)
    (· == .mark .semicolon) (·.bare = d.bare)
  | _, .parameters first, (fixed, rest) => ∀ k,
    Consumes (parameters ctx (read ctx k) first none) k
      (Parameter.printItems spell first fixed ++
        Parameter.printRest spell (first && fixed.isEmpty) rest ++ [.mark .closeParen]) anything
      fun r => Parameter.allBare r.1 = Parameter.allBare fixed ∧
        Parameter.optionBare r.2 = Parameter.optionBare rest
  | _, .procedure _, p => ∀ pos k, Consumes (procedure ctx (read ctx k) pos) k (p.print spell)
    anything (·.bare = p.bare)
  | _, .block, b => ∀ k, Consumes (block ctx (read ctx k)) k (b.print spell) anything
    (·.bare = b.bare)
  | _, .branch, b => ∀ k n, n < k → Consumes (branch (read ctx k)) n (b.print spell) anything
    (·.bare = b.bare)
  | _, .branches, bs => ∀ k, Consumes (branches (read ctx k)) k
    (Branch.printAll spell .elifWord bs) (· != .keyword .elifWord)
    (Branch.allBare · = Branch.allBare bs)
  | _, .otherwise, o => ∀ b, o = some b →
    ∀ k, Consumes (block ctx (read ctx k)) k (b.print spell) anything (·.bare = b.bare)
  | _, .statement, s => Begins (s.print spell) ∧ ∀ k,
    Consumes (statement ctx (read ctx k)) k (s.print spell) followsStatement (·.bare = s.bare)
  | _, .statements, ss =>
    Leads followsStatement (· == .mark .closeBrace) (Statement.printAll spell ss) ∧
      ∀ inBlock k, Consumes (statements ctx (read ctx k) inBlock) k
        (Statement.printAll spell ss) (fun t => inBlock && t == .mark .closeBrace)
        (Statement.allBare · = Statement.allBare ss)

end Meaning

namespace RoundTrips

variable {ctx : Context} {spell : Literal → String}

/-! ## Arguments and elements -/

/-- The comma before an item is read back. -/
theorem separator (first : Bool) (n : Nat) :
    Consumes (Grammar.separator ctx first) n (comma first) anything fun _ => True := by
  cases first with
  | true => exact .pure trivial
  | false => exact .bind_nil (Consumes.expect _) (fun _ _ _ _ => .pure trivial) fun _ _ => rfl

/-- An item does not start with what closes a list. -/
theorem leads_item {e : Expression} (h : Rereads ctx spell e) (c : Token) (hc : starts c = false)
    (hcomma : (.mark .comma != c) = true) (first : Bool) (q : Token → Bool) (ts : List Token) :
    Leads (· != c) q (comma first ++ (e.print spell ++ ts)) := by
  cases first with
  | true =>
    refine (h.start.append ts).leads fun t ht => ?_
    rw [bne_iff_ne]
    rintro rfl
    rw [hc] at ht
    cases ht
  | false => exact hcomma

/-- An item ends before the next one, or before what closes the list. -/
theorem leads_items {c : Token} (hc : ends c = true) (q : Token → Bool) (es : List Expression) :
    Leads ends q (Expression.printItems spell false es ++ [c]) := by
  cases es with
  | nil => exact hc
  | cons e es => rfl

/-- No arguments are read back. -/
theorem noArguments (first : Bool) : RoundTrips ctx spell (.arguments first) [] := by
  intro k
  exact .token (z := fun _ => pure []) (fun _ _ _ => rfl) fun _ _ _ => .pure rfl

/-- Arguments are read back. -/
theorem argument {e : Expression} {es : List Expression} (first : Bool) (h : Rereads ctx spell e)
    (hmore : RoundTrips ctx spell (.arguments false) es) :
    RoundTrips ctx spell (.arguments first) (e :: es) := by
  intro k
  simp only [Expression.printItems, List.append_assoc]
  refine .pass (Consumes.check_of_ne _) (fun found hfound => ?_) (leads_item h _ rfl rfl first _ _)
  subst hfound
  refine .bind (separator first k) (fun _ m _ hm => ?_) (leads_anything _ _)
  refine .pass (Consumes.accept?_of_ne _) (fun star hstar => ?_) (leads_item h _ rfl rfl true _ _)
  subst hstar
  refine .bind ((h.expression k).of_le (by omega))
    (fun e' i he' hi => ?_) (leads_items rfl _ es)
  have hpos := h.start.length_pos
  refine .bind_nil (.self (.arguments false) hmore (by omega)) (fun es' j hes' _ => .pure ?_)
    fun _ _ => rfl
  simp only [Expression.allBare, he', hes']

/-- An argument that is spread is read back. -/
theorem lastArgument {e : Expression} (first : Bool) (pos : Position) (h : Rereads ctx spell e) :
    RoundTrips ctx spell (.arguments first) [.splat e pos] := by
  intro k
  simp only [Expression.printItems, Expression.print, List.append_assoc, List.append_nil,
    List.cons_append]
  refine .pass (Consumes.check_of_ne _) (fun found hfound => ?_) ?_
  · subst hfound
    refine .bind (separator first k) (fun _ m _ hm => ?_) (leads_anything _ _)
    refine .bind (Consumes.accept? (.mark .star)) (fun star i hstar hi => ?_) (leads_anything _ _)
    obtain ⟨pos', rfl⟩ := Option.isSome_iff_exists.mp hstar
    simp only [List.length_singleton] at hi
    refine .bind (.self .expression h.expression (by omega)) (fun e' j he' _ => ?_) rfl
    refine .token (z := fun _ => pure [.splat e' pos']) (fun _ _ _ => rfl) fun _ _ _ => .pure ?_
    simp only [Expression.allBare, Expression.bare, he']
  · cases first with
    | true | false => rfl

/-- No elements are read back. -/
theorem noElements (first : Bool) : RoundTrips ctx spell (.elements first) [] := by
  intro k
  exact .token (z := fun _ => pure []) (fun _ _ _ => rfl) fun _ _ _ => .pure rfl

/-- Elements are read back. -/
theorem element {e : Expression} {es : List Expression} (first : Bool) (h : Rereads ctx spell e)
    (hmore : RoundTrips ctx spell (.elements false) es) :
    RoundTrips ctx spell (.elements first) (e :: es) := by
  intro k
  simp only [Expression.printItems, List.append_assoc]
  refine .pass (Consumes.check_of_ne _) (fun found hfound => ?_) (leads_item h _ rfl rfl first _ _)
  subst hfound
  refine .bind (separator first k) (fun _ m _ hm => ?_) (leads_anything _ _)
  refine .bind ((h.expression k).of_le (by omega))
    (fun e' i he' hi => ?_) (leads_items rfl _ es)
  have hpos := h.start.length_pos
  refine .bind_nil (.self (.elements false) hmore (by omega)) (fun es' j hes' _ => .pure ?_)
    fun _ _ => rfl
  simp only [Expression.allBare, he', hes']

/-! ## Declarations and parameters -/

/-- Without its mark, an optional phrase is missing. -/
theorem after?_none {α : Type} {self : {α : Type} → Goal α → Reader α} (m : Mark) (g : Goal α)
    (n : Nat) : Consumes (after? self m g) n [] (· != .mark m) (· = none) := by
  refine .pass (Consumes.accept?_of_ne _) (fun found hfound => ?_) fun _ h => h
  subst hfound
  exact .pure rfl

/-- After its mark, an optional phrase is read back. -/
theorem after?_some {α : Type} (m : Mark) (g : Goal α) {ts : List Token} {p : Token → Bool}
    {P : α → Prop} (h : ∀ k, Consumes (rule ctx (read ctx k) g) k ts p P) (k : Nat) :
    Consumes (after? (read ctx k) m g) k (.mark m :: ts) p fun o => ∃ a, o = some a ∧ P a := by
  refine .bind (Consumes.accept? (.mark m)) (fun found i hfound hi => ?_) (leads_anything _ _)
  obtain ⟨pos, rfl⟩ := Option.isSome_iff_exists.mp hfound
  exact .bind_nil (.self g h (Nat.lt_of_succ_le hi)) (fun a j ha _ => .pure ⟨a, rfl, ha⟩)
    fun _ h => h

/-- A missing type is read back. -/
theorem untyped : RoundTrips ctx spell .typing none := by
  intro k
  refine (after?_none .colon (.operand 0) k).mono (Nat.le_refl k) (fun t ht => ?_)
    fun o ho => congrArg Expression.optionBare ho
  exact (Bool.and_eq_true_iff.mp ht).2

/-- A type is read back. -/
theorem typing {e : Expression} (h : Rereads ctx spell e) :
    RoundTrips ctx spell .typing (some e) := by
  intro k
  refine (after?_some .colon (.operand 0) (h.atLast 0) k).mono (Nat.le_refl k) (fun t ht => ?_) ?_
  · exact (Bool.and_eq_true_iff.mp ht).1
  · rintro _ ⟨e', rfl, he'⟩
    exact congrArg some he'

/-- A missing value is read back. -/
theorem noInitializer : RoundTrips ctx spell .initializer none := by
  intro k
  refine (after?_none .equal .expression k).mono (Nat.le_refl k) (fun t ht => ?_)
    fun o ho => congrArg Expression.optionBare ho
  rw [bne_iff_ne]
  rintro rfl
  cases ht

/-- A value is read back. -/
theorem initializer {e : Expression} (h : Rereads ctx spell e) :
    RoundTrips ctx spell .initializer (some e) := by
  intro k
  refine (after?_some .equal .expression h.expression k).mono (Nat.le_refl k) (fun _ h => h) ?_
  rintro _ ⟨e', rfl, he'⟩
  exact congrArg some he'

/-- A declaration is read back. -/
theorem declaration {type value : Option Expression} (name : String) (pos : Position)
    (htype : RoundTrips ctx spell .typing type)
    (hvalue : RoundTrips ctx spell .initializer value) :
    RoundTrips ctx spell (.declaration pos) ⟨name, type, value, pos⟩ := by
  intro pos' k
  simp only [Declaration.print, List.cons_append]
  refine .bind (Consumes.name name) (fun s m hs hm => ?_) (leads_anything _ _)
  refine .bind ((htype k).of_le (by omega)) (fun type' i ht hi => ?_) ?_
  · refine .bind_nil ((hvalue k).of_le (by omega))
      (fun value' j hv _ => .pure ?_) fun t ht => ?_
    · simp only [Declaration.bare, hs, ht, hv]
    · rw [beq_iff_eq.mp ht]
      rfl
  · cases value with
    | none =>
      intro t ht
      rw [beq_iff_eq.mp ht]
      rfl
    | some e => rfl

/-- No members are read back. -/
theorem noMembers : RoundTrips ctx spell .members [] := by
  intro k
  exact .token (z := fun _ => pure []) (fun _ _ _ => rfl) fun _ _ _ => .pure rfl

/-- Members are read back. -/
theorem moreMembers {d : Declaration} {ds : List Declaration} (pos : Position)
    (h : RoundTrips ctx spell (.declaration pos) d)
    (hmore : RoundTrips ctx spell .members ds) : RoundTrips ctx spell .members (d :: ds) := by
  intro k
  simp only [Declaration.printAll, List.append_assoc, List.cons_append]
  refine .pass (Consumes.check_of_ne _) (fun found hfound => ?_) (by cases d; rfl)
  subst hfound
  refine .pass Consumes.here (fun pos' _ => ?_) (leads_anything _ _)
  refine .bind (h pos' k) (fun d' m hd' hm => ?_) rfl
  refine .bind (Consumes.expect (.mark .semicolon)) (fun _ i _ hi => ?_) (leads_anything _ _)
  simp only [List.length_singleton] at hi
  refine .bind_nil (.self .members hmore (by omega)) (fun ds' j hds' _ => .pure ?_) fun _ _ => rfl
  simp only [Declaration.allBare, hd', hds']

/-- What comes after the type of a parameter is a comma or a parenthesis. -/
theorem leads_parameters (fixed : List Parameter) (rest : Option Parameter) (q : Token → Bool) :
    Leads followsType q (Parameter.printItems spell false fixed ++
      (Parameter.printRest spell false rest ++ [Token.mark .closeParen])) := by
  cases fixed with
  | nil =>
    cases rest with
    | none | some => rfl
  | cons p fixed => rfl

/-- No parameters are read back. -/
theorem noParameters (first : Bool) : RoundTrips ctx spell (.parameters first) ([], none) := by
  intro k
  exact .token (z := fun _ => pure ([], none)) (fun _ _ _ => rfl) fun _ _ _ => .pure ⟨rfl, rfl⟩

/-- Parameters are read back. -/
theorem parameter {type : Option Expression} {fixed : List Parameter} {rest : Option Parameter}
    (first : Bool) (name : String) (pos : Position) (htype : RoundTrips ctx spell .typing type)
    (hmore : RoundTrips ctx spell (.parameters false) (fixed, rest)) :
    RoundTrips ctx spell (.parameters first) (⟨name, type, pos⟩ :: fixed, rest) := by
  intro k
  have hfirst : (first && (List.cons (Parameter.mk name type pos) fixed).isEmpty) = false :=
    Bool.and_false first
  rw [hfirst]
  simp only [Parameter.printItems, Parameter.print, List.append_assoc, List.cons_append]
  refine .pass (Consumes.check_of_ne _) (fun found hfound => ?_) ?_
  · subst hfound
    refine .bind (separator first k) (fun _ m _ hm => ?_) (leads_anything _ _)
    refine .pass Consumes.here (fun pos' _ => ?_) (leads_anything _ _)
    refine .pass (Consumes.accept?_of_ne _) (fun star hstar => ?_) rfl
    subst hstar
    refine .bind (Consumes.name name) (fun s i hs hi => ?_) (leads_anything _ _)
    refine .bind ((htype k).of_le (by omega)) (fun type' j ht hj => ?_)
      (leads_parameters fixed rest _)
    simp only [List.length_singleton] at hi
    rw [← List.append_assoc]
    refine .bind_nil (.self (.parameters false none) hmore (by omega)) (fun r l hr _ => .pure ?_)
      fun _ _ => rfl
    obtain ⟨fixed', rest'⟩ := r
    simp only [Parameter.allBare, Parameter.bare, hs, ht, hr.1, hr.2, and_self]
  · cases first with
    | true | false => rfl

/-- A parameter that takes all that is left is read back. -/
theorem lastParameter {type : Option Expression} (first : Bool) (name : String) (pos : Position)
    (htype : RoundTrips ctx spell .typing type) :
    RoundTrips ctx spell (.parameters first) ([], some ⟨name, type, pos⟩) := by
  intro k
  have hfirst : (first && ([] : List Parameter).isEmpty) = first := Bool.and_true first
  rw [hfirst]
  simp only [Parameter.printItems, Parameter.printRest, Parameter.print, List.append_assoc,
    List.cons_append, List.nil_append]
  refine .pass (Consumes.check_of_ne _) (fun found hfound => ?_) ?_
  · subst hfound
    refine .bind (separator first k) (fun _ m _ hm => ?_) (leads_anything _ _)
    refine .pass Consumes.here (fun pos' _ => ?_) (leads_anything _ _)
    refine .bind (Consumes.accept? (.mark .star)) (fun star i hstar hi => ?_) (leads_anything _ _)
    obtain ⟨starPos, rfl⟩ := Option.isSome_iff_exists.mp hstar
    simp only [List.length_singleton] at hi
    refine .bind (Consumes.name name) (fun s j hs hj => ?_) (leads_anything _ _)
    refine .bind ((htype k).of_le (by omega)) (fun type' l ht hl => ?_)
      rfl
    -- only the closing parenthesis is left
    have hclose (n : Nat) : Consumes
        (Grammar.parameters ctx (read ctx n) false (some ⟨s, type', pos'⟩)) n
        [.mark .closeParen] anything (· = ([], some ⟨s, type', pos'⟩)) :=
      .token (z := fun _ => pure ([], some ⟨s, type', pos'⟩)) (fun _ _ _ => rfl)
        fun _ _ _ => .pure rfl
    refine (Advances.self (.parameters false (some ⟨s, type', pos'⟩)) hclose (by omega)).mono
      (Nat.le_refl l) (fun _ h => h) ?_
    rintro _ rfl
    simp only [Parameter.optionBare, Parameter.bare, hs, ht, and_self]
  · cases first with
    | true | false => rfl

/-! ## Procedures, blocks and branches -/

/-- A block is read back. -/
theorem block {ss : List Statement} (pos : Position) (h : RoundTrips ctx spell .statements ss) :
    RoundTrips ctx spell .block ⟨ss, pos⟩ := by
  intro k
  rw [Block.print_mk]
  refine .bind (Consumes.expect (.mark .openBrace)) (fun pos' m _ hm => ?_) (leads_anything _ _)
  refine .bind (.self (.statements true) (h.2 true) (Nat.lt_of_succ_le hm)) (fun ss' i hss' _ => ?_)
    rfl
  refine .bind_nil (Consumes.expect _) (fun _ j _ _ => .pure ?_) fun _ _ => rfl
  simp only [Block.bare, hss']

/-- A procedure is read back. -/
theorem procedure {fixed : List Parameter} {rest : Option Parameter} {body : Block}
    (pos : Position) (h : RoundTrips ctx spell (.parameters true) (fixed, rest))
    (hbody : RoundTrips ctx spell .block body) :
    RoundTrips ctx spell (.procedure pos) { fixed, rest, body, pos, origin := default } := by
  intro pos' k
  rw [Procedure.print_mk]
  refine .bind (Consumes.expect (.mark .openParen)) (fun _ m _ hm => ?_) (leads_anything _ _)
  have hlt : m < k := Nat.lt_of_succ_le hm
  refine .bind (.self (.parameters true none) h hlt) (fun r i hr hi => ?_) (leads_anything _ _)
  refine .bind_nil (.self .block hbody (by omega)) (fun body' j hbody' _ => .pure ?_)
    fun _ _ => rfl
  obtain ⟨fixed', rest'⟩ := r
  simp only [Procedure.bare, hr.1, hr.2, hbody']

/-- What comes after an expression may be a block. -/
theorem leads_block (b : Block) (q : Token → Bool) : Leads ends q (b.print spell) := by
  cases b
  rfl

/-- A branch is read back. -/
theorem branch {condition : Expression} {body : Block} (h : Rereads ctx spell condition)
    (hbody : RoundTrips ctx spell .block body) :
    RoundTrips ctx spell .branch ⟨condition, body⟩ := by
  intro k n hn
  refine .bind (.self .expression h.expression hn) (fun e m he hm => ?_) (leads_block body _)
  refine .bind_nil (.self .block hbody (by omega)) (fun b i hb _ => .pure ?_) fun _ _ => rfl
  simp only [Branch.bare, he, hb]

/-- No branches are read back. -/
theorem noBranches : RoundTrips ctx spell .branches [] := by
  intro k
  refine .pass (Consumes.accept?_of_ne _) (fun found hfound => ?_) fun _ h => h
  subst hfound
  exact .pure rfl

/-- Branches are read back. -/
theorem moreBranches {b : Branch} {bs : List Branch} (h : RoundTrips ctx spell .branch b)
    (hmore : RoundTrips ctx spell .branches bs) : RoundTrips ctx spell .branches (b :: bs) := by
  intro k
  simp only [Branch.printAll, List.cons_append]
  refine .bind (Consumes.accept? (.keyword .elifWord)) (fun found m hfound hm => ?_)
    (leads_anything _ _)
  obtain ⟨pos, rfl⟩ := Option.isSome_iff_exists.mp hfound
  have hlt : m < k := Nat.lt_of_succ_le hm
  refine .bind (h k m hlt) (fun b' i hb' hi => ?_) (leads_anything _ _)
  refine .bind_nil (.self .branches hmore (by omega)) (fun bs' j hbs' _ => .pure ?_) fun _ h => h
  simp only [Branch.allBare, hb', hbs']

/-! ## Statements -/

/-- A declaration is read back as a statement. -/
theorem declare {d : Declaration} {pos : Position}
    (h : RoundTrips ctx spell (.declaration pos) d) :
    RoundTrips ctx spell .statement (.declare d) := by
  refine ⟨⟨rfl, nofun⟩, fun k => ?_⟩
  rw [Statement.print_declare]
  refine .token (z := fun pos => do
    let d ← Grammar.declaration ctx (read ctx k) pos
    endStatement ctx
    return .declare d) (fun pos ts es => by cases ts <;> rfl) fun pos m hm => ?_
  refine .bind ((h pos k).of_le (by omega)) (fun d' i hd' _ => ?_) rfl
  refine .bind_nil Consumes.endStatement (fun _ j _ _ => .pure ?_) fun _ _ => rfl
  simp only [Statement.bare, hd']

/-- A choice is read back. -/
theorem ifElse {b : Branch} {bs : List Branch} {other : Option Block} (pos : Position)
    (h : RoundTrips ctx spell .branch b) (hmore : RoundTrips ctx spell .branches bs)
    (hother : RoundTrips ctx spell .otherwise other) :
    RoundTrips ctx spell .statement (.ifElse (b :: bs) other pos) := by
  refine ⟨⟨rfl, nofun⟩, fun k => ?_⟩
  rw [Statement.print_ifElse]
  refine .token (z := fun pos => Grammar.ifElse (read ctx k) pos)
    (fun pos ts es => by cases ts <;> rfl) fun pos' m hm => ?_
  refine .bind (h k m hm) (fun b' i hb' hi => ?_) (leads_anything _ _)
  refine .bind (.self .branches hmore (by omega)) (fun bs' j hbs' hj => ?_) ?_
  · cases other with
    | none =>
      refine .pass (Consumes.accept?_of_ne _) (fun found hfound => ?_) fun t ht => ?_
      · subst hfound
        refine .pure ?_
        simp only [Statement.bare, Branch.allBare, hb', hbs']
      · exact (Bool.and_eq_true_iff.mp ht).2
    | some o =>
      refine .bind (Consumes.accept? (.keyword .elseWord)) (fun found l hfound hl => ?_)
        (leads_anything _ _)
      obtain ⟨elsePos, rfl⟩ := Option.isSome_iff_exists.mp hfound
      simp only [List.length_singleton] at hl
      refine .bind_nil (.self .block (hother o rfl) (by omega)) (fun o' _ ho' _ => .pure ?_)
        fun _ _ => rfl
      simp only [Statement.bare, Branch.allBare, Block.optionBare, hb', hbs', ho']
  · cases other with
    | none =>
      intro t ht
      exact (Bool.and_eq_true_iff.mp ht).1
    | some o => rfl

/-- A loop with a condition is read back. -/
theorem whileDo {b : Branch} (pos : Position) (h : RoundTrips ctx spell .branch b) :
    RoundTrips ctx spell .statement (.whileDo b.condition b.body pos) := by
  obtain ⟨condition, body⟩ := b
  refine ⟨⟨rfl, nofun⟩, fun k => ?_⟩
  refine .token (z := fun pos => do
    let b ← Grammar.branch (read ctx k)
    return .whileDo b.condition b.body pos) (fun pos ts es => by cases ts <;> rfl)
    fun pos' m hm => ?_
  refine .bind_nil (h k m hm) (fun b' i hb' _ => .pure ?_) fun _ _ => rfl
  obtain ⟨condition', body'⟩ := b'
  simp only [Branch.bare, Branch.mk.injEq] at hb'
  simp only [Statement.bare, hb'.1, hb'.2]

/-- A loop over an array is read back. -/
theorem forIn {iterable : Expression} {body : Block} (name : String) (pos namePos : Position)
    (h : Rereads ctx spell iterable) (hbody : RoundTrips ctx spell .block body) :
    RoundTrips ctx spell .statement (.forIn name iterable
      { fixed := [⟨name, none, namePos⟩], rest := none, body, pos, origin := default } pos) := by
  refine ⟨⟨rfl, nofun⟩, fun k => ?_⟩
  rw [Statement.print_forIn]
  refine .token (z := fun pos => Grammar.forIn ctx (read ctx k) pos)
    (fun pos ts es => by cases ts <;> rfl) fun pos' m hm => ?_
  refine .pass Consumes.here (fun namePos' _ => ?_) (leads_anything _ _)
  refine .bind (Consumes.name name) (fun s i hs hi => ?_) (leads_anything _ _)
  refine .bind (Consumes.expect (.keyword .inWord)) (fun _ j _ hj => ?_) (leads_anything _ _)
  simp only [List.length_singleton] at hi hj
  refine .bind (.self .expression h.expression (by omega)) (fun e l he hl => ?_)
    (leads_block body _)
  refine .bind_nil (.self .block hbody (by omega)) (fun b _ hb _ => .pure ?_) fun _ _ => rfl
  simp only [Statement.bare, Procedure.bare, Parameter.allBare, Parameter.bare, hs, he, hb]

/-- The end of a procedure is read back. -/
theorem returnWith {e : Expression} (pos : Position) (h : Rereads ctx spell e) :
    RoundTrips ctx spell .statement (.returnWith e pos) := by
  refine ⟨⟨rfl, nofun⟩, fun k => ?_⟩
  rw [Statement.print_returnWith]
  refine .token (z := fun pos => Grammar.returnWith ctx (read ctx k) pos)
    (fun pos ts es => by cases ts <;> rfl) fun pos' m hm => ?_
  refine .pass (Consumes.check_of_ne _) (fun found hfound => ?_)
    ((h.start.append _).leads fun t ht => ?_)
  · subst hfound
    refine .bind (.self .expression h.expression hm) (fun e' i he' _ => ?_) rfl
    refine .bind_nil Consumes.endStatement (fun _ j _ _ => .pure ?_) fun _ _ => rfl
    simp only [Statement.bare, he']
  · rw [bne_iff_ne]
    rintro rfl
    cases ht

/-- A macro is read back. -/
theorem defineMacro {p : Procedure} (name : String) (pos : Position)
    (h : ∀ pos k, Consumes (Grammar.procedure ctx (read ctx k) pos) k (p.print spell) anything
      (·.bare = p.bare)) :
    RoundTrips ctx spell .statement
      (.defineMacro name { p with fixed := ⟨"self", none, pos⟩ :: p.fixed } pos) := by
  obtain ⟨fixed, rest, body, pos₀, origin⟩ := p
  refine ⟨⟨rfl, nofun⟩, fun k => ?_⟩
  rw [Statement.print_defineMacro]
  refine .token (z := fun pos => Grammar.defineMacro ctx (read ctx k) pos)
    (fun pos ts es => by cases ts <;> rfl) fun pos' m hm => ?_
  refine .bind (Consumes.name name) (fun s i hs hi => ?_) (leads_anything _ _)
  refine .bind_nil (.self (.procedure pos') (h pos') (by omega)) (fun p' j hp' _ => .pure ?_)
    fun _ _ => rfl
  obtain ⟨fixed', rest', body', pos₁, origin'⟩ := p'
  simp only [Procedure.bare, Procedure.mk.injEq, true_and] at hp'
  obtain ⟨hfixed, hrest, hbody, horigin⟩ := hp'
  simp only [Statement.bare, Procedure.bare, Parameter.allBare, Parameter.bare, hs, hfixed, hrest,
    hbody, horigin]

/-- A block is read back as a statement. -/
theorem blockStatement {b : Block} (h : RoundTrips ctx spell .block b) :
    RoundTrips ctx spell .statement (.block b) := by
  obtain ⟨ss, pos⟩ := b
  refine ⟨⟨rfl, nofun⟩, fun k => ?_⟩
  have hblock : Consumes (do return Statement.block (← Grammar.block ctx (read ctx k))) k
      (Block.print spell ⟨ss, pos⟩) followsStatement
      (·.bare = (Statement.block ⟨ss, pos⟩).bare) := by
    refine .bind_nil (h k) (fun b' i hb' _ => .pure ?_) fun _ _ => rfl
    simp only [Statement.bare, hb']
  rw [Block.print_mk] at hblock
  rw [Statement.print_block, Block.print_mk]
  exact hblock.of_peek fun pos ts es => by cases ts <;> rfl

/-- A statement that does nothing is read back. -/
theorem empty (pos : Position) : RoundTrips ctx spell .statement (.empty pos) := by
  refine ⟨⟨rfl, nofun⟩, fun k => ?_⟩
  exact .token (z := fun pos => pure (.empty pos)) (fun pos ts es => by cases ts <;> rfl)
    fun _ _ _ => .pure rfl

/-- An expression is read back as a statement. -/
theorem expressionStatement {e : Expression} (h : Rereads ctx spell e) :
    RoundTrips ctx spell .statement (.expression e) := by
  refine ⟨⟨rfl, nofun⟩, fun k => ?_⟩
  have hstatement : Consumes (Grammar.expressionStatement ctx (read ctx k)) k
      (Statement.print spell (.expression e)) followsStatement
      (·.bare = (Statement.expression e).bare) := by
    rw [Statement.print_expression]
    refine .bind (h.expression_parens k) (fun e' i he' _ => ?_) rfl
    refine .bind_nil Consumes.endStatement (fun _ j _ _ => .pure ?_) fun _ _ => rfl
    simp only [Statement.bare, he']
  rw [Statement.print_expression] at hstatement ⊢
  exact hstatement.of_peek fun pos ts es => by cases ts <;> rfl

/-- A statement that can be read is not skipped. -/
theorem statement? {self : {α : Type} → Goal α → Reader α} {n : Nat} {ts : List Token}
    {p : Token → Bool} {P : Statement → Prop} (h : Consumes (statement ctx self) n ts p P) :
    Consumes (statement? ctx self) n ts p fun found => ∃ s, found = some s ∧ P s := by
  intro used rest es hs hrest hlen
  obtain ⟨s, m, hP, hm, hok⟩ := h used rest es hs hrest hlen
  refine ⟨some s, m, ⟨s, rfl, hP⟩, hm, ?_⟩
  rw [Reads.statement?_apply, hok]
  rfl

/-- No statements are read back. -/
theorem noStatements : RoundTrips ctx spell .statements [] := by
  refine ⟨fun t ht => ?_, fun inBlock k used rest es hs hrest _ => ?_⟩
  · rw [beq_iff_eq.mp ht]
    rfl
  · obtain rfl := hs.eq_nil
    refine ⟨[], rest.length, rfl, Nat.le_refl _, ?_⟩
    cases rest with
    | nil => rfl
    | cons t ts =>
      have hend := hrest t rfl
      change (if inBlock && t.token == .mark .closeBrace then _ else _ :
        Reader (List Statement)) _ = _
      rw [if_pos hend]
      rfl

/-- Statements are read back. -/
theorem moreStatements {s : Statement} {ss : List Statement}
    (h : RoundTrips ctx spell .statement s) (hmore : RoundTrips ctx spell .statements ss) :
    RoundTrips ctx spell .statements (s :: ss) := by
  obtain ⟨hbegins, hs⟩ := h
  obtain ⟨hleads, hss⟩ := hmore
  have hall (inBlock : Bool) (k : Nat) : Consumes (do
      let first ← Grammar.statement? ctx (read ctx k)
      let more ← read ctx k (.statements inBlock)
      return first.toList ++ more) k (s.print spell ++ Statement.printAll spell ss)
      (fun t => inBlock && t == .mark .closeBrace)
      (Statement.allBare · = Statement.allBare (s :: ss)) := by
    refine .bind (statement? (hs k)) ?_ (hleads.mono fun t ht => (Bool.and_eq_true_iff.mp ht).2)
    rintro _ m ⟨s', rfl, hs'⟩ hm
    have hpos := hbegins.length_pos
    refine .bind_nil (.self (.statements inBlock) (hss inBlock) (by omega))
      (fun ss' i hss' _ => .pure ?_) fun _ h => h
    simp only [Option.toList, List.singleton_append, Statement.allBare, hs', hss']
  simp only [RoundTrips, Statement.printAll]
  cases hprint : s.print spell with
  | nil =>
    rw [hprint] at hbegins
    exact hbegins.elim
  | cons t ts =>
    rw [hprint] at hbegins
    refine ⟨hbegins.1, fun inBlock k => ?_⟩
    have hgo : (inBlock && t == .mark .closeBrace) = false := by
      simp [hbegins.2]
    rw [hprint] at hall
    refine (hall inBlock k).of_peek fun pos us es => ?_
    change (if inBlock && t == .mark .closeBrace then _ else _ : Reader (List Statement)) _ = _
    rw [hgo]
    rfl

/-- A procedure that is written with an arrow is read back from its full form. -/
theorem arrowProcedure {e : Expression} (name : String) (pos : Position)
    (h : Rereads ctx spell e) : Rereads ctx spell (.procedure (arrowProcedure name pos e)) := by
  have hbody : RoundTrips ctx spell .block ⟨[.returnWith e e.pos], e.pos⟩ :=
    block e.pos (moreStatements (returnWith e.pos h) noStatements)
  exact .procedure (procedure pos (parameter true name pos untyped (noParameters false)) hbody)

end RoundTrips

/-! ## The round trip -/

/-- Numbers are spelled as numerals that stand for them. -/
def SpellsNumbers (spell : Literal → String) : Prop :=
  ∀ s v, Literal.ofNumeral? s = some v → Literal.ofNumeral? (spell v) = some v

/-- A literal that is printed as a numeral is printed as it is spelled. -/
theorem eq_spell_of_print {spell : Literal → String} {v : Literal} {s : String}
    (h : v.print spell = .number s) : s = spell v := by
  cases v with
  | int | float =>
    cases h
    rfl
  | bool b =>
    cases b with
    | true | false => cases h
  | null | text => cases h

/-- Whatever the grammar derives is read back from its printed tokens. -/
theorem Derives.roundTrips {spell : Literal → String} (hspell : SpellsNumbers spell)
    (ctx : Context) {α : Type} {p : Phrase α} {ts : List Lexeme} {a : α} (h : Derives p ts a) :
    RoundTrips ctx spell p a := by
  induction h with
  | value _ ih | tighter _ ih | operand _ ih | plain _ ih | bare _ ih => exact ih
  | parens _ _ _ ih => exact ih
  | assign pos _ htarget _ iht ih => exact .assign pos iht htarget ih
  | compound pos _ _ htarget _ iht ih => exact .assign pos iht htarget (.binary _ pos iht ih)
  | binary pos _ _ _ ihl ihr => exact .binary _ pos ihl ihr
  | unary op pos _ ih => exact .unaryOperator op pos ih
  | member name pos _ _ ih => exact .member name pos ih
  | call pos _ _ _ ih ihs => exact .call pos ih ihs
  | index pos _ _ _ ih ihk => exact .index pos ih ihk
  | number pos hv =>
    refine .literal pos fun s hs => ?_
    rw [eq_spell_of_print hs]
    exact hspell _ _ hv
  | text | truth | falsity | null => exact .literal _ nofun
  | name name pos => exact .name name pos
  | arrow name pos _ _ ih => exact .arrowProcedure name pos ih
  | parensArrow _ _ _ _ _ _ ih => exact .arrowProcedure _ _ ih
  | array pos _ _ ih => exact .array pos ih
  | object pos _ _ ih => exact .object pos ih
  | procedureLiteral _ _ ih => exact Rereads.procedure ih
  | mixin pos _ _ hts => exact .mixin pos hts
  | noArguments first => exact .noArguments first
  | argument _ _ _ ih ihs => exact .argument _ ih ihs
  | lastArgument pos _ _ ih => exact .lastArgument _ pos ih
  | noElements first => exact .noElements first
  | element _ _ _ ih ihs => exact .element _ ih ihs
  | untyped => exact .untyped
  | typing _ _ ih => exact .typing ih
  | noInitializer => exact .noInitializer
  | initializer _ _ ih => exact .initializer ih
  | declaration name pos _ _ _ iht ihv => exact .declaration name pos iht ihv
  | noMembers => exact .noMembers
  | moreMembers _ _ _ ih ihs => exact .moreMembers _ ih ihs
  | noParameters first => exact .noParameters first
  | parameter name pos _ _ _ iht ihs => exact .parameter _ name pos iht ihs
  | lastParameter name pos _ _ _ iht => exact .lastParameter _ name pos iht
  | procedure pos _ _ _ _ ih ihb => exact .procedure pos ih ihb
  | block pos _ _ ih => exact .block pos ih
  | branch _ _ ih ihb => exact .branch ih ihb
  | noBranches => exact .noBranches
  | moreBranches _ _ _ ih ihs => exact .moreBranches ih ihs
  | noOtherwise => exact nofun
  | otherwise _ _ ih =>
    rintro _ ⟨⟩
    exact ih
  | declare _ _ _ ih => exact .declare ih
  | namedProcedure name pos _ _ ih =>
    exact .declare (.declaration name pos (.typing (.name "Func" pos)) (.initializer (.procedure ih)))
  | ifElse pos _ _ _ ih ihs iho => exact .ifElse pos ih ihs iho
  | whileDo pos _ ih => exact .whileDo pos ih
  | forIn name pos namePos _ _ _ ih ihb => exact .forIn name pos namePos ih ihb
  | returnNothing pos _ => exact .returnWith pos (.literal pos nofun)
  | returnWith pos _ _ ih => exact .returnWith pos ih
  | defineMacro name pos _ _ ih => exact .defineMacro name pos ih
  | blockStatement _ ih => exact .blockStatement ih
  | empty pos => exact .empty pos
  | expressionStatement _ _ ih => exact .expressionStatement ih
  | noStatements => exact .noStatements
  | moreStatements _ _ ih ihs => exact .moreStatements ih ihs

/-- Reading and printing are inverse: if tokens without imports are read without errors, then the
printed tokens of the program, wherever they stand, are read without errors too, and as the same
program up to places. -/
theorem readTokens_printAll {spell : Literal → String} (hspell : SpellsNumbers spell)
    {ctx : Context} {ts : List Lexeme} (hfree : ImportFree ts)
    (herrors : (readTokens ctx [] ts).errors = []) (ctx' : Context) {ts' : List Lexeme}
    (hprint : ts'.map (·.token) = Statement.printAll spell (readTokens ctx [] ts).statements) :
    (readTokens ctx' [] ts').errors = [] ∧
      Statement.allBare (readTokens ctx' [] ts').statements =
        Statement.allBare (readTokens ctx [] ts).statements := by
  obtain ⟨c, hread, hc⟩ := exists_read_of_errors_eq_nil herrors
  obtain ⟨-, hused⟩ := Reads.read _ _ _ _ _ hread hc
  obtain ⟨used, -, ⟨parts, -, hparts⟩, -⟩ := hused hfree
  have hround := (Derives.of_parts hparts).roundTrips hspell ctx'
  obtain ⟨ss, m, hss, -, hok⟩ := hround.2 false ts'.length ts' [] [] hprint nofun (by simp)
  rw [List.append_nil] at hok
  have hread' : read ctx' (ts'.length + 1) (.statements false) ⟨ts', []⟩ = .ok ss ⟨[], []⟩ := hok
  rw [readTokens_apply, hread']
  exact ⟨rfl, hss⟩

/-- All numbers that numerals stand for can be spelled. -/
theorem exists_spellsNumbers : ∃ spell, SpellsNumbers spell := by
  classical
  refine ⟨fun v => if h : ∃ s, Literal.ofNumeral? s = some v then h.choose else "", ?_⟩
  intro s v hv
  have h : ∃ s, Literal.ofNumeral? s = some v := ⟨s, hv⟩
  dsimp only
  rw [dif_pos h]
  exact h.choose_spec

/-- The tokens of `f = x -> -(x + 1) * (x.y);`. -/
def arrowTokens : List Lexeme :=
  [⟨.name "f", ⟨1, 1⟩⟩, ⟨.mark .equal, ⟨1, 3⟩⟩, ⟨.name "x", ⟨1, 5⟩⟩, ⟨.mark .arrow, ⟨1, 7⟩⟩,
    ⟨.mark .minus, ⟨1, 10⟩⟩, ⟨.mark .openParen, ⟨1, 11⟩⟩, ⟨.name "x", ⟨1, 12⟩⟩,
    ⟨.mark .plus, ⟨1, 14⟩⟩, ⟨.number "1", ⟨1, 16⟩⟩, ⟨.mark .closeParen, ⟨1, 17⟩⟩,
    ⟨.mark .star, ⟨1, 19⟩⟩, ⟨.mark .openParen, ⟨1, 21⟩⟩, ⟨.name "x", ⟨1, 22⟩⟩,
    ⟨.mark .dot, ⟨1, 23⟩⟩, ⟨.name "y", ⟨1, 24⟩⟩, ⟨.mark .closeParen, ⟨1, 25⟩⟩,
    ⟨.mark .semicolon, ⟨1, 26⟩⟩]

/-- The tokens of `(f = func (x) { return -(x + 1) * x.y; });`, all outside of texts. -/
def fullTokens (spell : Literal → String) : List Lexeme :=
  [.mark .openParen, .name "f", .mark .equal, .keyword .funcWord, .mark .openParen, .name "x",
    .mark .closeParen, .mark .openBrace, .keyword .returnWord, .mark .minus, .mark .openParen,
    .name "x", .mark .plus, .number (spell (.int 1)), .mark .closeParen, .mark .star, .name "x",
    .mark .dot, .name "y", .mark .semicolon, .mark .closeBrace, .mark .closeParen,
    .mark .semicolon].map (⟨·, .outside⟩)

/-- An arrow is printed in full and without the parentheses that are not needed, and is read back. -/
theorem readTokens_printAll_arrow : ∃ spell, SpellsNumbers spell ∧ ImportFree arrowTokens ∧
    (readTokens sampleContext [] arrowTokens).errors = [] ∧
    (fullTokens spell).map (·.token) =
      Statement.printAll spell (readTokens sampleContext [] arrowTokens).statements ∧
    (readTokens sampleContext [] (fullTokens spell)).errors = [] ∧
    Statement.allBare (readTokens sampleContext [] (fullTokens spell)).statements =
      Statement.allBare (readTokens sampleContext [] arrowTokens).statements := by
  obtain ⟨spell, hspell⟩ := exists_spellsNumbers
  have hfree : ImportFree arrowTokens := by
    unfold ImportFree
    decide
  have herrors : (readTokens sampleContext [] arrowTokens).errors = [] := by cbv
  have hprint : (fullTokens spell).map (·.token) =
      Statement.printAll spell (readTokens sampleContext [] arrowTokens).statements := by cbv
  exact ⟨spell, hspell, hfree, herrors, hprint,
    readTokens_printAll hspell hfree herrors sampleContext hprint⟩

end Grammar

end ProtoScript
