import ProtoScript.Program.Tree

/-!
# The grammar

Which tokens spell which phrase.  `Derives p ts a` says that the tokens `ts`, all of them and in this
order, are a phrase of the kind `p`, and that `a` is its tree.  The places of the nodes are those of
tokens of the phrase.

Expressions come in levels, from loose to tight: assignments; the binary operators by rank, where
operators of one rank associate to the left; the unary operators; calls, members and indices, which
follow their target; and the phrases that start with a token of their own.  Lists are given from left
to right: an item that is not the first one starts with a comma, so there is none at the end.

Imports are left out.  What they bring in does not stand in the tokens.
-/

namespace ProtoScript

namespace Grammar

/-- The kinds of phrases, and the types of their trees. -/
inductive Phrase : Type → Type where
  /-- An expression of any kind. -/
  | expression : Phrase Expression
  /-- An expression whose outermost binary operator, if any, has at least the given rank. -/
  | level (rank : Nat) : Phrase Expression
  /-- An expression without binary operators on the outside. -/
  | unary : Phrase Expression
  /-- A primary expression with calls, members and indices behind it. -/
  | suffixed : Phrase Expression
  /-- An expression that starts with a token of its own. -/
  | primary : Phrase Expression
  /-- The arguments of a call from some point on. -/
  | arguments (first : Bool) : Phrase (List Expression)
  /-- The elements of an array from some point on. -/
  | elements (first : Bool) : Phrase (List Expression)
  /-- The members of an object. -/
  | members : Phrase (List Declaration)
  /-- A type after a colon, or nothing. -/
  | typing : Phrase (Option Expression)
  /-- A value after an equal sign, or nothing. -/
  | initializer : Phrase (Option Expression)
  /-- A name with an optional type and an optional value. -/
  | declaration (pos : Position) : Phrase Declaration
  /-- The parameters of a procedure from some point on. -/
  | parameters (first : Bool) : Phrase (List Parameter × Option Parameter)
  /-- The parameters and the body of a procedure. -/
  | procedure (pos : Position) : Phrase Procedure
  /-- Statements between braces. -/
  | block : Phrase Block
  /-- A condition and a block. -/
  | branch : Phrase Branch
  /-- The further branches of a choice. -/
  | branches : Phrase (List Branch)
  /-- The block of a choice that is run if no condition holds, or nothing. -/
  | otherwise : Phrase (Option Block)
  /-- A statement. -/
  | statement : Phrase Statement
  /-- Statements one after the other. -/
  | statements : Phrase (List Statement)

/-- The binary operators of each level, from loose to tight. -/
def operatorsAt : Nat → List BinaryOperator
  | 0 => [.or]
  | 1 => [.and]
  | 2 => [.bitOr, .bitAnd]
  | 3 => [.equal, .notEqual, .identical]
  | 4 => [.less, .lessEqual, .greater, .greaterEqual]
  | 5 => [.plus, .minus]
  | 6 => [.times, .divide, .modulo]
  | _ => []

/-- The marks that assign after an operation, and the operations. -/
def compoundMarks : List (Mark × BinaryOperator) :=
  [(.plusEqual, .plus), (.minusEqual, .minus), (.starEqual, .times), (.slashEqual, .divide)]

/-- The comma before an item of a list that is not the first one. -/
inductive Separates : Bool → List Lexeme → Prop where
  | first : Separates true []
  | comma (pos : Position) : Separates false [⟨.mark .comma, pos⟩]

/-- The tokens of a mixin: each closing brace among them closes one that was opened among them, or one
of the given number of braces that were opened before, and in the end all braces are closed. -/
inductive Balanced : Nat → List Lexeme → Prop where
  | nil : Balanced 0 []
  | opening {depth : Nat} {ts : List Lexeme} (pos : Position) (h : Balanced (depth + 1) ts) :
    Balanced depth (⟨.mark .openBrace, pos⟩ :: ts)
  | closing {depth : Nat} {ts : List Lexeme} (pos : Position) (h : Balanced depth ts) :
    Balanced (depth + 1) (⟨.mark .closeBrace, pos⟩ :: ts)
  | other {depth : Nat} {t : Lexeme} {ts : List Lexeme} (hopen : t.token ≠ .mark .openBrace)
    (hclose : t.token ≠ .mark .closeBrace) (h : Balanced depth ts) : Balanced depth (t :: ts)

/-- The procedure that `name -> e` stands for. -/
def arrowProcedure (name : String) (pos : Position) (e : Expression) : Procedure :=
  { fixed := [⟨name, none, pos⟩], rest := none, body := ⟨[.returnWith e e.pos], e.pos⟩, pos
    origin := default }

/-- The tokens `ts` are a phrase, and this is its tree. -/
inductive Derives : {α : Type} → Phrase α → List Lexeme → α → Prop where
  -- expressions
  | value {ts : List Lexeme} {e : Expression} (h : Derives (.level 0) ts e) :
    Derives .expression ts e
  | assign {ts us : List Lexeme} {target e : Expression} (pos : Position)
    (htarget : Derives (.level 0) ts target) (hassignable : target.isTarget = true)
    (h : Derives .expression us e) :
    Derives .expression (ts ++ ⟨.mark .equal, pos⟩ :: us) (.assign target e pos)
  | compound {ts us : List Lexeme} {target e : Expression} {m : Mark} {op : BinaryOperator}
    (pos : Position) (hop : (m, op) ∈ compoundMarks)
    (htarget : Derives (.level 0) ts target) (hassignable : target.isTarget = true)
    (h : Derives .expression us e) :
    Derives .expression (ts ++ ⟨.mark m, pos⟩ :: us) (.assign target (.binary op target e pos) pos)
  -- binary and unary operators
  | binary {rank : Nat} {ts us : List Lexeme} {left right : Expression} {op : BinaryOperator}
    (pos : Position) (hop : op ∈ operatorsAt rank) (hleft : Derives (.level rank) ts left)
    (hright : Derives (.level (rank + 1)) us right) :
    Derives (.level rank) (ts ++ ⟨.mark op.mark, pos⟩ :: us) (.binary op left right pos)
  | tighter {rank : Nat} {ts : List Lexeme} {e : Expression} (h : Derives (.level (rank + 1)) ts e) :
    Derives (.level rank) ts e
  | operand {rank : Nat} {ts : List Lexeme} {e : Expression} (h : Derives .unary ts e) :
    Derives (.level rank) ts e
  | unary {ts : List Lexeme} {e : Expression} (op : UnaryOperator) (pos : Position)
    (h : Derives .unary ts e) : Derives .unary (⟨.mark op.mark, pos⟩ :: ts) (.unary op e pos)
  | plain {ts : List Lexeme} {e : Expression} (h : Derives .suffixed ts e) : Derives .unary ts e
  -- what follows its target
  | member {ts : List Lexeme} {target : Expression} (name : String) (pos namePos : Position)
    (h : Derives .suffixed ts target) :
    Derives .suffixed (ts ++ [⟨.mark .dot, pos⟩, ⟨.name name, namePos⟩]) (.member target name pos)
  | call {ts us : List Lexeme} {callee : Expression} {arguments : List Expression}
    (pos endPos : Position) (h : Derives .suffixed ts callee)
    (harguments : Derives (.arguments true) us arguments) :
    Derives .suffixed (ts ++ ⟨.mark .openParen, pos⟩ :: us ++ [⟨.mark .closeParen, endPos⟩])
      (.call callee arguments pos)
  | index {ts us : List Lexeme} {target key : Expression} (pos endPos : Position)
    (h : Derives .suffixed ts target) (hkey : Derives .expression us key) :
    Derives .suffixed (ts ++ ⟨.mark .openBracket, pos⟩ :: us ++ [⟨.mark .closeBracket, endPos⟩])
      (.index target key pos)
  | bare {ts : List Lexeme} {e : Expression} (h : Derives .primary ts e) : Derives .suffixed ts e
  -- what starts with a token of its own
  | number {spelling : String} {v : Literal} (pos : Position)
    (h : Literal.ofNumeral? spelling = some v) :
    Derives .primary [⟨.number spelling, pos⟩] (.literal v pos)
  | text (contents : String) (pos : Position) :
    Derives .primary [⟨.text contents, pos⟩] (.literal (.text contents) pos)
  | truth (pos : Position) :
    Derives .primary [⟨.keyword .trueWord, pos⟩] (.literal (.bool true) pos)
  | falsity (pos : Position) :
    Derives .primary [⟨.keyword .falseWord, pos⟩] (.literal (.bool false) pos)
  | null (pos : Position) : Derives .primary [⟨.keyword .nullWord, pos⟩] (.literal .null pos)
  | name (name : String) (pos : Position) :
    Derives .primary [⟨.name name, pos⟩] (.variable name pos)
  | arrow {ts : List Lexeme} {e : Expression} (name : String) (pos arrowPos : Position)
    (h : Derives .expression ts e) :
    Derives .primary (⟨.name name, pos⟩ :: ⟨.mark .arrow, arrowPos⟩ :: ts)
      (.procedure (arrowProcedure name pos e))
  | parens {ts : List Lexeme} {e : Expression} (pos endPos : Position)
    (h : Derives .expression ts e) :
    Derives .primary (⟨.mark .openParen, pos⟩ :: ts ++ [⟨.mark .closeParen, endPos⟩]) e
  | parensArrow {ts us : List Lexeme} {e : Expression} {name : String} {pos : Position}
    (openPos endPos arrowPos : Position) (hname : Derives .expression ts (.variable name pos))
    (h : Derives .expression us e) :
    Derives .primary
      (⟨.mark .openParen, openPos⟩ :: ts ++
        ⟨.mark .closeParen, endPos⟩ :: ⟨.mark .arrow, arrowPos⟩ :: us)
      (.procedure (arrowProcedure name pos e))
  | array {ts : List Lexeme} {es : List Expression} (pos endPos : Position)
    (h : Derives (.elements true) ts es) :
    Derives .primary (⟨.mark .openBracket, pos⟩ :: ts ++ [⟨.mark .closeBracket, endPos⟩])
      (.array es pos)
  | object {ts : List Lexeme} {ds : List Declaration} (pos endPos : Position)
    (h : Derives .members ts ds) :
    Derives .primary (⟨.mark .openBrace, pos⟩ :: ts ++ [⟨.mark .closeBrace, endPos⟩])
      (.object ds pos)
  | procedureLiteral {ts : List Lexeme} {p : Procedure} (pos : Position)
    (h : Derives (.procedure pos) ts p) :
    Derives .primary (⟨.keyword .funcWord, pos⟩ :: ts) (.procedure p)
  | mixin {ts : List Lexeme} (pos openPos endPos : Position) (h : Balanced 0 ts) :
    Derives .primary
      (⟨.keyword .mixinWord, pos⟩ :: ⟨.mark .openBrace, openPos⟩ :: ts ++
        [⟨.mark .closeBrace, endPos⟩])
      (.mixin ts pos)
  -- arguments and elements
  | noArguments (first : Bool) : Derives (.arguments first) [] []
  | argument {first : Bool} {sep ts us : List Lexeme} {e : Expression} {es : List Expression}
    (hsep : Separates first sep) (h : Derives .expression ts e)
    (hmore : Derives (.arguments false) us es) :
    Derives (.arguments first) (sep ++ ts ++ us) (e :: es)
  | lastArgument {first : Bool} {sep ts : List Lexeme} {e : Expression} (pos : Position)
    (hsep : Separates first sep) (h : Derives .expression ts e) :
    Derives (.arguments first) (sep ++ ⟨.mark .star, pos⟩ :: ts) [.splat e pos]
  | noElements (first : Bool) : Derives (.elements first) [] []
  | element {first : Bool} {sep ts us : List Lexeme} {e : Expression} {es : List Expression}
    (hsep : Separates first sep) (h : Derives .expression ts e)
    (hmore : Derives (.elements false) us es) :
    Derives (.elements first) (sep ++ ts ++ us) (e :: es)
  -- declarations and parameters
  | untyped : Derives .typing [] none
  | typing {ts : List Lexeme} {e : Expression} (pos : Position) (h : Derives (.level 0) ts e) :
    Derives .typing (⟨.mark .colon, pos⟩ :: ts) (some e)
  | noInitializer : Derives .initializer [] none
  | initializer {ts : List Lexeme} {e : Expression} (pos : Position)
    (h : Derives .expression ts e) :
    Derives .initializer (⟨.mark .equal, pos⟩ :: ts) (some e)
  | declaration {ts us : List Lexeme} {type value : Option Expression} (name : String)
    (pos namePos : Position) (htype : Derives .typing ts type)
    (hvalue : Derives .initializer us value) :
    Derives (.declaration pos) (⟨.name name, namePos⟩ :: ts ++ us) ⟨name, type, value, pos⟩
  | noMembers : Derives .members [] []
  | moreMembers {t : Lexeme} {ts us : List Lexeme} {d : Declaration} {ds : List Declaration}
    (endPos : Position) (h : Derives (.declaration t.pos) (t :: ts) d)
    (hmore : Derives .members us ds) :
    Derives .members (t :: ts ++ ⟨.mark .semicolon, endPos⟩ :: us) (d :: ds)
  | noParameters (first : Bool) : Derives (.parameters first) [] ([], none)
  | parameter {first : Bool} {sep ts us : List Lexeme} {type : Option Expression}
    {fixed : List Parameter} {rest : Option Parameter} (name : String) (pos : Position)
    (hsep : Separates first sep) (htype : Derives .typing ts type)
    (hmore : Derives (.parameters false) us (fixed, rest)) :
    Derives (.parameters first) (sep ++ ⟨.name name, pos⟩ :: ts ++ us)
      (⟨name, type, pos⟩ :: fixed, rest)
  | lastParameter {first : Bool} {sep ts : List Lexeme} {type : Option Expression} (name : String)
    (pos namePos : Position) (hsep : Separates first sep) (htype : Derives .typing ts type) :
    Derives (.parameters first) (sep ++ ⟨.mark .star, pos⟩ :: ⟨.name name, namePos⟩ :: ts)
      ([], some ⟨name, type, pos⟩)
  | procedure {ts us : List Lexeme} {fixed : List Parameter} {rest : Option Parameter} {body : Block}
    (pos openPos endPos : Position) (h : Derives (.parameters true) ts (fixed, rest))
    (hbody : Derives .block us body) :
    Derives (.procedure pos)
      (⟨.mark .openParen, openPos⟩ :: ts ++ ⟨.mark .closeParen, endPos⟩ :: us)
      { fixed, rest, body, pos, origin := default }
  -- blocks and branches
  | block {ts : List Lexeme} {ss : List Statement} (pos endPos : Position)
    (h : Derives .statements ts ss) :
    Derives .block (⟨.mark .openBrace, pos⟩ :: ts ++ [⟨.mark .closeBrace, endPos⟩]) ⟨ss, pos⟩
  | branch {ts us : List Lexeme} {condition : Expression} {body : Block}
    (h : Derives .expression ts condition) (hbody : Derives .block us body) :
    Derives .branch (ts ++ us) ⟨condition, body⟩
  | noBranches : Derives .branches [] []
  | moreBranches {ts us : List Lexeme} {b : Branch} {bs : List Branch} (pos : Position)
    (h : Derives .branch ts b) (hmore : Derives .branches us bs) :
    Derives .branches (⟨.keyword .elifWord, pos⟩ :: ts ++ us) (b :: bs)
  | noOtherwise : Derives .otherwise [] none
  | otherwise {ts : List Lexeme} {b : Block} (pos : Position) (h : Derives .block ts b) :
    Derives .otherwise (⟨.keyword .elseWord, pos⟩ :: ts) (some b)
  -- statements
  | declare {ts : List Lexeme} {d : Declaration} (pos endPos : Position)
    (h : Derives (.declaration pos) ts d) :
    Derives .statement (⟨.keyword .letWord, pos⟩ :: ts ++ [⟨.mark .semicolon, endPos⟩]) (.declare d)
  | namedProcedure {ts : List Lexeme} {p : Procedure} (name : String) (pos namePos : Position)
    (h : Derives (.procedure pos) ts p) :
    Derives .statement (⟨.keyword .funcWord, pos⟩ :: ⟨.name name, namePos⟩ :: ts)
      (.declare ⟨name, some (.variable "Func" pos), some (.procedure p), pos⟩)
  | ifElse {ts us vs : List Lexeme} {b : Branch} {bs : List Branch} {other : Option Block}
    (pos : Position) (h : Derives .branch ts b) (hmore : Derives .branches us bs)
    (hother : Derives .otherwise vs other) :
    Derives .statement (⟨.keyword .ifWord, pos⟩ :: ts ++ us ++ vs) (.ifElse (b :: bs) other pos)
  | whileDo {ts : List Lexeme} {b : Branch} (pos : Position) (h : Derives .branch ts b) :
    Derives .statement (⟨.keyword .whileWord, pos⟩ :: ts) (.whileDo b.condition b.body pos)
  | forIn {ts us : List Lexeme} {iterable : Expression} {body : Block} (name : String)
    (pos namePos inPos : Position) (h : Derives .expression ts iterable)
    (hbody : Derives .block us body) :
    Derives .statement
      (⟨.keyword .forWord, pos⟩ :: ⟨.name name, namePos⟩ :: ⟨.keyword .inWord, inPos⟩ :: ts ++ us)
      (.forIn name iterable
        { fixed := [⟨name, none, namePos⟩], rest := none, body, pos, origin := default } pos)
  | returnNothing (pos endPos : Position) :
    Derives .statement [⟨.keyword .returnWord, pos⟩, ⟨.mark .semicolon, endPos⟩]
      (.returnWith (.literal .null pos) pos)
  | returnWith {ts : List Lexeme} {e : Expression} (pos endPos : Position)
    (h : Derives .expression ts e) :
    Derives .statement (⟨.keyword .returnWord, pos⟩ :: ts ++ [⟨.mark .semicolon, endPos⟩])
      (.returnWith e pos)
  | defineMacro {ts : List Lexeme} {p : Procedure} (name : String) (pos namePos : Position)
    (h : Derives (.procedure pos) ts p) :
    Derives .statement (⟨.keyword .macroWord, pos⟩ :: ⟨.name name, namePos⟩ :: ts)
      (.defineMacro name { p with fixed := ⟨"self", none, pos⟩ :: p.fixed } pos)
  | blockStatement {ts : List Lexeme} {b : Block} (h : Derives .block ts b) :
    Derives .statement ts (.block b)
  | empty (pos : Position) : Derives .statement [⟨.mark .semicolon, pos⟩] (.empty pos)
  | expressionStatement {ts : List Lexeme} {e : Expression} (endPos : Position)
    (h : Derives .expression ts e) :
    Derives .statement (ts ++ [⟨.mark .semicolon, endPos⟩]) (.expression e)
  | noStatements : Derives .statements [] []
  | moreStatements {ts us : List Lexeme} {s : Statement} {ss : List Statement}
    (h : Derives .statement ts s) (hmore : Derives .statements us ss) :
    Derives .statements (ts ++ us) (s :: ss)

/-- Every operator is on the level of its rank. -/
theorem mem_operatorsAt (op : BinaryOperator) : op ∈ operatorsAt op.rank := by
  cases op <;> decide

/-- The marks that assign after an operation are those that the tokens are tested for. -/
theorem mem_compoundMarks {t : Token} {op : BinaryOperator}
    (h : BinaryOperator.ofCompound? t = some op) : ∃ m, t = .mark m ∧ (m, op) ∈ compoundMarks := by
  unfold BinaryOperator.ofCompound? at h
  split at h
  · exact ⟨.plusEqual, rfl, by cases h; decide⟩
  · exact ⟨.minusEqual, rfl, by cases h; decide⟩
  · exact ⟨.starEqual, rfl, by cases h; decide⟩
  · exact ⟨.slashEqual, rfl, by cases h; decide⟩
  · cases h

/-- A level holds all that binds tighter. -/
theorem Derives.of_le {r s : Nat} (h : r ≤ s) {ts : List Lexeme} {e : Expression}
    (hd : Derives (.level s) ts e) : Derives (.level r) ts e := by
  induction h with
  | refl => exact hd
  | step _ ih => exact ih hd.tighter

end Grammar

end ProtoScript
