import ProtoScript.Proofs.Grammar.Advances
import ProtoScript.Proofs.Grammar.Derives
import ProtoScript.Proofs.Grammar.Print

/-!
# Reading printed expressions

Printed tokens are read back, up to places.

What may come after an expression that is printed where some strength is demanded is `follows`, and
`ends` is what may come after any expression.  For operands and for what calls, members and indices
follow, the reader does not return once it has read them but goes on with what is behind them; for
these, reading the printed tokens comes to the same as going on with the result.
-/

namespace ProtoScript

/-- The unary operators bind tighter than the binary ones. -/
theorem BinaryOperator.rank_le (op : BinaryOperator) : op.rank ≤ 6 := by
  cases op <;> decide

/-- No expression is stronger than those that are complete by themselves. -/
theorem Expression.strength_le (e : Expression) : e.strength ≤ 9 := by
  cases e with
  | binary op =>
    have h := op.rank_le
    simp only [Expression.strength]
    omega
  | _ => simp [Expression.strength]

/-- Whether a value can be assigned to an expression does not depend on places. -/
theorem Expression.isTarget_bare (e : Expression) : e.bare.isTarget = e.isTarget := by
  cases e with
  | _ => rfl

namespace Grammar

/-! ## What may come before and after -/

/-- Whether a token may start an expression. -/
def starts : Token → Bool
  | .number _ | .text _ | .name _ => true
  | .keyword k => k ∈ [.trueWord, .falseWord, .nullWord, .funcWord, .mixinWord]
  | .mark m => m ∈ [.openParen, .openBracket, .openBrace, .minus, .plus, .bang]

/-- The tokens start like an expression, and not with a unary operator if none is allowed. -/
def Starts (strength : Nat) : List Token → Prop
  | [] => False
  | t :: _ => starts t = true ∧ (strength = 9 → UnaryOperator.ofToken? t = none)

/-- How tokens start may be said of less strength. -/
theorem Starts.mono {d d' : Nat} {ts : List Token} (h : Starts d ts) (hd : d' = 9 → d = 9) :
    Starts d' ts := by
  cases ts with
  | nil => exact h.elim
  | cons t ts => exact ⟨h.1, fun h' => h.2 (hd h')⟩

/-- More tokens do not change how tokens start. -/
theorem Starts.append {d : Nat} {ts : List Token} (h : Starts d ts) (us : List Token) :
    Starts d (ts ++ us) := by
  cases ts with
  | nil => exact h.elim
  | cons t ts => exact h

/-- What starts has a token. -/
theorem Starts.length_pos {d : Nat} {ts : List Token} (h : Starts d ts) : 0 < ts.length := by
  cases ts with
  | nil => exact h.elim
  | cons t ts => exact Nat.succ_pos _

/-- What comes first is what expressions start with. -/
theorem Starts.leads {d : Nat} {ts : List Token} {p q : Token → Bool} (h : Starts d ts)
    (hp : ∀ t, starts t = true → p t = true) : Leads p q ts := by
  cases ts with
  | nil => exact h.elim
  | cons t ts => exact hp t h.1

/-- Whether a token may come after an expression that was printed where some strength is demanded: it
makes no procedure of a name, follows no target, and is no operator that would take the expression
apart. -/
def follows (demand : Nat) (t : Token) : Bool :=
  t != .mark .arrow && t != .mark .dot && t != .mark .openParen && t != .mark .openBracket &&
    (BinaryOperator.ofToken? t).all fun op => decide (op.rank < demand)

/-- Whether a token may come after any expression. -/
def ends (t : Token) : Bool :=
  follows 0 t && (assignment? t).isNone

/-- What may come after an expression may come where more is demanded. -/
theorem follows_of_le {d d' : Nat} (h : d ≤ d') (t : Token) (ht : follows d t = true) :
    follows d' t = true := by
  unfold follows at ht ⊢
  simp only [Bool.and_eq_true] at ht ⊢
  refine ⟨ht.1, ?_⟩
  cases hop : BinaryOperator.ofToken? t with
  | none => rfl
  | some op =>
    have hlt := ht.2
    simp only [hop, Option.all_some, decide_eq_true_eq] at hlt ⊢
    omega

/-- No binary operator is as strong as a unary one. -/
theorem follows_eight {d : Nat} (t : Token) (h : follows d t = true) : follows 8 t = true := by
  unfold follows at h ⊢
  simp only [Bool.and_eq_true] at h ⊢
  refine ⟨h.1, ?_⟩
  cases hop : BinaryOperator.ofToken? t with
  | none => rfl
  | some op =>
    have hrank := op.rank_le
    simp only [Option.all_some, decide_eq_true_eq]
    omega

/-- What ends expressions may come after operands. -/
theorem follows_of_ends (d : Nat) (t : Token) (h : ends t = true) : follows d t = true := by
  unfold ends at h
  simp only [Bool.and_eq_true] at h
  exact follows_of_le (Nat.zero_le d) t h.1

/-- What may come after an operand makes no procedure of a name. -/
theorem ne_arrow_of_follows (d : Nat) (t : Token) (h : follows d t = true) :
    (t != .mark .arrow) = true := by
  unfold follows at h
  simp only [Bool.and_eq_true] at h
  exact h.1.1.1.1

/-- An operator may come after its left operand. -/
theorem follows_mark (op : BinaryOperator) : follows (op.rank + 1) (.mark op.mark) = true := by
  cases op <;> rfl

/-! ## Where readers stop -/

/-- The tokens of a mixin end with the brace that closes it. -/
theorem Balanced.balanced?_eq {depth : Nat} {ts : List Lexeme} (h : Balanced depth ts)
    {us : List Lexeme} (hs : Spells us (ts.map (·.token))) (pos : Position) (rest : List Lexeme) :
    balanced? depth (us ++ ⟨.mark .closeBrace, pos⟩ :: rest) = some (us, rest) := by
  induction h generalizing us with
  | nil =>
    obtain rfl := hs.eq_nil
    rfl
  | opening _ _ ih | closing _ _ ih =>
    obtain ⟨pos', vs, rfl, hvs⟩ := hs.cons
    change (balanced? _ (vs ++ _)).map _ = _
    rw [ih hvs]
    rfl
  | @other _ t _ hopen hclose _ ih =>
    obtain ⟨pos', vs, rfl, hvs⟩ := hs.cons
    rw [List.cons_append, balanced?.eq_def]
    dsimp only
    split
    · exact absurd ‹_› hclose
    · exact absurd ‹_› hopen
    · rw [ih hvs]
      rfl

section Stopping

variable {ctx : Context} {self : {α : Type} → Goal α → Reader α} {n : Nat}

/-- A rule that looks at the next token learns where it stands and what it is. -/
theorem here_peek?_bind {α : Type} (f : Position → Option Token → Reader α) (t : Lexeme)
    (ts : List Lexeme) (es : List Diagnostic) :
    (here ctx >>= fun pos => peek? >>= f pos) ⟨t :: ts, es⟩ = f t.pos (some t.token) ⟨t :: ts, es⟩ :=
  rfl

/-- After an opening parenthesis comes an expression, and after that the closing one; a name in
parentheses may be the parameter of a procedure. -/
theorem primary_openParen (pos : Position) (ts : List Lexeme) (es : List Diagnostic) :
    primary ctx self ⟨⟨.mark .openParen, pos⟩ :: ts, es⟩ =
      (do
        let e ← self .expression
        let _ ← expect ctx (.mark .closeParen)
        match e with
        | .variable spelling pos =>
          if (← accept? (.mark .arrow)).isSome then lambda self spelling pos
          else return e
        | _ => return e : Reader Expression) ⟨ts, es⟩ :=
  rfl

/-- Without a suffix, an expression is complete. -/
theorem suffixes_stop (d : Nat) (e : Expression) :
    Consumes (suffixes ctx self e) n [] (follows d) (· = e) := by
  intro used rest es hs hrest _
  obtain rfl := hs.eq_nil
  refine ⟨e, rest.length, rfl, Nat.le_refl _, ?_⟩
  cases rest with
  | nil => rfl
  | cons t us =>
    obtain ⟨token, pos⟩ := t
    have ht : follows d token = true := hrest ⟨token, pos⟩ rfl
    cases token with
    | mark m =>
      cases m with
      | dot | openParen | openBracket => cases ht
      | _ => rfl
    | _ => rfl

/-- Without an operator that binds tight enough, an expression is complete. -/
theorem operators_stop (r : Nat) (e : Expression) :
    Consumes (operators ctx self r e) n [] (follows r) (· = e) := by
  intro used rest es hs hrest _
  obtain rfl := hs.eq_nil
  refine ⟨e, rest.length, rfl, Nat.le_refl _, ?_⟩
  cases rest with
  | nil => rfl
  | cons t us =>
    have ht := hrest t rfl
    unfold follows at ht
    simp only [Bool.and_eq_true] at ht
    rw [List.nil_append]
    unfold operators
    rw [here_peek?_bind, Option.bind_some]
    cases hop : BinaryOperator.ofToken? t.token with
    | none => rfl
    | some op =>
      have hlt := ht.2
      simp only [hop, Option.all_some, decide_eq_true_eq] at hlt
      dsimp only
      rw [if_neg (Nat.not_le.mpr hlt)]

/-- After an operand that no operator follows and nothing assigns to, an expression is complete. -/
theorem Advances.expression_of_operand {d k : Nat} {ts : List Token} {P : Expression → Prop}
    (h : Advances (operand ctx self 0) (fun m => operators ctx (read ctx m) 0) k ts (follows d) P) :
    Consumes (expression ctx self) k ts ends P := by
  have hoperand : Consumes (operand ctx self 0) k ts (follows 0) P :=
    h.stop (fun a _ => operators_stop 0 a) (follows_of_le (Nat.zero_le d))
  intro used rest es hs hrest hlen
  obtain ⟨e, m, he, hm, hok⟩ := hoperand used rest es hs (hrest.mono (follows_of_ends 0)) hlen
  refine ⟨e, m, he, hm, (bind_of_ok hok).trans ?_⟩
  cases rest with
  | nil => rfl
  | cons t us =>
    have hends := hrest t rfl
    unfold ends at hends
    simp only [Bool.and_eq_true, Option.isNone_iff_eq_none] at hends
    rw [here_peek?_bind, Option.bind_some, hends.2]

end Stopping

/-! ## What it means to be read back -/

/-- The printed tokens of an expression are read back, by each of the rules that can meet them: any
expression is read as an expression; unless it is an assignment, also as an operand of any rank that
it is strong enough for; and so on.  Rules that go on behind the expression do so with the result. -/
structure Rereads (ctx : Context) (spell : Literal → String) (e : Expression) : Prop where
  start : Starts e.strength (e.print spell)
  expression : ∀ k, Consumes (Grammar.expression ctx (read ctx k)) k (e.print spell) ends
    (·.bare = e.bare)
  operand : ∀ k r, r < e.strength →
    Advances (Grammar.operand ctx (read ctx k) r) (fun m => operators ctx (read ctx m) r) k
      (e.print spell) (follows e.strength) (·.bare = e.bare)
  unary : 8 ≤ e.strength → ∀ k, Consumes (Grammar.unary ctx (read ctx k)) k (e.print spell)
    (follows 8) (·.bare = e.bare)
  suffixed : e.strength = 9 → ∀ k,
    Advances (primary ctx (read ctx k) >>= suffixes ctx (read ctx k))
      (fun m => suffixes ctx (read ctx m)) k (e.print spell) (· != .mark .arrow) (·.bare = e.bare)

/-! ## Expressions in the places that demand some strength -/

namespace Rereads

variable {ctx : Context} {spell : Literal → String} {e : Expression}

/-- An expression in parentheses is read back. -/
theorem parens (h : Rereads ctx spell e) (k : Nat) :
    Consumes (primary ctx (read ctx k)) k
      (Token.mark .openParen :: e.print spell ++ [Token.mark .closeParen]) (· != .mark .arrow)
      (·.bare = e.bare) := by
  rw [List.cons_append]
  refine .token primary_openParen fun _ m hm => ?_
  refine .bind (.self .expression h.expression hm) (fun e' i he' hi => ?_) rfl
  refine .bind_nil (Consumes.expect _) (fun _ j _ _ => ?_) (fun _ _ => rfl)
  -- only a name could be mistaken for the parameter of a procedure
  cases e' with
  | «variable» name pos =>
    refine .pass (Consumes.accept?_of_ne _) (fun found hfound => ?_) (fun _ h => h)
    subst hfound
    exact .pure he'
  | _ => exact .pure he'

/-- What starts an expression in some place is not a unary operator if that is too weak there. -/
theorem start_enclosed (h : Rereads ctx spell e) (d : Nat) :
    Starts d (enclosed d e.strength (e.print spell)) := by
  unfold enclosed
  split
  · exact ⟨rfl, fun _ => rfl⟩
  · rename_i hd
    have hle := e.strength_le
    exact h.start.mono fun hd' => by omega

/-- What is in parentheses needs no unary operator. -/
theorem unary_parens (h : Rereads ctx spell e) (d k : Nat) :
    Consumes (Grammar.unary ctx (read ctx k)) k
      (Token.mark .openParen :: e.print spell ++ [Token.mark .closeParen]) (follows d)
      (·.bare = e.bare) := by
  have hsuffixed := (h.parens k).onward (y := fun m => suffixes ctx (read ctx m))
  have hunary := hsuffixed.stop (fun a _ => suffixes_stop d a) (ne_arrow_of_follows d)
  exact hunary.of_peek fun _ _ _ => rfl

/-- What is in parentheses is complete. -/
theorem expression_parens (h : Rereads ctx spell e) (k : Nat) :
    Consumes (Grammar.expression ctx (read ctx k)) k
      (Token.mark .openParen :: e.print spell ++ [Token.mark .closeParen]) ends
      (·.bare = e.bare) := by
  have hoperand := (h.unary_parens 0 k).onward (y := fun m => operators ctx (read ctx m) 0)
  exact .expression_of_operand hoperand

/-- An expression that calls, members and indices may follow is read back, and reading goes on with
these. -/
theorem atSuffixed (h : Rereads ctx spell e) (k : Nat) :
    Advances (primary ctx (read ctx k) >>= suffixes ctx (read ctx k))
      (fun m => suffixes ctx (read ctx m)) k (enclosed 9 e.strength (e.print spell))
      (· != .mark .arrow) (·.bare = e.bare) := by
  unfold enclosed
  split
  · exact (h.parens k).onward (y := fun m => suffixes ctx (read ctx m))
  · rename_i hd
    exact h.suffixed (Nat.le_antisymm e.strength_le (Nat.not_lt.mp hd)) k

/-- The operand of a unary operator is read back. -/
theorem atUnary (h : Rereads ctx spell e) (k : Nat) :
    Consumes (Grammar.unary ctx (read ctx k)) k (enclosed 8 e.strength (e.print spell)) (follows 8)
      (·.bare = e.bare) := by
  unfold enclosed
  split
  · exact h.unary_parens 8 k
  · rename_i hd
    exact h.unary (Nat.not_lt.mp hd) k

/-- An operand of a binary operator is read back, and reading goes on with the operators behind it. -/
theorem atOperand (h : Rereads ctx spell e) {d r : Nat} (hr : r < d) (k : Nat) :
    Advances (Grammar.operand ctx (read ctx k) r) (fun m => operators ctx (read ctx m) r) k
      (enclosed d e.strength (e.print spell)) (follows d) (·.bare = e.bare) := by
  unfold enclosed
  split
  · exact (h.unary_parens d k).onward (y := fun m => operators ctx (read ctx m) r)
  · rename_i hd
    have hle := Nat.not_lt.mp hd
    exact (h.operand k r (Nat.lt_of_lt_of_le hr hle)).of_next (follows_of_le hle)

/-- The last operand of binary operators is read back. -/
theorem atLast (h : Rereads ctx spell e) (r k : Nat) :
    Consumes (Grammar.operand ctx (read ctx k) r) k
      (enclosed (r + 1) e.strength (e.print spell)) (follows r) (·.bare = e.bare) :=
  (h.atOperand (Nat.lt_succ_self r) k).stop (fun a _ => operators_stop r a)
    (follows_of_le (Nat.le_succ r))

/-! ## Stronger expressions are read back wherever weaker ones are -/

/-- Expressions that are read back as operands are read back. -/
theorem of_operand (hstart : Starts 1 (e.print spell)) (hlow : 0 < e.strength)
    (hhigh : e.strength < 8)
    (hoperand : ∀ k r, r < e.strength →
      Advances (Grammar.operand ctx (read ctx k) r) (fun m => operators ctx (read ctx m) r) k
        (e.print spell) (follows e.strength) (·.bare = e.bare)) : Rereads ctx spell e where
  start := hstart.mono fun h => by omega
  expression k := .expression_of_operand (hoperand k 0 hlow)
  operand := hoperand
  unary h := by omega
  suffixed h := by omega

/-- Expressions that are read back without operators around them are read back. -/
theorem of_unary (hstart : Starts e.strength (e.print spell))
    (hunary : ∀ k, Consumes (Grammar.unary ctx (read ctx k)) k (e.print spell) (follows 8)
      (·.bare = e.bare))
    (hsuffixed : e.strength = 9 → ∀ k,
      Advances (primary ctx (read ctx k) >>= suffixes ctx (read ctx k))
        (fun m => suffixes ctx (read ctx m)) k (e.print spell) (· != .mark .arrow)
        (·.bare = e.bare)) : Rereads ctx spell e := by
  have hoperand (k r d : Nat) :
      Advances (Grammar.operand ctx (read ctx k) r) (fun m => operators ctx (read ctx m) r) k
        (e.print spell) (follows d) (·.bare = e.bare) :=
    ((hunary k).of_next follows_eight).onward (y := fun m => operators ctx (read ctx m) r)
  exact ⟨hstart, fun k => .expression_of_operand (hoperand k 0 0), fun k r _ => hoperand k r _,
    fun _ => hunary, hsuffixed⟩

/-- Expressions that are read back as targets are read back. -/
theorem of_suffixed (hstart : Starts 9 (e.print spell)) (hnine : e.strength = 9)
    (hsuffixed : ∀ k, Advances (primary ctx (read ctx k) >>= suffixes ctx (read ctx k))
      (fun m => suffixes ctx (read ctx m)) k (e.print spell) (· != .mark .arrow)
      (·.bare = e.bare)) : Rereads ctx spell e := by
  refine .of_unary (hnine ▸ hstart) (fun k => ?_) fun _ => hsuffixed
  have htarget := (hsuffixed k).stop (fun a _ => suffixes_stop 8 a) (ne_arrow_of_follows 8)
  cases hprint : e.print spell with
  | nil =>
    rw [hprint] at hstart
    exact hstart.elim
  | cons t ts =>
    rw [hprint] at hstart htarget
    refine htarget.of_peek fun pos us es => ?_
    -- no unary operator comes first
    unfold Grammar.unary
    rw [here_peek?_bind, Option.bind_some, hstart.2 rfl]

/-- Expressions that are read back as primary ones are read back. -/
theorem of_primary (hstart : Starts 9 (e.print spell)) (hnine : e.strength = 9)
    (hprimary : ∀ k, Consumes (primary ctx (read ctx k)) k (e.print spell) (· != .mark .arrow)
      (·.bare = e.bare)) : Rereads ctx spell e :=
  .of_suffixed hstart hnine fun k =>
    (hprimary k).onward (y := fun m => suffixes ctx (read ctx m))

/-! ## Operators -/

/-- An assignment is read back. -/
theorem assign {target value : Expression} (pos : Position) (ht : Rereads ctx spell target)
    (htarget : target.isTarget = true) (hv : Rereads ctx spell value) :
    Rereads ctx spell (.assign target value pos) where
  start := (ht.start_enclosed 1).append _ |>.mono fun h => by cases h
  expression k := by
    refine .bind (ht.atLast 0 k) (fun e m he hm => ?_) rfl
    have hassignable : e.isTarget = true := by
      rw [← e.isTarget_bare, he, target.isTarget_bare, htarget]
    refine .token (z := fun pos => do
      let value ← read ctx k .expression
      return .assign e value pos) (fun pos ts es => ?_) fun pos' i hi => ?_
    · change (if e.isTarget then _ else _ : Reader Expression) _ = _
      rw [if_pos hassignable]
      rfl
    · refine .bind_nil (.self .expression hv.expression (by omega)) (fun v j hv' _ => .pure ?_)
        fun _ h => h
      simp only [Expression.bare, he, hv']
  operand _ _ h := by cases h
  unary h := by cases h
  suffixed h := by cases h

/-- An expression with a binary operator is read back. -/
theorem binary {left right : Expression} (op : BinaryOperator) (pos : Position)
    (hl : Rereads ctx spell left) (hr : Rereads ctx spell right) :
    Rereads ctx spell (.binary op left right pos) := by
  have hrank := op.rank_le
  refine .of_operand ((hl.start_enclosed _).append _ |>.mono fun h => by cases h)
    (Nat.succ_pos _) (by simp only [Expression.strength]; omega) fun k r hlt => ?_
  refine .trans (hl.atOperand hlt k) (fun e m he => ?_) (follows_mark op)
  refine .token (z := fun pos => do
    let right ← read ctx m (.operand (op.rank + 1))
    read ctx m (.operators r (.binary op e right pos))) (fun pos ts es => ?_) fun pos' i hi => ?_
  · unfold operators
    rw [here_peek?_bind, Option.bind_some, op.ofToken?_mark]
    dsimp only
    rw [if_pos (Nat.lt_succ_iff.mp hlt)]
    rfl
  · refine .bind_nil (.self (.operand (op.rank + 1)) (hr.atLast (op.rank + 1)) hi)
      (fun e' j he' hj => .again (.operators r) ?_ (by omega)) fun _ h => h
    simp only [Expression.bare, he, he']

/-- An expression with a unary operator is read back. -/
theorem unaryOperator (op : UnaryOperator) (pos : Position) (h : Rereads ctx spell e) :
    Rereads ctx spell (.unary op e pos) := by
  refine .of_unary ⟨?_, fun h => by cases h⟩ (fun k => ?_) fun h => by cases h
  · cases op <;> rfl
  · refine .token (z := fun pos => do return .unary op (← read ctx k .unary) pos)
      (fun pos ts es => ?_) fun pos' i hi => ?_
    · unfold Grammar.unary
      rw [here_peek?_bind, Option.bind_some, op.ofToken?_mark]
      rfl
    · refine .bind_nil (.self .unary h.atUnary hi) (fun e' j he' _ => .pure ?_) fun _ h => h
      simp only [Expression.bare, he']

/-! ## What follows its target -/

/-- A member is read back. -/
theorem member (name : String) (pos : Position) (h : Rereads ctx spell e) :
    Rereads ctx spell (.member e name pos) := by
  refine .of_suffixed ((h.start_enclosed 9).append _) rfl fun k => ?_
  refine .trans (h.atSuffixed k) (fun e' m he' => ?_) rfl
  refine .token (z := fun pos => do
    let name ← Grammar.name ctx
    read ctx m (.suffixes (.member e' name pos))) (fun _ _ _ => rfl) fun pos' i hi => ?_
  refine .bind_nil (Consumes.name name) (fun s j hs hj => .again .suffixes ?_ (by omega))
    fun _ _ => rfl
  simp only [Expression.bare, he', hs]

/-- An index is read back. -/
theorem index {key : Expression} (pos : Position) (h : Rereads ctx spell e)
    (hkey : Rereads ctx spell key) : Rereads ctx spell (.index e key pos) := by
  refine .of_suffixed ((h.start_enclosed 9).append _ |>.append _) rfl fun k => ?_
  simp only [Expression.print, List.append_assoc, List.cons_append]
  refine .trans (h.atSuffixed k) (fun e' m he' => ?_) rfl
  refine .token (z := fun pos => do
    let key ← read ctx m .expression
    let _ ← expect ctx (.mark .closeBracket)
    read ctx m (.suffixes (.index e' key pos))) (fun _ _ _ => rfl) fun pos' i hi => ?_
  refine .bind (.self .expression hkey.expression hi) (fun key' j hkey' hj => ?_) rfl
  refine .bind_nil (Consumes.expect _) (fun _ l _ hl => .again .suffixes ?_ (by omega))
    fun _ _ => rfl
  simp only [Expression.bare, he', hkey']

/-- A call is read back if its arguments are. -/
theorem call {arguments : List Expression} (pos : Position) (h : Rereads ctx spell e)
    (harguments : ∀ k, Consumes (Grammar.arguments ctx (read ctx k) true) k
      (Expression.printItems spell true arguments ++ [Token.mark .closeParen]) anything
      (Expression.allBare · = Expression.allBare arguments)) :
    Rereads ctx spell (.call e arguments pos) := by
  refine .of_suffixed ((h.start_enclosed 9).append _ |>.append _) rfl fun k => ?_
  simp only [Expression.print, List.append_assoc, List.cons_append]
  refine .trans (h.atSuffixed k) (fun e' m he' => ?_) rfl
  refine .token (z := fun pos => do
    let arguments ← read ctx m (.arguments true)
    read ctx m (.suffixes (.call e' arguments pos))) (fun _ _ _ => rfl) fun pos' i hi => ?_
  refine .bind_nil (.self (.arguments true) harguments hi)
    (fun arguments' j h' hj => .again .suffixes ?_ (by omega)) fun _ _ => rfl
  simp only [Expression.bare, he', h']

/-! ## What starts with a token of its own -/

/-- A number is read from a numeral that stands for it. -/
theorem primary_number {s : String} {v : Literal} (h : Literal.ofNumeral? s = some v) (k : Nat)
    (pos : Position) (ts : List Lexeme) (es : List Diagnostic) :
    primary ctx (read ctx k) ⟨⟨.number s, pos⟩ :: ts, es⟩ = .ok (.literal v pos) ⟨ts, es⟩ := by
  have hnext : next? ctx ⟨⟨.number s, pos⟩ :: ts, es⟩ = .ok (some (.number s), pos) ⟨ts, es⟩ := rfl
  unfold primary
  rw [bind_of_ok hnext]
  dsimp only
  rw [h]
  rfl

/-- A literal is read back if its token is read as this literal. -/
theorem of_literal {v : Literal} (pos : Position) (hstart : Starts 9 [v.print spell])
    (h : ∀ k pos ts es, primary ctx (read ctx k) ⟨⟨v.print spell, pos⟩ :: ts, es⟩ =
      .ok (.literal v pos) ⟨ts, es⟩) : Rereads ctx spell (.literal v pos) :=
  .of_primary hstart rfl fun k =>
    .token (z := fun pos => pure (.literal v pos)) (h k) fun _ _ _ => .pure rfl

/-- A literal is read back if it is spelled as itself, in case it is a number. -/
theorem literal {v : Literal} (pos : Position)
    (h : ∀ s, v.print spell = .number s → Literal.ofNumeral? s = some v) :
    Rereads ctx spell (.literal v pos) := by
  cases v with
  | null | text => exact .of_literal pos ⟨rfl, fun _ => rfl⟩ fun _ _ _ _ => rfl
  | bool b =>
    cases b with
    | true | false => exact .of_literal pos ⟨rfl, fun _ => rfl⟩ fun _ _ _ _ => rfl
  | int | float => exact .of_literal pos ⟨rfl, fun _ => rfl⟩ (primary_number (h _ rfl))

/-- A name is read back. -/
theorem name (name : String) (pos : Position) : Rereads ctx spell (.variable name pos) := by
  refine .of_primary ⟨rfl, fun _ => rfl⟩ rfl fun k => ?_
  refine .token (z := fun pos => do
    if (← accept? (.mark .arrow)).isSome then lambda (read ctx k) name pos
    else return .variable name pos) (fun _ _ _ => rfl) fun pos' i hi => ?_
  refine .pass (Consumes.accept?_of_ne _) (fun found hfound => ?_) fun _ h => h
  subst hfound
  exact .pure rfl

/-- An array is read back if its elements are. -/
theorem array {elements : List Expression} (pos : Position)
    (h : ∀ k, Consumes (Grammar.elements ctx (read ctx k) true) k
      (Expression.printItems spell true elements ++ [Token.mark .closeBracket]) anything
      (Expression.allBare · = Expression.allBare elements)) :
    Rereads ctx spell (.array elements pos) := by
  refine .of_primary ⟨rfl, fun _ => rfl⟩ rfl fun k => ?_
  refine .token (z := fun pos => do return .array (← read ctx k (.elements true)) pos)
    (fun _ _ _ => rfl) fun pos' i hi => ?_
  refine .bind_nil (.self (.elements true) h hi) (fun elements' j h' _ => .pure ?_) fun _ _ => rfl
  simp only [Expression.bare, h']

/-- An object is read back if its members are. -/
theorem object {members : List Declaration} (pos : Position)
    (h : ∀ k, Consumes (Grammar.members ctx (read ctx k)) k
      (Declaration.printAll spell members ++ [Token.mark .closeBrace]) anything
      (Declaration.allBare · = Declaration.allBare members)) :
    Rereads ctx spell (.object members pos) := by
  refine .of_primary ⟨rfl, fun _ => rfl⟩ rfl fun k => ?_
  refine .token (z := fun pos => do return .object (← read ctx k .members) pos)
    (fun _ _ _ => rfl) fun pos' i hi => ?_
  refine .bind_nil (.self .members h hi) (fun members' j h' _ => .pure ?_) fun _ _ => rfl
  simp only [Expression.bare, h']

/-- A procedure is read back if its parameters and its body are. -/
theorem procedure {p : Procedure}
    (h : ∀ pos k, Consumes (Grammar.procedure ctx (read ctx k) pos) k (p.print spell) anything
      (·.bare = p.bare)) : Rereads ctx spell (.procedure p) := by
  refine .of_primary ⟨rfl, fun _ => rfl⟩ rfl fun k => ?_
  refine .token (z := fun pos => do return .procedure (← read ctx k (.procedure pos)))
    (fun _ _ _ => rfl) fun pos' i hi => ?_
  refine .bind_nil (.self (.procedure pos') (h pos') hi) (fun p' j h' _ => .pure ?_) fun _ _ => rfl
  simp only [Expression.bare, h']

/-- The tokens of a mixin are read back. -/
theorem mixin {tokens : List Lexeme} (pos : Position) (h : Balanced 0 tokens) :
    Rereads ctx spell (.mixin tokens pos) := by
  refine .of_primary ⟨rfl, fun _ => rfl⟩ rfl fun k => ?_
  simp only [Expression.print, List.cons_append]
  refine .token (z := fun pos => Grammar.mixin ctx pos) (fun _ _ _ => rfl) fun pos' i _ => ?_
  refine .bind (Consumes.expect (.mark .openBrace)) (fun _ j _ _ => ?_) (leads_anything _ _)
  intro used rest es hs _ _
  obtain ⟨vs, ws, rfl, hvs, hws⟩ := hs.append
  obtain ⟨endPos, ws, rfl, hws'⟩ := hws.cons
  obtain rfl := hws'.eq_nil
  rw [List.append_assoc]
  refine ⟨.mixin vs pos', _, ?_, Nat.le_refl _, ?_⟩
  · have hbare := congrArg (List.map fun t => (⟨t, .outside⟩ : Lexeme)) hvs
    rw [List.map_map, List.map_map] at hbare
    exact congrArg (Expression.mixin · .outside) hbare
  · have hget (c : Cursor) : (get : Reader Cursor) c = .ok c c := rfl
    rw [bind_of_ok (hget _)]
    dsimp only
    rw [List.singleton_append, h.balanced?_eq hvs]
    rfl

end Rereads

end Grammar

end ProtoScript
