import Mathlib.Data.List.Forall2
import ProtoScript.Proofs.Grammar.Reads

/-!
# What is read is what is written

Every rule of the reader consumes the tokens of the phrase that it reads, provided that the rules inside
it do: the consumed tokens derive the result.  Two of the rules go on with a phrase that was started
before, with operators and with suffixes.  For the operators there is an invariant to be kept: what has
been read so far is on a level that is no looser than any operator that comes next, since the right
operand before it has taken all operators that bind tighter.
-/

namespace ProtoScript

/-- A token that is a unary operator is written with its mark. -/
theorem UnaryOperator.eq_mark_of_ofToken? {t : Token} {op : UnaryOperator}
    (h : UnaryOperator.ofToken? t = some op) : t = .mark op.mark := by
  unfold UnaryOperator.ofToken? at h
  split at h <;> cases h <;> rfl

/-- A token that is a binary operator is written with its mark. -/
theorem BinaryOperator.eq_mark_of_ofToken? {t : Token} {op : BinaryOperator}
    (h : BinaryOperator.ofToken? t = some op) : t = .mark op.mark := by
  unfold BinaryOperator.ofToken? at h
  split at h <;> cases h <;> rfl

namespace Grammar

/-- If a binary operator comes next, it is of a lower rank. -/
def Below (rank : Nat) (ts : List Lexeme) : Prop :=
  ∀ t op, ts.head?.map (·.token) = some t → BinaryOperator.ofToken? t = some op → op.rank < rank

/-- No operator binds tighter than the unary ones. -/
theorem below_unary (ts : List Lexeme) : Below 7 ts := by
  intro t op _ _
  cases op <;> decide

/-- What the tokens that were consumed for a goal are, given those that are left. -/
def Goal.Post : {α : Type} → Goal α → List Lexeme → α → List Lexeme → Prop
  | _, .expression, used, e, _ => Derives .expression used e
  | _, .operand rank, used, e, left => Derives (.level rank) used e ∧ Below rank left
  | _, .operators rank target, used, e, left =>
    ∀ s ts, rank ≤ s → Derives (.level s) ts target → Below (s + 1) (used ++ left) →
      Derives (.level rank) (ts ++ used) e ∧ Below rank left
  | _, .unary, used, e, _ => Derives .unary used e
  | _, .suffixes target, used, e, _ =>
    ∀ ts, Derives .suffixed ts target → Derives .suffixed (ts ++ used) e
  | _, .arguments first, used, es, _ =>
    ∃ us pos, used = us ++ [⟨.mark .closeParen, pos⟩] ∧ Derives (.arguments first) us es
  | _, .elements first, used, es, _ =>
    ∃ us pos, used = us ++ [⟨.mark .closeBracket, pos⟩] ∧ Derives (.elements first) us es
  | _, .members, used, ds, _ =>
    ∃ us pos, used = us ++ [⟨.mark .closeBrace, pos⟩] ∧ Derives .members us ds
  | _, .parameters first none, used, ps, _ =>
    ∃ us pos, used = us ++ [⟨.mark .closeParen, pos⟩] ∧ Derives (.parameters first) us ps
  | _, .parameters _ (some rest), used, ps, _ =>
    ∃ pos, used = [⟨.mark .closeParen, pos⟩] ∧ ps = ([], some rest)
  | _, .procedure pos, used, p, _ => Derives (.procedure pos) used p
  | _, .block, used, b, _ => Derives .block used b
  | _, .branches, used, bs, _ => Derives .branches used bs
  | _, .statements inBlock, used, ss, left =>
    (∃ parts : List (List Lexeme), used = parts.flatten ∧
      List.Forall₂ (Derives .statement) parts ss) ∧ (inBlock = false → left = [])

/-- The tokens of single statements, put together, are those of statements one after the other. -/
theorem Derives.of_parts {parts : List (List Lexeme)} {ss : List Statement}
    (h : List.Forall₂ (Derives .statement) parts ss) : Derives .statements parts.flatten ss := by
  induction h with
  | nil => exact .noStatements
  | cons hs _ ih => exact .moreStatements hs ih

/-- A token that assigns after an operation is one of the compound marks. -/
theorem mem_compoundMarks_of_assignment? {t : Token} {op : BinaryOperator}
    (h : assignment? t = some (some op)) : ∃ m, t = .mark m ∧ (m, op) ∈ compoundMarks := by
  unfold assignment? at h
  split at h
  · cases h
  · obtain ⟨op', hop, heq⟩ := Option.map_eq_some_iff.mp h
    cases heq
    exact mem_compoundMarks hop

/-- The token that just assigns is the equal sign. -/
theorem eq_equal_of_assignment? {t : Token} (h : assignment? t = some none) :
    t = .mark .equal := by
  unfold assignment? at h
  split at h
  · rfl
  · obtain ⟨op', -, heq⟩ := Option.map_eq_some_iff.mp h
    cases heq

/-- The tokens that a mixin captures are balanced. -/
theorem balanced_of_balanced? {depth : Nat} {ts captured rest : List Lexeme}
    (h : balanced? depth ts = some (captured, rest)) :
    ∃ pos, ts = captured ++ ⟨.mark .closeBrace, pos⟩ :: rest ∧ Balanced depth captured := by
  induction ts generalizing depth captured rest with
  | nil => cases h
  | cons t ts ih =>
    obtain ⟨token, tokenPos⟩ := t
    have hmore : ∀ {d : Nat}, (balanced? d ts).map (fun r => (⟨token, tokenPos⟩ :: r.1, r.2)) =
        some (captured, rest) → ∃ us pos, captured = ⟨token, tokenPos⟩ :: us ∧
          ts = us ++ ⟨.mark .closeBrace, pos⟩ :: rest ∧ Balanced d us := by
      intro d hd
      obtain ⟨⟨us, rest'⟩, hr, heq⟩ := Option.map_eq_some_iff.mp hd
      cases heq
      obtain ⟨pos, hts, hbalanced⟩ := ih hr
      exact ⟨us, pos, rfl, hts, hbalanced⟩
    unfold balanced? at h
    split at h
    · rename_i htoken
      obtain rfl : token = .mark .closeBrace := htoken
      cases depth with
      | zero =>
        cases h
        exact ⟨tokenPos, rfl, .nil⟩
      | succ depth =>
        obtain ⟨us, pos, rfl, rfl, hbalanced⟩ := hmore h
        exact ⟨pos, rfl, .closing tokenPos hbalanced⟩
    · rename_i htoken
      obtain rfl : token = .mark .openBrace := htoken
      obtain ⟨us, pos, rfl, rfl, hbalanced⟩ := hmore h
      exact ⟨pos, rfl, .opening tokenPos hbalanced⟩
    · rename_i hclose hopen
      obtain ⟨us, pos, rfl, rfl, hbalanced⟩ := hmore h
      exact ⟨pos, rfl, .other hopen hclose hbalanced⟩

/-- A named procedure starts with its word. -/
theorem token_of_startsNamedProcedure {ts : List Lexeme} (h : startsNamedProcedure ts = true) :
    some (.keyword .funcWord) = ts.head?.map (·.token) := by
  unfold startsNamedProcedure at h
  split at h
  · split at h
    · rename_i ht _
      simp [ht]
    · cases h
  · cases h

namespace Reads

variable {ctx : Context} {self : {α : Type} → Goal α → Reader α} {imports : Bool}

/-! ## Expressions -/

/-- Looking at the reader consumes nothing. -/
theorem get : Reads imports (MonadState.get : Reader Cursor) fun used c left => used = [] ∧ c.rest = left := by
  intro c a c' hok herr
  cases hok
  exact ⟨herr, fun _ => ⟨[], rfl, rfl, rfl⟩⟩

/-- The body of a procedure that is written with an arrow. -/
theorem lambda (hself : ∀ {α : Type} (g : Goal α), Reads false (self g) g.Post) (name : String)
    (pos : Position) :
    Reads false (Grammar.lambda self name pos) fun used e _ =>
      ∃ body, Derives .expression used body ∧ e = .procedure (arrowProcedure name pos body) := by
  unfold Grammar.lambda
  refine (hself .expression).bind fun body u => .pure fun left h => ?_
  rw [List.append_nil]
  exact ⟨body, h, rfl⟩

/-- The tokens of a mixin. -/
theorem mixin (pos : Position) :
    Reads imports (Grammar.mixin ctx pos) fun used e _ =>
      ∃ openPos endPos ts, Balanced 0 ts ∧ e = .mixin ts pos ∧
        used = ⟨.mark .openBrace, openPos⟩ :: ts ++ [⟨.mark .closeBrace, endPos⟩] := by
  unfold Grammar.mixin
  refine (expect _).bind fun openPos u => ?_
  intro c e c' hok herr
  obtain ⟨c₀, c₁, h₀, h₁⟩ := exists_of_bind hok
  cases h₀
  cases hbalanced : balanced? 0 c.rest with
  | none =>
    rw [hbalanced] at h₁
    obtain ⟨_, c₂, -, h₂⟩ := exists_of_bind h₁
    cases h₂
  | some r =>
    obtain ⟨captured, rest⟩ := r
    rw [hbalanced] at h₁
    cases h₁
    obtain ⟨endPos, hrest, hb⟩ := balanced_of_balanced? hbalanced
    refine ⟨herr, fun _ => ⟨captured ++ [⟨.mark .closeBrace, endPos⟩], ?_, ?_⟩⟩
    · simpa using hrest
    · rintro rfl
      exact ⟨openPos, endPos, captured, hb, rfl, by simp⟩

/-- A phrase that starts with a token of its own. -/
theorem primary (hself : ∀ {α : Type} (g : Goal α), Reads false (self g) g.Post) :
    Reads false (Grammar.primary ctx self) fun used e _ => Derives .primary used e := by
  unfold Grammar.primary
  refine next?.bind fun found u => ?_
  split
  · -- a numeral
    rename_i spelling pos
    split
    · rename_i v hv
      refine .pure fun left h => ?_
      rw [h _ rfl]
      exact .number pos hv
    · exact .fail _ _
  · rename_i contents pos
    refine .pure fun left h => ?_
    rw [h _ rfl]
    exact .text contents pos
  · rename_i pos
    refine .pure fun left h => ?_
    rw [h _ rfl]
    exact .truth pos
  · rename_i pos
    refine .pure fun left h => ?_
    rw [h _ rfl]
    exact .falsity pos
  · rename_i pos
    refine .pure fun left h => ?_
    rw [h _ rfl]
    exact .null pos
  · -- a name, which may be the parameter of a procedure
    rename_i spelling pos
    refine (accept? _).bind fun arrow u₁ => ?_
    cases arrow with
    | some arrowPos =>
      refine (lambda hself spelling pos).mono fun used e left hlambda harrow h => ?_
      obtain ⟨body, hbody, rfl⟩ := hlambda
      rw [h _ rfl, harrow.1 _ rfl]
      exact .arrow spelling pos arrowPos hbody
    | none =>
      refine .pure fun left harrow h => ?_
      rw [h _ rfl, harrow.2 rfl]
      exact .name spelling pos
  · -- an expression in parentheses, which may be the parameter of a procedure
    rename_i openPos
    refine (hself .expression).bind fun e u₁ => (expect _).bind fun endPos u₂ => ?_
    have hparens : ∀ {left : List Lexeme}, u₂ = [⟨.mark .closeParen, endPos⟩] →
        Goal.expression.Post u₁ e left → u = [⟨.mark .openParen, openPos⟩] →
        Derives .primary (u ++ (u₁ ++ (u₂ ++ []))) e := by
      rintro left rfl he rfl
      exact .parens openPos endPos he
    split
    · rename_i spelling pos
      refine (accept? _).bind fun arrow u₃ => ?_
      cases arrow with
      | some arrowPos =>
        refine (lambda hself spelling pos).mono fun used e left hlambda harrow hclose he h => ?_
        obtain ⟨body, hbody, rfl⟩ := hlambda
        rw [h _ rfl, harrow.1 _ rfl, hclose]
        exact .parensArrow openPos endPos arrowPos he hbody
      | none =>
        refine .pure fun left harrow hclose he h => ?_
        rw [harrow.2 rfl]
        exact hparens hclose he (h _ rfl)
    · exact .pure fun left hclose he h => hparens hclose he (h _ rfl)
  · rename_i pos
    refine (hself (.elements true)).bind fun es u₁ => .pure fun left hes h => ?_
    obtain ⟨us, endPos, rfl, hes⟩ := hes
    rw [h _ rfl, List.append_nil]
    exact .array pos endPos hes
  · rename_i pos
    refine (hself .members).bind fun ds u₁ => .pure fun left hds h => ?_
    obtain ⟨us, endPos, rfl, hds⟩ := hds
    rw [h _ rfl, List.append_nil]
    exact .object pos endPos hds
  · rename_i pos
    refine (hself (.procedure pos)).bind fun p u₁ => .pure fun left hp h => ?_
    rw [h _ rfl, List.append_nil]
    exact .procedureLiteral pos hp
  · rename_i pos
    refine (mixin pos).mono fun used e left hmixin h => ?_
    obtain ⟨openPos, endPos, ts, hts, rfl, rfl⟩ := hmixin
    rw [h _ rfl]
    exact .mixin pos openPos endPos hts
  · exact .fail _ _

/-- Calls, members and indices behind an expression. -/
theorem suffixes (hself : ∀ {α : Type} (g : Goal α), Reads false (self g) g.Post) (target : Expression) :
    Reads false (Grammar.suffixes ctx self target) (Goal.suffixes target).Post := by
  unfold Grammar.suffixes
  refine here.bind fun pos u₁ => peek?.bind fun found u₂ => ?_
  split
  · refine skip.bind fun _ u₃ => name.bind fun member u₄ =>
      (hself (.suffixes (.member target member pos))).mono ?_
    rintro used e left hmore ⟨namePos, rfl⟩ hskip ⟨rfl, hpeek⟩ ⟨rfl, hpos⟩ ts hts
    obtain rfl := eq_of_skip hpos hpeek hskip (by simp)
    simpa using hmore _ (.member member pos namePos hts)
  · refine skip.bind fun _ u₃ => (hself (.arguments true)).bind fun arguments u₄ =>
      (hself (.suffixes (.call target arguments pos))).mono ?_
    rintro used e left hmore ⟨us, endPos, rfl, hus⟩ hskip ⟨rfl, hpeek⟩ ⟨rfl, hpos⟩ ts hts
    obtain rfl := eq_of_skip hpos hpeek hskip (by simp)
    simpa using hmore _ (.call pos endPos hts hus)
  · refine skip.bind fun _ u₃ => (hself .expression).bind fun key u₄ =>
      (expect _).bind fun endPos u₅ => (hself (.suffixes (.index target key pos))).mono ?_
    rintro used e left hmore rfl hkey hskip ⟨rfl, hpeek⟩ ⟨rfl, hpos⟩ ts hts
    obtain rfl := eq_of_skip hpos hpeek hskip (by simp)
    simpa using hmore _ (.index pos endPos hts hkey)
  · refine .pure ?_
    rintro left ⟨rfl, -⟩ ⟨rfl, -⟩ ts hts
    simpa using hts

/-- An expression without binary operators. -/
theorem unary (hself : ∀ {α : Type} (g : Goal α), Reads false (self g) g.Post) :
    Reads false (Grammar.unary ctx self) fun used e _ => Derives .unary used e := by
  unfold Grammar.unary
  refine here.bind fun pos u₁ => peek?.bind fun found u₂ => ?_
  cases hop : found.bind UnaryOperator.ofToken? with
  | some op =>
    obtain ⟨t, rfl, ht⟩ := Option.bind_eq_some_iff.mp hop
    refine skip.bind fun _ u₃ => (hself .unary).bind fun e u₄ => .pure ?_
    rintro left he hskip ⟨rfl, hpeek⟩ ⟨rfl, hpos⟩
    obtain rfl := eq_of_skip hpos hpeek hskip (by simp)
    rw [UnaryOperator.eq_mark_of_ofToken? ht]
    simpa using Derives.unary op pos he
  | none =>
    refine (primary hself).bind fun target u₃ => (suffixes hself target).mono ?_
    rintro used e left hmore htarget ⟨rfl, -⟩ ⟨rfl, -⟩
    simpa using (hmore u₃ (.bare htarget)).plain

/-- More operators behind an expression.  The operator that comes next binds no tighter than what was
read so far, and the right operand is read up to an operator that binds no tighter than this one. -/
theorem operators (hself : ∀ {α : Type} (g : Goal α), Reads false (self g) g.Post) (rank : Nat)
    (target : Expression) :
    Reads false (Grammar.operators ctx self rank target) (Goal.operators rank target).Post := by
  unfold Grammar.operators
  refine here.bind fun pos u₁ => peek?.bind fun found u₂ => ?_
  cases hop : found.bind BinaryOperator.ofToken? with
  | some op =>
    obtain ⟨t, rfl, ht⟩ := Option.bind_eq_some_iff.mp hop
    dsimp only
    split
    · rename_i hrank
      refine skip.bind fun _ u₃ => (hself (.operand (op.rank + 1))).bind fun right u₄ =>
        (hself (.operators rank (.binary op target right pos))).mono ?_
      rintro used e left hmore ⟨hright, hbelow⟩ hskip ⟨rfl, hpeek⟩ ⟨rfl, hpos⟩ s ts hs hts hnext
      obtain rfl := eq_of_skip hpos hpeek hskip (by simp)
      have hle : op.rank ≤ s := Nat.lt_succ_iff.mp (hnext t op (by simp) ht)
      have hbinary := Derives.binary pos (mem_operatorsAt op) (hts.of_le hle) hright
      rw [← BinaryOperator.eq_mark_of_ofToken? ht] at hbinary
      simpa using hmore op.rank _ hrank hbinary hbelow
    · rename_i hrank
      refine .pure ?_
      rintro left ⟨rfl, hpeek⟩ ⟨rfl, -⟩ s ts hs hts -
      refine ⟨by simpa using hts.of_le hs, ?_⟩
      intro t' op' ht' hop'
      rw [List.nil_append, ht'] at hpeek
      cases hpeek
      rw [ht] at hop'
      cases hop'
      exact Nat.lt_of_not_le hrank
  | none =>
    refine .pure ?_
    rintro left ⟨rfl, rfl⟩ ⟨rfl, -⟩ s ts hs hts -
    refine ⟨by simpa using hts.of_le hs, ?_⟩
    intro t' op' ht' hop'
    simp [ht', hop'] at hop

/-- An expression whose binary operators have at least the given rank. -/
theorem operand (hself : ∀ {α : Type} (g : Goal α), Reads false (self g) g.Post) (rank : Nat) :
    Reads false (Grammar.operand ctx self rank) (Goal.operand rank).Post := by
  unfold Grammar.operand
  refine (unary hself).bind fun e u => (operators hself rank e).mono ?_
  intro used e' left hmore he
  refine hmore (max rank 7) u (Nat.le_max_left _ _) he.operand ?_
  intro t op h ht
  have hlt := below_unary _ t op h ht
  omega

/-- An expression of any kind. -/
theorem expression (hself : ∀ {α : Type} (g : Goal α), Reads false (self g) g.Post) :
    Reads false (Grammar.expression ctx self) fun used e _ => Derives .expression used e := by
  unfold Grammar.expression
  refine (operand hself 0).bind fun target u₁ => here.bind fun pos u₂ =>
    peek?.bind fun found u₃ => ?_
  cases hfound : found.bind assignment? with
  | some compound =>
    obtain ⟨t, rfl, ht⟩ := Option.bind_eq_some_iff.mp hfound
    dsimp only
    split
    · rename_i htarget
      refine skip.bind fun _ u₄ => (hself .expression).bind fun value u₅ => ?_
      cases compound with
      | some op =>
        refine .pure ?_
        rintro left hvalue hskip ⟨rfl, hpeek⟩ ⟨rfl, hpos⟩ ⟨hlevel, -⟩
        obtain rfl := eq_of_skip hpos hpeek hskip (by simp)
        obtain ⟨m, rfl, hm⟩ := mem_compoundMarks_of_assignment? ht
        simpa using Derives.compound pos hm hlevel htarget hvalue
      | none =>
        refine .pure ?_
        rintro left hvalue hskip ⟨rfl, hpeek⟩ ⟨rfl, hpos⟩ ⟨hlevel, -⟩
        obtain rfl := eq_of_skip hpos hpeek hskip (by simp)
        obtain rfl := eq_equal_of_assignment? ht
        simpa using Derives.assign pos hlevel htarget hvalue
    · exact .fail _ _
  | none =>
    refine .pure ?_
    rintro left ⟨rfl, -⟩ ⟨rfl, -⟩ ⟨hlevel, -⟩
    simpa using Derives.value hlevel

/-! ## Lists -/

/-- The comma before an item. -/
theorem separator (first : Bool) :
    Reads imports (Grammar.separator ctx first) fun used _ _ => Separates first used := by
  unfold Grammar.separator
  cases first with
  | true => exact .pure fun _ => .first
  | false =>
    refine (expect _).bind fun pos u => .pure ?_
    rintro left rfl
    exact .comma pos

/-- Skipping a token that was checked for consumes it. -/
theorem eq_of_check {t : Token} {used ts : List Lexeme} (hcheck : ts.head?.map (·.token) = some t)
    (hskip : ∃ l, used = [l]) (hts : used <+: ts) : ∃ pos, used = [⟨t, pos⟩] := by
  obtain ⟨left, rfl⟩ := hts
  obtain ⟨l, rfl⟩ := hskip
  cases hcheck
  exact ⟨l.pos, rfl⟩

/-- The arguments of a call. -/
theorem arguments (hself : ∀ {α : Type} (g : Goal α), Reads false (self g) g.Post) (first : Bool) :
    Reads false (Grammar.arguments ctx self first) (Goal.arguments first).Post := by
  unfold Grammar.arguments
  refine (check _).bind fun closes u₁ => ?_
  cases closes with
  | true =>
    refine skip.bind fun _ u₂ => .pure ?_
    rintro left hskip ⟨rfl, hcheck⟩
    obtain ⟨pos, rfl⟩ := eq_of_check (hcheck.mp rfl) hskip (by simp)
    exact ⟨[], pos, rfl, .noArguments first⟩
  | false =>
    refine (separator first).bind fun _ u₂ => (accept? _).bind fun star u₃ => ?_
    cases star with
    | some pos =>
      refine (hself .expression).bind fun e u₄ => (check _).bind fun closes u₅ => ?_
      cases closes with
      | true =>
        refine skip.bind fun _ u₆ => .pure ?_
        rintro left hskip ⟨rfl, hcheck⟩ he hstar hsep ⟨rfl, -⟩
        obtain ⟨endPos, rfl⟩ := eq_of_check (hcheck.mp rfl) hskip (by simp)
        obtain rfl := hstar.1 pos rfl
        exact ⟨_, endPos, by simp, .lastArgument pos hsep he⟩
      | false => exact here.bind fun _ _ => .fail _ _
    | none =>
      refine (expression hself).bind fun e u₄ => (hself (.arguments false)).bind fun es u₅ => .pure ?_
      rintro left ⟨us, endPos, rfl, hes⟩ he hstar hsep ⟨rfl, -⟩
      obtain rfl := hstar.2 rfl
      exact ⟨_, endPos, by simp, .argument hsep he hes⟩

/-- The elements of an array. -/
theorem elements (hself : ∀ {α : Type} (g : Goal α), Reads false (self g) g.Post) (first : Bool) :
    Reads false (Grammar.elements ctx self first) (Goal.elements first).Post := by
  unfold Grammar.elements
  refine (check _).bind fun closes u₁ => ?_
  cases closes with
  | true =>
    refine skip.bind fun _ u₂ => .pure ?_
    rintro left hskip ⟨rfl, hcheck⟩
    obtain ⟨pos, rfl⟩ := eq_of_check (hcheck.mp rfl) hskip (by simp)
    exact ⟨[], pos, rfl, .noElements first⟩
  | false =>
    refine (separator first).bind fun _ u₂ => (expression hself).bind fun e u₃ =>
      (hself (.elements false)).bind fun es u₄ => .pure ?_
    rintro left ⟨us, endPos, rfl, hes⟩ he hsep ⟨rfl, -⟩
    exact ⟨_, endPos, by simp, .element hsep he hes⟩

/-- A phrase after a mark, or nothing. -/
theorem after? {α : Type} (hself : ∀ {α : Type} (g : Goal α), Reads false (self g) g.Post) (m : Mark)
    (g : Goal α) :
    Reads false (Grammar.after? self m g) fun used found left =>
      (found = none ∧ used = []) ∨
        ∃ a pos us, found = some a ∧ used = ⟨.mark m, pos⟩ :: us ∧ g.Post us a left := by
  unfold Grammar.after?
  refine (accept? _).bind fun mark u₁ => ?_
  cases mark with
  | some pos =>
    refine (hself g).bind fun a u₂ => .pure ?_
    rintro left ha hmark
    obtain rfl := hmark.1 pos rfl
    exact .inr ⟨a, pos, u₂, rfl, by simp, ha⟩
  | none =>
    refine .pure ?_
    rintro left hmark
    obtain rfl := hmark.2 rfl
    exact .inl ⟨rfl, rfl⟩

/-- The type of a variable or parameter, or nothing. -/
theorem typing (hself : ∀ {α : Type} (g : Goal α), Reads false (self g) g.Post) :
    Reads false (Grammar.after? self .colon (.operand 0)) fun used type _ =>
      Derives .typing used type := by
  refine (after? hself .colon (.operand 0)).mono ?_
  rintro used type left (⟨rfl, rfl⟩ | ⟨e, pos, us, rfl, rfl, he, -⟩)
  · exact .untyped
  · exact .typing pos he

/-- A name with an optional type and an optional value. -/
theorem declaration (hself : ∀ {α : Type} (g : Goal α), Reads false (self g) g.Post) (pos : Position) :
    Reads false (Grammar.declaration ctx self pos) fun used d _ =>
      Derives (.declaration pos) used d ∧ used ≠ [] := by
  unfold Grammar.declaration
  refine name.bind fun spelling u₁ => (typing hself).bind fun type u₂ =>
    (after? hself .equal .expression).bind fun value u₃ => .pure ?_
  rintro left hvalue htype ⟨namePos, rfl⟩
  refine ⟨?_, by simp⟩
  rcases hvalue with ⟨rfl, rfl⟩ | ⟨e, equalPos, us, rfl, rfl, he⟩
  · simpa using Derives.declaration spelling pos namePos htype .noInitializer
  · simpa using Derives.declaration spelling pos namePos htype (.initializer equalPos he)

/-- The members of an object. -/
theorem members (hself : ∀ {α : Type} (g : Goal α), Reads false (self g) g.Post) :
    Reads false (Grammar.members ctx self) Goal.members.Post := by
  unfold Grammar.members
  refine (check _).bind fun closes u₁ => ?_
  cases closes with
  | true =>
    refine skip.bind fun _ u₂ => .pure ?_
    rintro left hskip ⟨rfl, hcheck⟩
    obtain ⟨pos, rfl⟩ := eq_of_check (hcheck.mp rfl) hskip (by simp)
    exact ⟨[], pos, rfl, .noMembers⟩
  | false =>
    refine here.bind fun pos u₂ => (declaration hself pos).bind fun d u₃ =>
      (expect _).bind fun endPos u₄ => (hself .members).bind fun ds u₅ => .pure ?_
    rintro left ⟨us, closePos, rfl, hds⟩ rfl ⟨hd, hne⟩ ⟨rfl, hpos⟩ ⟨rfl, -⟩
    obtain ⟨t, ts, rfl⟩ := List.exists_cons_of_ne_nil hne
    obtain rfl := hpos t _ rfl
    exact ⟨_, closePos, by simp, .moreMembers endPos hd hds⟩

/-- The parameters of a procedure.  Nothing comes after the one that takes all that is left. -/
theorem parameters (hself : ∀ {α : Type} (g : Goal α), Reads false (self g) g.Post) (first : Bool)
    (rest : Option Parameter) :
    Reads false (Grammar.parameters ctx self first rest) (Goal.parameters first rest).Post := by
  unfold Grammar.parameters
  refine (check _).bind fun closes u₁ => ?_
  cases closes with
  | true =>
    refine skip.bind fun _ u₂ => .pure ?_
    rintro left hskip ⟨rfl, hcheck⟩
    obtain ⟨pos, rfl⟩ := eq_of_check (hcheck.mp rfl) hskip (by simp)
    cases rest with
    | none => exact ⟨[], pos, rfl, .noParameters first⟩
    | some p => exact ⟨pos, rfl, rfl⟩
  | false =>
    refine (separator first).bind fun _ u₂ => here.bind fun pos u₃ => ?_
    cases rest with
    | some p => exact .fail _ _
    | none =>
      refine (accept? _).bind fun star u₄ => name.bind fun spelling u₅ =>
        (typing hself).bind fun type u₆ => ?_
      cases star with
      | some starPos =>
        refine (hself (.parameters false (some ⟨spelling, type, pos⟩))).mono ?_
        rintro used ps left ⟨endPos, rfl, rfl⟩ htype ⟨namePos, rfl⟩ hstar ⟨rfl, hpos⟩ hsep ⟨rfl, -⟩
        obtain rfl := hstar.1 starPos rfl
        obtain rfl := hpos _ _ rfl
        exact ⟨_, endPos, by simp, .lastParameter spelling pos namePos hsep htype⟩
      | none =>
        refine (hself (.parameters false none)).bind fun ps u₇ => .pure ?_
        rintro left ⟨us, endPos, rfl, hps⟩ htype ⟨namePos, rfl⟩ hstar ⟨rfl, hpos⟩ hsep ⟨rfl, -⟩
        obtain rfl := hstar.2 rfl
        obtain rfl := hpos _ _ rfl
        exact ⟨_, endPos, by simp, .parameter spelling pos hsep htype hps⟩

/-! ## Statements -/

/-- Statements between braces. -/
theorem block (hself : ∀ {α : Type} (g : Goal α), Reads false (self g) g.Post) :
    Reads false (Grammar.block ctx self) fun used b _ => Derives .block used b := by
  unfold Grammar.block
  refine (expect _).bind fun pos u₁ => (hself (.statements true)).bind fun ss u₂ =>
    (expect _).bind fun endPos u₃ => .pure ?_
  rintro left rfl ⟨⟨parts, rfl, hparts⟩, -⟩ rfl
  simpa using Derives.block pos endPos (.of_parts hparts)

/-- The parameters and the body of a procedure. -/
theorem procedure (hself : ∀ {α : Type} (g : Goal α), Reads false (self g) g.Post) (pos : Position) :
    Reads false (Grammar.procedure ctx self pos) fun used p _ => Derives (.procedure pos) used p := by
  unfold Grammar.procedure
  refine (expect _).bind fun openPos u₁ => (hself (.parameters true none)).bind fun ps u₂ =>
    (hself .block).bind fun body u₃ => .pure ?_
  rintro left hbody ⟨us, endPos, rfl, hps⟩ rfl
  simpa using Derives.procedure pos openPos endPos hps hbody

/-- A condition and a block. -/
theorem branch (hself : ∀ {α : Type} (g : Goal α), Reads false (self g) g.Post) :
    Reads false (Grammar.branch self) fun used b _ => Derives .branch used b := by
  unfold Grammar.branch
  refine (hself .expression).bind fun condition u₁ => (hself .block).bind fun body u₂ => .pure ?_
  rintro left hbody hcondition
  simpa using Derives.branch hcondition hbody

/-- The further branches of a choice. -/
theorem branches (hself : ∀ {α : Type} (g : Goal α), Reads false (self g) g.Post) :
    Reads false (Grammar.branches self) fun used bs _ => Derives .branches used bs := by
  unfold Grammar.branches
  refine (accept? _).bind fun word u₁ => ?_
  cases word with
  | some pos =>
    refine (branch hself).bind fun b u₂ => (hself .branches).bind fun bs u₃ => .pure ?_
    rintro left hbs hb hword
    obtain rfl := hword.1 pos rfl
    simpa using Derives.moreBranches pos hb hbs
  | none =>
    refine .pure ?_
    rintro left hword
    obtain rfl := hword.2 rfl
    exact .noBranches

/-- A choice, after its first word. -/
theorem ifElse (hself : ∀ {α : Type} (g : Goal α), Reads false (self g) g.Post) (pos : Position) :
    Reads false (Grammar.ifElse self pos) fun used s _ =>
      Derives .statement (⟨.keyword .ifWord, pos⟩ :: used) s := by
  unfold Grammar.ifElse
  refine (branch hself).bind fun b u₁ => (hself .branches).bind fun bs u₂ =>
    (accept? _).bind fun word u₃ => ?_
  cases word with
  | some elsePos =>
    refine (hself .block).bind fun other u₄ => .pure ?_
    rintro left hother hword hbs hb
    obtain rfl := hword.1 elsePos rfl
    simpa using Derives.ifElse pos hb hbs (.otherwise elsePos hother)
  | none =>
    refine .pure ?_
    rintro left hword hbs hb
    obtain rfl := hword.2 rfl
    simpa using Derives.ifElse pos hb hbs .noOtherwise

/-- A loop over the elements of an array, after its first word. -/
theorem forIn (hself : ∀ {α : Type} (g : Goal α), Reads false (self g) g.Post) (pos : Position) :
    Reads false (Grammar.forIn ctx self pos) fun used s _ =>
      Derives .statement (⟨.keyword .forWord, pos⟩ :: used) s := by
  unfold Grammar.forIn
  refine here.bind fun namePos u₁ => name.bind fun spelling u₂ => (expect _).bind fun inPos u₃ =>
    (hself .expression).bind fun iterable u₄ => (hself .block).bind fun body u₅ => .pure ?_
  rintro left hbody hiterable rfl ⟨pos', rfl⟩ ⟨rfl, hpos⟩
  obtain rfl := hpos _ _ rfl
  simpa using Derives.forIn spelling pos namePos inPos hiterable hbody

/-- A named procedure, after its first word. -/
theorem namedProcedure (hself : ∀ {α : Type} (g : Goal α), Reads false (self g) g.Post) (pos : Position) :
    Reads false (Grammar.namedProcedure ctx self pos) fun used s _ =>
      Derives .statement (⟨.keyword .funcWord, pos⟩ :: used) s := by
  unfold Grammar.namedProcedure
  refine name.bind fun spelling u₁ => (hself (.procedure pos)).bind fun p u₂ => .pure ?_
  rintro left hp ⟨namePos, rfl⟩
  simpa using Derives.namedProcedure spelling pos namePos hp

/-- A macro, after its first word. -/
theorem defineMacro (hself : ∀ {α : Type} (g : Goal α), Reads false (self g) g.Post) (pos : Position) :
    Reads false (Grammar.defineMacro ctx self pos) fun used s _ =>
      Derives .statement (⟨.keyword .macroWord, pos⟩ :: used) s := by
  unfold Grammar.defineMacro
  refine name.bind fun spelling u₁ => (hself (.procedure pos)).bind fun p u₂ => .pure ?_
  rintro left hp ⟨namePos, rfl⟩
  simpa using Derives.defineMacro spelling pos namePos hp

/-- The end of a procedure, after its first word. -/
theorem returnWith (hself : ∀ {α : Type} (g : Goal α), Reads false (self g) g.Post) (pos : Position) :
    Reads false (Grammar.returnWith ctx self pos) fun used s _ =>
      Derives .statement (⟨.keyword .returnWord, pos⟩ :: used) s := by
  unfold Grammar.returnWith
  refine (check _).bind fun ends u₁ => ?_
  cases ends with
  | true =>
    refine endStatement.bind fun _ u₂ => .pure ?_
    rintro left ⟨endPos, rfl⟩ ⟨rfl, -⟩
    exact .returnNothing pos endPos
  | false =>
    refine (hself .expression).bind fun e u₂ => endStatement.bind fun _ u₃ => .pure ?_
    rintro left ⟨endPos, rfl⟩ he ⟨rfl, -⟩
    simpa using Derives.returnWith pos endPos he

/-- An expression as a statement. -/
theorem expressionStatement (hself : ∀ {α : Type} (g : Goal α), Reads false (self g) g.Post) :
    Reads false (Grammar.expressionStatement ctx self) fun used s _ => Derives .statement used s := by
  unfold Grammar.expressionStatement
  refine (expression hself).bind fun e u₁ => endStatement.bind fun _ u₂ => .pure ?_
  rintro left ⟨endPos, rfl⟩ he
  simpa using Derives.expressionStatement endPos he

/-- An import, after its first word, which consumes a path and a semicolon. -/
theorem importFile (pos : Position) : Reads imports (Grammar.importFile ctx pos) fun used s _ =>
    ∃ path textPos endPos, used = [⟨.text path, textPos⟩, ⟨.mark .semicolon, endPos⟩] ∧
      ∃ statements, s = .importFile path path statements pos := by
  unfold Grammar.importFile
  refine next?.bind fun found u₁ => ?_
  split
  · rename_i path textPos
    refine (expect _).bind fun endPos u₂ => ?_
    unfold Grammar.importPath
    split
    · rename_i inclusion hbring
      intro c s c' hok herr
      cases hok
      refine ⟨(List.append_eq_nil_iff.mp herr).1, fun _ => ⟨[], rfl, fun hsemicolon hpath => ?_⟩⟩
      rw [hpath _ rfl, hsemicolon]
      exact ⟨path, textPos, endPos, rfl, _, rfl⟩
    · exact .fail _ _
  · exact .fail _ _

/-- A statement. -/
theorem statement (hself : ∀ {α : Type} (g : Goal α), Reads false (self g) g.Post) :
    Reads false (Grammar.statement ctx self) fun used s _ => Derives .statement used s := by
  unfold Grammar.statement
  refine .of_importFree (here.bind fun pos u₁ => get.bind fun c u₂ => ?_)
  split
  · rename_i hnamed
    refine skip.bind fun _ u₃ => (namedProcedure hself pos).mono ?_
    rintro used s left hs hskip ⟨rfl, hrest⟩ ⟨rfl, hpos⟩ -
    have hpeek := token_of_startsNamedProcedure hnamed
    rw [hrest] at hpeek
    obtain rfl := eq_of_skip hpos hpeek hskip (by simp)
    exact hs
  · refine peek?.bind fun found u₃ => ?_
    split
    · refine skip.bind fun _ u₄ => (declaration hself pos).bind fun d u₅ =>
        endStatement.bind fun _ u₆ => .pure ?_
      rintro left ⟨endPos, rfl⟩ ⟨hd, -⟩ hskip ⟨rfl, hpeek⟩ ⟨rfl, -⟩ ⟨rfl, hpos⟩ -
      obtain rfl := eq_of_skip hpos hpeek hskip (by simp)
      simpa using Derives.declare pos endPos hd
    · refine skip.bind fun _ u₄ => (ifElse hself pos).mono ?_
      rintro used s left hs hskip ⟨rfl, hpeek⟩ ⟨rfl, -⟩ ⟨rfl, hpos⟩ -
      obtain rfl := eq_of_skip hpos hpeek hskip (by simp)
      exact hs
    · refine skip.bind fun _ u₄ => (branch hself).bind fun b u₅ => .pure ?_
      rintro left hb hskip ⟨rfl, hpeek⟩ ⟨rfl, -⟩ ⟨rfl, hpos⟩ -
      obtain rfl := eq_of_skip hpos hpeek hskip (by simp)
      simpa using Derives.whileDo pos hb
    · refine skip.bind fun _ u₄ => (forIn hself pos).mono ?_
      rintro used s left hs hskip ⟨rfl, hpeek⟩ ⟨rfl, -⟩ ⟨rfl, hpos⟩ -
      obtain rfl := eq_of_skip hpos hpeek hskip (by simp)
      exact hs
    · refine skip.bind fun _ u₄ => (returnWith hself pos).mono ?_
      rintro used s left hs hskip ⟨rfl, hpeek⟩ ⟨rfl, -⟩ ⟨rfl, hpos⟩ -
      obtain rfl := eq_of_skip hpos hpeek hskip (by simp)
      exact hs
    · -- there are no imports
      refine skip.bind fun _ u₄ => (importFile pos).mono ?_
      rintro used s left - hskip ⟨rfl, hpeek⟩ ⟨rfl, -⟩ ⟨rfl, hpos⟩ hfree
      obtain rfl := eq_of_skip hpos hpeek hskip (by simp)
      exact absurd rfl (hfree ⟨.keyword .importWord, pos⟩ (by simp))
    · refine skip.bind fun _ u₄ => (defineMacro hself pos).mono ?_
      rintro used s left hs hskip ⟨rfl, hpeek⟩ ⟨rfl, -⟩ ⟨rfl, hpos⟩ -
      obtain rfl := eq_of_skip hpos hpeek hskip (by simp)
      exact hs
    · refine (block hself).bind fun b u₄ => .pure ?_
      rintro left hb ⟨rfl, -⟩ ⟨rfl, -⟩ ⟨rfl, -⟩ -
      simpa using Derives.blockStatement hb
    · refine skip.bind fun _ u₄ => .pure ?_
      rintro left hskip ⟨rfl, hpeek⟩ ⟨rfl, -⟩ ⟨rfl, hpos⟩ -
      obtain rfl := eq_of_skip hpos hpeek hskip (by simp)
      exact .empty pos
    · refine (expressionStatement hself).mono ?_
      rintro used s left hs ⟨rfl, -⟩ ⟨rfl, -⟩ ⟨rfl, -⟩ -
      exact hs

/-- A fault in a statement is handled on the spot. -/
theorem statement?_apply (c : Cursor) :
    Grammar.statement? ctx self c =
      match Grammar.statement ctx self c with
      | .ok s c' => .ok (some s) c'
      | .error fault c' => (do recover ctx c.rest.length fault; return none) c' := by
  unfold Grammar.statement?
  change EStateM.tryCatch (EStateM.bind (Grammar.statement ctx self) _) _ c = _
  unfold EStateM.tryCatch EStateM.bind
  cases Grammar.statement ctx self c <;> rfl

/-- If no error is recorded, a statement could be read. -/
theorem statement? (hself : ∀ {α : Type} (g : Goal α), Reads false (self g) g.Post) :
    Reads false (Grammar.statement? ctx self) fun used found _ =>
      ∃ s, found = some s ∧ Derives .statement used s := by
  intro c found c' hok herr
  rw [statement?_apply] at hok
  cases hs : Grammar.statement ctx self c with
  | ok s c₁ =>
    rw [hs] at hok
    cases hok
    obtain ⟨herrs, hused⟩ := statement hself c s c' hs herr
    refine ⟨herrs, fun hfree => ?_⟩
    obtain ⟨used, hrest, hd⟩ := hused hfree
    exact ⟨used, hrest, s, rfl, hd⟩
  | error fault c₁ =>
    rw [hs] at hok
    cases hok
    simp at herr

/-- Statements up to the end of the input, or up to a closing brace. -/
theorem statements (hself : ∀ {α : Type} (g : Goal α), Reads false (self g) g.Post) (inBlock : Bool) :
    Reads false (Grammar.statements ctx self inBlock) (Goal.statements inBlock).Post := by
  unfold Grammar.statements
  refine peek?.bind fun found u₁ => ?_
  cases found with
  | none =>
    refine .pure ?_
    rintro left ⟨rfl, hpeek⟩
    refine ⟨⟨[], rfl, .nil⟩, fun _ => ?_⟩
    cases left with
    | nil => rfl
    | cons t ts => cases hpeek
  | some t =>
    dsimp only
    split
    · rename_i hends
      refine .pure ?_
      rintro left ⟨rfl, -⟩
      refine ⟨⟨[], rfl, .nil⟩, ?_⟩
      rintro rfl
      cases hends
    · refine (statement? hself).bind fun first u₂ =>
        (hself (.statements inBlock)).bind fun more u₃ => .pure ?_
      rintro left ⟨⟨parts, rfl, hparts⟩, hend⟩ ⟨s, rfl, hs⟩ ⟨rfl, -⟩
      exact ⟨⟨u₂ :: parts, by simp, .cons hs hparts⟩, fun h => by simpa using hend h⟩

/-- The rule for each goal reads what the goal stands for. -/
theorem rule (hself : ∀ {α : Type} (g : Goal α), Reads false (self g) g.Post) {α : Type} (g : Goal α) :
    Reads false (Grammar.rule ctx self g) g.Post := by
  cases g with
  | expression => exact expression hself
  | operand rank => exact operand hself rank
  | operators rank left => exact operators hself rank left
  | unary => exact unary hself
  | suffixes target => exact suffixes hself target
  | arguments first => exact arguments hself first
  | elements first => exact elements hself first
  | members => exact members hself
  | parameters first rest => exact parameters hself first rest
  | procedure pos => exact procedure hself pos
  | block => exact block hself
  | branches => exact branches hself
  | statements inBlock => exact statements hself inBlock

/-- However deep the rules may nest, they read what the goals stand for. -/
theorem read (depth : Nat) {α : Type} (g : Goal α) : Reads false (Grammar.read ctx depth g) g.Post := by
  induction depth generalizing α g with
  | zero => exact here.bind fun _ _ => .fail _ _
  | succ depth ih => exact rule (fun g => ih g) g

end Reads

/-- Without imports ahead of it, a file is read statement by statement. -/
theorem readTokens_apply (ctx : Context) (ts : List Lexeme) :
    readTokens ctx [] ts =
      match read ctx (ts.length + 1) (.statements false) ⟨ts, []⟩ with
      | .ok statements c => ⟨statements, c.errors⟩
      | .error fault c => ⟨[], c.errors ++ [fault.diagnostic ctx.file]⟩ := by
  unfold readTokens importAll
  change (match EStateM.bind (read ctx (ts.length + 1) (.statements false))
      (fun ss => Pure.pure ([] ++ ss)) ⟨ts, []⟩ with
    | .ok statements c => _
    | .error fault c => _) = _
  unfold EStateM.bind
  cases read ctx (ts.length + 1) (.statements false) ⟨ts, []⟩ <;> rfl

/-- A file without errors was read to its end. -/
theorem exists_read_of_errors_eq_nil {ctx : Context} {ts : List Lexeme}
    (h : (readTokens ctx [] ts).errors = []) :
    ∃ c, read ctx (ts.length + 1) (.statements false) ⟨ts, []⟩ =
      .ok (readTokens ctx [] ts).statements c ∧ c.errors = [] := by
  rw [readTokens_apply] at h ⊢
  cases hread : read ctx (ts.length + 1) (.statements false) ⟨ts, []⟩ with
  | ok ss c =>
    rw [hread] at h
    exact ⟨c, rfl, h⟩
  | error fault c =>
    rw [hread] at h
    simp at h

/-- The reader is sound: if tokens without imports are read without errors, then they are the tokens of
the statements that were read, one after the other, and no others. -/
theorem readTokens_sound {ctx : Context} {ts : List Lexeme} (hfree : ImportFree ts)
    (herrors : (readTokens ctx [] ts).errors = []) :
    ∃ parts : List (List Lexeme), ts = parts.flatten ∧
      List.Forall₂ (Derives .statement) parts (readTokens ctx [] ts).statements := by
  obtain ⟨c, hread, hc⟩ := exists_read_of_errors_eq_nil herrors
  obtain ⟨-, hused⟩ := Reads.read _ _ _ _ _ hread hc
  obtain ⟨used, hts, ⟨parts, rfl, hparts⟩, hend⟩ := hused hfree
  rw [hend rfl, List.append_nil] at hts
  exact ⟨parts, hts, hparts⟩

/-- The tokens of `x += a * b; return;`. -/
def sampleTokens : List Lexeme :=
  [⟨.name "x", ⟨1, 1⟩⟩, ⟨.mark .plusEqual, ⟨1, 3⟩⟩, ⟨.name "a", ⟨1, 6⟩⟩, ⟨.mark .star, ⟨1, 8⟩⟩,
    ⟨.name "b", ⟨1, 10⟩⟩, ⟨.mark .semicolon, ⟨1, 11⟩⟩, ⟨.keyword .returnWord, ⟨1, 13⟩⟩,
    ⟨.mark .semicolon, ⟨1, 19⟩⟩]

/-- A reader of a file that can import nothing. -/
def sampleContext : Context :=
  ⟨"main", ⟨1, 19⟩, fun path => .error (.unreadable path .notFound)⟩

/-- The sample is read as two statements, which it consists of. -/
theorem readTokens_sound_sample :
    ImportFree sampleTokens ∧ (readTokens sampleContext [] sampleTokens).errors = [] ∧
      (readTokens sampleContext [] sampleTokens).statements.length = 2 ∧
      ∃ parts : List (List Lexeme), sampleTokens = parts.flatten ∧
        List.Forall₂ (Derives .statement) parts
          (readTokens sampleContext [] sampleTokens).statements := by
  have hfree : ImportFree sampleTokens := by
    unfold ImportFree
    decide
  exact ⟨hfree, rfl, rfl, readTokens_sound hfree rfl⟩

end Grammar

end ProtoScript
