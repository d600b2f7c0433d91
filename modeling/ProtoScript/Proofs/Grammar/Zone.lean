import ProtoScript.Proofs.Grammar.Independence

/-!
# Where readers stop

A zone says where a reader may stand among the tokens, where it may stand and need a token, where a
statement may end, and where a reader may stop with a fault.  Its laws follow the tokens: behind a token
that demands more, something is needed; a semicolon ends a statement; a fault leaves the token that is
wrong, unless one was needed and it is the one that was consumed for it.  If a zone has these laws, then
every rule of the grammar keeps to it.

Most rules leave semicolons alone, and those that do not are inside braces.  So the laws do not say what
happens behind an opening brace: either a zone is all there is, or there are no such braces in it.
-/

namespace ProtoScript

/-- Whether a phrase has to go on behind a token. -/
def Token.demandsMore : Token → Bool
  | .keyword k => k ∈ [.letWord, .ifWord, .elifWord, .whileWord, .forWord, .inWord, .importWord, .macroWord]
  | .mark m => m ∉ [.closeParen, .closeBracket, .openBrace, .closeBrace, .semicolon]
  | _ => false

/-- Whether a complaint is about the text.  The others are a reader's own: it would have to nest too deep,
or to read past the end. -/
def Complaint.isOrdinary : Complaint → Bool
  | .tooDeep | .pastEnd => false
  | _ => true

/-- Every sign of an assignment demands a value. -/
theorem demandsMore_of_assignment? {t : Token} {compound : Option BinaryOperator}
    (h : Grammar.assignment? t = some compound) : t.demandsMore = true := by
  cases t with
  | mark m => cases m <;> first | rfl | cases h
  | _ => cases h

namespace Grammar

/-- The word of a named procedure is followed by its name. -/
theorem head_ne_of_startsNamedProcedure {l : Lexeme} {ts : List Lexeme}
    (h : startsNamedProcedure (l :: ts) = true) :
    ts.head?.map (·.token) ≠ some (.mark .semicolon) := by
  cases ts with
  | nil => simp
  | cons u us =>
    intro hu
    have hu' : u.token = .mark .semicolon := Option.some.inj hu
    simp [startsNamedProcedure, hu'] at h

/-- The tokens at which reading goes on after a fault in a statement that started with `count` tokens
left. -/
def resumed (count : Nat) (ts : List Lexeme) : List Lexeme :=
  if (toBoundary ts).length = count then (toBoundary ts).tail else toBoundary ts

/-- After a fault, reading goes on. -/
theorem statement?_of_fault {ctx : Context} {self : {α : Type} → Goal α → Reader α} {c : Cursor}
    {e : Fault} {left : List Lexeme} {errors : List Diagnostic}
    (h : statement ctx self c = .error e ⟨left, errors⟩) :
    statement? ctx self c =
      .ok none ⟨resumed c.rest.length left, errors ++ [e.diagnostic ctx.file]⟩ := by
  rw [Reads.statement?_apply, h]
  rfl

/-- Just behind the given token, before which something holds. -/
def Behind (t : Token) (P : List Lexeme → Prop) (ts : List Lexeme) : Prop :=
  ∃ l : Lexeme, l.token = t ∧ P (l :: ts)

/-- Where readers of a file may stand, by the tokens that are left. -/
structure Zone (ctx : Context) where
  At : List Lexeme → Prop
  Needs : List Lexeme → Prop
  After : List Lexeme → Prop
  Stops : Complaint → List Lexeme → Prop
  at_of_needs {ts : List Lexeme} : Needs ts → At ts
  /-- What is needed may be any token but a semicolon. -/
  needs {ts : List Lexeme} : At ts → ts.head?.map (·.token) ≠ some (.mark .semicolon) → Needs ts
  pass {t : Token} {ts : List Lexeme} : t ≠ .mark .semicolon → Behind t At ts → At ts
  demand {t : Token} {ts : List Lexeme} : t.demandsMore = true → Behind t At ts → Needs ts
  ended {ts : List Lexeme} : Behind (.mark .semicolon) At ts → After ts
  unended {ts : List Lexeme} : At ts → After ts
  stop {complaint : Complaint} {ts : List Lexeme} :
    complaint.isOrdinary = true → At ts → Stops complaint ts
  /-- A token that was needed is consumed before it is found to be the wrong one. -/
  taken {complaint : Complaint} {t : Token} {ts : List Lexeme} :
    complaint.isOrdinary = true → Behind t Needs ts → Stops complaint ts
  unbrought {path : String} {complaint : Complaint} {ts : List Lexeme} :
    ctx.bring path = .error complaint →
    Behind (.mark .semicolon) (Behind (.text path) (Behind (.keyword .importWord) At)) ts →
    Stops complaint ts
  braces : (∀ ts, Needs ts) ∨ ∀ ts, ¬ Behind (.mark .openBrace) At ts

/-- From some tokens, a reader yields a result and leaves the others, whatever was recorded before. -/
def Yields {α : Type} (x : Reader α) (ts : List Lexeme) (a : α) (left : List Lexeme) : Prop :=
  ∃ ds, ∀ errors, x ⟨ts, errors⟩ = .ok a ⟨left, errors ++ ds⟩

/-- A reader that records nothing. -/
theorem yields_of_eq {α : Type} {x : Reader α} {ts left : List Lexeme} {a : α}
    (hx : ∀ errors, x ⟨ts, errors⟩ = .ok a ⟨left, errors⟩) : Yields x ts a left :=
  ⟨[], fun errors => by rw [hx, List.append_nil]⟩

/-- From some tokens, a reader stops with a fault at the others, whatever was recorded before. -/
def Fails {α : Type} (x : Reader α) (ts : List Lexeme) (e : Fault) (left : List Lexeme) : Prop :=
  ∃ ds, ∀ errors, x ⟨ts, errors⟩ = .error e ⟨left, errors ++ ds⟩

/-- A statement that can be read is taken as it is. -/
theorem Yields.statement? {ctx : Context} {self : {α : Type} → Goal α → Reader α} {ts left : List Lexeme}
    {s : Statement} (h : Yields (statement ctx self) ts s left) :
    Yields (Grammar.statement? ctx self) ts (some s) left := by
  obtain ⟨ds, hyields⟩ := h
  refine ⟨ds, fun errors => ?_⟩
  rw [Reads.statement?_apply, hyields]

/-- A statement that cannot be read is skipped. -/
theorem Fails.statement? {ctx : Context} {self : {α : Type} → Goal α → Reader α} {ts left : List Lexeme}
    {e : Fault} (h : Fails (statement ctx self) ts e left) :
    Yields (Grammar.statement? ctx self) ts none (resumed ts.length left) := by
  obtain ⟨ds, hfails⟩ := h
  refine ⟨ds ++ [e.diagnostic ctx.file], fun errors => ?_⟩
  rw [statement?_of_fault (hfails errors), List.append_assoc]

namespace Zone

variable {ctx : Context} {α β : Type}

/-- From tokens with `P`, a reader comes to a result and tokens with `Q`, or stops within the zone, and
which of this happens does not depend on what was recorded before. -/
def Stays (Z : Zone ctx) (P : List Lexeme → Prop) (x : Reader α) (Q : α → List Lexeme → Prop) : Prop :=
  ∀ ts, P ts → (∃ a left, Yields x ts a left ∧ Q a left) ∨
    ∃ e left, Fails x ts e left ∧ Z.Stops e.complaint left

namespace Stays

variable {Z : Zone ctx} {P : List Lexeme → Prop}

/-! ## Steps -/

/-- More may be known of the tokens before, and less of those after. -/
theorem mono {P' : List Lexeme → Prop} {x : Reader α} {Q Q' : α → List Lexeme → Prop}
    (h : Z.Stays P x Q) (hP : ∀ ts, P' ts → P ts) (hQ : ∀ a ts, Q a ts → Q' a ts) :
    Z.Stays P' x Q' := by
  intro ts hts
  refine (h ts (hP ts hts)).imp_left ?_
  rintro ⟨a, left, hyields, hleft⟩
  exact ⟨a, left, hyields, hQ a left hleft⟩

/-- More may be known of the tokens before. -/
theorem weaken {P' : List Lexeme → Prop} {x : Reader α} {Q : α → List Lexeme → Prop}
    (h : Z.Stays P x Q) (hP : ∀ ts, P' ts → P ts) : Z.Stays P' x Q :=
  h.mono hP fun _ _ => id

/-- One reader after the other keeps to the zone if both do. -/
theorem bind {x : Reader α} {k : α → Reader β} {Q : α → List Lexeme → Prop}
    {R : β → List Lexeme → Prop} (hx : Z.Stays P x Q) (hk : ∀ a, Z.Stays (Q a) (k a) R) :
    Z.Stays P (x >>= k) R := by
  have hbind (c : Cursor) : (x >>= k) c = EStateM.bind x k c := rfl
  intro ts hts
  rcases hx ts hts with ⟨a, between, ⟨ds, hfirst⟩, hQ⟩ | ⟨e, left, ⟨ds, hfirst⟩, hstops⟩
  · rcases hk a between hQ with ⟨b, left, ⟨ds', hthen⟩, hR⟩ | ⟨e, left, ⟨ds', hthen⟩, hstops⟩
    · refine .inl ⟨b, left, ⟨ds ++ ds', fun errors => ?_⟩, hR⟩
      rw [hbind, EStateM.bind, hfirst, ← List.append_assoc]
      exact hthen _
    · refine .inr ⟨e, left, ⟨ds ++ ds', fun errors => ?_⟩, hstops⟩
      rw [hbind, EStateM.bind, hfirst, ← List.append_assoc]
      exact hthen _
  · refine .inr ⟨e, left, ⟨ds, fun errors => ?_⟩, hstops⟩
    rw [hbind, EStateM.bind, hfirst]

/-- A reader that never stops. -/
theorem of_yields {x : Reader α} {Q : α → List Lexeme → Prop}
    (hx : ∀ ts, P ts → ∃ a left, Yields x ts a left ∧ Q a left) : Z.Stays P x Q :=
  fun ts hts => .inl (hx ts hts)

/-- A result that is there already leaves the tokens as they are. -/
theorem pure {a : α} {Q : α → List Lexeme → Prop} (hQ : ∀ ts, P ts → Q a ts) :
    Z.Stays P (Pure.pure a) Q :=
  of_yields fun ts hts => ⟨a, ts, yields_of_eq fun _ => rfl, hQ ts hts⟩

/-- A fault has to be one that the zone allows where it stands. -/
theorem fail {Q : α → List Lexeme → Prop} {complaint : Complaint} (pos : Position)
    (hP : ∀ ts, P ts → Z.Stops complaint ts) : Z.Stays P (Grammar.fail complaint pos) Q := by
  intro ts hts
  refine .inr ⟨⟨complaint, pos⟩, ts, ⟨[], fun errors => ?_⟩, hP ts hts⟩
  rw [List.append_nil]
  rfl

/-- A reader that looks at the tokens that are left, and not at what was recorded. -/
theorem rest {k : Cursor → Reader β} {R : β → List Lexeme → Prop}
    (hrest : ∀ us errors errors', k ⟨us, errors⟩ = k ⟨us, errors'⟩)
    (hk : ∀ us, Z.Stays (fun ts => P ts ∧ us = ts) (k ⟨us, []⟩) R) :
    Z.Stays P (MonadState.get >>= k) R := by
  have hget (ts : List Lexeme) (errors : List Diagnostic) :
      (MonadState.get >>= k) ⟨ts, errors⟩ = k ⟨ts, []⟩ ⟨ts, errors⟩ :=
    congrFun (hrest ts errors []) ⟨ts, errors⟩
  intro ts hts
  rcases hk ts ts ⟨hts, rfl⟩ with ⟨b, left, ⟨ds, hyields⟩, hR⟩ | ⟨e, left, ⟨ds, hfails⟩, hstops⟩
  · exact .inl ⟨b, left, ⟨ds, fun errors => (hget ts errors).trans (hyields errors)⟩, hR⟩
  · exact .inr ⟨e, left, ⟨ds, fun errors => (hget ts errors).trans (hfails errors)⟩, hstops⟩

/-- Looking at the next token leaves it there. -/
theorem peek? : Z.Stays P Grammar.peek? fun found ts => P ts ∧ found = ts.head?.map (·.token) :=
  of_yields fun ts hts => ⟨_, ts, yields_of_eq fun _ => rfl, hts, rfl⟩

/-- Finding out the place leaves the tokens as they are. -/
theorem here : Z.Stays P (Grammar.here ctx) fun _ => P := by
  refine of_yields fun ts hts => ?_
  cases ts with
  | nil => exact ⟨_, _, yields_of_eq fun _ => rfl, hts⟩
  | cons l ts => exact ⟨_, _, yields_of_eq fun _ => rfl, hts⟩

/-- Recording errors leaves the tokens as they are. -/
theorem recordAll (ds : List Diagnostic) : Z.Stays P (Grammar.recordAll ds) fun _ => P :=
  of_yields fun ts hts => ⟨(), ts, ⟨ds, fun _ => rfl⟩, hts⟩

/-- A token that was looked at can be skipped. -/
theorem skip {t : Token} :
    Z.Stays (fun ts => P ts ∧ some t = ts.head?.map (·.token)) Grammar.skip fun _ => Behind t P := by
  refine of_yields ?_
  rintro ts ⟨hts, hhead⟩
  cases ts with
  | nil => cases hhead
  | cons l ts =>
    cases hhead
    exact ⟨(), ts, yields_of_eq fun _ => rfl, l, rfl, hts⟩

/-- Taking a token leads behind it, unless there is none. -/
theorem next? : Z.Stays P (Grammar.next? ctx) fun found ts =>
    match found.1 with
    | some t => Behind t P ts
    | none => P ts := by
  refine of_yields fun ts hts => ?_
  cases ts with
  | nil => exact ⟨_, _, yields_of_eq fun _ => rfl, hts⟩
  | cons l ts => exact ⟨_, _, yields_of_eq fun _ => rfl, l, rfl, hts⟩

/-- Checking for a token leaves it there. -/
theorem check (t : Token) : Z.Stays P (Grammar.check t) fun found ts =>
    P ts ∧ (found = true ↔ ts.head?.map (·.token) = some t) := by
  unfold Grammar.check
  refine peek?.bind fun found => .pure ?_
  rintro ts ⟨hP, rfl⟩
  exact ⟨hP, beq_iff_eq⟩

/-- A token that was checked for can be skipped. -/
theorem skipChecked {t : Token} : Z.Stays
    (fun ts => P ts ∧ (true = true ↔ ts.head?.map (·.token) = some t)) Grammar.skip fun _ => Behind t P :=
  skip.weaken fun _ hc => ⟨hc.1, (hc.2.mp rfl).symm⟩

/-- Accepting a token leads behind it if it is there. -/
theorem accept? (t : Token) : Z.Stays P (Grammar.accept? t) fun found ts =>
    match found with
    | some _ => Behind t P ts
    | none => P ts := by
  refine of_yields fun ts hts => ?_
  cases ts with
  | nil => exact ⟨_, _, yields_of_eq fun _ => rfl, hts⟩
  | cons l ts =>
    by_cases hl : l.token = t
    · refine ⟨some l.pos, ts, yields_of_eq fun errors => ?_, l, hl, hts⟩
      rw [Mirrors.accept?_cons, if_pos hl]
    · refine ⟨none, l :: ts, yields_of_eq fun errors => ?_, hts⟩
      rw [Mirrors.accept?_cons, if_neg hl]

/-- A token that has to be there is left if it is another one. -/
theorem expect (t : Token) (hP : ∀ ts, P ts → Z.At ts) :
    Z.Stays P (Grammar.expect ctx t) fun _ => Behind t P := by
  unfold Grammar.expect
  refine (accept? t).bind fun found => ?_
  cases found with
  | some pos => exact .pure fun _ => id
  | none =>
    refine peek?.bind fun found => here.bind fun pos => .fail pos ?_
    exact fun ts hc => Z.stop rfl (hP ts hc.1)

/-- Behind a token that was expected. -/
theorem expectPass {t : Token} (ht : t ≠ .mark .semicolon) :
    Z.Stays Z.At (Grammar.expect ctx t) fun _ => Z.At :=
  (expect t fun _ => id).mono (fun _ => id) fun _ _ => Z.pass ht

/-- A token that demands more is expected where nothing is needed yet. -/
theorem expectDemand {t : Token} (ht : t.demandsMore = true) :
    Z.Stays Z.At (Grammar.expect ctx t) fun _ => Z.Needs :=
  (expect t fun _ => id).mono (fun _ => id) fun _ _ => Z.demand ht

/-- Behind an opening brace, the zone is all there is. -/
theorem expectBrace : Z.Stays Z.At (Grammar.expect ctx (.mark .openBrace)) fun _ _ => ∀ us, Z.Needs us := by
  refine (expect _ fun _ => id).mono (fun _ => id) fun _ ts hts => ?_
  rcases Z.braces with hall | hnone
  · exact hall
  · exact absurd hts (hnone ts)

/-- A name keeps to the zone, where it is needed. -/
theorem name : Z.Stays Z.Needs (Grammar.name ctx) fun _ => Z.At := by
  unfold Grammar.name
  refine next?.bind fun found => ?_
  obtain ⟨token, pos⟩ := found
  cases token with
  | none => exact .fail pos fun ts hts => Z.stop rfl (Z.at_of_needs hts)
  | some t =>
    cases t with
    | name spelling =>
      refine .pure ?_
      rintro ts ⟨l, hl, hts⟩
      exact Z.pass Token.noConfusion ⟨l, hl, Z.at_of_needs hts⟩
    | _ => exact .fail pos fun ts hts => Z.taken rfl hts

/-- The end of a statement keeps to the zone, whether it is marked or not. -/
theorem endStatement : Z.Stays Z.At (Grammar.endStatement ctx) fun _ => Z.After := by
  unfold Grammar.endStatement
  refine (accept? _).bind fun found => ?_
  cases found with
  | some pos => exact .pure fun _ => Z.ended
  | none =>
    refine peek?.bind fun token => here.bind fun pos => ?_
    exact (recordAll _).mono (fun _ hc => Z.unended hc.1) fun _ _ => id

end Stays

/-! ## Rules -/

/-- Where the first or a later item of a list may begin. -/
def Awaits (Z : Zone ctx) (first : Bool) (ts : List Lexeme) : Prop :=
  if first then Z.Needs ts else Z.At ts

/-- Where an item may begin, the zone is not left. -/
theorem at_of_awaits {Z : Zone ctx} {first : Bool} {ts : List Lexeme} (h : Z.Awaits first ts) :
    Z.At ts := by
  cases first with
  | true => exact Z.at_of_needs h
  | false => exact h

/-- Where a goal may begin. -/
def Entry (Z : Zone ctx) : {α : Type} → Goal α → List Lexeme → Prop
  | _, .expression | _, .operand _ | _, .unary => Z.Needs
  | _, .operators _ _ | _, .suffixes _ | _, .procedure _ | _, .block | _, .branches => Z.At
  | _, .arguments first | _, .elements first | _, .parameters first _ => Z.Awaits first
  | _, .members | _, .statements _ => fun _ => ∀ us, Z.Needs us

/-- A reader for the phrases inside of a rule that keeps to the zone. -/
def Holds (Z : Zone ctx) (self : {α : Type} → Goal α → Reader α) : Prop :=
  ∀ {α : Type} (g : Goal α), Z.Stays (Z.Entry g) (self g) fun _ => Z.At

namespace Holds

variable {Z : Zone ctx} {self : {α : Type} → Goal α → Reader α}

/-- A procedure that begins with a name keeps to the zone. -/
theorem lambda (h : Z.Holds self) (spelling : String) (pos : Position) :
    Z.Stays Z.Needs (Grammar.lambda self spelling pos) fun _ => Z.At := by
  unfold Grammar.lambda
  exact (h .expression).bind fun body => .pure fun _ => id

/-- An arrow behind a name makes it the parameter of a procedure. -/
theorem arrow (h : Z.Holds self) (spelling : String) (pos : Position) (e : Expression) :
    Z.Stays Z.At (do
      if (← Grammar.accept? (.mark .arrow)).isSome then Grammar.lambda self spelling pos
      else return e) fun _ => Z.At := by
  refine (Stays.accept? _).bind fun found => ?_
  cases found with
  | some arrowPos => exact (h.lambda spelling pos).weaken fun _ => Z.demand rfl
  | none => exact .pure fun _ => id

/-- A mixin keeps to the zone. -/
theorem mixin (pos : Position) : Z.Stays Z.At (Grammar.mixin ctx pos) fun _ => Z.At := by
  unfold Grammar.mixin
  refine Stays.expectBrace.bind fun _ => Stays.rest (fun _ _ _ => rfl) fun us => ?_
  have hgoOn (rest : List Lexeme) :
      Z.Stays (fun ts => (∀ us, Z.Needs us) ∧ us = ts) (modify fun c => { c with rest }) fun _ => Z.At :=
    Stays.of_yields fun ts hts => ⟨(), rest, yields_of_eq fun _ => rfl, Z.at_of_needs (hts.1 rest)⟩
  dsimp only
  cases balanced? 0 us with
  | some r => exact (hgoOn r.2).bind fun _ => .pure fun _ => id
  | none => exact (hgoOn []).bind fun _ => .fail pos fun _ => Z.stop rfl

/-- A primary expression keeps to the zone. -/
theorem primary (h : Z.Holds self) : Z.Stays Z.Needs (Grammar.primary ctx self) fun _ => Z.At := by
  unfold Grammar.primary
  refine Stays.next?.bind fun found => ?_
  obtain ⟨token, pos⟩ := found
  have hbehind {t : Token} {ts : List Lexeme} (hts : Behind t Z.Needs ts) : Behind t Z.At ts := by
    obtain ⟨l, hl, hneeds⟩ := hts
    exact ⟨l, hl, Z.at_of_needs hneeds⟩
  cases token with
  | none => exact .fail pos fun ts hts => Z.stop rfl (Z.at_of_needs hts)
  | some t =>
    have hpass (ht : t ≠ .mark .semicolon) (ts : List Lexeme) (hts : Behind t Z.Needs ts) : Z.At ts :=
      Z.pass ht (hbehind hts)
    have hdemand (ht : t.demandsMore = true) (ts : List Lexeme) (hts : Behind t Z.Needs ts) :
        Z.Needs ts := Z.demand ht (hbehind hts)
    have htaken : Z.Stays (Behind t Z.Needs)
        (Grammar.fail (.expectedExpression (some t)) pos : Reader Expression) fun _ => Z.At :=
      .fail pos fun _ => Z.taken rfl
    cases t with
    | number spelling =>
      dsimp only
      cases Literal.ofNumeral? spelling with
      | some value => exact .pure (hpass Token.noConfusion)
      | none => exact .fail pos fun ts hts => Z.stop rfl (hpass Token.noConfusion ts hts)
    | text contents => exact .pure (hpass Token.noConfusion)
    | name spelling => exact (h.arrow spelling pos _).weaken (hpass Token.noConfusion)
    | keyword k =>
      cases k with
      | trueWord | falseWord | nullWord => exact .pure (hpass Token.noConfusion)
      | funcWord =>
        exact ((h (.procedure pos)).weaken (hpass Token.noConfusion)).bind fun p => .pure fun _ => id
      | mixinWord => exact (mixin pos).weaken (hpass Token.noConfusion)
      | _ => exact htaken
    | mark m =>
      cases m with
      | openParen =>
        refine ((h .expression).weaken (hdemand rfl)).bind fun e => ?_
        refine (Stays.expectPass (by decide)).bind fun _ => ?_
        cases e with
        | «variable» spelling namePos => exact h.arrow spelling namePos _
        | _ => exact .pure fun _ => id
      | openBracket =>
        exact ((h (.elements true)).weaken (hdemand rfl)).bind fun es => .pure fun _ => id
      | openBrace =>
        refine ((h .members).weaken fun ts hts => ?_).bind fun ds => .pure fun _ => id
        rcases Z.braces with hall | hnone
        · exact hall
        · exact absurd (hbehind hts) (hnone ts)
      | _ => exact htaken

/-- What follows a primary expression keeps to the zone. -/
theorem suffixes (h : Z.Holds self) (target : Expression) :
    Z.Stays Z.At (Grammar.suffixes ctx self target) fun _ => Z.At := by
  unfold Grammar.suffixes
  refine Stays.here.bind fun pos => Stays.peek?.bind fun found => ?_
  have hend : Z.Stays (fun ts => Z.At ts ∧ found = ts.head?.map (·.token))
      (Pure.pure target : Reader Expression) fun _ => Z.At := .pure fun _ hc => hc.1
  cases found with
  | none => exact hend
  | some t =>
    cases t with
    | mark m =>
      cases m with
      | dot =>
        refine Stays.skip.bind fun _ => (Stays.name.weaken fun _ => Z.demand rfl).bind fun member => ?_
        exact h (.suffixes (.member target member pos))
      | openParen =>
        refine Stays.skip.bind fun _ => ?_
        refine ((h (.arguments true)).weaken fun _ => Z.demand rfl).bind fun arguments => ?_
        exact h (.suffixes (.call target arguments pos))
      | openBracket =>
        refine Stays.skip.bind fun _ => ?_
        refine ((h .expression).weaken fun _ => Z.demand rfl).bind fun key => ?_
        refine (Stays.expectPass (by decide)).bind fun _ => ?_
        exact h (.suffixes (.index target key pos))
      | _ => exact hend
    | _ => exact hend

/-- Unary operators and their operand keep to the zone. -/
theorem unary (h : Z.Holds self) : Z.Stays Z.Needs (Grammar.unary ctx self) fun _ => Z.At := by
  unfold Grammar.unary
  refine Stays.here.bind fun pos => Stays.peek?.bind fun found => ?_
  cases hop : found.bind UnaryOperator.ofToken? with
  | some op =>
    obtain ⟨t, rfl, ht⟩ := Option.bind_eq_some_iff.mp hop
    have hdemand : t.demandsMore = true := by
      rw [UnaryOperator.eq_mark_of_ofToken? ht]
      cases op <;> rfl
    refine (Stays.skip.weaken fun _ hc => ⟨Z.at_of_needs hc.1, hc.2⟩).bind fun _ => ?_
    exact ((h .unary).weaken fun _ => Z.demand hdemand).bind fun e => .pure fun _ => id
  | none => exact (h.primary.weaken fun _ hc => hc.1).bind h.suffixes

/-- Operators of a rank and their operands keep to the zone. -/
theorem operators (h : Z.Holds self) (rank : Nat) (left : Expression) :
    Z.Stays Z.At (Grammar.operators ctx self rank left) fun _ => Z.At := by
  unfold Grammar.operators
  refine Stays.here.bind fun pos => Stays.peek?.bind fun found => ?_
  cases hop : found.bind BinaryOperator.ofToken? with
  | some op =>
    obtain ⟨t, rfl, ht⟩ := Option.bind_eq_some_iff.mp hop
    have hdemand : t.demandsMore = true := by
      rw [BinaryOperator.eq_mark_of_ofToken? ht]
      cases op <;> rfl
    dsimp only
    split
    · refine Stays.skip.bind fun _ => ?_
      refine ((h (.operand (op.rank + 1))).weaken fun _ => Z.demand hdemand).bind fun right => ?_
      exact h (.operators rank (.binary op left right pos))
    · exact .pure fun _ hc => hc.1
  | none => exact .pure fun _ hc => hc.1

/-- An operand of some rank keeps to the zone. -/
theorem operand (h : Z.Holds self) (rank : Nat) :
    Z.Stays Z.Needs (Grammar.operand ctx self rank) fun _ => Z.At := by
  unfold Grammar.operand
  exact h.unary.bind fun left => h.operators rank left

/-- An expression keeps to the zone. -/
theorem expression (h : Z.Holds self) : Z.Stays Z.Needs (Grammar.expression ctx self) fun _ => Z.At := by
  unfold Grammar.expression
  refine (h.operand 0).bind fun target => Stays.here.bind fun pos => Stays.peek?.bind fun found => ?_
  cases hfound : found.bind assignment? with
  | some compound =>
    obtain ⟨t, rfl, ht⟩ := Option.bind_eq_some_iff.mp hfound
    have hdemand : t.demandsMore = true := demandsMore_of_assignment? ht
    dsimp only
    split
    · refine Stays.skip.bind fun _ => ?_
      refine ((h .expression).weaken fun _ => Z.demand hdemand).bind fun value => ?_
      cases compound with
      | some op => exact .pure fun _ => id
      | none => exact .pure fun _ => id
    · exact .fail pos fun ts hc => Z.stop rfl hc.1
  | none => exact .pure fun _ hc => hc.1

/-! ## Lists -/

/-- What separates the items of a list keeps to the zone. -/
theorem separator (first : Bool) :
    Z.Stays (Z.Awaits first) (Grammar.separator ctx first) fun _ => Z.Needs := by
  unfold Grammar.separator
  cases first with
  | true => exact .pure fun _ => id
  | false => exact (Stays.expectDemand rfl).bind fun _ => .pure fun _ => id

/-- The mark that closes a list, if it comes next. -/
theorem closing {α : Type} {m : Mark} (first : Bool) (hm : m ≠ .semicolon) {a : α} {x : Reader α}
    (hx : Z.Stays (Z.Awaits first) x fun _ => Z.At) :
    Z.Stays (Z.Awaits first) (do
      if ← Grammar.check (.mark m) then
        Grammar.skip
        return a
      else x) fun _ => Z.At := by
  refine (Stays.check _).bind fun found => ?_
  cases found with
  | true =>
    refine (Stays.skipChecked.weaken fun ts hc => ⟨at_of_awaits hc.1, hc.2⟩).bind fun _ => ?_
    exact .pure fun _ => Z.pass fun heq => hm (Token.mark.inj heq)
  | false => exact hx.weaken fun _ hc => hc.1

/-- Arguments keep to the zone. -/
theorem arguments (h : Z.Holds self) (first : Bool) :
    Z.Stays (Z.Awaits first) (Grammar.arguments ctx self first) fun _ => Z.At := by
  unfold Grammar.arguments
  refine closing first (by decide) ?_
  refine (separator first).bind fun _ => (Stays.accept? _).bind fun star => ?_
  cases star with
  | some pos =>
    refine ((h .expression).weaken ?_).bind fun e => (Stays.check _).bind fun found => ?_
    · rintro ts ⟨l, hl, hts⟩
      exact Z.demand rfl ⟨l, hl, Z.at_of_needs hts⟩
    cases found with
    | true => exact Stays.skipChecked.bind fun _ => .pure fun _ => Z.pass (by decide)
    | false => exact Stays.here.bind fun pos => .fail pos fun ts hc => Z.stop rfl hc.1
  | none =>
    exact h.expression.bind fun e => (h (.arguments false)).bind fun es => .pure fun _ => id

/-- The elements of an array keep to the zone. -/
theorem elements (h : Z.Holds self) (first : Bool) :
    Z.Stays (Z.Awaits first) (Grammar.elements ctx self first) fun _ => Z.At := by
  unfold Grammar.elements
  refine closing first (by decide) ?_
  exact (separator first).bind fun _ => h.expression.bind fun e =>
    (h (.elements false)).bind fun es => .pure fun _ => id

/-- An optional phrase behind a mark keeps to the zone. -/
theorem after? {α : Type} {m : Mark} {g : Goal α} (hm : (Token.mark m).demandsMore = true)
    (hg : Z.Stays Z.Needs (self g) fun _ => Z.At) :
    Z.Stays Z.At (Grammar.after? self m g) fun _ => Z.At := by
  unfold Grammar.after?
  refine (Stays.accept? _).bind fun found => ?_
  cases found with
  | some pos => exact (hg.weaken fun _ => Z.demand hm).bind fun a => .pure fun _ => id
  | none => exact .pure fun _ => id

/-- A declaration keeps to the zone. -/
theorem declaration (h : Z.Holds self) (pos : Position) :
    Z.Stays Z.Needs (Grammar.declaration ctx self pos) fun _ => Z.At := by
  unfold Grammar.declaration
  exact Stays.name.bind fun spelling => (after? rfl (h (.operand 0))).bind fun type =>
    (after? rfl (h .expression)).bind fun value => .pure fun _ => id

/-- The members of an object keep to a zone in which every token may be needed. -/
theorem members (h : Z.Holds self) (hall : ∀ us, Z.Needs us) :
    Z.Stays Z.At (Grammar.members ctx self) fun _ => Z.At := by
  unfold Grammar.members
  refine closing false (by decide) ?_
  refine Stays.here.bind fun pos => ((h.declaration pos).weaken fun ts _ => hall ts).bind fun d => ?_
  refine (Stays.expect _ fun _ => id).bind fun _ => ?_
  exact ((h .members).weaken fun _ _ => hall).bind fun ds => .pure fun _ => id

/-- Parameters keep to the zone. -/
theorem parameters (h : Z.Holds self) (first : Bool) (rest : Option Parameter) :
    Z.Stays (Z.Awaits first) (Grammar.parameters ctx self first rest) fun _ => Z.At := by
  unfold Grammar.parameters
  refine closing first (by decide) ?_
  refine (separator first).bind fun _ => Stays.here.bind fun pos => ?_
  cases rest with
  | some p => exact .fail pos fun ts hts => Z.stop rfl (Z.at_of_needs hts)
  | none =>
    refine (Stays.accept? _).bind fun star => ?_
    refine (Stays.name.weaken ?_).bind fun spelling => (after? rfl (h (.operand 0))).bind fun type => ?_
    · intro ts hts
      cases star with
      | some starPos =>
        obtain ⟨l, hl, hneeds⟩ := hts
        exact Z.demand rfl ⟨l, hl, Z.at_of_needs hneeds⟩
      | none => exact hts
    cases star with
    | some starPos => exact h (.parameters false (some ⟨spelling, type, pos⟩))
    | none => exact (h (.parameters false none)).bind fun more => .pure fun _ => id

/-! ## Statements -/

/-- A block keeps to the zone. -/
theorem block (h : Z.Holds self) : Z.Stays Z.At (Grammar.block ctx self) fun _ => Z.At := by
  unfold Grammar.block
  exact Stays.expectBrace.bind fun pos => (h (.statements true)).bind fun ss =>
    (Stays.expectPass (by decide)).bind fun _ => .pure fun _ => id

/-- A procedure keeps to the zone. -/
theorem procedure (h : Z.Holds self) (pos : Position) :
    Z.Stays Z.At (Grammar.procedure ctx self pos) fun _ => Z.At := by
  unfold Grammar.procedure
  exact (Stays.expectDemand rfl).bind fun _ => (h (.parameters true none)).bind fun ps =>
    (h .block).bind fun body => .pure fun _ => id

/-- A condition with its block keeps to the zone. -/
theorem branch (h : Z.Holds self) : Z.Stays Z.Needs (Grammar.branch self) fun _ => Z.At := by
  unfold Grammar.branch
  exact (h .expression).bind fun condition => (h .block).bind fun body => .pure fun _ => id

/-- Further branches keep to the zone. -/
theorem branches (h : Z.Holds self) : Z.Stays Z.At (Grammar.branches self) fun _ => Z.At := by
  unfold Grammar.branches
  refine (Stays.accept? _).bind fun found => ?_
  cases found with
  | some pos =>
    exact (h.branch.weaken fun _ => Z.demand rfl).bind fun b => (h .branches).bind fun bs =>
      .pure fun _ => id
  | none => exact .pure fun _ => id

/-- A choice between branches keeps to the zone. -/
theorem ifElse (h : Z.Holds self) (pos : Position) :
    Z.Stays Z.Needs (Grammar.ifElse self pos) fun _ => Z.At := by
  unfold Grammar.ifElse
  refine h.branch.bind fun first => (h .branches).bind fun more => ?_
  refine (Stays.accept? _).bind fun found => ?_
  cases found with
  | some elsePos =>
    exact ((h .block).weaken fun _ => Z.pass (by decide)).bind fun body => .pure fun _ => id
  | none => exact .pure fun _ => id

/-- A loop over elements keeps to the zone. -/
theorem forIn (h : Z.Holds self) (pos : Position) :
    Z.Stays Z.Needs (Grammar.forIn ctx self pos) fun _ => Z.At := by
  unfold Grammar.forIn
  exact Stays.here.bind fun namePos => Stays.name.bind fun spelling =>
    (Stays.expectDemand rfl).bind fun _ => (h .expression).bind fun iterable =>
      (h .block).bind fun body => .pure fun _ => id

/-- A procedure with a name keeps to the zone. -/
theorem namedProcedure (h : Z.Holds self) (pos : Position) :
    Z.Stays Z.Needs (Grammar.namedProcedure ctx self pos) fun _ => Z.At := by
  unfold Grammar.namedProcedure
  exact Stays.name.bind fun spelling => (h (.procedure pos)).bind fun p => .pure fun _ => id

/-- The definition of a macro keeps to the zone. -/
theorem defineMacro (h : Z.Holds self) (pos : Position) :
    Z.Stays Z.Needs (Grammar.defineMacro ctx self pos) fun _ => Z.At := by
  unfold Grammar.defineMacro
  exact Stays.name.bind fun spelling => (h (.procedure pos)).bind fun p => .pure fun _ => id

/-- An import stops at its path, before its semicolon, or behind it if there is nothing to bring in. -/
theorem importFile (pos : Position) :
    Z.Stays (Behind (.keyword .importWord) Z.At) (Grammar.importFile ctx pos) fun _ => Z.After := by
  unfold Grammar.importFile
  refine Stays.next?.bind fun found => ?_
  obtain ⟨token, textPos⟩ := found
  cases token with
  | none => exact .fail pos fun ts hts => Z.stop rfl (Z.at_of_needs (Z.demand rfl hts))
  | some t =>
    cases t with
    | text path =>
      have hat (ts : List Lexeme) (hts : Behind (.text path) (Behind (.keyword .importWord) Z.At) ts) :
          Z.At ts := by
        obtain ⟨l, hl, hbehind⟩ := hts
        exact Z.pass Token.noConfusion ⟨l, hl, Z.pass Token.noConfusion hbehind⟩
      refine (Stays.expect _ hat).bind fun _ => ?_
      unfold Grammar.importPath
      cases hbring : ctx.bring path with
      | ok inclusion =>
        refine (Stays.recordAll _).bind fun _ => .pure ?_
        rintro ts ⟨l, hl, hts⟩
        exact Z.ended ⟨l, hl, hat _ hts⟩
      | error complaint => exact .fail pos fun _ => Z.unbrought hbring
    | _ =>
      refine .fail pos ?_
      rintro ts ⟨l, hl, hts⟩
      exact Z.taken rfl ⟨l, hl, Z.demand rfl hts⟩

/-- A `return` keeps to the zone. -/
theorem returnWith (h : Z.Holds self) (pos : Position) :
    Z.Stays Z.At (Grammar.returnWith ctx self pos) fun _ => Z.After := by
  unfold Grammar.returnWith
  have hend (value : Expression) : Z.Stays Z.At
      (Grammar.endStatement ctx >>= fun _ => Pure.pure (Statement.returnWith value pos))
      fun _ => Z.After := Stays.endStatement.bind fun _ => .pure fun _ => id
  refine (Stays.check _).bind fun found => ?_
  cases found with
  | true => exact (hend (.literal .null pos)).weaken fun _ hc => hc.1
  | false =>
    refine ((h .expression).weaken fun ts hc => ?_).bind hend
    exact Z.needs hc.1 fun hsemicolon => Bool.false_ne_true (hc.2.mpr hsemicolon)

/-- An expression as a statement keeps to the zone. -/
theorem expressionStatement (h : Z.Holds self) :
    Z.Stays Z.Needs (Grammar.expressionStatement ctx self) fun _ => Z.After := by
  unfold Grammar.expressionStatement
  exact h.expression.bind fun e => Stays.endStatement.bind fun _ => .pure fun _ => id

/-- A statement keeps to the zone, up to behind its end. -/
theorem statement (h : Z.Holds self) :
    Z.Stays Z.At (Grammar.statement ctx self) fun _ => Z.After := by
  unfold Grammar.statement
  refine Stays.here.bind fun pos => Stays.rest (fun _ _ _ => rfl) fun us => ?_
  dsimp only
  cases hnamed : startsNamedProcedure us with
  | true =>
    have hskip : Z.Stays (fun ts => Z.At ts ∧ us = ts) Grammar.skip
        fun _ => Behind (.keyword .funcWord) fun ts => Z.At ts ∧ us = ts :=
      Stays.skip.weaken fun ts hts => ⟨hts, hts.2 ▸ token_of_startsNamedProcedure hnamed⟩
    refine hskip.bind fun _ => ?_
    refine (h.namedProcedure pos).mono ?_ fun _ _ => Z.unended
    -- the next token is a name
    rintro ts ⟨l, hl, hat, hrest⟩
    refine Z.needs (Z.pass Token.noConfusion ⟨l, hl, hat⟩) ?_
    rw [hrest] at hnamed
    exact head_ne_of_startsNamedProcedure hnamed
  | false =>
    refine Stays.peek?.bind fun found => ?_
    have hskip {t : Token} : Z.Stays
        (fun ts => (Z.At ts ∧ us = ts) ∧ some t = ts.head?.map (·.token)) Grammar.skip
        fun _ => Behind t Z.At :=
      Stays.skip.weaken fun _ hc => ⟨hc.1.1, hc.2⟩
    have hother (hfound : found ≠ some (.mark .semicolon)) : Z.Stays
        (fun ts => (Z.At ts ∧ us = ts) ∧ found = ts.head?.map (·.token))
        (Grammar.expressionStatement ctx self) fun _ => Z.After :=
      h.expressionStatement.weaken fun ts hc => Z.needs hc.1.1 (hc.2 ▸ hfound)
    cases found with
    | none => exact hother nofun
    | some t =>
      cases t with
      | keyword k =>
        cases k with
        | letWord =>
          refine hskip.bind fun _ => ((h.declaration pos).weaken fun _ => Z.demand rfl).bind fun d => ?_
          exact Stays.endStatement.bind fun _ => .pure fun _ => id
        | ifWord =>
          exact hskip.bind fun _ => (h.ifElse pos).mono (fun _ => Z.demand rfl) fun _ _ => Z.unended
        | whileWord =>
          refine hskip.bind fun _ => (h.branch.weaken fun _ => Z.demand rfl).bind fun b => ?_
          exact .pure fun _ => Z.unended
        | forWord =>
          exact hskip.bind fun _ => (h.forIn pos).mono (fun _ => Z.demand rfl) fun _ _ => Z.unended
        | returnWord =>
          exact hskip.bind fun _ => (h.returnWith pos).weaken fun _ => Z.pass (by decide)
        | importWord => exact hskip.bind fun _ => importFile pos
        | macroWord =>
          exact hskip.bind fun _ => (h.defineMacro pos).mono (fun _ => Z.demand rfl) fun _ _ => Z.unended
        | _ => exact hother (by decide)
      | mark m =>
        cases m with
        | openBrace =>
          exact (h.block.weaken fun _ hc => hc.1.1).bind fun b => .pure fun _ => Z.unended
        | semicolon => exact hskip.bind fun _ => .pure fun _ => Z.ended
        | _ => exact hother (by decide)
      | _ => exact hother (by simp)

/-- A statement that cannot be read is skipped, so nothing stops here. -/
theorem statements (h : Z.Holds self) (hall : ∀ us, Z.Needs us) (inBlock : Bool) :
    Z.Stays Z.At (Grammar.statements ctx self inBlock) fun _ => Z.At := by
  have hstatement : Z.Stays Z.At (Grammar.statement? ctx self) fun _ => Z.At := by
    refine Stays.of_yields fun ts hts => ?_
    rcases h.statement ts hts with ⟨s, left, hyields, -⟩ | ⟨e, left, hfails, -⟩
    · exact ⟨some s, left, hyields.statement?, Z.at_of_needs (hall left)⟩
    · exact ⟨none, _, hfails.statement?, Z.at_of_needs (hall _)⟩
  unfold Grammar.statements
  refine Stays.peek?.bind fun found => ?_
  cases found with
  | none => exact .pure fun _ hc => hc.1
  | some t =>
    dsimp only
    split
    · exact .pure fun _ hc => hc.1
    · refine (hstatement.weaken fun _ hc => hc.1).bind fun first => ?_
      exact ((h (.statements inBlock)).weaken fun _ _ => hall).bind fun more => .pure fun _ => id

/-- Every rule keeps to the zone. -/
theorem rule (h : Z.Holds self) : Z.Holds (Grammar.rule ctx self) := by
  intro α g
  cases g with
  | expression => exact h.expression
  | operand rank => exact h.operand rank
  | operators rank left => exact h.operators rank left
  | unary => exact h.unary
  | suffixes target => exact h.suffixes target
  | arguments first => exact h.arguments first
  | elements first => exact h.elements first
  | members => exact fun c hall => h.members hall c (Z.at_of_needs (hall _))
  | parameters first rest => exact h.parameters first rest
  | procedure pos => exact h.procedure pos
  | block => exact h.block
  | branches => exact h.branches
  | statements inBlock => exact fun c hall => h.statements hall inBlock c (Z.at_of_needs (hall _))

end Holds

end Zone

/-! ## Whole readings -/

variable {ctx : Context}

/-- Reads a goal with at most the given number of rules inside each other, and complains in the given way
if there are more. -/
def readOr (complaint : Complaint) (ctx : Context) : Nat → {α : Type} → Goal α → Reader α
  | 0, _, _ => do fail complaint (← here ctx)
  | depth + 1, _, g => rule ctx (readOr complaint ctx depth) g

/-- With enough rules inside each other, there is no such complaint. -/
theorem readOr_eq_read (complaint : Complaint) {n : Nat} {α : Type} (g : Goal α) {c : Cursor}
    (hn : c.rest.length < n) : readOr complaint ctx n g c = read ctx n g c := by
  induction n generalizing α c with
  | zero => exact absurd hn (Nat.not_lt_zero _)
  | succ n ih =>
    refine rule_congr (fun g' c' hc' => ?_) (fun g' c' hc' => ?_) g
    · exact read_onward g' (Nat.lt_of_lt_of_le hc'.2 (Nat.le_of_lt_succ hn))
    · exact ih g' (Nat.lt_of_lt_of_le hc'.2 (Nat.le_of_lt_succ hn))

namespace Zone

/-- Where a goal may begin, the zone is not left. -/
theorem at_of_entry {Z : Zone ctx} {α : Type} {g : Goal α} {ts : List Lexeme} (h : Z.Entry g ts) :
    Z.At ts := by
  cases g with
  | expression | operand | unary => exact Z.at_of_needs h
  | operators | suffixes | procedure | block | branches => exact h
  | arguments | elements | parameters => exact at_of_awaits h
  | members | statements => exact Z.at_of_needs (h ts)

/-- Reading to any depth keeps to the zone. -/
theorem holds_readOr (Z : Zone ctx) (complaint : Complaint) (hordinary : complaint.isOrdinary = true)
    (n : Nat) : Z.Holds (readOr complaint ctx n) := by
  induction n with
  | zero =>
    intro α g
    exact (Stays.here.bind fun pos => .fail pos fun _ => Z.stop hordinary).weaken fun _ => at_of_entry
  | succ n ih => exact ih.rule

/-- Reading keeps to every zone.  As it does not matter how a reader would complain about rules that are
nested too deep, it may complain about the text. -/
theorem holds_readGoal (Z : Zone ctx) : Z.Holds (readGoal ctx) := by
  intro α g ts hts
  have hread (errors : List Diagnostic) :
      readGoal ctx g ⟨ts, errors⟩ = readOr .badTarget ctx (ts.length + 1) g ⟨ts, errors⟩ :=
    (readOr_eq_read .badTarget g (Nat.lt_succ_self ts.length)).symm
  rcases Z.holds_readOr .badTarget rfl (ts.length + 1) g ts hts with
    ⟨a, left, ⟨ds, hyields⟩, hat⟩ | ⟨e, left, ⟨ds, hfails⟩, hstops⟩
  · exact .inl ⟨a, left, ⟨ds, fun errors => (hread errors).trans (hyields errors)⟩, hat⟩
  · exact .inr ⟨e, left, ⟨ds, fun errors => (hread errors).trans (hfails errors)⟩, hstops⟩

end Zone

end Grammar

end ProtoScript
