import ProtoScript.Proofs.Grammar.Independence
import ProtoScript.Proofs.Grammar.Reread

/-!
# Tokens behind a seam

Where does a reading change if more tokens are put behind those that are read?  A program that is read
without errors ends with a semicolon or a closing brace, and a reader that has consumed it does not look
further, except that the last branch of a choice may be followed by another one.  So if the tokens behind
the seam do not go on with a choice, what is read before the seam stays as it is, and reading goes on with
the tokens behind it.

`Extends us E x y D` compares two readers, the second one with the tokens `us` behind those of the first
one.  It is read backwards: if the first one yields a result and `D` holds where it has come to, then `E`
holds where it started, and the second one does the same.  Two conditions are enough for all readers.  At the
seam, no errors are recorded, and the tokens that are left, if any, end as a statement ends.  Before the seam,
there are such tokens.
-/

namespace ProtoScript

/-- Whether a statement may end with this token. -/
def Token.endsStatement : Token → Bool
  | .mark .semicolon => true
  | .mark .closeBrace => true
  | _ => false

/-- Whether a choice may go on with this token. -/
def Token.continuesChoice : Token → Bool
  | .keyword .elifWord => true
  | .keyword .elseWord => true
  | _ => false

namespace Grammar

/-! ## Before and at the seam -/

/-- No errors are recorded, and if tokens are left, the last one is the end of a statement. -/
structure AtSeam (c : Cursor) : Prop where
  errors : c.errors = []
  last : ∀ t ∈ c.rest.getLast?, t.token.endsStatement = true

/-- No errors are recorded, tokens are left, and the last one is the end of a statement. -/
structure BeforeSeam (c : Cursor) : Prop extends AtSeam c where
  rest : c.rest ≠ []

/-- The cursor with more tokens behind those that are left. -/
def Cursor.ahead (us : List Lexeme) (c : Cursor) : Cursor :=
  ⟨c.rest ++ us, c.errors⟩

/-- What stands further ahead is before the seam too. -/
theorem BeforeSeam.further {rest : List Lexeme} {errors : List Diagnostic}
    (h : BeforeSeam ⟨rest, errors⟩) (front : List Lexeme) : BeforeSeam ⟨front ++ rest, errors⟩ := by
  refine ⟨⟨h.errors, fun t ht => h.last t ?_⟩, fun hnil => h.rest (List.append_eq_nil_iff.mp hnil).2⟩
  rwa [List.getLast?_append_of_ne_nil _ h.rest] at ht

/-- Behind the end of a statement is the seam, or tokens before it. -/
theorem AtSeam.further {l : Lexeme} {rest : List Lexeme} {errors : List Diagnostic}
    (h : AtSeam ⟨rest, errors⟩) (hl : l.token.endsStatement = true) :
    BeforeSeam ⟨l :: rest, errors⟩ := by
  cases rest with
  | nil =>
    refine ⟨⟨h.errors, fun t ht => ?_⟩, List.cons_ne_nil _ _⟩
    cases ht
    exact hl
  | cons t rest => exact BeforeSeam.further ⟨h, List.cons_ne_nil _ _⟩ [l]

/-! ## The comparison -/

/-- If the first reader yields a result with `D`, then `E` held before, and with more tokens behind the
seam, the second reader does the same. -/
def Extends {α : Type} (us : List Lexeme) (E : Cursor → Prop) (x y : Reader α)
    (D : α → Cursor → Prop) : Prop :=
  ∀ c a c', x c = .ok a c' → D a c' → E c ∧ y (c.ahead us) = .ok a (c'.ahead us)

namespace Extends

variable {α β : Type} {us : List Lexeme} {E : Cursor → Prop} {ctx ctx' : Context}

/-- What is asked for may be strengthened, and what follows from it weakened. -/
theorem mono {E' : Cursor → Prop} {x y : Reader α} {D D' : α → Cursor → Prop}
    (h : Extends us E x y D) (hE : ∀ c, E c → E' c) (hD : ∀ a c, D' a c → D a c) :
    Extends us E' x y D' := by
  intro c a c' hok hc'
  obtain ⟨hc, hy⟩ := h c a c' hok (hD a c' hc')
  exact ⟨hE c hc, hy⟩

/-- What is at the seam after a reader may as well be before it. -/
theorem before {x y : Reader α} (h : Extends us E x y fun _ => AtSeam) :
    Extends us E x y fun _ => BeforeSeam :=
  h.mono (fun _ => id) fun _ _ => BeforeSeam.toAtSeam

/-- Readers that go on after a result are compared from the last one to the first one. -/
theorem bind {x y : Reader α} {k k' : α → Reader β} {F : α → Cursor → Prop}
    {D : β → Cursor → Prop} (hx : Extends us E x y F)
    (hk : ∀ a, Extends us (F a) (k a) (k' a) D) : Extends us E (x >>= k) (y >>= k') D := by
  intro c b c' hok hc'
  obtain ⟨a, c₁, h₁, h₂⟩ := exists_of_bind hok
  obtain ⟨hc₁, hy₂⟩ := hk a c₁ b c' h₂ hc'
  obtain ⟨hc, hy₁⟩ := hx c a c₁ h₁ hc₁
  exact ⟨hc, (bind_of_ok hy₁).trans hy₂⟩

/-- A result that is there. -/
theorem pure {a : α} {D : α → Cursor → Prop} :
    Extends us (D a) (Pure.pure a) (Pure.pure a) D := by
  intro c b c' hok hc'
  cases hok
  exact ⟨hc', rfl⟩

/-- A reader that yields no result with `D` does not matter. -/
theorem never {x y : Reader α} {D : α → Cursor → Prop}
    (h : ∀ c a c', x c = .ok a c' → ¬ D a c') : Extends us E x y D :=
  fun c a c' hok hc' => absurd hc' (h c a c' hok)

/-- A fault is no result. -/
theorem fail {D : α → Cursor → Prop} {y : Reader α} (complaint : Complaint) (pos : Position) :
    Extends us E (Grammar.fail complaint pos) y D :=
  never fun _ _ _ hok => by cases hok

/-! ## Looking at tokens -/

/-- Asking for the place of the next token. -/
theorem here : Extends us BeforeSeam (Grammar.here ctx) (Grammar.here ctx') fun _ => BeforeSeam := by
  rintro ⟨rest, errors⟩ pos c' hok hc'
  cases rest with
  | nil =>
    cases hok
    exact absurd rfl hc'.rest
  | cons t rest =>
    cases hok
    exact ⟨hc', rfl⟩

/-- Looking at the next token. -/
theorem peek? : Extends us BeforeSeam Grammar.peek? Grammar.peek? fun _ => BeforeSeam := by
  rintro ⟨rest, errors⟩ found c' hok hc'
  cases rest with
  | nil =>
    cases hok
    exact absurd rfl hc'.rest
  | cons t rest =>
    cases hok
    exact ⟨hc', rfl⟩

/-- What comes after looking at the next token may use what it is. -/
theorem peek?_bind {k k' : Option Token → Reader α} {D : α → Cursor → Prop}
    (hk : ∀ found c a c', found = c.rest.head?.map (·.token) → k found c = .ok a c' → D a c' →
      BeforeSeam c ∧ k' found (c.ahead us) = .ok a (c'.ahead us)) :
    Extends us BeforeSeam (Grammar.peek? >>= k) (Grammar.peek? >>= k') D := by
  intro c a c' hok hc'
  obtain ⟨found, c₁, h₁, h₂⟩ := exists_of_bind hok
  obtain ⟨hfound, rfl⟩ : found = c.rest.head?.map (·.token) ∧ c₁ = c := by
    cases h₁
    exact ⟨rfl, rfl⟩
  obtain ⟨hc, hy⟩ := hk found c₁ a c' hfound h₂ hc'
  obtain ⟨-, hpeek⟩ := peek? c₁ found c₁ h₁ hc
  exact ⟨hc, (bind_of_ok hpeek).trans hy⟩

/-- Skipping the next token. -/
theorem skip : Extends us BeforeSeam Grammar.skip Grammar.skip fun _ => BeforeSeam := by
  rintro ⟨rest, errors⟩ _ c' hok hc'
  cases rest with
  | nil => cases hok
  | cons t rest =>
    cases hok
    exact ⟨hc'.further [t], rfl⟩

/-- Consuming the next token. -/
theorem next? : Extends us BeforeSeam (Grammar.next? ctx) (Grammar.next? ctx') fun _ => BeforeSeam := by
  rintro ⟨rest, errors⟩ found c' hok hc'
  cases rest with
  | nil =>
    cases hok
    exact absurd rfl hc'.rest
  | cons t rest =>
    cases hok
    exact ⟨hc'.further [t], rfl⟩

/-- Checking for a token. -/
theorem check (t : Token) :
    Extends us BeforeSeam (Grammar.check t) (Grammar.check t) fun _ => BeforeSeam := by
  unfold Grammar.check
  exact peek?.bind fun _ => .pure

/-- Whether a token is accepted does not depend on the tokens behind the seam, as long as there is one
before it. -/
theorem accept?_ahead (us : List Lexeme) {t : Token} {l : Lexeme} {rest : List Lexeme} {errors : List Diagnostic}
    {found : Option Position} {c' : Cursor}
    (h : Grammar.accept? t ⟨l :: rest, errors⟩ = .ok found c') :
    Grammar.accept? t (Cursor.ahead us ⟨l :: rest, errors⟩) = .ok found (c'.ahead us) ∧
      ((found = some l.pos ∧ l.token = t ∧ c' = ⟨rest, errors⟩) ∨
        (found = none ∧ c' = ⟨l :: rest, errors⟩)) := by
  have hahead : Grammar.accept? t (Cursor.ahead us ⟨l :: rest, errors⟩) = _ :=
    Mirrors.accept?_cons t l (rest ++ us) errors
  rw [Mirrors.accept?_cons] at h
  rw [hahead]
  split at h
  · rename_i hl
    cases h
    rw [if_pos hl]
    exact ⟨rfl, .inl ⟨rfl, hl, rfl⟩⟩
  · rename_i hl
    cases h
    rw [if_neg hl]
    exact ⟨rfl, .inr ⟨rfl, rfl⟩⟩

/-- Consuming a token if it is there. -/
theorem accept? (t : Token) :
    Extends us BeforeSeam (Grammar.accept? t) (Grammar.accept? t) fun _ => BeforeSeam := by
  rintro ⟨rest, errors⟩ found c' hok hc'
  cases rest with
  | nil =>
    cases hok
    exact absurd rfl hc'.rest
  | cons l rest =>
    obtain ⟨hy, ⟨-, -, rfl⟩ | ⟨-, rfl⟩⟩ := accept?_ahead us hok
    · exact ⟨hc'.further [l], hy⟩
    · exact ⟨hc', hy⟩

/-- A statement may end with the token that is consumed. -/
theorem acceptEnd {t : Token} (ht : t.endsStatement = true) :
    Extends us BeforeSeam (Grammar.accept? t) (Grammar.accept? t)
      fun found c => found ≠ none ∧ AtSeam c := by
  rintro ⟨rest, errors⟩ found c' hok ⟨hfound, hc'⟩
  cases rest with
  | nil =>
    cases hok
    exact absurd rfl hfound
  | cons l rest =>
    obtain ⟨hy, ⟨-, rfl, rfl⟩ | ⟨rfl, -⟩⟩ := accept?_ahead us hok
    · exact ⟨hc'.further ht, hy⟩
    · exact absurd rfl hfound

/-- A word with which a choice goes on is not found behind the seam. -/
theorem acceptWord {t : Token} (hus : ∀ l ∈ us.head?, l.token ≠ t) :
    Extends us AtSeam (Grammar.accept? t) (Grammar.accept? t) fun found c =>
      match found with
      | some _ => BeforeSeam c
      | none => AtSeam c := by
  rintro ⟨rest, errors⟩ found c' hok hc'
  cases rest with
  | nil =>
    cases hok
    refine ⟨hc', ?_⟩
    cases us with
    | nil => rfl
    | cons l us =>
      have haccept := Mirrors.accept?_cons t l us errors
      rw [if_neg (hus l rfl)] at haccept
      exact haccept
  | cons l rest =>
    obtain ⟨hy, ⟨rfl, -, rfl⟩ | ⟨rfl, rfl⟩⟩ := accept?_ahead us hok
    · exact ⟨(BeforeSeam.further hc' [l]).toAtSeam, hy⟩
    · exact ⟨hc', hy⟩

/-- Consuming a token that has to be there. -/
theorem expect (t : Token) :
    Extends us BeforeSeam (Grammar.expect ctx t) (Grammar.expect ctx' t) fun _ => BeforeSeam := by
  unfold Grammar.expect
  refine (accept? t).bind fun found => ?_
  cases found with
  | some pos => exact .pure
  | none => exact peek?.bind fun _ => here.bind fun _ => .fail _ _

/-- Consuming a token that has to be there and may end a statement. -/
theorem expectEnd {t : Token} (ht : t.endsStatement = true) :
    Extends us BeforeSeam (Grammar.expect ctx t) (Grammar.expect ctx' t) fun _ => AtSeam := by
  unfold Grammar.expect
  refine (acceptEnd ht).bind fun found => ?_
  cases found with
  | some pos => exact pure.mono (fun c hc => ⟨Option.some_ne_none _, hc⟩) fun _ _ => id
  | none =>
    refine never fun c pos c' hok => ?_
    obtain ⟨_, _, -, h₁⟩ := exists_of_bind hok
    obtain ⟨_, _, -, h₂⟩ := exists_of_bind h₁
    cases h₂

/-- Consuming a name. -/
theorem name :
    Extends us BeforeSeam (Grammar.name ctx) (Grammar.name ctx') fun _ => BeforeSeam := by
  unfold Grammar.name
  refine next?.bind fun found => ?_
  obtain ⟨token, pos⟩ := found
  cases token with
  | none => exact .fail _ _
  | some t =>
    cases t with
    | name spelling => exact .pure
    | _ => exact .fail _ _

/-- The semicolon at the end of a statement. -/
theorem endStatement :
    Extends us BeforeSeam (Grammar.endStatement ctx) (Grammar.endStatement ctx') fun _ => AtSeam := by
  unfold Grammar.endStatement
  refine (acceptEnd rfl).bind fun found => ?_
  cases found with
  | some pos => exact pure.mono (fun c hc => ⟨Option.some_ne_none _, hc⟩) fun _ _ => id
  | none =>
    -- a missing semicolon is recorded
    refine never fun c _ c' hok hc' => ?_
    obtain ⟨_, c₁, -, h₁⟩ := exists_of_bind hok
    obtain ⟨_, c₂, -, h₂⟩ := exists_of_bind h₁
    cases h₂
    exact absurd hc'.errors (by simp)

/-- A fault that is recorded is no result either. -/
theorem attempt {x y : Reader α} (h : Extends us E x y fun _ => AtSeam) :
    Extends us E
      (tryCatch (x >>= fun a => Pure.pure (some a)) fun e =>
        record ctx e >>= fun _ => Pure.pure none)
      (tryCatch (y >>= fun a => Pure.pure (some a)) fun e =>
        record ctx' e >>= fun _ => Pure.pure none) fun _ => AtSeam := by
  intro c found c' hok hc'
  change EStateM.tryCatch (EStateM.bind x _) _ c = _ at hok
  change _ ∧ EStateM.tryCatch (EStateM.bind y _) _ _ = _
  unfold EStateM.tryCatch EStateM.bind at hok ⊢
  cases hx : x c with
  | ok a c₁ =>
    rw [hx] at hok
    cases hok
    obtain ⟨hc, hy⟩ := h c a _ hx hc'
    rw [hy]
    exact ⟨hc, rfl⟩
  | error e c₁ =>
    rw [hx] at hok
    cases hok
    exact absurd hc'.errors (by simp)

end Extends

/-! ## Rules -/

/-- What is known where a phrase starts that can be read up to the seam. -/
def Goal.start : {α : Type} → Goal α → Cursor → Prop
  | _, .branches => AtSeam
  | _, _ => BeforeSeam

/-- How far a phrase can be read. -/
def Goal.stop : {α : Type} → Goal α → Cursor → Prop
  | _, .procedure _ => AtSeam
  | _, .block => AtSeam
  | _, .branches => AtSeam
  | _, _ => BeforeSeam

/-- What two readers have in common, the second one with more tokens behind those of the first one. -/
structure Extensions (us : List Lexeme) (ctx ctx' : Context)
    (inner inner' : {α : Type} → Goal α → Reader α) : Prop where
  behind : ∀ l ∈ us.head?, l.token.continuesChoice = false
  bring : ∀ path, ctx'.bring path = ctx.bring path
  phrase : ∀ {α : Type} (g : Goal α), Extends us g.start (inner g) (inner' g) fun _ => g.stop

namespace Extensions

variable {us : List Lexeme} {ctx ctx' : Context} {self self' : {α : Type} → Goal α → Reader α}

/-- A procedure that is written with an arrow. -/
theorem lambda (h : Extensions us ctx ctx' self self') (name : String) (pos : Position) :
    Extends us BeforeSeam (Grammar.lambda self name pos) (Grammar.lambda self' name pos)
      fun _ => BeforeSeam := by
  unfold Grammar.lambda
  exact (h.phrase .expression).bind fun _ => .pure

/-- The tokens of a mixin. -/
theorem mixin (pos : Position) :
    Extends us BeforeSeam (Grammar.mixin ctx pos) (Grammar.mixin ctx' pos) fun _ => BeforeSeam := by
  unfold Grammar.mixin
  refine (Extends.expect _).bind fun _ => ?_
  rintro ⟨rest, errors⟩ e c' hok hc'
  obtain ⟨c₀, c₁, hget, hok⟩ := exists_of_bind hok
  cases hget
  cases hb : balanced? 0 rest with
  | none =>
    rw [hb] at hok
    cases hok
  | some r =>
    obtain ⟨captured, left⟩ := r
    rw [hb] at hok
    cases hok
    obtain ⟨endPos, rfl, hbalanced⟩ := balanced_of_balanced? hb
    have hahead := hbalanced.balanced?_eq rfl endPos (left ++ us)
    refine ⟨?_, ?_⟩
    · have hfurther := hc'.further (captured ++ [⟨.mark .closeBrace, endPos⟩])
      rwa [List.append_assoc] at hfurther
    · rw [← List.cons_append, ← List.append_assoc] at hahead
      let ahead : Cursor := ⟨captured ++ ⟨.mark .closeBrace, endPos⟩ :: left ++ us, errors⟩
      have hget : (get : Reader Cursor) ahead = .ok ahead ahead := rfl
      refine (bind_of_ok hget).trans ?_
      rw [hahead]
      rfl

/-- A phrase that starts with a token of its own. -/
theorem primary (h : Extensions us ctx ctx' self self') :
    Extends us BeforeSeam (Grammar.primary ctx self) (Grammar.primary ctx' self')
      fun _ => BeforeSeam := by
  unfold Grammar.primary
  refine Extends.next?.bind fun found => ?_
  obtain ⟨token, pos⟩ := found
  cases token with
  | none => exact .fail _ _
  | some t =>
    cases t with
    | number spelling =>
      dsimp only
      cases Literal.ofNumeral? spelling with
      | some value => exact .pure
      | none => exact .fail _ _
    | text contents => exact .pure
    | name spelling =>
      refine (Extends.accept? _).bind fun arrow => ?_
      cases arrow with
      | some arrowPos => exact h.lambda spelling pos
      | none => exact .pure
    | keyword k =>
      cases k with
      | trueWord | falseWord | nullWord => exact .pure
      | funcWord => exact (h.phrase (.procedure pos)).before.bind fun _ => .pure
      | mixinWord => exact mixin pos
      | _ => exact .fail _ _
    | mark m =>
      cases m with
      | openParen =>
        refine (h.phrase .expression).bind fun e => (Extends.expect _).bind fun _ => ?_
        cases e with
        | «variable» spelling pos =>
          refine (Extends.accept? _).bind fun arrow => ?_
          cases arrow with
          | some arrowPos => exact h.lambda spelling pos
          | none => exact .pure
        | _ => exact .pure
      | openBracket => exact (h.phrase (.elements true)).bind fun _ => .pure
      | openBrace => exact (h.phrase .members).bind fun _ => .pure
      | _ => exact .fail _ _

/-- Calls, members and indices behind an expression. -/
theorem suffixes (h : Extensions us ctx ctx' self self') (target : Expression) :
    Extends us BeforeSeam (Grammar.suffixes ctx self target) (Grammar.suffixes ctx' self' target)
      fun _ => BeforeSeam := by
  unfold Grammar.suffixes
  refine Extends.here.bind fun pos => Extends.peek?.bind fun found => ?_
  cases found with
  | none => exact .pure
  | some t =>
    cases t with
    | mark m =>
      cases m with
      | dot => exact Extends.skip.bind fun _ => Extends.name.bind fun _ => h.phrase (.suffixes _)
      | openParen =>
        exact Extends.skip.bind fun _ => (h.phrase (.arguments true)).bind fun _ =>
          h.phrase (.suffixes _)
      | openBracket =>
        exact Extends.skip.bind fun _ => (h.phrase .expression).bind fun _ =>
          (Extends.expect _).bind fun _ => h.phrase (.suffixes _)
      | _ => exact .pure
    | _ => exact .pure

/-- An expression without binary operators. -/
theorem unary (h : Extensions us ctx ctx' self self') :
    Extends us BeforeSeam (Grammar.unary ctx self) (Grammar.unary ctx' self')
      fun _ => BeforeSeam := by
  unfold Grammar.unary
  refine Extends.here.bind fun pos => Extends.peek?.bind fun found => ?_
  cases found.bind UnaryOperator.ofToken? with
  | some op => exact Extends.skip.bind fun _ => (h.phrase .unary).bind fun _ => .pure
  | none => exact h.primary.bind fun target => h.suffixes target

/-- More operators behind an expression. -/
theorem operators (h : Extensions us ctx ctx' self self') (rank : Nat) (left : Expression) :
    Extends us BeforeSeam (Grammar.operators ctx self rank left)
      (Grammar.operators ctx' self' rank left) fun _ => BeforeSeam := by
  unfold Grammar.operators
  refine Extends.here.bind fun pos => Extends.peek?.bind fun found => ?_
  cases found.bind BinaryOperator.ofToken? with
  | some op =>
    dsimp only
    split
    · exact Extends.skip.bind fun _ => (h.phrase (.operand (op.rank + 1))).bind fun _ =>
        h.phrase (.operators rank _)
    · exact .pure
  | none => exact .pure

/-- An expression whose binary operators have at least the given rank. -/
theorem operand (h : Extensions us ctx ctx' self self') (rank : Nat) :
    Extends us BeforeSeam (Grammar.operand ctx self rank) (Grammar.operand ctx' self' rank)
      fun _ => BeforeSeam := by
  unfold Grammar.operand
  exact h.unary.bind fun left => h.operators rank left

/-- An expression of any kind. -/
theorem expression (h : Extensions us ctx ctx' self self') :
    Extends us BeforeSeam (Grammar.expression ctx self) (Grammar.expression ctx' self')
      fun _ => BeforeSeam := by
  unfold Grammar.expression
  refine (h.operand 0).bind fun target => Extends.here.bind fun pos =>
    Extends.peek?.bind fun found => ?_
  cases found.bind assignment? with
  | some compound =>
    dsimp only
    split
    · refine Extends.skip.bind fun _ => (h.phrase .expression).bind fun value => ?_
      cases compound with
      | some op => exact .pure
      | none => exact .pure
    · exact .fail _ _
  | none => exact .pure

/-! ## Lists -/

/-- The comma before an item. -/
theorem separator (first : Bool) :
    Extends us BeforeSeam (Grammar.separator ctx first) (Grammar.separator ctx' first)
      fun _ => BeforeSeam := by
  unfold Grammar.separator
  cases first with
  | true => exact .pure
  | false => exact (Extends.expect _).bind fun _ => .pure

/-- The arguments of a call. -/
theorem arguments (h : Extensions us ctx ctx' self self') (first : Bool) :
    Extends us BeforeSeam (Grammar.arguments ctx self first) (Grammar.arguments ctx' self' first)
      fun _ => BeforeSeam := by
  unfold Grammar.arguments
  refine (Extends.check _).bind fun found => ?_
  cases found with
  | true => exact Extends.skip.bind fun _ => .pure
  | false =>
    refine (separator first).bind fun _ => (Extends.accept? _).bind fun star => ?_
    cases star with
    | some pos =>
      refine (h.phrase .expression).bind fun e => (Extends.check _).bind fun found => ?_
      cases found with
      | true => exact Extends.skip.bind fun _ => .pure
      | false => exact Extends.here.bind fun _ => .fail _ _
    | none => exact h.expression.bind fun _ => (h.phrase (.arguments false)).bind fun _ => .pure

/-- The elements of an array. -/
theorem elements (h : Extensions us ctx ctx' self self') (first : Bool) :
    Extends us BeforeSeam (Grammar.elements ctx self first) (Grammar.elements ctx' self' first)
      fun _ => BeforeSeam := by
  unfold Grammar.elements
  refine (Extends.check _).bind fun found => ?_
  cases found with
  | true => exact Extends.skip.bind fun _ => .pure
  | false =>
    exact (separator first).bind fun _ => h.expression.bind fun _ =>
      (h.phrase (.elements false)).bind fun _ => .pure

/-- A phrase that follows a mark. -/
theorem after? {α : Type} (m : Mark) {g : Goal α}
    (hg : Extends us BeforeSeam (self g) (self' g) fun _ => BeforeSeam) :
    Extends us BeforeSeam (Grammar.after? self m g) (Grammar.after? self' m g)
      fun _ => BeforeSeam := by
  unfold Grammar.after?
  refine (Extends.accept? _).bind fun found => ?_
  cases found with
  | some pos => exact hg.bind fun _ => .pure
  | none => exact .pure

/-- A name with an optional type and an optional value. -/
theorem declaration (h : Extensions us ctx ctx' self self') (pos : Position) :
    Extends us BeforeSeam (Grammar.declaration ctx self pos) (Grammar.declaration ctx' self' pos)
      fun _ => BeforeSeam := by
  unfold Grammar.declaration
  exact Extends.name.bind fun _ => (after? _ (h.phrase (.operand 0))).bind fun _ =>
    (after? _ (h.phrase .expression)).bind fun _ => .pure

/-- The members of an object. -/
theorem members (h : Extensions us ctx ctx' self self') :
    Extends us BeforeSeam (Grammar.members ctx self) (Grammar.members ctx' self')
      fun _ => BeforeSeam := by
  unfold Grammar.members
  refine (Extends.check _).bind fun found => ?_
  cases found with
  | true => exact Extends.skip.bind fun _ => .pure
  | false =>
    exact Extends.here.bind fun pos => (h.declaration pos).bind fun _ =>
      (Extends.expect _).bind fun _ => (h.phrase .members).bind fun _ => .pure

/-- The parameters of a procedure. -/
theorem parameters (h : Extensions us ctx ctx' self self') (first : Bool) (rest : Option Parameter) :
    Extends us BeforeSeam (Grammar.parameters ctx self first rest)
      (Grammar.parameters ctx' self' first rest) fun _ => BeforeSeam := by
  unfold Grammar.parameters
  refine (Extends.check _).bind fun found => ?_
  cases found with
  | true => exact Extends.skip.bind fun _ => .pure
  | false =>
    refine (separator first).bind fun _ => Extends.here.bind fun pos => ?_
    cases rest with
    | some p => exact .fail _ _
    | none =>
      refine (Extends.accept? _).bind fun star => Extends.name.bind fun spelling =>
        (after? _ (h.phrase (.operand 0))).bind fun type => ?_
      cases star with
      | some starPos => exact h.phrase (.parameters false _)
      | none => exact (h.phrase (.parameters false none)).bind fun _ => .pure

/-! ## Statements -/

/-- Statements between braces. -/
theorem block (h : Extensions us ctx ctx' self self') :
    Extends us BeforeSeam (Grammar.block ctx self) (Grammar.block ctx' self') fun _ => AtSeam := by
  unfold Grammar.block
  exact (Extends.expect _).bind fun _ => (h.phrase (.statements true)).bind fun _ =>
    (Extends.expectEnd rfl).bind fun _ => .pure

/-- The parameters and the body of a procedure. -/
theorem procedure (h : Extensions us ctx ctx' self self') (pos : Position) :
    Extends us BeforeSeam (Grammar.procedure ctx self pos) (Grammar.procedure ctx' self' pos)
      fun _ => AtSeam := by
  unfold Grammar.procedure
  exact (Extends.expect _).bind fun _ => (h.phrase (.parameters true none)).bind fun _ =>
    (h.phrase .block).bind fun _ => .pure

/-- A condition and a block. -/
theorem branch (h : Extensions us ctx ctx' self self') :
    Extends us BeforeSeam (Grammar.branch self) (Grammar.branch self') fun _ => AtSeam := by
  unfold Grammar.branch
  exact (h.phrase .expression).bind fun _ => (h.phrase .block).bind fun _ => .pure

/-- A word that continues a choice does not stand behind the seam. -/
theorem head_ne (h : Extensions us ctx ctx' self self') {t : Token} (ht : t.continuesChoice = true) :
    ∀ l ∈ us.head?, l.token ≠ t := by
  rintro l hl rfl
  exact absurd ht (by rw [h.behind l hl]; exact Bool.false_ne_true)

/-- The further branches of a choice. -/
theorem branches (h : Extensions us ctx ctx' self self') :
    Extends us AtSeam (Grammar.branches self) (Grammar.branches self') fun _ => AtSeam := by
  unfold Grammar.branches
  refine (Extends.acceptWord (h.head_ne rfl)).bind fun found => ?_
  cases found with
  | some pos => exact h.branch.bind fun _ => (h.phrase .branches).bind fun _ => .pure
  | none => exact .pure

/-- A choice, after its first word. -/
theorem ifElse (h : Extensions us ctx ctx' self self') (pos : Position) :
    Extends us BeforeSeam (Grammar.ifElse self pos) (Grammar.ifElse self' pos) fun _ => AtSeam := by
  unfold Grammar.ifElse
  refine h.branch.bind fun first => (h.phrase .branches).bind fun more =>
    (Extends.acceptWord (h.head_ne rfl)).bind fun found => ?_
  cases found with
  | some elsePos => exact (h.phrase .block).bind fun _ => .pure
  | none => exact .pure

/-- A loop over the elements of an array, after its first word. -/
theorem forIn (h : Extensions us ctx ctx' self self') (pos : Position) :
    Extends us BeforeSeam (Grammar.forIn ctx self pos) (Grammar.forIn ctx' self' pos)
      fun _ => AtSeam := by
  unfold Grammar.forIn
  exact Extends.here.bind fun _ => Extends.name.bind fun _ => (Extends.expect _).bind fun _ =>
    (h.phrase .expression).bind fun _ => (h.phrase .block).bind fun _ => .pure

/-- A named procedure, after its first word. -/
theorem namedProcedure (h : Extensions us ctx ctx' self self') (pos : Position) :
    Extends us BeforeSeam (Grammar.namedProcedure ctx self pos)
      (Grammar.namedProcedure ctx' self' pos) fun _ => AtSeam := by
  unfold Grammar.namedProcedure
  exact Extends.name.bind fun _ => (h.phrase (.procedure pos)).bind fun _ => .pure

/-- A macro, after its first word. -/
theorem defineMacro (h : Extensions us ctx ctx' self self') (pos : Position) :
    Extends us BeforeSeam (Grammar.defineMacro ctx self pos)
      (Grammar.defineMacro ctx' self' pos) fun _ => AtSeam := by
  unfold Grammar.defineMacro
  exact Extends.name.bind fun _ => (h.phrase (.procedure pos)).bind fun _ => .pure

/-- The statements of another file.  It brings in no errors, for else they would be recorded. -/
theorem importPath (h : Extensions us ctx ctx' self self') (path : String) (pos : Position) :
    Extends us AtSeam (Grammar.importPath ctx path pos) (Grammar.importPath ctx' path pos)
      fun _ => AtSeam := by
  unfold Grammar.importPath
  rw [h.bring]
  cases ctx.bring path with
  | error complaint => exact .fail _ _
  | ok i =>
    rintro ⟨rest, errors⟩ s c' hok hc'
    cases hok
    obtain ⟨herrors, hi⟩ := List.append_eq_nil_iff.mp hc'.errors
    exact ⟨⟨herrors, hc'.last⟩, rfl⟩

/-- An import, after its first word. -/
theorem importFile (h : Extensions us ctx ctx' self self') (pos : Position) :
    Extends us BeforeSeam (Grammar.importFile ctx pos) (Grammar.importFile ctx' pos)
      fun _ => AtSeam := by
  unfold Grammar.importFile
  refine Extends.next?.bind fun found => ?_
  obtain ⟨token, textPos⟩ := found
  cases token with
  | none => exact .fail _ _
  | some t =>
    cases t with
    | text path => exact (Extends.expectEnd rfl).bind fun _ => h.importPath path pos
    | _ => exact .fail _ _

/-- The end of a procedure, after its first word. -/
theorem returnWith (h : Extensions us ctx ctx' self self') (pos : Position) :
    Extends us BeforeSeam (Grammar.returnWith ctx self pos) (Grammar.returnWith ctx' self' pos)
      fun _ => AtSeam := by
  unfold Grammar.returnWith
  refine (Extends.check _).bind fun found => ?_
  cases found with
  | true => exact Extends.endStatement.bind fun _ => .pure
  | false => exact (h.phrase .expression).bind fun _ => Extends.endStatement.bind fun _ => .pure

/-- An expression, as a statement. -/
theorem expressionStatement (h : Extensions us ctx ctx' self self') :
    Extends us BeforeSeam (Grammar.expressionStatement ctx self)
      (Grammar.expressionStatement ctx' self') fun _ => AtSeam := by
  unfold Grammar.expressionStatement
  exact h.expression.bind fun _ => Extends.endStatement.bind fun _ => .pure

/-- A named procedure does not start right before the seam. -/
theorem startsNamedProcedure_append {c : Cursor} (hc : BeforeSeam c) :
    startsNamedProcedure (c.rest ++ us) = startsNamedProcedure c.rest := by
  obtain ⟨rest, errors⟩ := c
  cases rest with
  | nil => exact absurd rfl hc.rest
  | cons t rest =>
    cases rest with
    | cons u rest => rfl
    | nil =>
      -- the only token is the end of a statement
      have hend : t.token.endsStatement = true := hc.last t rfl
      obtain ⟨token, pos⟩ := t
      cases us with
      | nil => rfl
      | cons u us =>
        cases token with
        | keyword k => cases hend
        | _ => rfl

/-- Whether a named procedure comes next is seen before the seam. -/
theorem startsNamedProcedure_bind {α : Type} {x x' y y' : Reader α} {D : α → Cursor → Prop}
    (hx : Extends us BeforeSeam x x' D) (hy : Extends us BeforeSeam y y' D) :
    Extends us BeforeSeam
      (MonadState.get >>= fun c => if startsNamedProcedure c.rest = true then x else y)
      (MonadState.get >>= fun c => if startsNamedProcedure c.rest = true then x' else y') D := by
  intro c a c' hok hc'
  change (if startsNamedProcedure c.rest = true then x else y) c = _ at hok
  change _ ∧ (if startsNamedProcedure (c.rest ++ us) = true then x' else y') _ = _
  cases hnamed : startsNamedProcedure c.rest with
  | true =>
    rw [hnamed] at hok
    obtain ⟨hc, hahead⟩ := hx c a c' hok hc'
    rw [startsNamedProcedure_append hc, hnamed]
    exact ⟨hc, hahead⟩
  | false =>
    rw [hnamed] at hok
    obtain ⟨hc, hahead⟩ := hy c a c' hok hc'
    rw [startsNamedProcedure_append hc, hnamed]
    exact ⟨hc, hahead⟩

/-- A statement. -/
theorem statement (h : Extensions us ctx ctx' self self') :
    Extends us BeforeSeam (Grammar.statement ctx self) (Grammar.statement ctx' self')
      fun _ => AtSeam := by
  unfold Grammar.statement
  refine Extends.here.bind fun pos => startsNamedProcedure_bind
    (Extends.skip.bind fun _ => h.namedProcedure pos) (Extends.peek?_bind fun found => ?_)
  have hother : ∀ {x y : Reader Statement}, Extends us BeforeSeam x y (fun _ => AtSeam) →
      ∀ c s c', found = c.rest.head?.map (·.token) → x c = .ok s c' → AtSeam c' →
        BeforeSeam c ∧ y (c.ahead us) = .ok s (c'.ahead us) :=
    fun hxy c s c' _ => hxy c s c'
  cases found with
  | none => exact hother h.expressionStatement
  | some t =>
    cases t with
    | keyword k =>
      cases k with
      | letWord =>
        exact hother (Extends.skip.bind fun _ => (h.declaration pos).bind fun _ =>
          Extends.endStatement.bind fun _ => .pure)
      | ifWord => exact hother (Extends.skip.bind fun _ => h.ifElse pos)
      | whileWord => exact hother (Extends.skip.bind fun _ => h.branch.bind fun _ => .pure)
      | forWord => exact hother (Extends.skip.bind fun _ => h.forIn pos)
      | returnWord => exact hother (Extends.skip.bind fun _ => h.returnWith pos)
      | importWord => exact hother (Extends.skip.bind fun _ => h.importFile pos)
      | macroWord => exact hother (Extends.skip.bind fun _ => h.defineMacro pos)
      | _ => exact hother h.expressionStatement
    | mark m =>
      cases m with
      | openBrace => exact hother (h.block.bind fun _ => .pure)
      | semicolon =>
        -- this token is the end of the statement, which may be the last one
        rintro ⟨rest, errors⟩ s c' hfound hok hc'
        cases rest with
        | nil => cases hfound
        | cons l rest =>
          have hl : l.token = .mark .semicolon := (Option.some.inj hfound).symm
          cases hok
          exact ⟨hc'.further (by rw [hl]; rfl), rfl⟩
      | _ => exact hother h.expressionStatement
    | _ => exact hother h.expressionStatement

/-- A statement, or nothing if it cannot be read. -/
theorem statement? (h : Extensions us ctx ctx' self self') :
    Extends us BeforeSeam (Grammar.statement? ctx self) (Grammar.statement? ctx' self')
      fun _ => AtSeam := by
  intro c found c' hok hc'
  rw [Reads.statement?_apply] at hok ⊢
  cases hs : Grammar.statement ctx self c with
  | ok s c₁ =>
    rw [hs] at hok
    cases hok
    obtain ⟨hc, hy⟩ := h.statement c s _ hs hc'
    rw [hy]
    exact ⟨hc, rfl⟩
  | error e c₁ =>
    -- a fault is recorded
    rw [hs] at hok
    cases hok
    exact absurd hc'.errors (by simp)

/-- Statements up to the end of the input, or up to a closing brace. -/
theorem statements (h : Extensions us ctx ctx' self self') (inBlock : Bool) :
    Extends us BeforeSeam (Grammar.statements ctx self inBlock)
      (Grammar.statements ctx' self' inBlock) fun _ => BeforeSeam := by
  unfold Grammar.statements
  refine Extends.peek?.bind fun found => ?_
  cases found with
  | none => exact .pure
  | some t =>
    dsimp only
    split
    · exact .pure
    · exact h.statement?.before.bind fun _ => (h.phrase (.statements inBlock)).bind fun _ => .pure

/-- Each rule. -/
theorem rule (h : Extensions us ctx ctx' self self') {α : Type} (g : Goal α) :
    Extends us g.start (Grammar.rule ctx self g) (Grammar.rule ctx' self' g) fun _ => g.stop := by
  cases g with
  | expression => exact h.expression
  | operand rank => exact h.operand rank
  | operators rank left => exact h.operators rank left
  | unary => exact h.unary
  | suffixes target => exact h.suffixes target
  | arguments first => exact h.arguments first
  | elements first => exact h.elements first
  | members => exact h.members
  | parameters first rest => exact h.parameters first rest
  | procedure pos => exact h.procedure pos
  | block => exact h.block
  | branches => exact h.branches
  | statements inBlock => exact h.statements inBlock

end Extensions

/-! ## Whole readings -/

section Readings

variable {us : List Lexeme} {ctx ctx' : Context}

/-- However deep rules may nest, what they read before the seam stays as it is. -/
theorem read_extends (hbehind : ∀ l ∈ us.head?, l.token.continuesChoice = false)
    (hbring : ∀ path, ctx'.bring path = ctx.bring path) (n : Nat) {α : Type} (g : Goal α) :
    Extends us g.start (read ctx n g) (readGoal ctx' g) fun _ => g.stop := by
  induction n generalizing α with
  | zero =>
    refine .never fun c a c' hok => ?_
    obtain ⟨_, _, -, h₁⟩ := exists_of_bind hok
    cases h₁
  | succ n ih =>
    have hrule : Extends us g.start (read ctx (n + 1) g) (rule ctx' (readGoal ctx') g)
        fun _ => g.stop :=
      Extensions.rule ⟨hbehind, hbring, ih⟩ g
    intro c a c' hok hc'
    rw [readGoal_eq_rule]
    exact hrule c a c' hok hc'

/-- What is read before the seam stays as it is. -/
theorem readGoal_extensions (hbehind : ∀ l ∈ us.head?, l.token.continuesChoice = false)
    (hbring : ∀ path, ctx'.bring path = ctx.bring path) :
    Extensions us ctx ctx' (readGoal ctx) (readGoal ctx') :=
  ⟨hbehind, hbring, fun g c => read_extends hbehind hbring (c.rest.length + 1) g c⟩

/-- Where there are tokens, statements are a statement and more of them. -/
theorem readGoal_statements_cons (t : Lexeme) (rest : List Lexeme) (errors : List Diagnostic) :
    readGoal ctx (.statements false) ⟨t :: rest, errors⟩ =
      (statement? ctx (readGoal ctx) >>= fun first => readGoal ctx (.statements false) >>= fun more =>
        Pure.pure (first.toList ++ more)) ⟨t :: rest, errors⟩ :=
  (readGoal_eq_rule _ _).trans (statements_cons rfl rest errors)

/-- Statements that are read without errors are read again, and then those behind the seam. -/
theorem readGoal_statements_ahead (hbehind : ∀ l ∈ us.head?, l.token.continuesChoice = false)
    (hbring : ∀ path, ctx'.bring path = ctx.bring path) {c c' cₑ : Cursor}
    {ss more : List Statement} (h : readGoal ctx (.statements false) c = .ok ss c')
    (hc' : c'.errors = []) (hmore : readGoal ctx' (.statements false) ⟨us, []⟩ = .ok more cₑ) :
    AtSeam c ∧ readGoal ctx' (.statements false) (c.ahead us) = .ok (ss ++ more) cₑ := by
  induction hn : c.rest.length using Nat.strongRecOn generalizing c ss with
  | _ n ih =>
    obtain ⟨rest, errors⟩ := c
    cases rest with
    | nil =>
      rw [readGoal_eq_rule] at h
      cases h
      obtain rfl : errors = [] := hc'
      exact ⟨⟨rfl, nofun⟩, hmore⟩
    | cons t rest =>
      obtain ⟨found, c₁, hfound, -, hinside⟩ :=
        exists_statement? ctx ⟨t :: rest, errors⟩ (List.cons_ne_nil _ _)
      obtain ⟨ss₁, c₂, hss₁⟩ := exists_readGoal_statements ctx false c₁
      rw [readGoal_statements_cons, bind_of_ok hfound, bind_of_ok hss₁] at h
      cases h
      obtain ⟨hc₁, hahead⟩ := ih c₁.rest.length (hn ▸ hinside.2) hss₁ rfl
      obtain ⟨hc, hfound'⟩ := (readGoal_extensions hbehind hbring).statement? _ _ _ hfound hc₁
      refine ⟨hc.toAtSeam, (readGoal_statements_cons t (rest ++ us) errors).trans ?_⟩
      refine (bind_of_ok hfound').trans ((bind_of_ok hahead).trans ?_)
      rw [← List.append_assoc]
      rfl

/-- The imports ahead of a program are the same if there is more of it. -/
theorem importAll_extends (hbehind : ∀ l ∈ us.head?, l.token.continuesChoice = false)
    (hbring : ∀ path, ctx'.bring path = ctx.bring path) (paths : List String) :
    Extends us AtSeam (importAll ctx paths) (importAll ctx' paths) fun _ => AtSeam := by
  induction paths with
  | nil => exact .pure
  | cons path paths ih =>
    unfold importAll
    have hfirst := (readGoal_extensions hbehind hbring).importPath path .outside
    exact hfirst.attempt.bind fun first => ih.bind fun more => .pure

end Readings

end Grammar

end ProtoScript
