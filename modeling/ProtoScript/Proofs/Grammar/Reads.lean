import ProtoScript.Grammar.Read
import ProtoScript.Proofs.Grammar.Derives

/-!
# What readers consume

`Reads imports x P` says that whenever the reader `x` yields a result and no errors are recorded, none
were recorded before, and the tokens that it consumed, its result and the tokens that it left stand in the
relation `P`.  Since a reader that nests too deep fails, nothing has to be known about how deep readers
may nest.  An import puts statements into the program that do not stand in the tokens; where this matters,
only tokens without imports are considered, and `imports` says whether there may be some.
-/

namespace ProtoScript

namespace Grammar

/-- None of the tokens starts an import. -/
def ImportFree (ts : List Lexeme) : Prop :=
  ∀ t ∈ ts, t.token ≠ .keyword .importWord

/-- What is left of tokens without imports has none. -/
theorem ImportFree.of_append {ts us : List Lexeme} (h : ImportFree (ts ++ us)) : ImportFree us :=
  fun t ht => h t (List.mem_append_right ts ht)

/-- Tokens with or without imports. -/
def Admits : Bool → List Lexeme → Prop
  | true, _ => True
  | false, ts => ImportFree ts

/-- What is left of tokens may have no more imports. -/
theorem Admits.of_append {imports : Bool} {ts us : List Lexeme} (h : Admits imports (ts ++ us)) :
    Admits imports us := by
  cases imports with
  | true => trivial
  | false => exact ImportFree.of_append h

/-- If no errors are recorded in the end, none were before, and the tokens that were consumed, the
result and the tokens that are left are related. -/
def Reads {α : Type} (imports : Bool) (x : Reader α) (P : List Lexeme → α → List Lexeme → Prop) :
    Prop :=
  ∀ c a c', x c = .ok a c' → c'.errors = [] →
    c.errors = [] ∧ (Admits imports c.rest → ∃ used, c.rest = used ++ c'.rest ∧ P used a c'.rest)

/-! ## Sequencing -/

/-- If two steps yield a result, both do. -/
theorem exists_of_bind {α β : Type} {x : Reader α} {f : α → Reader β} {c c' : Cursor} {b : β}
    (h : (x >>= f) c = .ok b c') : ∃ a c₁, x c = .ok a c₁ ∧ f a c₁ = .ok b c' := by
  change EStateM.bind x f c = _ at h
  unfold EStateM.bind at h
  cases hx : x c with
  | ok a c₁ =>
    rw [hx] at h
    exact ⟨a, c₁, rfl, h⟩
  | error e c₁ =>
    rw [hx] at h
    cases h

namespace Reads

variable {α β : Type} {ctx : Context} {imports : Bool}

/-- A relation may be weakened. -/
theorem mono {x : Reader α} {P Q : List Lexeme → α → List Lexeme → Prop} (hx : Reads imports x P)
    (h : ∀ used a left, P used a left → Q used a left) : Reads imports x Q := by
  intro c a c' hok herr
  obtain ⟨herrs, hused⟩ := hx c a c' hok herr
  refine ⟨herrs, fun hfree => ?_⟩
  obtain ⟨used, hrest, hP⟩ := hused hfree
  exact ⟨used, hrest, h _ _ _ hP⟩

/-- It may be assumed that the tokens have no imports. -/
theorem of_importFree {x : Reader α} {P : List Lexeme → α → List Lexeme → Prop}
    (hx : Reads false x fun used a left => ImportFree (used ++ left) → P used a left) :
    Reads false x P := by
  intro c a c' hok herr
  obtain ⟨herrs, hused⟩ := hx c a c' hok herr
  refine ⟨herrs, fun hfree => ?_⟩
  obtain ⟨used, hrest, hP⟩ := hused hfree
  rw [hrest] at hfree
  exact ⟨used, hrest, hP hfree⟩

/-- A sequence consumes what its steps consume.  The second step may use what is known about the first
one, which may have looked at the tokens that the second one consumes. -/
theorem bind {x : Reader α} {f : α → Reader β} {P : List Lexeme → α → List Lexeme → Prop}
    {R : List Lexeme → β → List Lexeme → Prop} (hx : Reads imports x P)
    (hf : ∀ a used, Reads imports (f a) fun more b left =>
      P used a (more ++ left) → R (used ++ more) b left) :
    Reads imports (x >>= f) R := by
  intro c b c' hok herr
  obtain ⟨a, c₁, h₁, h₂⟩ := exists_of_bind hok
  have herr₁ := (hf a [] c₁ b c' h₂ herr).1
  obtain ⟨herr₀, hused⟩ := hx c a c₁ h₁ herr₁
  refine ⟨herr₀, fun hfree => ?_⟩
  obtain ⟨used, hrest, hP⟩ := hused hfree
  rw [hrest] at hfree
  obtain ⟨more, hrest₁, hR⟩ := (hf a used c₁ b c' h₂ herr).2 hfree.of_append
  rw [hrest₁] at hrest hP
  exact ⟨used ++ more, hrest.trans (List.append_assoc _ _ _).symm, hR hP⟩

/-- Yielding a value consumes nothing. -/
theorem pure {a : α} {P : List Lexeme → α → List Lexeme → Prop} (h : ∀ left, P [] a left) :
    Reads imports (Pure.pure a) P := by
  intro c b c' hok herr
  cases hok
  exact ⟨herr, fun _ => ⟨[], rfl, h _⟩⟩

/-- A reader that stops with a fault yields nothing. -/
theorem fail {P : List Lexeme → α → List Lexeme → Prop} (complaint : Complaint) (pos : Position) :
    Reads imports (Grammar.fail complaint pos) P := by
  intro c a c' hok
  cases hok

/-! ## Looking at tokens -/

/-- The next token, if there is one, stands at this place. -/
def At (pos : Position) (ts : List Lexeme) : Prop :=
  ∀ t us, ts = t :: us → pos = t.pos

/-- Asking for the place of the next token consumes nothing. -/
theorem here : Reads imports (Grammar.here ctx) fun used pos left => used = [] ∧ At pos left := by
  intro c pos c' hok herr
  unfold Grammar.here at hok
  obtain ⟨c₀, c₁, h₀, h₁⟩ := exists_of_bind hok
  cases h₀
  cases hrest : c.rest with
  | nil =>
    rw [hrest] at h₁
    cases h₁
    exact ⟨herr, fun _ => ⟨[], hrest.symm, rfl, fun t us h => by rw [hrest] at h; cases h⟩⟩
  | cons t us =>
    rw [hrest] at h₁
    cases h₁
    refine ⟨herr, fun _ => ⟨[], hrest.symm, rfl, fun t' us' h => ?_⟩⟩
    rw [hrest] at h
    cases h
    rfl

/-- Asking for the next token consumes nothing. -/
theorem peek? : Reads imports Grammar.peek? fun used found left =>
    used = [] ∧ found = left.head?.map (·.token) := by
  intro c found c' hok herr
  cases hok
  exact ⟨herr, fun _ => ⟨[], rfl, rfl, rfl⟩⟩

/-- Skipping consumes the next token. -/
theorem skip : Reads imports Grammar.skip fun used _ _ => ∃ t, used = [t] := by
  intro c a c' hok herr
  obtain ⟨rest, errors⟩ := c
  cases rest with
  | nil => cases hok
  | cons t us =>
    cases hok
    exact ⟨herr, fun _ => ⟨[t], rfl, t, rfl⟩⟩

/-- What was looked at before a token was skipped is that token. -/
theorem eq_of_skip {pos : Position} {t : Token} {used ts : List Lexeme} (hpos : At pos ts)
    (hpeek : some t = ts.head?.map (·.token)) (hskip : ∃ l, used = [l]) (hts : used <+: ts) :
    used = [⟨t, pos⟩] := by
  obtain ⟨left, rfl⟩ := hts
  obtain ⟨l, rfl⟩ := hskip
  obtain rfl := hpos l left rfl
  cases hpeek
  rfl

/-- Taking the next token consumes it, if there is one. -/
theorem next? : Reads imports (Grammar.next? ctx) fun used found _ =>
    ∀ t, found.1 = some t → used = [⟨t, found.2⟩] := by
  intro c found c' hok herr
  obtain ⟨rest, errors⟩ := c
  cases rest with
  | nil =>
    cases hok
    exact ⟨herr, fun _ => ⟨[], rfl, by simp⟩⟩
  | cons l us =>
    cases hok
    refine ⟨herr, fun _ => ⟨[l], rfl, fun t ht => ?_⟩⟩
    cases ht
    rfl

/-- Checking for a token consumes nothing. -/
theorem check (t : Token) : Reads imports (Grammar.check t) fun used found left =>
    used = [] ∧ (found = true ↔ left.head?.map (·.token) = some t) := by
  unfold Grammar.check
  refine peek?.bind fun found u => .pure fun left hpeek => ?_
  obtain ⟨rfl, rfl⟩ := hpeek
  exact ⟨rfl, by simp⟩

/-- Accepting a token consumes it and nothing else. -/
theorem accept? (t : Token) : Reads imports (Grammar.accept? t) fun used found _ =>
    (∀ pos, found = some pos → used = [⟨t, pos⟩]) ∧ (found = none → used = []) := by
  intro c found c' hok herr
  obtain ⟨rest, errors⟩ := c
  cases rest with
  | nil =>
    cases hok
    exact ⟨herr, fun _ => ⟨[], rfl, by simp⟩⟩
  | cons l us =>
    change (if l.token = t then (Grammar.skip >>= fun _ => Pure.pure (some l.pos)) else Pure.pure none :
      Reader (Option Position)) ⟨l :: us, errors⟩ = .ok found c' at hok
    split at hok
    · rename_i hl
      cases hok
      subst hl
      exact ⟨herr, fun _ => ⟨[l], rfl, by simp⟩⟩
    · cases hok
      exact ⟨herr, fun _ => ⟨[], rfl, by simp⟩⟩

/-- Expecting a token consumes it and nothing else. -/
theorem expect (t : Token) : Reads imports (Grammar.expect ctx t) fun used pos _ => used = [⟨t, pos⟩] := by
  unfold Grammar.expect
  refine (accept? t).bind fun found u => ?_
  cases found with
  | some pos => exact .pure fun left h => by simpa using h.1 pos rfl
  | none => exact peek?.bind fun _ _ => here.bind fun _ _ => .fail _ _

/-- Reading a name consumes it and nothing else. -/
theorem name : Reads imports (Grammar.name ctx) fun used spelling _ =>
    ∃ pos, used = [⟨.name spelling, pos⟩] := by
  unfold Grammar.name
  refine next?.bind fun found u => ?_
  split
  · exact .pure fun left h => ⟨_, by simpa using h _ rfl⟩
  · exact .fail _ _

/-- If no error is recorded, a statement ends with a semicolon. -/
theorem endStatement : Reads imports (Grammar.endStatement ctx) fun used _ _ =>
    ∃ pos, used = [⟨.mark .semicolon, pos⟩] := by
  unfold Grammar.endStatement
  refine (accept? _).bind fun found u => ?_
  cases found with
  | some pos => exact .pure fun left h => ⟨pos, by simpa using h.1 pos rfl⟩
  | none =>
    intro c a c' hok herr
    obtain ⟨_, c₁, -, h₁⟩ := exists_of_bind hok
    obtain ⟨_, c₂, -, h₂⟩ := exists_of_bind h₁
    cases h₂
    simp at herr

end Reads

end Grammar

end ProtoScript
