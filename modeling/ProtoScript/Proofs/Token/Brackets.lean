import Mathlib.Tactic.Common
import ProtoScript.Token.Text

/-!
# Brackets among tokens

Tokens are nested if each closing bracket among them closes the innermost one that is open then, and is
of its kind, and in the end none is open.  Whether they are is found by keeping the open brackets on a
stack.  Counting brackets without regard to their kind, as `openBrackets` does, comes to the height of
the stack.

`Closes opens ts` is the form in which this is proved of phrases: the tokens close the brackets `opens`,
which were opened before them, and all that they open themselves.
-/

namespace ProtoScript

/-- The kinds of brackets. -/
inductive Bracket where
  | paren | bracket | brace
deriving DecidableEq, Repr

/-- Closes the innermost bracket, which has to be of the given kind. -/
def Bracket.close? (b : Bracket) : List Bracket → Option (List Bracket)
  | [] => none
  | innermost :: stack => if innermost = b then some stack else none

/-- The brackets that are open after a token, the innermost first. -/
def Token.unclosed? (t : Token) (stack : List Bracket) : Option (List Bracket) :=
  match t with
  | mark .openParen => some (.paren :: stack)
  | mark .openBracket => some (.bracket :: stack)
  | mark .openBrace => some (.brace :: stack)
  | mark .closeParen => Bracket.paren.close? stack
  | mark .closeBracket => Bracket.bracket.close? stack
  | mark .closeBrace => Bracket.brace.close? stack
  | _ => some stack

/-- The brackets that are open after tokens. -/
def unclosed? (stack : List Bracket) (ts : List Lexeme) : Option (List Bracket) :=
  ts.foldlM (fun stack t => t.token.unclosed? stack) stack

/-- Each closing bracket closes the innermost one that is open, which is of its kind, and in the end none
is open. -/
def ProperlyNested (ts : List Lexeme) : Prop :=
  unclosed? [] ts = some []

instance (ts : List Lexeme) : Decidable (ProperlyNested ts) :=
  inferInstanceAs (Decidable (_ = _))

theorem Bracket.close?_eq_some_iff {b : Bracket} {stack stack' : List Bracket} :
    b.close? stack = some stack' ↔ stack = b :: stack' := by
  cases stack with
  | nil => simp [close?]
  | cons innermost stack => simp [close?]

/-! ## Counting -/

/-- A token changes the number of open brackets as it should. -/
theorem Token.length_of_unclosed? {t : Token} {stack stack' : List Bracket}
    (h : t.unclosed? stack = some stack') : (stack'.length : Int) = stack.length + t.depthChange := by
  have hclose {b : Bracket} (h : b.close? stack = some stack') :
      (stack'.length : Int) = stack.length + -1 := by
    rw [Bracket.close?_eq_some_iff.mp h, List.length_cons]
    omega
  unfold unclosed? at h
  split at h
  case h_4 | h_5 | h_6 => exact hclose h
  all_goals
    cases h
    simp_all [depthChange]

/-- The number of open brackets is the one that is counted. -/
theorem length_of_unclosed? {ts : List Lexeme} {stack stack' : List Bracket}
    (h : unclosed? stack ts = some stack') :
    ts.foldl (fun depth t => depth + t.token.depthChange) (stack.length : Int) = stack'.length := by
  induction ts generalizing stack with
  | nil =>
    cases h
    rfl
  | cons t ts ih =>
    obtain ⟨next, hnext, hrest⟩ := Option.bind_eq_some_iff.mp h
    rw [List.foldl_cons, ← Token.length_of_unclosed? hnext]
    exact ih hrest

/-- Properly nested tokens leave no bracket open. -/
theorem ProperlyNested.openBrackets_eq {ts : List Lexeme} (h : ProperlyNested ts) :
    openBrackets ts = 0 :=
  length_of_unclosed? h

/-! ## Closing what was opened before -/

/-- The tokens close the given brackets, the innermost first, and all that they open themselves. -/
def Closes (opens : List Bracket) (ts : List Lexeme) : Prop :=
  ∀ stack, unclosed? (opens ++ stack) ts = some stack

/-- Brackets further outside do not matter to a token. -/
theorem Token.unclosed?_append {t : Token} {stack stack' : List Bracket}
    (h : t.unclosed? stack = some stack') (outer : List Bracket) :
    t.unclosed? (stack ++ outer) = some (stack' ++ outer) := by
  have hclose {b : Bracket} (h : b.close? stack = some stack') :
      b.close? (stack ++ outer) = some (stack' ++ outer) := by
    rw [Bracket.close?_eq_some_iff] at h ⊢
    rw [h, List.cons_append]
  unfold unclosed? at h ⊢
  split at h
  case h_4 | h_5 | h_6 => exact hclose h
  all_goals
    cases h
    rfl

/-- Brackets further outside do not matter to tokens. -/
theorem unclosed?_append {ts : List Lexeme} {stack stack' : List Bracket}
    (h : unclosed? stack ts = some stack') (outer : List Bracket) :
    unclosed? (stack ++ outer) ts = some (stack' ++ outer) := by
  induction ts generalizing stack with
  | nil =>
    cases h
    rfl
  | cons t ts ih =>
    obtain ⟨next, hnext, hrest⟩ := Option.bind_eq_some_iff.mp h
    exact Option.bind_eq_some_iff.mpr ⟨_, Token.unclosed?_append hnext outer, ih hrest⟩

/-- Properly nested tokens leave the brackets around them as they are. -/
theorem properlyNested_iff_closes {ts : List Lexeme} : ProperlyNested ts ↔ Closes [] ts :=
  ⟨fun h outer => unclosed?_append h outer, fun h => h []⟩

namespace Closes

variable {opens inner : List Bracket} {ts us : List Lexeme}

theorem nil : Closes [] [] :=
  fun _ => rfl

/-- A token that is no bracket may come before. -/
theorem other {t : Lexeme} (ht : ∀ stack, t.token.unclosed? stack = some stack)
    (h : Closes opens ts) : Closes opens (t :: ts) :=
  fun stack => Option.bind_eq_some_iff.mpr ⟨_, ht _, h stack⟩

/-- A bracket that is closed may be opened before. -/
theorem opening {b : Bracket} {t : Lexeme} (ht : ∀ stack, t.token.unclosed? stack = some (b :: stack))
    (h : Closes (b :: opens) ts) : Closes opens (t :: ts) :=
  fun stack => Option.bind_eq_some_iff.mpr ⟨_, ht _, h stack⟩

/-- One more bracket may be closed before. -/
theorem closing {b : Bracket} {t : Lexeme} (ht : ∀ stack, t.token.unclosed? (b :: stack) = some stack)
    (h : Closes opens ts) : Closes (b :: opens) (t :: ts) :=
  fun stack => Option.bind_eq_some_iff.mpr ⟨_, ht _, h stack⟩

/-- Brackets are closed one after the other. -/
theorem append (hts : Closes opens ts) (hus : Closes inner us) :
    Closes (opens ++ inner) (ts ++ us) := by
  intro stack
  unfold unclosed?
  rw [List.foldlM_append, List.append_assoc]
  exact Option.bind_eq_some_iff.mpr ⟨_, hts (inner ++ stack), hus stack⟩

/-- Tokens that close what they open may come before others. -/
theorem join (hts : Closes [] ts) (hus : Closes opens us) : Closes opens (ts ++ us) :=
  hts.append hus

end Closes

end ProtoScript
