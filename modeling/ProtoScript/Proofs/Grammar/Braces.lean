import ProtoScript.Proofs.Grammar.Reread
import ProtoScript.Proofs.Grammar.Soundness

/-!
# Braces of phrases

Whatever can be read without errors closes each brace that it opens and no other.  So the tokens of a
program can be put between the braces of a mixin, and the mixin captures exactly these tokens.
-/

namespace ProtoScript

namespace Grammar

/-! ## Putting balanced tokens together -/

/-- Tokens that close all their braces may stand before tokens that close some more. -/
theorem Balanced.append {d e : Nat} {ts us : List Lexeme} (hts : Balanced d ts)
    (hus : Balanced e us) : Balanced (d + e) (ts ++ us) := by
  induction hts with
  | nil =>
    rw [Nat.zero_add]
    exact hus
  | opening pos h ih =>
    rw [Nat.add_right_comm] at ih
    exact .opening pos ih
  | closing pos h ih =>
    rw [Nat.add_right_comm]
    exact .closing pos ih
  | other hopen hclose h ih => exact .other hopen hclose ih

/-- Balanced tokens, one after the other, are balanced. -/
theorem Balanced.join {ts us : List Lexeme} (hts : Balanced 0 ts) (hus : Balanced 0 us) :
    Balanced 0 (ts ++ us) :=
  hts.append hus

/-- Balanced tokens between braces are balanced. -/
theorem Balanced.enclosed {ts : List Lexeme} (h : Balanced 0 ts) (pos endPos : Position) :
    Balanced 0 (⟨.mark .openBrace, pos⟩ :: ts ++ [⟨.mark .closeBrace, endPos⟩]) :=
  .opening pos (h.append (.closing endPos .nil))

/-- An operator is no brace. -/
theorem Balanced.unaryMark {ts : List Lexeme} (op : UnaryOperator) (pos : Position)
    (h : Balanced 0 ts) : Balanced 0 (⟨.mark op.mark, pos⟩ :: ts) := by
  cases op <;> exact .other nofun nofun h

/-- An operator between two operands is no brace. -/
theorem Balanced.binaryMark {ts : List Lexeme} (op : BinaryOperator) (pos : Position)
    (h : Balanced 0 ts) : Balanced 0 (⟨.mark op.mark, pos⟩ :: ts) := by
  cases op <;> exact .other nofun nofun h

/-- A mark that assigns is no brace. -/
theorem Balanced.compoundMark {ts : List Lexeme} {m : Mark} {op : BinaryOperator}
    (hop : (m, op) ∈ compoundMarks) (pos : Position) (h : Balanced 0 ts) :
    Balanced 0 (⟨.mark m, pos⟩ :: ts) := by
  simp only [compoundMarks, List.mem_cons, List.not_mem_nil, or_false, Prod.mk.injEq] at hop
  obtain ⟨rfl, -⟩ | ⟨rfl, -⟩ | ⟨rfl, -⟩ | ⟨rfl, -⟩ := hop <;> exact .other nofun nofun h

/-- A comma is no brace. -/
theorem Separates.balanced {first : Bool} {sep : List Lexeme} (h : Separates first sep) :
    Balanced 0 sep := by
  cases h with
  | first => exact .nil
  | comma pos => exact .other nofun nofun .nil

/-! ## Phrases -/

/-- Every phrase closes the braces that it opens. -/
theorem Derives.balanced {α : Type} {p : Phrase α} {ts : List Lexeme} {a : α}
    (h : Derives p ts a) : Balanced 0 ts := by
  induction h with
  | compound pos hop _ _ _ ihtarget ih => exact ihtarget.join (ih.compoundMark hop pos)
  | binary pos _ _ _ ihleft ihright => exact ihleft.join (ihright.binaryMark _ pos)
  | unary op pos _ ih => exact ih.unaryMark op pos
  | object pos endPos _ ih => exact ih.enclosed pos endPos
  | block pos endPos _ ih => exact ih.enclosed pos endPos
  | mixin pos openPos endPos h =>
    exact .other (by simp) (by simp) (h.enclosed openPos endPos)
  | argument hsep _ _ ih ihmore => exact (hsep.balanced.join ih).join ihmore
  | lastArgument pos hsep _ ih => exact hsep.balanced.join (.other (by simp) (by simp) ih)
  | element hsep _ _ ih ihmore => exact (hsep.balanced.join ih).join ihmore
  | parameter name pos hsep _ _ ihtype ihmore =>
    exact (hsep.balanced.join (.other (by simp) (by simp) ihtype)).join ihmore
  | lastParameter name pos namePos hsep _ ihtype =>
    exact hsep.balanced.join (.other (by simp) (by simp) (.other (by simp) (by simp) ihtype))
  | moreMembers endPos _ _ ih ihmore => exact ih.join (.other (by simp) (by simp) ihmore)
  | _ =>
    repeat' first
      | assumption
      | exact .nil
      | refine .other nofun nofun ?_
      | refine .join ?_ ?_

/-- The tokens of a program without imports that is read without errors are balanced. -/
theorem balanced_of_errors_eq_nil {ctx : Context} {ts : List Lexeme} (hfree : ImportFree ts)
    (herrors : (readTokens ctx [] ts).errors = []) : Balanced 0 ts := by
  obtain ⟨c, hread, hc⟩ := exists_read_of_errors_eq_nil herrors
  obtain ⟨-, hused⟩ := Reads.read _ _ _ _ _ hread hc
  obtain ⟨used, hts, ⟨parts, rfl, hparts⟩, hend⟩ := hused hfree
  have hparts' : ts = parts.flatten := by
    rwa [hend rfl, List.append_nil] at hts
  rw [hparts']
  exact (Derives.of_parts hparts).balanced

/-- A mixin captures exactly the balanced tokens between its braces. -/
theorem primary_mixin (ctx : Context) (self : {α : Type} → Goal α → Reader α) {ts : List Lexeme}
    (h : Balanced 0 ts) (pos openPos endPos : Position) (rest : List Lexeme)
    (errors : List Diagnostic) :
    primary ctx self ⟨⟨.keyword .mixinWord, pos⟩ :: ⟨.mark .openBrace, openPos⟩ ::
        (ts ++ ⟨.mark .closeBrace, endPos⟩ :: rest), errors⟩ =
      .ok (.mixin ts pos) ⟨rest, errors⟩ := by
  have hend := h.balanced?_eq rfl endPos rest
  let inside : Cursor := ⟨ts ++ ⟨.mark .closeBrace, endPos⟩ :: rest, errors⟩
  have hopen : expect ctx (.mark .openBrace) ⟨⟨.mark .openBrace, openPos⟩ :: inside.rest, errors⟩ =
      .ok openPos inside := rfl
  have hget : (get : Reader Cursor) inside = .ok inside inside := rfl
  change mixin ctx pos ⟨⟨.mark .openBrace, openPos⟩ :: inside.rest, errors⟩ = _
  unfold mixin
  rw [bind_of_ok hopen, bind_of_ok hget, hend]
  rfl

end Grammar

end ProtoScript
