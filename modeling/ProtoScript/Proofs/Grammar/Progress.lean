import Mathlib
import ProtoScript.Proofs.Grammar.Imports
import ProtoScript.Proofs.Grammar.Zone

/-!
# Reading always goes on

A reader never asks for a token where none is left, never nests deeper than it was started for, and never
goes back.  Statements are read one after the other until the input ends; each of them takes at least one
token with it, whether it can be read or not.  So reading a file ends, and it ends at the end.
-/

namespace ProtoScript

/-- A complaint about the text, or one about an import.  The complaints that are left out are those of a
reader about itself. -/
def Complaint.IsGenuine (ctx : Grammar.Context) (complaint : Complaint) : Prop :=
  complaint.isOrdinary = true ∨ ∃ path, ctx.bring path = .error complaint

namespace Grammar

variable {ctx : Context}

/-- All tokens, for readers that stop with genuine complaints only. -/
def Zone.everywhere (ctx : Context) : Zone ctx where
  At _ := True
  Needs _ := True
  After _ := True
  Stops complaint _ := complaint.IsGenuine ctx
  at_of_needs _ := trivial
  needs _ _ := trivial
  pass _ _ := trivial
  demand _ _ := trivial
  ended _ := trivial
  unended _ := trivial
  stop hordinary _ := .inl hordinary
  taken hordinary _ := .inl hordinary
  unbrought hbring _ := .inr ⟨_, hbring⟩
  braces := .inl fun _ => trivial

/-- A reader that keeps to the zone stops in it. -/
theorem Zone.Stays.stops {Z : Zone ctx} {α : Type} {P : List Lexeme → Prop} {x : Reader α}
    {Q : α → List Lexeme → Prop} (h : Z.Stays P x Q) {c c' : Cursor} {e : Fault} (hc : P c.rest)
    (herror : x c = .error e c') : Z.Stops e.complaint c'.rest := by
  rcases h c.rest hc with ⟨a, left, ⟨ds, hyields⟩, -⟩ | ⟨e', left, ⟨ds, hfails⟩, hstops⟩
  · have heq := herror.symm.trans (hyields c.errors)
    cases heq
  · have heq := herror.symm.trans (hfails c.errors)
    cases heq
    exact hstops

/-- A goal is not given up for reasons other than the text and its imports. -/
theorem readGoal_genuine {α : Type} (g : Goal α) {c c' : Cursor} {e : Fault}
    (h : readGoal ctx g c = .error e c') : e.complaint.IsGenuine ctx := by
  have hentry : (Zone.everywhere ctx).Entry g c.rest := by
    cases g with
    | arguments first | elements first | parameters first => cases first <;> trivial
    | members | statements => exact fun _ => trivial
    | _ => trivial
  exact ((Zone.everywhere ctx).holds_readGoal g).stops hentry h

/-- A statement is not given up for reasons other than the text and its imports. -/
theorem statement_genuine {c c' : Cursor} {e : Fault} (h : statement ctx (readGoal ctx) c = .error e c') :
    e.complaint.IsGenuine ctx := by
  have hstays : (Zone.everywhere ctx).Stays (fun _ => True) (statement ctx (readGoal ctx)) fun _ _ => True :=
    Zone.Holds.statement (Zone.everywhere ctx).holds_readGoal
  exact hstays.stops trivial h

/-- Reading a statement goes onward. -/
theorem statement_onward (c : Cursor) : c.Onward (reached (statement ctx (readGoal ctx) c)) := by
  have htwins : Twins (.identity fun _ => False) ctx ctx (readGoal ctx) (readGoal ctx) c.rest :=
    twins_identity (fun g c' _ => readGoal_onward g c') fun _ _ _ => .inr rfl
  exact (htwins.statement c List.suffix_rfl).1

/-- Statements are read until the input ends, or the block does. -/
theorem readGoal_statements_end {inBlock : Bool} {c c' : Cursor} {ss : List Statement}
    (h : readGoal ctx (.statements inBlock) c = .ok ss c') :
    c'.rest = [] ∨ inBlock = true ∧ c'.rest.head?.map (·.token) = some (.mark .closeBrace) := by
  induction hn : c.rest.length using Nat.strongRecOn generalizing c ss with
  | _ n ih =>
    obtain ⟨rest, errors⟩ := c
    rw [readGoal_eq_rule] at h
    change statements ctx (readGoal ctx) inBlock ⟨rest, errors⟩ = .ok ss c' at h
    cases rest with
    | nil =>
      cases h
      exact .inl rfl
    | cons t rest =>
      cases hends : inBlock && t.token == .mark .closeBrace with
      | true =>
        obtain ⟨rfl, htoken⟩ := Bool.and_eq_true_iff.mp hends
        have hstatements : statements ctx (readGoal ctx) true ⟨t :: rest, errors⟩ =
            .ok [] ⟨t :: rest, errors⟩ := by
          unfold statements
          change (if (true && t.token == .mark .closeBrace) = true then _ else _ : Reader _) _ = _
          rw [if_pos hends]
          rfl
        rw [hstatements] at h
        cases h
        exact .inr ⟨rfl, congrArg some (eq_of_beq htoken)⟩
      | false =>
        obtain ⟨found, c₁, hfound, -, hinside⟩ :=
          exists_statement? ctx ⟨t :: rest, errors⟩ (List.cons_ne_nil _ _)
        obtain ⟨more, c₂, hmore⟩ := exists_readGoal_statements ctx inBlock c₁
        rw [statements_cons hends, bind_of_ok hfound, bind_of_ok hmore] at h
        cases h
        exact ih c₁.rest.length (hn ▸ hinside.2) hmore rfl

end Grammar

/-- A letter that asks for a radix is one byte long, like the zero before it. -/
theorem Literal.utf8ByteSize_of_radix? {c : Char} {radix : Nat} (h : radix? c = some radix) :
    (String.ofList ['0', c]).utf8ByteSize = 2 := by
  unfold radix? at h
  split at h
  · rename_i hc
    rcases hc with rfl | rfl <;> decide
  split at h
  · rename_i hc
    rcases hc with rfl | rfl <;> decide
  split at h
  · rename_i hc
    rcases hc with rfl | rfl <;> decide
  · cases h

/-- A numeral is read as a whole, or from its third byte on. -/
theorem Literal.ofNumeral?_cases (spelling : String) :
    ofNumeral? spelling = plainNumeral? spelling.toList ∨
      ∃ front digits radix, spelling = front ++ digits ∧ front.utf8ByteSize = 2 ∧
        ofNumeral? spelling = (Number.integer? radix digits.toList).map int := by
  unfold ofNumeral?
  split
  · rename_i c cs hchars
    cases hradix : radix? c with
    | none => exact .inl (by rw [hchars])
    | some radix =>
      refine .inr ⟨String.ofList ['0', c], String.ofList cs, radix, ?_,
        utf8ByteSize_of_radix? hradix, ?_⟩
      · rw [← String.ofList_append, ← spelling.ofList_toList, hchars]
        rfl
      · rw [String.toList_ofList]
  · exact .inl rfl

open Grammar in
/-- **Progress.** Whatever the tokens of a file are, and whatever its imports bring in:

* rules nest no deeper than there are tokens, so the bound on nesting never shows, and reading a goal is
  reading it by its rule;
* a reader only goes on from the tokens that are left to the last ones of them; it complains about the text
  or about an import, and neither about its own nesting nor about tokens that are not there; and the same
  is true of statements;
* where there are tokens, a statement or the attempt to read one takes at least one of them;
* statements are read until the input ends, or until the brace at which their block does;
* so a file is read to its end;
* a numeral is read as a whole, or from its third byte on. -/
theorem reading_progresses (ctx : Context) :
    (∀ {α : Type} (g : Goal α) (c : Cursor) (n : Nat), c.rest.length < n →
      read ctx n g c = readGoal ctx g c ∧ readGoal ctx g c = rule ctx (readGoal ctx) g c) ∧
    (∀ {α : Type} (g : Goal α) (c : Cursor), c.Onward (reached (readGoal ctx g c)) ∧
      ∀ e c', readGoal ctx g c = .error e c' → e.complaint.IsGenuine ctx) ∧
    (∀ c : Cursor, c.Onward (reached (statement ctx (readGoal ctx) c)) ∧
      ∀ e c', statement ctx (readGoal ctx) c = .error e c' → e.complaint.IsGenuine ctx) ∧
    (∀ c : Cursor, c.rest ≠ [] → ∃ found c', statement? ctx (readGoal ctx) c = .ok found c' ∧
      c'.rest <:+ c.rest ∧ c'.rest.length < c.rest.length) ∧
    (∀ (inBlock : Bool) (c : Cursor), ∃ ss c', readGoal ctx (.statements inBlock) c = .ok ss c' ∧
      (c'.rest = [] ∨ inBlock = true ∧ c'.rest.head?.map (·.token) = some (.mark .closeBrace))) ∧
    (∀ imports ts, ∃ imported c ss c', importAll ctx imports ⟨ts, []⟩ = .ok imported c ∧ c.rest = ts ∧
      read ctx (ts.length + 1) (.statements false) c = .ok ss c' ∧ c'.rest = [] ∧
      readTokens ctx imports ts = ⟨imported ++ ss, c'.errors⟩) ∧
    (∀ spelling, Literal.ofNumeral? spelling = Literal.plainNumeral? spelling.toList ∨
      ∃ front digits radix, spelling = front ++ digits ∧ front.utf8ByteSize = 2 ∧
        Literal.ofNumeral? spelling = (Number.integer? radix digits.toList).map .int) := by
  refine ⟨?_, ?_, ?_, ?_, ?_, ?_, Literal.ofNumeral?_cases⟩
  · intro α g c n hn
    exact ⟨read_eq_readGoal g hn, readGoal_eq_rule g c⟩
  · intro α g c
    exact ⟨readGoal_onward g c, fun e c' => readGoal_genuine g⟩
  · intro c
    exact ⟨statement_onward c, fun e c' => statement_genuine⟩
  · intro c hne
    obtain ⟨found, c', hfound, -, hinside⟩ := exists_statement? ctx c hne
    exact ⟨found, c', hfound, hinside⟩
  · intro inBlock c
    obtain ⟨ss, c', hss⟩ := exists_readGoal_statements ctx inBlock c
    exact ⟨ss, c', hss, readGoal_statements_end hss⟩
  · intro imports ts
    obtain ⟨imported, ss, c', himported, hss, hread⟩ := exists_readTokens ctx imports ts
    have hend : c'.rest = [] := by
      rcases readGoal_statements_end hss with hend | ⟨hblock, -⟩
      · exact hend
      · cases hblock
    refine ⟨imported, _, ss, c', himported, rfl, ?_, hend, hread⟩
    exact (read_eq_readGoal (.statements false) (Nat.lt_succ_self ts.length)).trans hss

open Grammar in
/-- Of a file with the tokens `)` and `let`, neither of which can be read, both are consumed. -/
theorem reading_progresses_broken :
    let ctx : Context := ⟨"main", .start, fun path => .error (.circularImport path)⟩
    let ts : List Lexeme := [⟨.mark .closeParen, .start⟩, ⟨.keyword .letWord, .start⟩]
    (∃ found c', statement? ctx (readGoal ctx) ⟨ts, []⟩ = .ok found c' ∧ c'.rest <:+ ts ∧
      c'.rest.length < 2) ∧
    read ctx 3 (.statements false) ⟨ts, []⟩ = readGoal ctx (.statements false) ⟨ts, []⟩ ∧
    (readTokens ctx [] ts).errors.length = 2 := by
  intro ctx ts
  obtain ⟨hdepth, -, -, hround, -⟩ := reading_progresses ctx
  refine ⟨hround ⟨ts, []⟩ (List.cons_ne_nil _ _), ?_, by decide⟩
  exact (hdepth (.statements false) ⟨ts, []⟩ 3 (by decide)).1

end ProtoScript
