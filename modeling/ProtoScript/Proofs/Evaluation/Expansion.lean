import ProtoScript.Eval.Run
import ProtoScript.Proofs.Evaluation.Ending
import ProtoScript.Proofs.Grammar.Braces
import ProtoScript.Proofs.Grammar.Independence
import ProtoScript.Proofs.Token.Render

/-!
# Expanding a mixin

A mixin keeps the tokens between its braces, and its value is the text that they are rendered to.
Expanding that text scans it again, which gives the same tokens at other places, and reads them.  What is
read depends on the tokens only, so the statements that are run are those that the tokens were read as in
the first place, up to places.
-/

namespace ProtoScript

namespace Grammar

/-- Tokens without imports name no paths. -/
theorem ImportFree.importedPaths_eq_nil {ts : List Lexeme} (h : ImportFree ts) :
    importedPaths ts = [] := by
  induction ts with
  | nil => rfl
  | cons t ts ih =>
    cases ts with
    | nil => rfl
    | cons u ts =>
      have hnone : pathOf? t.token u.token = none := by
        unfold pathOf?
        split
        · rename_i ht _
          exact absurd ht (h t List.mem_cons_self)
        · rfl
      rw [importedPaths_cons_cons, hnone, ih fun v hv => h v (List.mem_cons_of_mem _ hv)]
      rfl

end Grammar

namespace Eval

open Grammar

/-! ## What expanding does -/

/-- To read a text without imports, no file is needed. -/
theorem readText_of_no_imports {fuel : Nat} (hfuel : 0 < fuel) {source : String}
    (hpaths : importedPaths (scan source) = []) (file : String) (m : Machine) :
    ∃ files, readText fuel file [] source m = .ok (readProgram files file [] source) m := by
  obtain ⟨fuel, rfl⟩ := Nat.exists_eq_succ_of_ne_zero (Nat.ne_of_gt hfuel)
  have hlibrary : ∃ files, library (fuel + 1) [] m = .ok files m := by
    unfold library
    rw [get_bind]
    cases m.host.world with
    | simulated s => exact ⟨_, rfl⟩
    | replayed answers => exact ⟨_, rfl⟩
  obtain ⟨files, hfiles⟩ := hlibrary
  refine ⟨files, ?_⟩
  unfold readText
  rw [List.nil_append, hpaths, bind_of_ok hfiles]
  rfl

/-- Running statements for the value of the last one goes over them from left to right. -/
theorem runForValue_eq_foldlM (self : Work → Eval Value) (last : Value) (ss : List Statement) :
    runForValue self last ss = ss.foldlM (fun _ s => self (.statement s)) last := by
  induction ss generalizing last with
  | nil => rfl
  | cons s ss ih =>
    rw [List.foldlM_cons, runForValue]
    exact bind_congr fun v => ih v

/-- Expanding a text without imports reads it as a text of the current file.  If it has no errors, its
statements are loaded and run one after the other, right here; otherwise there is one error. -/
theorem exists_expand_eq (self : Work → Eval Value) (fuel : Nat) {source : String} (pos : Position)
    (m : Machine) (hpaths : importedPaths (scan source) = []) :
    ∃ ctx : Context, ctx.file = m.file ∧
      expand self (fuel + 1) source pos m =
        if (readTokens ctx [] (scan source)).errors = [] then
          (loadProgram m.loads (readTokens ctx [] (scan source)).statements).foldlM
            (fun _ s => self (.statement s)) .null { m with loads := m.loads + 1 }
        else
          raise (.expansionFailed ((readTokens ctx [] (scan source)).errors.map (·.render))) pos m := by
  obtain ⟨ctx, hfile, hread⟩ : ∃ ctx : Context, ctx.file = m.file ∧
      readText (fuel + 1) m.file [] source m = .ok (readTokens ctx [] (scan source)) m := by
    obtain ⟨files, hread⟩ := readText_of_no_imports (Nat.succ_pos fuel) hpaths m.file m
    unfold readProgram at hread
    rw [readSource_eq] at hread
    exact ⟨_, rfl, hread⟩
  refine ⟨ctx, hfile, ?_⟩
  unfold expand
  rw [get_bind, bind_of_ok hread]
  simp only [List.isEmpty_iff]
  split
  · rw [← runForValue_eq_foldlM]
    rfl
  · rfl

/-- The native function that expands a text does so. -/
theorem run_expandText (fuel : Nat) (receiver : Option ObjectRef) (source : String) (pos : Position)
    (m : Machine) :
    run (fuel + 1) (.call (.native .expandText) receiver [.text source] pos) m =
      expand (run fuel) fuel source pos m :=
  rfl

/-- Expanding a mixin equals writing its code inline.

Let `ts` be tokens without imports, each of which comes from some text.  A mixin with balanced tokens
captures exactly these, and tokens that are read without errors are balanced.  The value of the mixin is
a text, and finding it changes nothing.  If reading `ts` gives no errors, then expanding the text runs,
in the current scope and in order, statements that are the same as those that `ts` are read as, up to
places, and up to the origins that are written into their procedures when they are loaded.  If reading
`ts` gives errors, then expanding the text raises one error and does nothing else.
Behind this is that what is read depends on the tokens only: tokens at other places are read as the same
statements, and with the same errors, up to places. -/
theorem expand_mixin {ts : List Lexeme}
    (hscanned : ∀ t ∈ ts, ∃ source, t.token ∈ (scan source).map (·.token)) (hfree : ImportFree ts)
    (m : Machine) (last : Position) (bring : String → Except Complaint Inclusion) (n : Nat)
    (receiver : Option ObjectRef) (mixinPos pos : Position) :
    (∀ (ctx : Context) (self : {α : Type} → Goal α → Reader α) (openPos endPos : Position)
        (rest : List Lexeme) (errors : List Diagnostic), Balanced 0 ts →
      primary ctx self ⟨⟨.keyword .mixinWord, mixinPos⟩ :: ⟨.mark .openBrace, openPos⟩ ::
          (ts ++ ⟨.mark .closeBrace, endPos⟩ :: rest), errors⟩ =
        .ok (.mixin ts mixinPos) ⟨rest, errors⟩) ∧
    (∃ v, run (n + 1) (.expression (.mixin ts mixinPos)) m = .ok v m ∧
      ((readTokens ⟨m.file, last, bring⟩ [] ts).errors = [] →
        Balanced 0 ts ∧
        ∃ ss, Statement.allBare ss =
            Statement.allBare (readTokens ⟨m.file, last, bring⟩ [] ts).statements ∧
          (∀ o, (loadProgram m.loads ss).map (Statement.loaded o) = ss.map (Statement.loaded o)) ∧
          run (n + 2) (.call (.native .expandText) receiver [v] pos) m =
            (loadProgram m.loads ss).foldlM (fun _ s => run (n + 1) (.statement s)) .null
              { m with loads := m.loads + 1 }) ∧
      ((readTokens ⟨m.file, last, bring⟩ [] ts).errors ≠ [] →
        ∃ d : Diagnostic, d.kind = .expansion ∧ d.file = m.file ∧ d.pos = pos ∧
          run (n + 2) (.call (.native .expandText) receiver [v] pos) m =
            .error (.raised d) { m with raised := m.raised ++ [d] })) ∧
    (∀ (ctx ctx' : Context) (imports : List String) (us vs : List Lexeme), ctx'.file = ctx.file →
      ctx'.bring = ctx.bring → vs.map (·.token) = us.map (·.token) →
      Statement.allBare (readTokens ctx' imports vs).statements =
          Statement.allBare (readTokens ctx imports us).statements ∧
        (readTokens ctx' imports vs).errors.map Diagnostic.bare =
          (readTokens ctx imports us).errors.map Diagnostic.bare) := by
  have htokens : (scan (Token.render (ts.map (·.token)))).map (·.token) = ts.map (·.token) := by
    refine Token.map_token_scan_render fun t ht => ?_
    obtain ⟨l, hl, rfl⟩ := List.mem_map.mp ht
    exact Token.stands_of_mem_scan (hscanned l hl)
  have hpaths : importedPaths ts = [] := hfree.importedPaths_eq_nil
  refine ⟨fun ctx self openPos endPos rest errors hb =>
    primary_mixin ctx self hb mixinPos openPos endPos rest errors, ?_, ?_⟩
  · -- the text of the mixin is scanned into the same tokens, at other places
    obtain ⟨ctx, hfile, hexpand⟩ := exists_expand_eq (run (n + 1)) n pos m
      ((importedPaths_eq_of_tokens htokens).trans hpaths)
    have hsame : Statement.allBare
          (readTokens ctx [] (scan (Token.render (ts.map (·.token))))).statements =
            Statement.allBare (readTokens ⟨m.file, last, bring⟩ [] ts).statements ∧
        (readTokens ctx [] (scan (Token.render (ts.map (·.token))))).errors.map Diagnostic.bare =
          (readTokens ⟨m.file, last, bring⟩ [] ts).errors.map Diagnostic.bare := by
      refine readTokens_bare hfile htokens fun path hpath => ?_
      rw [hpaths] at hpath
      cases hpath
    have hnil : (readTokens ctx [] (scan (Token.render (ts.map (·.token))))).errors = [] ↔
        (readTokens ⟨m.file, last, bring⟩ [] ts).errors = [] := by
      rw [← List.map_eq_nil_iff (f := Diagnostic.bare), hsame.2, List.map_eq_nil_iff]
    refine ⟨.text (Token.render (ts.map (·.token))), rfl, fun herrors => ?_, fun herrors => ?_⟩
    · refine ⟨balanced_of_errors_eq_nil hfree herrors, _, hsame.1, map_loaded_loadProgram _ _, ?_⟩
      rw [run_expandText, hexpand, if_pos (hnil.mpr herrors)]
    · rw [run_expandText, hexpand, if_neg (mt hnil.mp herrors)]
      exact ⟨_, rfl, rfl, rfl, rfl⟩
  · intro ctx ctx' imports us vs hfile hbring htokens
    exact readTokens_bare hfile htokens fun path _ => congrFun hbring path

/-- A source with a block, a text and a procedure. -/
def inlineSource : String :=
  "let f = x -> \x7b y = \"a b\"; \x7d; \x7b f(1); \x7d"

/-- A source that is no program. -/
def brokenSource : String :=
  "let = 1; \x7b f(1); \x7d"

/-- A context in which nothing can be imported. -/
def nothingToImport (path : String) : Except Complaint Inclusion :=
  .error (.unreadable path .notFound)

/-- A mixin of a program is expanded to the statements of the program, one of something else raises an
error. -/
theorem expand_mixin_sample :
    (ImportFree (scan inlineSource) ∧
      (readTokens ⟨"main", .outside, nothingToImport⟩ [] (scan inlineSource)).errors = [] ∧
      ∃ v ss, run 1 (.expression (.mixin (scan inlineSource) ⟨7, 3⟩)) (.initial "main" default) =
          .ok v (.initial "main" default) ∧
        Statement.allBare ss = Statement.allBare
          (readTokens ⟨"main", .outside, nothingToImport⟩ [] (scan inlineSource)).statements ∧
        run 2 (.call (.native .expandText) none [v] ⟨8, 1⟩) (.initial "main" default) =
          (loadProgram 0 ss).foldlM (fun _ s => run 1 (.statement s)) .null
            { Machine.initial "main" default with loads := 1 }) ∧
    (ImportFree (scan brokenSource) ∧
      (readTokens ⟨"main", .outside, nothingToImport⟩ [] (scan brokenSource)).errors ≠ [] ∧
      ∃ v d, run 1 (.expression (.mixin (scan brokenSource) ⟨7, 3⟩)) (.initial "main" default) =
          .ok v (.initial "main" default) ∧
        run 2 (.call (.native .expandText) none [v] ⟨8, 1⟩) (.initial "main" default) =
          .error (.raised d) { Machine.initial "main" default with raised := [d] }) := by
  have hscanned : ∀ source, ∀ t ∈ scan source, ∃ source, t.token ∈ (scan source).map (·.token) :=
    fun source t ht => ⟨source, List.mem_map_of_mem ht⟩
  have hinline : ImportFree (scan inlineSource) := by
    unfold ImportFree
    decide +kernel
  have hbroken : ImportFree (scan brokenSource) := by
    unfold ImportFree
    decide +kernel
  have hnone : (readTokens ⟨"main", .outside, nothingToImport⟩ [] (scan inlineSource)).errors = [] := by
    decide +kernel
  have hsome : (readTokens ⟨"main", .outside, nothingToImport⟩ [] (scan brokenSource)).errors ≠ [] := by
    decide +kernel
  obtain ⟨-, ⟨v, hv, hgood, -⟩, -⟩ := expand_mixin (hscanned inlineSource) hinline
    (.initial "main" default) .outside nothingToImport 0 none ⟨7, 3⟩ ⟨8, 1⟩
  obtain ⟨-, ⟨w, hw, -, hbad⟩, -⟩ := expand_mixin (hscanned brokenSource) hbroken
    (.initial "main" default) .outside nothingToImport 0 none ⟨7, 3⟩ ⟨8, 1⟩
  obtain ⟨-, ss, hbare, -, hrun⟩ := hgood hnone
  obtain ⟨d, -, -, -, hraise⟩ := hbad hsome
  exact ⟨⟨hinline, hnone, v, ss, hv, hbare, hrun⟩, hbroken, hsome, w, d, hw, hraise⟩

end Eval

end ProtoScript
