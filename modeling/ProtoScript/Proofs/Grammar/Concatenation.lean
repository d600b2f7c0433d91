import ProtoScript.Proofs.Grammar.Imports
import ProtoScript.Proofs.Grammar.Seam
import ProtoScript.Proofs.Token.Append

/-!
# Programs one below the other

A program that is read without errors can be continued by another one below it.  The statements of both
are then those of the first program followed by those of the second one, which moves down by the rows
above it, and the errors are those of the second one.  Its first token must not continue a choice, and the
first program must not end inside a comment that is not closed.

Only places of the file itself move down.  The statements of an imported file and the errors in it have
places in that file, and no file that is imported has the name of the file that is read.
-/

namespace ProtoScript

/-- Moves what stands in a file down by some rows.  What stands in other files stays where it is. -/
def Relocation.down (file : String) (rows : Nat) : Relocation where
  place := Position.down rows
  error d := if d.file = file then { d with pos := d.pos.down rows } else d
  imported _ ss := ss
  final _ := False

/-- Leaves everything in its place and changes the errors without `P`. -/
def Relocation.marking (P : Diagnostic → Prop) [DecidablePred P] : Relocation where
  place := id
  error d := if P d then d else { d with message := d.message ++ "!" }
  imported _ ss := ss
  final _ := False

namespace Grammar

/-! ## Where errors come from -/

/-- An error is in the file that is read, or in a file that it brings in. -/
theorem mem_errors_readTokens {ctx : Context} {imports : List String} {ts : List Lexeme}
    {d : Diagnostic} (hd : d ∈ (readTokens ctx imports ts).errors) :
    d.file = ctx.file ∨ ∃ path i, ctx.bring path = .ok i ∧ d ∈ i.errors := by
  classical
  let P : Diagnostic → Prop := fun d =>
    d.file = ctx.file ∨ ∃ path i, ctx.bring path = .ok i ∧ d ∈ i.errors
  have hkept : ∀ d, P d → (Relocation.marking P).error d = d := fun d hP => if_pos hP
  have hbring : ∀ path ∈ imports ++ importedPaths ts,
      ctx.bring path = (Relocation.marking P).brought path (ctx.bring path) := by
    intro path _
    cases hpath : ctx.bring path with
    | error complaint => rfl
    | ok i =>
      have herrors : i.errors.map (Relocation.marking P).error = i.errors.map id :=
        List.map_congr_left fun d hd => hkept d (.inr ⟨path, i, hpath, hd⟩)
      rw [Relocation.brought, Relocation.inclusion, herrors, List.map_id]
      rfl
  -- everything is read as before, so no error was changed
  obtain ⟨_, -, hfinal⟩ | hsame := readTokens_relocated (τ := .marking P) rfl
    (fun e => hkept _ (.inl rfl)) hbring (.inr rfl)
  · cases hfinal
  · have hts : ts.map (Lexeme.relocated (.marking P)) = ts := List.map_id ts
    rw [hts] at hsame
    have herrors : (readTokens ctx imports ts).errors =
        (readTokens ctx imports ts).errors.map (Relocation.marking P).error :=
      congrArg Inclusion.errors hsame
    have hmarked : (Relocation.marking P).error d = d := by
      have hall := List.map_inj_left.mp (herrors.symm.trans (List.map_id _).symm)
      exact hall d hd
    by_contra hP
    have hmessage := congrArg (fun d => d.message.length) hmarked
    rw [show (Relocation.marking P).error d = { d with message := d.message ++ "!" } from
      if_neg hP] at hmessage
    simp at hmessage

/-- Errors are in the file that is read, or in files that are not on the way to it. -/
theorem file_of_mem_errors {files : String → Except FileError String} {depth : Nat}
    {enclosing imports : List String} {file source : String} {d : Diagnostic}
    (hd : d ∈ (readSource files depth enclosing imports file source).errors) :
    d.file = file ∨ d.file ∉ file :: enclosing := by
  induction depth using Nat.strongRecOn generalizing enclosing imports file source with
  | _ depth ih =>
    rw [readSource_eq] at hd
    obtain hfile | ⟨path, i, hbring, hi⟩ := mem_errors_readTokens hd
    · exact .inl hfile
    · obtain ⟨hnew, depth', text, rfl, rfl⟩ := exists_of_bringAt hbring
      obtain hpath | hother := ih depth' (Nat.lt_succ_self _) hi
      · exact .inr (hpath ▸ hnew)
      · exact .inr fun hmem => hother (List.mem_cons_of_mem _ hmem)

/-! ## More tokens -/

section Tokens

variable {ctx : Context} {imports : List String} {ts us : List Lexeme}

/-- If the tokens of a file are read without errors, and more tokens stand behind them that do not
continue a choice, then the statements of both are read, and the errors are those of the tokens
behind. -/
theorem readTokens_append (herrors : (readTokens ctx imports ts).errors = []) (ctx' : Context)
    (hbring : ∀ path, ctx'.bring path = ctx.bring path)
    (hbehind : ∀ l ∈ us.head?, l.token.continuesChoice = false) :
    (∀ t ∈ ts.getLast?, t.token.endsStatement = true) ∧
      readTokens ctx' imports (ts ++ us) =
        ⟨(readTokens ctx imports ts).statements ++ (readTokens ctx' [] us).statements,
          (readTokens ctx' [] us).errors⟩ := by
  obtain ⟨imported, ss, c, himported, hss, hfirst⟩ := exists_readTokens ctx imports ts
  obtain ⟨_, more, cₑ, hnone, hmore, hsecond⟩ := exists_readTokens ctx' [] us
  obtain ⟨imported', all, c', himported', hall, hboth⟩ :=
    exists_readTokens ctx' imports (ts ++ us)
  cases hnone
  rw [hfirst] at herrors
  obtain ⟨hseam, hahead⟩ := readGoal_statements_ahead hbehind hbring hss herrors hmore
  obtain ⟨-, hsame⟩ := importAll_extends hbehind hbring imports _ _ _ himported hseam
  obtain ⟨rfl, hcursor⟩ := EStateM.Result.ok.inj (himported'.symm.trans hsame)
  rw [hcursor, hahead] at hall
  cases hall
  refine ⟨hseam.last, ?_⟩
  rw [hboth, hfirst, hsecond, List.nil_append, List.append_assoc]

/-- A file that is read without errors ends with the end of a statement. -/
theorem endsStatement_of_errors_eq_nil (herrors : (readTokens ctx imports ts).errors = []) :
    ∀ t ∈ ts.getLast?, t.token.endsStatement = true := by
  have hbehind : ∀ l ∈ ([] : List Lexeme).head?, l.token.continuesChoice = false := by
    intro l hl
    cases hl
  exact (readTokens_append herrors ctx (fun _ => rfl) hbehind).1

/-- No statement starts with a word that continues a choice. -/
theorem statement_of_continuesChoice (self : {α : Type} → Goal α → Reader α) {l : Lexeme}
    (hl : l.token.continuesChoice = true) (rest : List Lexeme) (errors : List Diagnostic) :
    statement ctx self ⟨l :: rest, errors⟩ =
      .error ⟨.expectedExpression (some l.token), l.pos⟩ ⟨rest, errors⟩ := by
  obtain ⟨token, pos⟩ := l
  cases token with
  | keyword k =>
    cases k with
    | elifWord | elseWord => cases rest <;> rfl
    | _ => cases hl
  | _ => cases hl

/-- A file that is read without errors does not start with a word that continues a choice. -/
theorem head_of_errors_eq_nil (herrors : (readTokens ctx imports ts).errors = []) :
    ∀ l ∈ ts.head?, l.token.continuesChoice = false := by
  intro l hl
  obtain ⟨rest, rfl⟩ := List.head?_eq_some_iff.mp hl
  by_contra hcontinues
  rw [Bool.not_eq_false] at hcontinues
  obtain ⟨imported, ss, c, -, hss, hread⟩ := exists_readTokens ctx imports (l :: rest)
  -- the fault of the first statement stays recorded
  obtain ⟨found, c₁, hfound, -, -⟩ :=
    exists_statement? ctx ⟨l :: rest, imports.flatMap fun path => importErrors ctx path .outside⟩
      (List.cons_ne_nil _ _)
  obtain ⟨more, c₂, hmore⟩ := exists_readGoal_statements ctx false c₁
  have honward : c₁.Onward (reached (readGoal ctx (.statements false) c₁)) := readGoal_onward _ _
  rw [readGoal_statements_cons, bind_of_ok hfound, bind_of_ok hmore] at hss
  cases hss
  rw [hmore] at honward
  rw [Reads.statement?_apply, statement_of_continuesChoice _ hcontinues] at hfound
  cases hfound
  rw [hread] at herrors
  have hc : c.errors = [] := herrors
  have hprefix : _ <+: c.errors := honward.errors
  rw [hc] at hprefix
  exact absurd (List.prefix_nil.mp hprefix) (by simp)

end Tokens

/-! ## Programs -/

/-- The last of two runs of tokens ends where both end. -/
theorem lastPosition_append {ts us : List Lexeme} (hus : us ≠ []) :
    lastPosition (ts ++ us) = lastPosition us := by
  unfold lastPosition
  rw [List.getLast?_append_of_ne_nil _ hus]

/-- Further down, tokens end further down. -/
theorem lastPosition_down (rows : Nat) {ts : List Lexeme} (hts : ts ≠ []) :
    lastPosition (ts.map (Lexeme.down rows)) = (lastPosition ts).down rows := by
  unfold lastPosition
  rw [List.getLast?_map, List.getLast?_eq_some_getLast hts]
  rfl

/-- What a file brings in does not stand in it. -/
theorem brought_down {files : String → Except FileError String} {depth : Nat} {file path : String}
    (rows : Nat) : (Relocation.down file rows).brought path (bringAt files depth [file] path) =
      bringAt files depth [file] path := by
  cases hbring : bringAt files depth [file] path with
  | error complaint => rfl
  | ok i =>
    obtain ⟨hnew, depth', text, -, rfl⟩ := exists_of_bringAt hbring
    have herrors : (readSource files depth' [file] [] path text).errors.map
          (Relocation.down file rows).error =
        (readSource files depth' [file] [] path text).errors.map id := by
      refine List.map_congr_left fun d hd => if_neg ?_
      obtain hpath | hother := file_of_mem_errors hd
      · rw [hpath]
        exact fun heq => hnew (heq ▸ List.mem_cons_self)
      · exact fun heq => hother (heq ▸ List.mem_cons_of_mem _ List.mem_cons_self)
    rw [Relocation.brought, Relocation.inclusion, herrors, List.map_id]
    rfl

/-- A program further down in the same file. -/
theorem readTokens_down (ctx ctx' : Context) {us : List Lexeme} (rows : Nat)
    (hfile : ctx'.file = ctx.file) (hlast : us ≠ [] → ctx'.last = ctx.last.down rows)
    (hbring : ∀ path, ctx'.bring path = (Relocation.down ctx.file rows).brought path (ctx.bring path)) :
    readTokens ctx' [] (us.map (Lexeme.down rows)) =
      ⟨Statement.allRelocated (.down ctx.file rows) (readTokens ctx [] us).statements,
        (readTokens ctx [] us).errors.map (Relocation.down ctx.file rows).error⟩ := by
  by_cases hus : us = []
  · subst hus
    rfl
  · have hfault : ∀ e : Fault, (Relocation.down ctx.file rows).error (e.diagnostic ctx.file) =
        ((Relocation.down ctx.file rows).fault e).diagnostic ctx'.file := by
      intro e
      rw [hfile]
      exact if_pos rfl
    obtain ⟨_, -, hfinal⟩ | hsame :=
      readTokens_relocated (hlast hus) hfault (fun path _ => hbring path) (.inl rfl)
    · cases hfinal
    · exact hsame

/-- The statements of programs one below the other, each of them read by itself. -/
def piecewise (library : Library) (file : String) : List String → List Statement
  | [] => []
  | piece :: pieces => (readProgram library file [] piece).statements ++
      Statement.allRelocated (.down file (newlines piece + 1)) (piecewise library file pieces)

end Grammar

open Grammar

/-- Any other word does not continue a choice. -/
theorem Token.continuesChoice_eq_false {t : Token} (helif : t ≠ .keyword .elifWord)
    (helse : t ≠ .keyword .elseWord) : t.continuesChoice = false := by
  unfold continuesChoice
  split
  · exact absurd rfl helif
  · exact absurd rfl helse
  · rfl

/-- An empty text has no tokens. -/
theorem scan_empty : scan "" = [] := by
  decide +kernel

/-- There is nothing in an empty program. -/
theorem readProgram_empty (library : Library) (file : String) :
    readProgram library file [] "" = ⟨[], []⟩ := by
  unfold readProgram
  rw [readSource_eq, scan_empty]
  rfl

/-- Two programs, one below the other. -/
theorem readProgram_below {library : Library} (hlibrary : library.Bounded) (file : String)
    (imports : List String) {first second : String}
    (herrors : (readProgram library file imports first).errors = [])
    (hcomment : endsInComment first = false)
    (hchoice : ∀ t ∈ (scan second).head?, t.token.continuesChoice = false) :
    readProgram library file imports (first ++ "\n" ++ second) =
      ⟨(readProgram library file imports first).statements ++
          Statement.allRelocated (.down file (newlines first + 1))
            (readProgram library file [] second).statements,
        (readProgram library file [] second).errors.map
          (Relocation.down file (newlines first + 1)).error⟩ := by
  have hlength : (first ++ "\n" ++ second).length = first.length + 1 + second.length := by
    rw [String.length_append, String.length_append]
    rfl
  -- imports may nest equally deep in all three programs
  obtain ⟨depth, hdepth⟩ : ∃ depth, depth =
      library.size + (first ++ "\n" ++ second).length + imports.length := ⟨_, rfl⟩
  have hfirst : readProgram library file imports first =
      readSource library.read depth [] imports file first :=
    readProgram_eq_readSource hlibrary file imports first (by omega)
  have hsecond : readProgram library file [] second =
      readSource library.read depth [] [] file second :=
    readProgram_eq_readSource hlibrary file [] second (by rw [List.length_nil]; omega)
  have hboth : readProgram library file imports (first ++ "\n" ++ second) =
      readSource library.read depth [] imports file (first ++ "\n" ++ second) :=
    readProgram_eq_readSource hlibrary file imports _ (by omega)
  rw [readSource_eq] at hfirst hsecond hboth
  rw [hfirst] at herrors
  -- the first program ends with the end of a statement, so it does not end inside a quoted text
  have htext : ∀ t ∈ (scan first).getLast?, ∀ contents, t.token ≠ .text contents := by
    intro t ht contents heq
    have hcloses := endsStatement_of_errors_eq_nil herrors t ht
    rw [heq] at hcloses
    cases hcloses
  rw [scan_append_newline hcomment htext] at hboth
  have hbehind : ∀ l ∈ ((scan second).map (Lexeme.down (newlines first + 1))).head?,
      l.token.continuesChoice = false := by
    intro l hl
    rw [List.head?_map] at hl
    obtain ⟨t, ht, rfl⟩ := Option.mem_map.mp hl
    exact hchoice t ht
  have hlast : scan second ≠ [] →
      lastPosition (scan first ++ (scan second).map (Lexeme.down (newlines first + 1))) =
        (lastPosition (scan second)).down (newlines first + 1) := by
    intro hne
    rw [lastPosition_append (by simpa using hne), lastPosition_down _ hne]
  have happend := (readTokens_append herrors
    ⟨file, lastPosition (scan first ++ (scan second).map (Lexeme.down (newlines first + 1))),
      bringAt library.read depth [file]⟩ (fun _ => rfl) hbehind).2
  have hdown := readTokens_down
    ⟨file, lastPosition (scan second), bringAt library.read depth [file]⟩
    ⟨file, lastPosition (scan first ++ (scan second).map (Lexeme.down (newlines first + 1))),
      bringAt library.read depth [file]⟩
    (newlines first + 1) rfl hlast fun path => (brought_down _).symm
  rw [hboth, happend, hdown, hfirst, hsecond]

/-- Programs can be put one below the other.  If the first of two programs is read without errors and
does not end inside a comment, and if the second one does not start with a word that continues a choice,
then both together are read as the statements of the first one, followed by those of the second one with
every place moved down by the rows of the first one, and the errors are those of the second one, moved
down likewise.  So a program may as well be given line by line: if each piece of it is read without errors,
the pieces have the statements of the whole.  Imports ahead of a program are part of the first one. -/
theorem readProgram_concatenation {library : Library} (hlibrary : library.Bounded) (file : String) :
    (∀ (imports : List String) (first second : String),
      (readProgram library file imports first).errors = [] → endsInComment first = false →
      (∀ t ∈ (scan second).head?, t.token ≠ .keyword .elifWord ∧ t.token ≠ .keyword .elseWord) →
      readProgram library file imports (first ++ "\n" ++ second) =
        ⟨(readProgram library file imports first).statements ++
            Statement.allRelocated (.down file (newlines first + 1))
              (readProgram library file [] second).statements,
          (readProgram library file [] second).errors.map
            (Relocation.down file (newlines first + 1)).error⟩) ∧
    ∀ pieces : List String,
      (∀ piece ∈ pieces, (readProgram library file [] piece).errors = [] ∧
        endsInComment piece = false) →
      (∀ piece ∈ pieces, readProgram library file [] (piece ++ "\n") =
        readProgram library file [] piece) ∧
      readProgram library file [] (String.join (pieces.map (· ++ "\n"))) =
        ⟨piecewise library file pieces, []⟩ := by
  refine ⟨fun imports first second herrors hcomment hchoice => ?_, fun pieces hpieces => ⟨?_, ?_⟩⟩
  · refine readProgram_below hlibrary file imports herrors hcomment fun t ht => ?_
    obtain ⟨helif, helse⟩ := hchoice t ht
    exact Token.continuesChoice_eq_false helif helse
  · intro piece hpiece
    obtain ⟨herrors, hcomment⟩ := hpieces piece hpiece
    have hchoice : ∀ t ∈ (scan "").head?, t.token.continuesChoice = false := by
      rw [scan_empty]
      nofun
    have hbelow := readProgram_below hlibrary file [] herrors hcomment hchoice
    rw [readProgram_empty, String.append_empty] at hbelow
    rw [hbelow, Statement.allRelocated, List.append_nil, List.map_nil, ← herrors]
  · induction pieces with
    | nil => exact readProgram_empty library file
    | cons piece pieces ih =>
      obtain ⟨herrors, hcomment⟩ := hpieces piece List.mem_cons_self
      have hmore := ih fun p hp => hpieces p (List.mem_cons_of_mem _ hp)
      have hchoice : ∀ t ∈ (scan (String.join (pieces.map (· ++ "\n")))).head?,
          t.token.continuesChoice = false := by
        have hnone := congrArg Inclusion.errors hmore
        unfold readProgram at hnone
        rw [readSource_eq] at hnone
        exact head_of_errors_eq_nil hnone
      have hbelow := readProgram_below hlibrary file [] herrors hcomment hchoice
      rw [hmore] at hbelow
      rw [List.map_cons, String.join_cons, hbelow]
      rfl

/-- A choice that is complete, with a comment behind it. -/
def choiceSource : String :=
  "if a \x7b\x7d // b"

/-- A declaration whose semicolon is missing. -/
def unfinishedSource : String :=
  "let x = 1"

/-- Below a choice, the error of another program is one row further down.  The choice can be given line
by line, too. -/
theorem readProgram_concatenation_choice :
    FileTree.empty.library.Bounded ∧
    (readProgram FileTree.empty.library "main" [] choiceSource).errors = [] ∧
    (readProgram FileTree.empty.library "main" [] unfinishedSource).errors =
      [⟨.grammar, "main", ⟨1, 9⟩, "Expected ';', but encountered end of file"⟩] ∧
    (readProgram FileTree.empty.library "main" [] (choiceSource ++ "\n" ++ unfinishedSource)).errors =
      [⟨.grammar, "main", ⟨2, 9⟩, "Expected ';', but encountered end of file"⟩] ∧
    (readProgram FileTree.empty.library "main" []
      (String.join ([choiceSource, choiceSource].map (· ++ "\n")))).errors = [] := by
  have hfirst : (readProgram FileTree.empty.library "main" [] choiceSource).errors = [] := by
    unfold readProgram
    rw [readSource_eq]
    decide +kernel
  have hsecond : (readProgram FileTree.empty.library "main" [] unfinishedSource).errors =
      [⟨.grammar, "main", ⟨1, 9⟩, "Expected ';', but encountered end of file"⟩] := by
    unfold readProgram
    rw [readSource_eq]
    decide +kernel
  have hcomment : endsInComment choiceSource = false := by
    decide +kernel
  have hchoice : ∀ t ∈ (scan unfinishedSource).head?,
      t.token ≠ .keyword .elifWord ∧ t.token ≠ .keyword .elseWord := by
    decide +kernel
  obtain ⟨htwo, hpieces⟩ := readProgram_concatenation FileTree.empty.library_bounded "main"
  have hboth := congrArg Inclusion.errors (htwo [] _ _ hfirst hcomment hchoice)
  have hlines := hpieces [choiceSource, choiceSource] (by simp [hfirst, hcomment])
  refine ⟨FileTree.empty.library_bounded, hfirst, hsecond, ?_, congrArg Inclusion.errors hlines.2⟩
  rw [hboth, hsecond]
  decide +kernel

end ProtoScript
