import ProtoScript.Proofs.Grammar.ImportNodes
import ProtoScript.Proofs.Grammar.Nesting

/-!
# Imports come to an end

Three things about the imports of a program.  Reading it comes to an end, with one outcome, although
nothing bounds how deep files may import each other.  No file is nested in itself: along any chain of
imports inside each other the paths are different, and different from that of the root.  And wherever the
reader comes to an import that would nest a file in itself, there is an error about it, in the file and
at the place of that import.

Where the reader comes to is told by what its outcome depends on: a rule asks for a phrase if its outcome
would not be the same with another reader for that phrase.
-/

namespace ProtoScript

namespace Grammar

/-! ## Chains of imports -/

/-- The paths along imports inside each other, from the statements of a program on. -/
inductive Chain : List Statement → List String → Prop where
  | nil (ss : List Statement) : Chain ss []
  | cons {ss inner : List Statement} {path : String} {paths : List String}
    (h : (path, inner) ∈ Statement.allImports ss) (hmore : Chain inner paths) :
    Chain ss (path :: paths)

/-- An import in what is read from a source comes from reading its file, and its path is new. -/
theorem exists_readSource_of_mem_imports {files : String → Except FileError String} {depth : Nat}
    {enclosing imports : List String} {file source path : String} {inner : List Statement}
    (h : (path, inner) ∈
      Statement.allImports (readSource files depth enclosing imports file source).statements) :
    path ∉ file :: enclosing ∧ ∃ depth' text,
      inner = (readSource files depth' (file :: enclosing) [] path text).statements := by
  rw [readSource_eq] at h
  obtain ⟨i, hi, rfl⟩ := exists_bring_of_mem_imports h
  obtain ⟨hnew, depth', text, -, rfl⟩ := exists_of_bringAt hi
  exact ⟨hnew, depth', text, rfl⟩

/-- Along a chain no path comes twice, and none of those that lead to the source. -/
theorem Chain.nodup {ss : List Statement} {paths : List String} (h : Chain ss paths)
    {files : String → Except FileError String} {depth : Nat} {enclosing imports : List String}
    {file source : String}
    (hss : ss = (readSource files depth enclosing imports file source).statements) :
    (∀ path ∈ paths, path ∉ file :: enclosing) ∧ paths.Nodup := by
  induction h generalizing depth enclosing imports file source with
  | nil ss => exact ⟨nofun, List.nodup_nil⟩
  | @cons ss inner path paths h hmore ih =>
    rw [hss] at h
    obtain ⟨hnew, depth', text, hinner⟩ := exists_readSource_of_mem_imports h
    obtain ⟨hpaths, hnodup⟩ := ih hinner
    refine ⟨?_, List.nodup_cons.mpr ⟨?_, hnodup⟩⟩
    · intro p hp
      rcases List.mem_cons.mp hp with rfl | hp
      · exact hnew
      · exact fun hmem => hpaths p hp (List.mem_cons_of_mem _ hmem)
    · exact fun hmem => hpaths path hmem List.mem_cons_self

/-! ## Errors of imports -/

/-- What an import adds to the errors: those of the file that it brings in, or that it brings in
nothing. -/
def importErrors (ctx : Context) (path : String) (pos : Position) : List Diagnostic :=
  match ctx.bring path with
  | .ok i => i.errors
  | .error complaint => [Fault.diagnostic ⟨complaint, pos⟩ ctx.file]

/-- The imports ahead of a program record their errors in order, and consume nothing. -/
theorem importAll_apply (ctx : Context) (paths : List String) (c : Cursor) :
    ∃ ss, importAll ctx paths c =
      .ok ss ⟨c.rest, c.errors ++ paths.flatMap fun path => importErrors ctx path .outside⟩ := by
  induction paths generalizing c with
  | nil => exact ⟨[], by rw [List.flatMap_nil, List.append_nil]; rfl⟩
  | cons path paths ih =>
    obtain ⟨first, hfirst⟩ : ∃ first, (tryCatch
          (importPath ctx path .outside >>= fun s => pure (some s))
          (fun fault => record ctx fault >>= fun _ => pure none) : Reader (Option Statement)) c =
        .ok first ⟨c.rest, c.errors ++ importErrors ctx path .outside⟩ := by
      unfold importPath importErrors
      cases ctx.bring path with
      | ok i => exact ⟨_, rfl⟩
      | error complaint => exact ⟨_, rfl⟩
    obtain ⟨more, hmore⟩ := ih ⟨c.rest, c.errors ++ importErrors ctx path .outside⟩
    refine ⟨first.toList ++ more, ?_⟩
    unfold importAll
    rw [bind_of_ok hfirst, bind_of_ok hmore, List.flatMap_cons, ← List.append_assoc]
    rfl

/-- A file is read by its imports and then its statements. -/
theorem exists_readTokens (ctx : Context) (imports : List String) (ts : List Lexeme) :
    ∃ imported ss c, importAll ctx imports ⟨ts, []⟩ =
        .ok imported ⟨ts, imports.flatMap fun path => importErrors ctx path .outside⟩ ∧
      readGoal ctx (.statements false)
        ⟨ts, imports.flatMap fun path => importErrors ctx path .outside⟩ = .ok ss c ∧
      readTokens ctx imports ts = ⟨imported ++ ss, c.errors⟩ := by
  obtain ⟨imported, himported⟩ := importAll_apply ctx imports ⟨ts, []⟩
  rw [List.nil_append] at himported
  obtain ⟨ss, c, hss⟩ := exists_readGoal_statements ctx false
    ⟨ts, imports.flatMap fun path => importErrors ctx path .outside⟩
  refine ⟨imported, ss, c, himported, hss, ?_⟩
  have hread := (read_eq_readGoal (.statements false) (Nat.lt_succ_self ts.length)).trans hss
  unfold readTokens
  dsimp only
  rw [bind_of_ok himported, bind_of_ok hread]
  rfl

/-- A statement that is an import records its errors. -/
theorem importErrors_subset_of_statement? (ctx : Context)
    (self : {α : Type} → Goal α → Reader α) (path : String) (pos textPos endPos : Position)
    (rest : List Lexeme) (errors : List Diagnostic) :
    ∃ found c, statement? ctx self ⟨⟨.keyword .importWord, pos⟩ :: ⟨.text path, textPos⟩ ::
        ⟨.mark .semicolon, endPos⟩ :: rest, errors⟩ = .ok found c ∧
      importErrors ctx path pos ⊆ c.errors := by
  have himport : statement ctx self ⟨⟨.keyword .importWord, pos⟩ :: ⟨.text path, textPos⟩ ::
        ⟨.mark .semicolon, endPos⟩ :: rest, errors⟩ = importPath ctx path pos ⟨rest, errors⟩ := rfl
  rw [Reads.statement?_apply, himport]
  unfold importPath importErrors
  cases ctx.bring path with
  | ok i => exact ⟨_, _, rfl, List.subset_append_right _ _⟩
  | error complaint => exact ⟨_, _, rfl, List.subset_append_right _ _⟩

/-- Statements that start with an import record its errors. -/
theorem importErrors_subset_of_statements (ctx : Context) {path : String}
    {pos textPos endPos : Position} {rest : List Lexeme} {c : Cursor} (inBlock : Bool)
    (hc : c.rest = ⟨.keyword .importWord, pos⟩ :: ⟨.text path, textPos⟩ ::
      ⟨.mark .semicolon, endPos⟩ :: rest) :
    importErrors ctx path pos ⊆ (reached (readGoal ctx (.statements inBlock) c)).errors := by
  obtain ⟨ts, errors⟩ := c
  obtain rfl : ts = _ := hc
  obtain ⟨found, c₁, hfound, herrors⟩ := importErrors_subset_of_statement? ctx (readGoal ctx) path pos
    textPos endPos rest errors
  obtain ⟨more, c₂, hmore⟩ := exists_readGoal_statements ctx inBlock c₁
  have honward : c₁.Onward (reached (readGoal ctx (.statements inBlock) c₁)) := readGoal_onward _ _
  rw [hmore] at honward
  rw [readGoal_eq_rule]
  change _ ⊆ (reached (statements ctx (readGoal ctx) inBlock _)).errors
  rw [statements_cons (by cases inBlock <;> rfl), bind_of_ok hfound, bind_of_ok hmore]
  exact List.Subset.trans herrors honward.errors.subset

/-! ## Where the reader comes to -/

/-- The rule for a goal asks for a phrase from some cursor: its outcome depends on what is read there. -/
def Asks (ctx : Context) {α β : Type} (g : Goal α) (c : Cursor) (g' : Goal β) (c' : Cursor) : Prop :=
  ∃ self : {γ : Type} → Goal γ → Reader γ,
    (∀ {γ : Type} (h : Goal γ) (d : Cursor),
      ((⟨γ, h⟩ : Sigma Goal), d) ≠ (⟨β, g'⟩, c') → self h d = readGoal ctx h d) ∧
    rule ctx self g c ≠ readGoal ctx g c

/-- Reading a goal from some cursor comes to reading another one from another cursor. -/
inductive Visits (ctx : Context) :
    {α β : Type} → Goal α → Cursor → Goal β → Cursor → Prop where
  | refl {α : Type} (g : Goal α) (c : Cursor) : Visits ctx g c g c
  | step {α β γ : Type} {g : Goal α} {g' : Goal β} {g'' : Goal γ} {c c' c'' : Cursor}
    (h : Asks ctx g c g' c') (hmore : Visits ctx g' c' g'' c'') : Visits ctx g c g'' c''

/-- What is recorded where a rule asks for a phrase stays recorded. -/
theorem Asks.mem_errors {ctx : Context} {α β : Type} {g : Goal α} {g' : Goal β} {c c' : Cursor}
    (h : Asks ctx g c g' c') {d : Diagnostic}
    (hd : d ∈ (reached (readGoal ctx g' c')).errors) :
    d ∈ (reached (readGoal ctx g c)).errors := by
  obtain ⟨self, hself, hdiffers⟩ := h
  have htwins : Twins (.identity (· = d)) ctx ctx (readGoal ctx) self c.rest := by
    refine twins_identity (fun g₁ c₁ _ => readGoal_onward g₁ c₁) fun {γ} g₁ c₁ _ => ?_
    by_cases hsame : ((⟨γ, g₁⟩ : Sigma Goal), c₁) = (⟨β, g'⟩, c')
    · cases hsame
      exact .inl ⟨d, hd, rfl⟩
    · exact .inr (hself g₁ c₁ hsame)
  obtain ⟨-, -, hrule⟩ := htwins.rule g c List.suffix_rfl
  rw [cursor_identity, Goal.relocated_identity, outcome_identity, ← readGoal_eq_rule] at hrule
  obtain ⟨d', hd', rfl⟩ | hsame := hrule
  · exact hd'
  · exact absurd hsame hdiffers

/-- What is recorded where a reader comes to stays recorded. -/
theorem Visits.mem_errors {ctx : Context} {α β : Type} {g : Goal α} {g' : Goal β} {c c' : Cursor}
    (h : Visits ctx g c g' c') {d : Diagnostic}
    (hd : d ∈ (reached (readGoal ctx g' c')).errors) :
    d ∈ (reached (readGoal ctx g c)).errors := by
  induction h with
  | refl g c => exact hd
  | step h _ ih => exact h.mem_errors (ih hd)

/-- Reading a file comes to an import of the path at this place: to one of the imports ahead of it, which
are outside of it, or to a statement that is an import, complete with its path and its semicolon. -/
inductive Meets (ctx : Context) (imports : List String) (ts : List Lexeme) :
    String → Position → Prop where
  | ahead {path : String} (h : path ∈ imports) : Meets ctx imports ts path .outside
  | written {path : String} {pos textPos endPos : Position} {ss : List Statement} {c₀ c : Cursor}
    {inBlock : Bool} {rest : List Lexeme} (himports : importAll ctx imports ⟨ts, []⟩ = .ok ss c₀)
    (h : Visits ctx (.statements false) c₀ (.statements inBlock) c)
    (hc : c.rest = ⟨.keyword .importWord, pos⟩ :: ⟨.text path, textPos⟩ ::
      ⟨.mark .semicolon, endPos⟩ :: rest) :
    Meets ctx imports ts path pos

/-- An import that the reader comes to records its errors. -/
theorem Meets.importErrors_subset {ctx : Context} {imports : List String} {ts : List Lexeme}
    {path : String} {pos : Position} (h : Meets ctx imports ts path pos) :
    importErrors ctx path pos ⊆ (readTokens ctx imports ts).errors := by
  obtain ⟨imported, ss, c', himported, hss, hread⟩ := exists_readTokens ctx imports ts
  have hreached : c' = reached (readGoal ctx (.statements false)
      ⟨ts, imports.flatMap fun path => importErrors ctx path .outside⟩) := by
    rw [hss]
    rfl
  rw [hread, hreached]
  cases h with
  | ahead h =>
    refine List.Subset.trans ?_ (readGoal_onward _ _).errors.subset
    exact fun d hd => List.mem_flatMap.mpr ⟨path, h, hd⟩
  | written himports h hc =>
    rw [himports] at himported
    cases himported
    exact fun d hd => h.mem_errors (importErrors_subset_of_statements ctx _ hc hd)

/-- Reading a source, where imports may nest `depth` deep, comes to an import of `path`: in the file
`importer`, at the place `pos`, while the files at `paths` are being read. -/
inductive Reaches (files : String → Except FileError String) :
    Nat → List String → List String → String → String → String → List String → String → Position →
      Prop where
  | here {depth : Nat} {enclosing imports : List String} {file source path : String} {pos : Position}
    (h : Meets ⟨file, lastPosition (scan source), bringAt files depth (file :: enclosing)⟩ imports
      (scan source) path pos) :
    Reaches files depth enclosing imports file source file (file :: enclosing) path pos
  | inside {depth : Nat} {enclosing imports paths : List String}
    {file source next text importer path : String} {nextPos pos : Position}
    (h : Meets ⟨file, lastPosition (scan source), bringAt files (depth + 1) (file :: enclosing)⟩ imports
      (scan source) next nextPos)
    (hnew : next ∉ file :: enclosing) (hfile : files next = .ok text)
    (hmore : Reaches files depth (file :: enclosing) [] next text importer paths path pos) :
    Reaches files (depth + 1) enclosing imports file source importer paths path pos

/-- Wherever reading comes to an import of a path that is on the way already, there is an error about
it. -/
theorem Reaches.mem_errors {files : String → Except FileError String} {depth : Nat}
    {enclosing imports paths : List String} {file source importer path : String} {pos : Position}
    (h : Reaches files depth enclosing imports file source importer paths path pos)
    (hcircular : path ∈ paths) :
    ⟨.grammar, importer, pos, "Circular import of '" ++ path ++ "'"⟩ ∈
      (readSource files depth enclosing imports file source).errors := by
  induction h with
  | here h =>
    rw [readSource_eq]
    refine h.importErrors_subset ?_
    unfold importErrors
    dsimp only
    rw [bringAt_of_mem hcircular]
    exact List.mem_singleton.mpr rfl
  | inside h hnew hfile _ ih =>
    rw [readSource_eq]
    refine h.importErrors_subset ?_
    unfold importErrors
    dsimp only
    rw [bringAt_of_ok hnew hfile]
    exact ih hcircular

/-- Importing comes to an end and never nests a file in itself.  If the texts of the files that can be
read are finitely many, then a program has exactly one outcome, and that is what is read from it whenever
the size of the library is at least that of the texts.  Inside a file, reading comes to an end by itself:
there is exactly one reader that reads each goal by its rule, and a bound on nesting larger than the number
of tokens does not change it.  Along imports inside each other the paths are different, and different from
that of the root.  An import that would nest a file in itself is an error instead, in the file that it
stands in and at its place; imports ahead of the root are outside of it. -/
theorem readProgram_imports {files : String → Except FileError String} {texts : List String}
    (hfinite : ∀ path text, files path = .ok text → text ∈ texts) (file : String)
    (imports : List String) (source : String) :
    (∃ i, Settles files [] imports file source i ∧
      (∀ j, Settles files [] imports file source j → j = i) ∧
      (∀ size, (texts.map String.length).sum ≤ size →
        readProgram ⟨files, size⟩ file imports source = i ∧
        ∀ importer paths path pos, Reaches files (size + source.length + imports.length + 1) [] imports
            file source importer paths path pos → path ∈ paths →
          ⟨.grammar, importer, pos, "Circular import of '" ++ path ++ "'"⟩ ∈ i.errors) ∧
      ∀ paths, Chain i.statements paths → (file :: paths).Nodup) ∧
    ∀ ctx : Context,
      (∀ {α : Type} (g : Goal α) (c : Cursor), readGoal ctx g c = rule ctx (readGoal ctx) g c) ∧
      (∀ f : {α : Type} → Goal α → Reader α,
        (∀ {α : Type} (g : Goal α) (c : Cursor), f g c = rule ctx f g c) →
        ∀ {α : Type} (g : Goal α) (c : Cursor), f g c = readGoal ctx g c) ∧
      ∀ {α : Type} (g : Goal α) (c : Cursor) (n : Nat), c.rest.length < n →
        read ctx n g c = readGoal ctx g c := by
  have hsettles : ∀ size, (texts.map String.length).sum ≤ size →
      Settles files [] imports file source (readProgram ⟨files, size⟩ file imports source) := by
    intro size hsize
    have hlibrary : Library.Bounded ⟨files, size⟩ := ⟨texts, hfinite, hsize⟩
    exact readProgram_settles hlibrary file imports source
  refine ⟨⟨_, hsettles _ (Nat.le_refl _), fun j hj => hj.unique (hsettles _ (Nat.le_refl _)), ?_, ?_⟩,
    fun ctx => ⟨readGoal_eq_rule, fun _ hf => eq_readGoal_of_eq_rule hf,
      fun g _ _ hn => read_eq_readGoal g hn⟩⟩
  · intro size hsize
    have hsame := (hsettles size hsize).unique (hsettles _ (Nat.le_refl _))
    refine ⟨hsame, fun importer paths path pos hreaches hcircular => ?_⟩
    rw [← hsame]
    exact hreaches.mem_errors hcircular
  · intro paths hchain
    obtain ⟨hpaths, hnodup⟩ := hchain.nodup rfl
    exact List.nodup_cons.mpr ⟨fun hmem => hpaths file hmem List.mem_cons_self, hnodup⟩

/-- A file that imports the one that imports it. -/
def circularTree : FileTree :=
  .ofFiles [("b.pr", .text "import \"a.pr\";")]

/-- The circle is found in the file that closes it, and an import of the root ahead of it is refused. -/
theorem readProgram_imports_circular :
    (∃ texts : List String, ∀ path text, circularTree.read path = .ok text → text ∈ texts) ∧
    ⟨.grammar, "b.pr", ⟨1, 1⟩, "Circular import of 'a.pr'"⟩ ∈
      (readProgram circularTree.library "a.pr" ["a.pr"] "import \"b.pr\";").errors ∧
    ⟨.grammar, "a.pr", .outside, "Circular import of 'a.pr'"⟩ ∈
      (readProgram circularTree.library "a.pr" ["a.pr"] "import \"b.pr\";").errors := by
  obtain ⟨texts, htexts, hsize⟩ := circularTree.library_bounded
  obtain ⟨⟨i, -, -, hread, -⟩, -⟩ := readProgram_imports htexts "a.pr" ["a.pr"] "import \"b.pr\";"
  obtain ⟨rfl, herrors⟩ := hread circularTree.size hsize
  have hroot : scan "import \"b.pr\";" = [⟨.keyword .importWord, ⟨1, 1⟩⟩, ⟨.text "b.pr", ⟨1, 8⟩⟩,
      ⟨.mark .semicolon, ⟨1, 14⟩⟩] := by
    decide +kernel
  have hinner : scan "import \"a.pr\";" = [⟨.keyword .importWord, ⟨1, 1⟩⟩, ⟨.text "a.pr", ⟨1, 8⟩⟩,
      ⟨.mark .semicolon, ⟨1, 14⟩⟩] := by
    decide +kernel
  have hfile : circularTree.read "b.pr" = .ok "import \"a.pr\";" := by
    cbv
  refine ⟨⟨texts, htexts⟩, herrors "b.pr" ["b.pr", "a.pr"] "a.pr" ⟨1, 1⟩ ?_ (by decide),
    herrors "a.pr" ["a.pr"] "a.pr" .outside (.here (.ahead (by decide))) (by decide)⟩
  obtain ⟨ss, hss⟩ := importAll_apply ⟨"a.pr", lastPosition (scan "import \"b.pr\";"),
    bringAt circularTree.read (circularTree.size + "import \"b.pr\";".length + 2) ["a.pr"]⟩ ["a.pr"]
    ⟨scan "import \"b.pr\";", []⟩
  exact .inside (.written hss (.refl _ _) hroot) (by decide) hfile
    (.here (.written rfl (.refl _ _) hinner))

end Grammar

end ProtoScript
