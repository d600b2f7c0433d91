import ProtoScript.Proofs.Grammar.Advances
import ProtoScript.Proofs.Grammar.Twin

/-!
# What readings do not depend on

Up to places, what is read from tokens is determined by the tokens and by what their imports bring in.
It depends neither on how deep rules may nest, once that is as deep as there are tokens, nor on files
that the tokens do not name.  So the bound on nesting hides nothing: with enough of it, reading a goal is
reading by its rule with the same reader for the phrases inside it, and there is only one such reader.
-/

namespace ProtoScript

namespace Grammar

variable {τ : Relocation} {ctx ctx' : Context} {ts : List Lexeme}

/-! ## Places -/

/-- Tokens without places. -/
theorem map_relocated_bare (us : List Lexeme) :
    us.map (Lexeme.relocated .bare) = (us.map (·.token)).map (⟨·, .outside⟩) := by
  rw [List.map_map]
  rfl

/-- Which paths are imported does not depend on places. -/
theorem importedPaths_relocated (us : List Lexeme) :
    importedPaths (us.map (Lexeme.relocated τ)) = importedPaths us := by
  induction us with
  | nil => rfl
  | cons t us ih =>
    cases us with
    | nil => rfl
    | cons u us =>
      rw [importedPaths_cons_cons, ← ih, List.map_cons, List.map_cons, importedPaths_cons_cons]
      rfl

/-- Which paths are imported is determined by the tokens. -/
theorem importedPaths_eq_of_tokens {us vs : List Lexeme}
    (h : us.map (·.token) = vs.map (·.token)) : importedPaths us = importedPaths vs := by
  rw [← importedPaths_relocated (τ := .bare) us, ← importedPaths_relocated (τ := .bare) vs,
    map_relocated_bare, map_relocated_bare, h]

/-- Up to places, what is read is determined by the tokens and by what their imports bring in. -/
theorem readTokens_bare {imports : List String} {us : List Lexeme} (hfile : ctx'.file = ctx.file)
    (htokens : us.map (·.token) = ts.map (·.token))
    (hbring : ∀ path ∈ imports ++ importedPaths ts, ctx'.bring path = ctx.bring path) :
    Statement.allBare (readTokens ctx' imports us).statements =
        Statement.allBare (readTokens ctx imports ts).statements ∧
      (readTokens ctx' imports us).errors.map Diagnostic.bare =
        (readTokens ctx imports ts).errors.map Diagnostic.bare := by
  -- both readings are compared with a reading of the tokens without their places
  let plain : Context := ⟨ctx.file, .outside, fun path => Relocation.bare.brought path (ctx.bring path)⟩
  have hplain : ∀ (ctx₁ : Context) (vs : List Lexeme), ctx₁.file = ctx.file →
      vs.map (·.token) = ts.map (·.token) →
      (∀ path ∈ imports ++ importedPaths ts, ctx₁.bring path = ctx.bring path) →
      readTokens plain imports ((ts.map (·.token)).map (⟨·, .outside⟩)) =
        ⟨Statement.allBare (readTokens ctx₁ imports vs).statements,
          (readTokens ctx₁ imports vs).errors.map Diagnostic.bare⟩ := by
    intro ctx₁ vs hfile₁ hvs hbring₁
    have hbring' : ∀ path ∈ imports ++ importedPaths vs,
        plain.bring path = Relocation.bare.brought path (ctx₁.bring path) := by
      intro path hpath
      rw [importedPaths_eq_of_tokens hvs] at hpath
      rw [hbring₁ path hpath]
    have hfault : ∀ e : Fault, Relocation.bare.error (e.diagnostic ctx₁.file) =
        (Relocation.bare.fault e).diagnostic plain.file := by
      intro e
      rw [hfile₁]
      rfl
    obtain ⟨d, -, hd⟩ | h := readTokens_relocated rfl hfault hbring' (.inr rfl)
    · cases hd
    · rw [map_relocated_bare, hvs, Statement.allRelocated_bare] at h
      exact h
  have hts := hplain ctx ts rfl rfl fun _ _ => rfl
  have hus := hplain ctx' us hfile htokens hbring
  rw [hts] at hus
  injection hus with hstatements herrors
  exact ⟨hstatements.symm, herrors.symm⟩

/-! ## Nesting and other files -/

section Identity

variable {final : Diagnostic → Prop}

/-- A cursor stays where it is. -/
theorem cursor_identity (c : Cursor) : (Relocation.identity final).cursor c = c := by
  unfold Relocation.cursor
  rw [Lexeme.map_relocated_identity]
  change Cursor.mk c.rest (c.errors.map id) = c
  rw [List.map_id]

/-- What an import brings in stays as it is. -/
theorem brought_identity (path : String) (b : Except Complaint Inclusion) :
    (Relocation.identity final).brought path b = b := by
  cases b with
  | error complaint => rfl
  | ok i =>
    unfold Relocation.brought Relocation.inclusion
    change Except.ok (Inclusion.mk i.statements (i.errors.map id)) = .ok i
    rw [List.map_id]

/-- A goal stays as it is. -/
theorem Goal.relocated_identity {α : Type} (g : Goal α) : g.relocated (.identity final) = g := by
  cases g with
  | operators rank left => rw [Goal.relocated, Expression.relocated_identity]
  | suffixes target => rw [Goal.relocated, Expression.relocated_identity]
  | parameters first rest => rw [Goal.relocated, Parameter.optionRelocated_identity]
  | _ => rfl

/-- What is read for a goal stays as it is. -/
theorem Goal.image_identity {α : Type} (g : Goal α) (a : α) : g.image (.identity final) a = a := by
  cases g with
  | expression | operand | operators | unary | suffixes => exact Expression.relocated_identity a
  | arguments | elements => exact Expression.allRelocated_identity a
  | members => exact Declaration.allRelocated_identity a
  | parameters =>
    exact Prod.ext (Parameter.allRelocated_identity a.1) (Parameter.optionRelocated_identity a.2)
  | procedure => exact Procedure.relocated_identity a
  | block => exact Block.relocated_identity a
  | branches => exact Branch.allRelocated_identity a
  | statements => exact Statement.allRelocated_identity a

/-- What comes out of a reader for a goal stays as it is. -/
theorem outcome_identity {α : Type} (g : Goal α) (r : EStateM.Result Fault Cursor α) :
    (Relocation.identity final).outcome (g.image (.identity final)) r = r := by
  cases r with
  | ok a c => rw [Relocation.outcome, Goal.image_identity, cursor_identity]
  | error e c =>
    rw [Relocation.outcome, cursor_identity]
    rfl

end Identity

/-- What is read does not depend on how deep rules may nest, as long as they may nest as deep as there
are tokens, nor on files that are not named in the tokens. -/
theorem read_eq {α : Type} (g : Goal α) {c : Cursor} {n n' : Nat} (hn : c.rest.length < n)
    (hn' : c.rest.length < n') (hfile : ctx'.file = ctx.file) (hlast : ctx'.last = ctx.last)
    (hbring : ∀ path ∈ importedPaths c.rest, ctx'.bring path = ctx.bring path) :
    read ctx' n' g c = read ctx n g c := by
  have hfault : ∀ e : Fault, (Relocation.identity fun _ => False).error (e.diagnostic ctx.file) =
      ((Relocation.identity fun _ => False).fault e).diagnostic ctx'.file := by
    intro e
    rw [hfile]
    rfl
  have hbring' : ∀ path ∈ importedPaths c.rest, ctx'.bring path =
      (Relocation.identity fun _ => False).brought path (ctx.bring path) := by
    intro path hpath
    rw [brought_identity, hbring path hpath]
  obtain ⟨-, -, ⟨d, -, hd⟩ | h⟩ :=
    read_mirrors hlast hfault hbring' g n n' c ⟨List.suffix_rfl, hn, hn'⟩
  · cases hd
  · rwa [cursor_identity, Goal.relocated_identity, outcome_identity] at h

/-- A reader goes onward. -/
theorem read_onward {α : Type} (g : Goal α) {c : Cursor} {n : Nat} (hn : c.rest.length < n) :
    c.Onward (reached (read ctx n g c)) := by
  have hbring : ∀ path ∈ importedPaths c.rest, ctx.bring path =
      (Relocation.identity fun _ => False).brought path (ctx.bring path) :=
    fun path _ => (brought_identity path _).symm
  exact (read_mirrors rfl (fun _ => rfl) hbring g n n c ⟨List.suffix_rfl, hn, hn⟩).1

/-- What is read from a file does not depend on files that are not named in it. -/
theorem readTokens_eq {imports : List String} (hfile : ctx'.file = ctx.file)
    (hlast : ctx'.last = ctx.last)
    (hbring : ∀ path ∈ imports ++ importedPaths ts, ctx'.bring path = ctx.bring path) :
    readTokens ctx' imports ts = readTokens ctx imports ts := by
  have hfault : ∀ e : Fault, (Relocation.identity fun _ => False).error (e.diagnostic ctx.file) =
      ((Relocation.identity fun _ => False).fault e).diagnostic ctx'.file := by
    intro e
    rw [hfile]
    rfl
  have hbring' : ∀ path ∈ imports ++ importedPaths ts, ctx'.bring path =
      (Relocation.identity fun _ => False).brought path (ctx.bring path) := by
    intro path hpath
    rw [brought_identity, hbring path hpath]
  obtain ⟨d, -, hd⟩ | h := readTokens_relocated hlast hfault hbring' (.inr rfl)
  · cases hd
  · rw [Lexeme.map_relocated_identity, Statement.allRelocated_identity,
      show (Relocation.identity fun _ => False).error = id from rfl, List.map_id] at h
    exact h

/-! ## Reading without a bound -/

/-- Readers that do the same on fewer tokens are twins, with everything left in its place. -/
theorem twins_identity {final : Diagnostic → Prop} {self self' : {α : Type} → Goal α → Reader α}
    (honward : ∀ {β : Type} (g : Goal β) (c : Cursor), Inside ts c → c.Onward (reached (self g c)))
    (hself : ∀ {β : Type} (g : Goal β) (c : Cursor), Inside ts c →
      Final (.identity final) (reached (self g c)) ∨ self' g c = self g c) :
    Twins (.identity final) ctx ctx self self' ts := by
  refine ⟨rfl, fun _ => rfl, fun path _ => (brought_identity path _).symm, ?_⟩
  intro β g c hc
  refine ⟨honward g c hc, fun _ _ _ => trivial, ?_⟩
  rw [cursor_identity, Goal.relocated_identity, outcome_identity]
  exact hself g c hc

/-- A rule does the same with readers for the phrases inside it that do the same on fewer tokens. -/
theorem rule_congr {self self' : {α : Type} → Goal α → Reader α} {c : Cursor}
    (honward : ∀ {β : Type} (g : Goal β) (c' : Cursor), Inside c.rest c' →
      c'.Onward (reached (self g c')))
    (hself : ∀ {β : Type} (g : Goal β) (c' : Cursor), Inside c.rest c' → self' g c' = self g c')
    {α : Type} (g : Goal α) : rule ctx self' g c = rule ctx self g c := by
  have htwins : Twins (.identity fun _ => False) ctx ctx self self' c.rest :=
    twins_identity honward fun g' c' hc' => .inr (hself g' c' hc')
  obtain ⟨-, -, ⟨d, -, hd⟩ | h⟩ := htwins.rule g c List.suffix_rfl
  · cases hd
  · rwa [cursor_identity, Goal.relocated_identity, outcome_identity] at h

/-- Reads a goal, with rules as deep inside each other as the tokens ask for. -/
def readGoal (ctx : Context) {α : Type} (g : Goal α) : Reader α := fun c =>
  read ctx (c.rest.length + 1) g c

/-- Any bound that is large enough is as good as any other. -/
theorem read_eq_readGoal {α : Type} (g : Goal α) {c : Cursor} {n : Nat} (hn : c.rest.length < n) :
    read ctx n g c = readGoal ctx g c :=
  read_eq g (Nat.lt_succ_self _) hn rfl rfl fun _ _ => rfl

/-- Without a bound, a reader goes onward. -/
theorem readGoal_onward {α : Type} (g : Goal α) (c : Cursor) :
    c.Onward (reached (readGoal ctx g c)) :=
  read_onward g (Nat.lt_succ_self _)

/-- Reading a goal without a bound is reading it by its rule, with the phrases inside it read without a
bound. -/
theorem readGoal_eq_rule {α : Type} (g : Goal α) (c : Cursor) :
    readGoal ctx g c = rule ctx (readGoal ctx) g c := by
  have h : rule ctx (read ctx c.rest.length) g c = rule ctx (readGoal ctx) g c :=
    rule_congr (fun g' c' _ => readGoal_onward g' c') (fun g' c' hc' => read_eq_readGoal g' hc'.2) g
  exact h

/-- There is only one way to read by the rules. -/
theorem eq_readGoal_of_eq_rule {f : {α : Type} → Goal α → Reader α}
    (hf : ∀ {α : Type} (g : Goal α) (c : Cursor), f g c = rule ctx f g c) {α : Type} (g : Goal α)
    (c : Cursor) : f g c = readGoal ctx g c := by
  induction hn : c.rest.length using Nat.strongRecOn generalizing α c with
  | _ n ih =>
    rw [hf, readGoal_eq_rule]
    refine rule_congr (fun g' c' _ => readGoal_onward g' c') (fun g' c' hc' => ?_) g
    exact ih c'.rest.length (hn ▸ hc'.2) g' c' rfl

/-! ## Statements are always read -/

/-- A statement that cannot be read is skipped, so there is always a result, and if there are tokens, at
least one of them is consumed. -/
theorem exists_statement? (ctx : Context) (c : Cursor) (hne : c.rest ≠ []) :
    ∃ found c', statement? ctx (readGoal ctx) c = .ok found c' ∧ c.Onward c' ∧ Inside c.rest c' := by
  have htwins : Twins (.identity fun _ => False) ctx ctx (readGoal ctx) (readGoal ctx) c.rest :=
    twins_identity (fun g c' _ => readGoal_onward g c') fun _ _ _ => .inr rfl
  obtain ⟨honward, hinside, -⟩ := htwins.statement? c ⟨List.suffix_rfl, hne⟩
  have hok : ∃ found c', statement? ctx (readGoal ctx) c = .ok found c' := by
    rw [Reads.statement?_apply]
    cases statement ctx (readGoal ctx) c with
    | ok s c' => exact ⟨_, _, rfl⟩
    | error e c' => exact ⟨_, _, rfl⟩
  obtain ⟨found, c', hok⟩ := hok
  rw [hok] at honward
  exact ⟨found, c', hok, honward, hinside found c' hok⟩

/-- Where they do not end, statements are a statement and more of them. -/
theorem statements_cons {ctx : Context} {self : {α : Type} → Goal α → Reader α} {inBlock : Bool}
    {t : Lexeme} (hgoesOn : (inBlock && t.token == .mark .closeBrace) = false) (rest : List Lexeme)
    (errors : List Diagnostic) :
    statements ctx self inBlock ⟨t :: rest, errors⟩ =
      (statement? ctx self >>= fun first => self (.statements inBlock) >>= fun more =>
        pure (first.toList ++ more)) ⟨t :: rest, errors⟩ := by
  unfold statements
  change (if (inBlock && t.token == .mark .closeBrace) = true then _ else _ : Reader _) _ = _
  rw [hgoesOn]
  rfl

/-- Reading statements never stops with a fault. -/
theorem exists_readGoal_statements (ctx : Context) (inBlock : Bool) (c : Cursor) :
    ∃ ss c', readGoal ctx (.statements inBlock) c = .ok ss c' := by
  induction hn : c.rest.length using Nat.strongRecOn generalizing c with
  | _ n ih =>
    rw [readGoal_eq_rule]
    change ∃ ss c', statements ctx (readGoal ctx) inBlock c = .ok ss c'
    obtain ⟨rest, errors⟩ := c
    cases rest with
    | nil => exact ⟨_, _, rfl⟩
    | cons t rest =>
      cases hends : inBlock && t.token == .mark .closeBrace with
      | true =>
        unfold statements
        change ∃ ss c', (if (inBlock && t.token == .mark .closeBrace) = true then _ else _ : Reader _)
          ⟨t :: rest, errors⟩ = .ok ss c'
        rw [hends]
        exact ⟨_, _, rfl⟩
      | false =>
        obtain ⟨found, c₁, hfound, -, hinside⟩ :=
          exists_statement? ctx ⟨t :: rest, errors⟩ (List.cons_ne_nil _ _)
        obtain ⟨more, c₂, hmore⟩ := ih c₁.rest.length (hn ▸ hinside.2) c₁ rfl
        rw [statements_cons hends, bind_of_ok hfound, bind_of_ok hmore]
        exact ⟨_, _, rfl⟩

/-! ## Whole files -/

/-- What an import brings in, where imports may nest `depth` deep and the files at `paths` are being
read. -/
def bringAt (files : String → Except FileError String) (depth : Nat) (paths : List String)
    (path : String) : Except Complaint Inclusion :=
  if path ∈ paths then .error (.circularImport path)
  else
    match files path with
    | .error e => .error (.unreadable path e)
    | .ok text =>
      match depth with
      | 0 => .error .tooDeep
      | depth + 1 => .ok (readSource files depth paths [] path text)

/-- A file is read from its tokens, with what its imports bring in. -/
theorem readSource_eq (files : String → Except FileError String) (depth : Nat)
    (enclosing imports : List String) (file source : String) :
    readSource files depth enclosing imports file source =
      readTokens ⟨file, lastPosition (scan source), bringAt files depth (file :: enclosing)⟩ imports
        (scan source) := by
  -- the recursion is on the depth, which the definition looks at only inside a function
  cases depth with
  | zero =>
    delta readSource
    rfl
  | succ depth =>
    unfold bringAt
    delta readSource
    rfl

end Grammar

end ProtoScript
