import ProtoScript.Proofs.Grammar.Progress
import ProtoScript.Proofs.Grammar.Concatenation

/-!
# Where reading goes on after a broken statement

A statement without braces that ends with a semicolon may be broken.  Then reading goes on behind the
semicolon, and what follows is read as if it stood alone.  There is one exception.  Where the tokens before
the semicolon demand more, the semicolon is consumed as what was demanded, and is found to be wrong only
then; the same happens to the semicolon of an import that brings nothing in.  The search for the boundary
between two statements begins behind that semicolon, and drops tokens up to the next one.

The tokens up to the semicolon are a zone.  A statement that starts in it ends in it, just behind the
semicolon, or stops there: that is one round of reading, and rounds are repeated until the zone is left.
-/

namespace ProtoScript

namespace Grammar

/-- Whether tokens demand more: they end with a token behind which a phrase has to go on, or with an import
that brings nothing in. -/
def Unfinished (ctx : Context) (front : List Lexeme) : Prop :=
  (∃ before l, front = before ++ [l] ∧ l.token.demandsMore = true) ∨
    ∃ before word text path complaint, front = before ++ [word, text] ∧
      word.token = .keyword .importWord ∧ text.token = .text path ∧ ctx.bring path = .error complaint

/-- Tokens of a statement without braces, up to the semicolon at its end, and the tokens behind it. -/
structure Closed where
  front : List Lexeme
  semicolon : Lexeme
  behind : List Lexeme
  isSemicolon : semicolon.token = .mark .semicolon
  simple : ∀ l ∈ front, l.token ≠ .mark .semicolon ∧ l.token ≠ .mark .openBrace

namespace Closed

variable {ctx : Context}

/-- Up to the semicolon. -/
def At (s : Closed) (ts : List Lexeme) : Prop :=
  ∃ us, us <:+ s.front ∧ ts = us ++ s.semicolon :: s.behind

/-- Where reading goes on: behind the semicolon, or at the next boundary if the tokens before it demand
more. -/
def Resumes (s : Closed) (ctx : Context) (ts : List Lexeme) : Prop :=
  ts = s.behind ∨ ts = toBoundary s.behind ∧ Unfinished ctx s.front

variable {s : Closed}

/-- A token other than the semicolon is one of those before it. -/
theorem At.of_ne {l : Lexeme} {ts : List Lexeme} (h : s.At (l :: ts))
    (hl : l.token ≠ .mark .semicolon) :
    ∃ us, l :: us <:+ s.front ∧ ts = us ++ s.semicolon :: s.behind := by
  obtain ⟨us, hus, heq⟩ := h
  cases us with
  | nil =>
    obtain ⟨rfl, -⟩ := List.cons_eq_cons.mp heq
    exact absurd s.isSemicolon hl
  | cons u us =>
    obtain ⟨rfl, rfl⟩ := List.cons_eq_cons.mp heq
    exact ⟨us, hus, rfl⟩

/-- There is only one semicolon. -/
theorem At.of_semicolon {l : Lexeme} {ts : List Lexeme} (h : s.At (l :: ts))
    (hl : l.token = .mark .semicolon) : ts = s.behind := by
  obtain ⟨us, hus, heq⟩ := h
  cases us with
  | nil => exact (List.cons_eq_cons.mp heq).2
  | cons u us =>
    obtain ⟨rfl, -⟩ := List.cons_eq_cons.mp heq
    exact absurd hl (s.simple l (hus.subset List.mem_cons_self)).1

/-- The zone up to the semicolon. -/
def zone (s : Closed) (ctx : Context) : Zone ctx where
  At := s.At
  Needs ts := s.At ts ∧ (ts.head?.map (·.token) = some (.mark .semicolon) → Unfinished ctx s.front)
  After ts := s.At ts ∨ ts = s.behind
  Stops _ ts := s.At ts ∨ ts = s.behind ∧ Unfinished ctx s.front
  at_of_needs := And.left
  needs hat hne := ⟨hat, fun heq => absurd heq hne⟩
  pass := by
    rintro t ts hne ⟨l, rfl, hat⟩
    obtain ⟨us, hus, rfl⟩ := hat.of_ne hne
    exact ⟨us, (List.suffix_cons l us).trans hus, rfl⟩
  demand := by
    rintro t ts hdemands ⟨l, rfl, hat⟩
    have hne : l.token ≠ .mark .semicolon := by
      intro heq
      rw [heq] at hdemands
      cases hdemands
    obtain ⟨us, hus, rfl⟩ := hat.of_ne hne
    refine ⟨⟨us, (List.suffix_cons l us).trans hus, rfl⟩, fun hsemicolon => ?_⟩
    -- the semicolon comes next, so this token is the last one before it
    cases us with
    | nil =>
      obtain ⟨before, hbefore⟩ := hus
      exact .inl ⟨before, l, hbefore.symm, hdemands⟩
    | cons u us =>
      have hu := (s.simple u (hus.subset (by simp))).1
      exact absurd (Option.some.inj hsemicolon) hu
  ended := by
    rintro ts ⟨l, hl, hat⟩
    exact .inr (hat.of_semicolon hl)
  unended := .inl
  stop _ hat := .inl hat
  taken := by
    rintro complaint t ts - ⟨l, -, hat, hdemands⟩
    by_cases hl : l.token = .mark .semicolon
    · exact .inr ⟨hat.of_semicolon hl, hdemands (congrArg some hl)⟩
    · obtain ⟨us, hus, rfl⟩ := hat.of_ne hl
      exact .inl ⟨us, (List.suffix_cons l us).trans hus, rfl⟩
  unbrought := by
    rintro path complaint ts hbring ⟨l, hl, text, htext, word, hword, hat⟩
    obtain ⟨us, hus, hrest⟩ := hat.of_ne (by rw [hword]; exact Token.noConfusion)
    cases us with
    | nil =>
      obtain ⟨rfl, -⟩ := List.cons_eq_cons.mp hrest
      rw [s.isSemicolon] at htext
      cases htext
    | cons u us =>
      obtain ⟨rfl, hafter⟩ := List.cons_eq_cons.mp hrest
      have hus' : us <:+ s.front := ((List.suffix_cons text us).trans (List.suffix_cons word _)).trans hus
      -- the semicolon comes next, so these two tokens are the last ones before it
      cases us with
      | nil =>
        obtain ⟨before, hbefore⟩ := hus
        refine .inr ⟨(List.cons_eq_cons.mp hafter).2, .inr ?_⟩
        exact ⟨before, word, text, path, complaint, hbefore.symm, hword, htext, hbring⟩
      | cons v us =>
        obtain ⟨rfl, -⟩ := List.cons_eq_cons.mp hafter
        exact absurd hl (s.simple l (hus'.subset List.mem_cons_self)).1
  braces := by
    refine .inr ?_
    rintro ts ⟨l, hl, hat⟩
    obtain ⟨us, hus, -⟩ := hat.of_ne (by rw [hl]; decide)
    exact (s.simple l (hus.subset List.mem_cons_self)).2 hl

/-! ## Recovering -/

/-- The next boundary is behind the semicolon, or before it at one of the tokens there. -/
theorem toBoundary_append {us : List Lexeme} (hus : us <:+ s.front) :
    toBoundary (us ++ s.semicolon :: s.behind) = s.behind ∨
      ∃ l vs, l :: vs <:+ us ∧
        toBoundary (us ++ s.semicolon :: s.behind) = l :: (vs ++ s.semicolon :: s.behind) := by
  induction us with
  | nil =>
    left
    rw [List.nil_append, toBoundary, if_pos s.isSemicolon]
  | cons u us ih =>
    have hu := (s.simple u (hus.subset List.mem_cons_self)).1
    rw [List.cons_append, toBoundary, if_neg hu]
    by_cases hboundary : isBoundary u.token = true
    · rw [if_pos hboundary]
      exact .inr ⟨u, us, List.suffix_rfl, rfl⟩
    · rw [if_neg hboundary]
      refine (ih ((List.suffix_cons u us).trans hus)).imp_right ?_
      rintro ⟨l, vs, hvs, heq⟩
      exact ⟨l, vs, hvs.trans (List.suffix_cons u us), heq⟩

/-- After a fault before the semicolon, reading goes on before it or right behind it. -/
theorem resumed_of_at {count : Nat} {ts : List Lexeme} (hcount : s.behind.length < count)
    (hat : s.At ts) : s.At (resumed count ts) ∨ resumed count ts = s.behind := by
  obtain ⟨us, hus, rfl⟩ := hat
  unfold resumed
  rcases toBoundary_append hus with heq | ⟨l, vs, hvs, heq⟩
  · right
    rw [heq, if_neg (Nat.ne_of_lt hcount)]
  · left
    have hfront := hvs.trans hus
    rw [heq]
    split
    · exact ⟨vs, (List.suffix_cons l vs).trans hfront, rfl⟩
    · exact ⟨l :: vs, hfront, rfl⟩

/-- After a fault behind the semicolon, reading goes on at the next boundary. -/
theorem resumed_behind {count : Nat} (hcount : s.behind.length < count) :
    resumed count s.behind = toBoundary s.behind := by
  have hle : (toBoundary s.behind).length ≤ s.behind.length := (Mirrors.toBoundary_suffix _).length_le
  unfold resumed
  rw [if_neg (by omega)]

/-- One round: a statement that starts before the semicolon, read or not, leads to another one before it,
or to where reading goes on. -/
theorem round (s : Closed) (ctx : Context) {ts : List Lexeme} (hat : s.At ts) :
    ∃ found left, Yields (statement? ctx (readGoal ctx)) ts found left ∧
      (s.At left ∨ s.Resumes ctx left) := by
  have hcount : s.behind.length < ts.length := by
    obtain ⟨us, -, rfl⟩ := hat
    rw [List.length_append, List.length_cons]
    omega
  have hstays : (s.zone ctx).Stays s.At (statement ctx (readGoal ctx)) fun _ => (s.zone ctx).After :=
    Zone.Holds.statement (s.zone ctx).holds_readGoal
  rcases hstays ts hat with ⟨found, left, hyields, hafter⟩ | ⟨e, left, hfails, hstops⟩
  · exact ⟨some found, left, hyields.statement?, hafter.imp_right .inl⟩
  · refine ⟨none, resumed ts.length left, hfails.statement?, ?_⟩
    rcases hstops with hat' | ⟨rfl, hunfinished⟩
    · exact (resumed_of_at hcount hat').imp_right .inl
    · exact .inr (.inr ⟨resumed_behind hcount, hunfinished⟩)

/-- All rounds: the statements before the semicolon, and then those from where reading goes on. -/
theorem rounds (s : Closed) (ctx : Context) {ts : List Lexeme} (hat : s.At ts) :
    ∃ ss ds left, s.Resumes ctx left ∧ ∀ errors, readGoal ctx (.statements false) ⟨ts, errors⟩ =
      (readGoal ctx (.statements false) >>= fun more => pure (ss ++ more)) ⟨left, errors ++ ds⟩ := by
  induction hn : ts.length using Nat.strongRecOn generalizing ts with
  | _ n ih =>
    obtain ⟨found, left, ⟨ds, hround⟩, hleft⟩ := s.round ctx hat
    have hne : ts ≠ [] := by
      obtain ⟨us, -, rfl⟩ := hat
      simp
    have hshorter : left.length < ts.length := by
      obtain ⟨found', c', hfound, -, hinside⟩ := exists_statement? ctx ⟨ts, []⟩ hne
      have heq := hfound.symm.trans (hround [])
      cases heq
      exact hinside.2
    have hstep (errors : List Diagnostic) : readGoal ctx (.statements false) ⟨ts, errors⟩ =
        (readGoal ctx (.statements false) >>= fun more => pure (found.toList ++ more))
          ⟨left, errors ++ ds⟩ := by
      obtain ⟨t, rest, rfl⟩ := List.exists_cons_of_ne_nil hne
      rw [readGoal_statements_cons, bind_of_ok (hround errors)]
    rcases hleft with hat' | hresumes
    · obtain ⟨ss, ds', left', hresumes, hrounds⟩ := ih left.length (hn ▸ hshorter) hat' rfl
      refine ⟨found.toList ++ ss, ds ++ ds', left', hresumes, fun errors => ?_⟩
      -- the statements that follow are there whatever they are put behind
      obtain ⟨more, c', hmore⟩ := exists_readGoal_statements ctx false ⟨left', errors ++ (ds ++ ds')⟩
      have hleft : readGoal ctx (.statements false) ⟨left, errors ++ ds⟩ = .ok (ss ++ more) c' := by
        rw [hrounds, List.append_assoc, bind_of_ok hmore]
        rfl
      rw [hstep, bind_of_ok hleft, bind_of_ok hmore, List.append_assoc]
    · exact ⟨found.toList, ds, left, hresumes, hstep⟩

end Closed

/-! ## Whole files -/

/-- What is read from the start of a file does not depend on errors recorded before. -/
theorem yields_statements (ctx : Context) (ts : List Lexeme) :
    ∃ ss left, Yields (readGoal ctx (.statements false)) ts ss left := by
  have hstays := (Zone.everywhere ctx).holds_readGoal (.statements false)
  rcases hstays ts fun _ => trivial with ⟨ss, left, hyields, -⟩ | ⟨e, left, ⟨ds, hfails⟩, -⟩
  · exact ⟨ss, left, hyields⟩
  · obtain ⟨ss, c, hok⟩ := exists_readGoal_statements ctx false ⟨ts, []⟩
    have heq := hok.symm.trans (hfails [])
    cases heq

/-- What a file consists of, if it has no imports ahead of it. -/
theorem readTokens_of_yields {ctx : Context} {ts left : List Lexeme} {ss : List Statement}
    {ds : List Diagnostic}
    (h : readGoal ctx (.statements false) ⟨ts, []⟩ = .ok ss ⟨left, ds⟩) :
    readTokens ctx [] ts = ⟨ss, ds⟩ := by
  obtain ⟨imported, ss', c, himported, hss, hread⟩ := exists_readTokens ctx [] ts
  cases himported
  have heq := hss.symm.trans h
  cases heq
  exact hread

/-- Tokens at the end of a file are read alike, whatever stands before them. -/
theorem readTokens_last (file : String) (bring : String → Except Complaint Inclusion)
    (before : List Lexeme) {behind left : List Lexeme} (hleft : behind = [] → left = []) :
    readTokens ⟨file, lastPosition (before ++ behind), bring⟩ [] left =
      readTokens ⟨file, lastPosition behind, bring⟩ [] left := by
  by_cases hbehind : behind = []
  · -- where nothing is left, nothing asks for the place of the end
    obtain rfl := hleft hbehind
    rfl
  · rw [lastPosition_append hbehind]

/-- **Recovery.** Let a file begin with tokens without opening braces, up to the first semicolon.  What is
read from the file ends with what is read from the tokens behind the semicolon alone: all of its
statements and errors, in the same order and at the same places.  If the tokens before the semicolon demand
more, the tokens behind it may count from their next boundary on only. -/
theorem readTokens_resumes (file : String) (bring : String → Except Complaint Inclusion)
    (front : List Lexeme) (semicolon : Lexeme) (behind : List Lexeme)
    (hsemicolon : semicolon.token = .mark .semicolon)
    (hfront : ∀ l ∈ front, l.token ≠ .mark .semicolon ∧ l.token ≠ .mark .openBrace) :
    let whole := front ++ semicolon :: behind
    let ctx : Context := ⟨file, lastPosition behind, bring⟩
    ∃ ss ds left, (left = behind ∨ left = toBoundary behind ∧ Unfinished ctx front) ∧
      readTokens ⟨file, lastPosition whole, bring⟩ [] whole =
        ⟨ss ++ (readTokens ctx [] left).statements, ds ++ (readTokens ctx [] left).errors⟩ := by
  intro whole ctx
  let s : Closed := ⟨front, semicolon, behind, hsemicolon, hfront⟩
  let ctx' : Context := ⟨file, lastPosition whole, bring⟩
  obtain ⟨ss, ds, left, hresumes, hrounds⟩ := s.rounds ctx' ⟨front, List.suffix_rfl, rfl⟩
  obtain ⟨more, last, ds', hmore⟩ := yields_statements ctx' left
  refine ⟨ss, ds, left, hresumes, ?_⟩
  have hread : readGoal ctx' (.statements false) ⟨whole, []⟩ = .ok (ss ++ more) ⟨last, ds ++ ds'⟩ := by
    rw [hrounds, bind_of_ok (hmore _)]
    rfl
  have hwhole : readTokens ctx' [] whole = ⟨ss ++ more, ds ++ ds'⟩ := readTokens_of_yields hread
  have hleft : readTokens ctx' [] left = ⟨more, ds'⟩ := readTokens_of_yields (hmore [])
  have hnil : behind = [] → left = [] := by
    rintro rfl
    exact hresumes.elim id And.left
  have hlast : readTokens ctx' [] left = readTokens ctx [] left := by
    have hsplit : whole = (front ++ [semicolon]) ++ behind := by simp [whole]
    have heq := readTokens_last file bring (front ++ [semicolon]) hnil
    rwa [← hsplit] at heq
  rw [hwhole, ← hlast, hleft]

/-- Behind a parenthesis that closes nothing, the statement `x;` is read. -/
theorem readTokens_resumes_stray :
    let behind : List Lexeme := [⟨.name "x", ⟨2, 1⟩⟩, ⟨.mark .semicolon, ⟨2, 2⟩⟩]
    let whole : List Lexeme := ⟨.mark .closeParen, ⟨1, 1⟩⟩ :: ⟨.mark .semicolon, ⟨1, 2⟩⟩ :: behind
    ∃ ss ds, readTokens ⟨"main", ⟨2, 2⟩, fun path => .error (.circularImport path)⟩ [] whole =
      ⟨ss ++ [.expression (.variable "x" ⟨2, 1⟩)], ds⟩ := by
  intro behind whole
  obtain ⟨ss, ds, left, rfl | ⟨-, hunfinished⟩, heq⟩ := readTokens_resumes "main"
    (fun path => .error (.circularImport path)) [⟨.mark .closeParen, ⟨1, 1⟩⟩]
    ⟨.mark .semicolon, ⟨1, 2⟩⟩ behind rfl (by decide)
  · exact ⟨ss, _, heq⟩
  · obtain ⟨before, l, hfront, hdemands⟩ | ⟨before, word, text, path, complaint, hfront, -⟩ := hunfinished
    · cases before with
      | nil =>
        cases hfront
        cases hdemands
      | cons b before => simp at hfront
    · have hlength := congrArg List.length hfront
      simp at hlength

/-- Behind `let`, the semicolon is consumed as the name that is missing, and the statement `x;` is not
read. -/
theorem readTokens_skips_statement :
    let ctx : Context := ⟨"main", ⟨3, 2⟩, fun path => .error (.circularImport path)⟩
    let front : List Lexeme := [⟨.keyword .letWord, ⟨1, 1⟩⟩]
    let behind : List Lexeme := [⟨.name "x", ⟨2, 1⟩⟩, ⟨.mark .semicolon, ⟨2, 2⟩⟩, ⟨.name "y", ⟨3, 1⟩⟩,
      ⟨.mark .semicolon, ⟨3, 2⟩⟩]
    (∀ l ∈ front, l.token ≠ .mark .semicolon ∧ l.token ≠ .mark .openBrace ∧
      l.token ≠ .mark .closeBrace) ∧
    ¬ (readTokens ctx [] behind).statements.Sublist
      (readTokens ctx [] (front ++ ⟨.mark .semicolon, ⟨1, 5⟩⟩ :: behind)).statements := by
  intro ctx front behind
  refine ⟨by decide, fun hsublist => ?_⟩
  -- two statements cannot be part of one
  exact absurd hsublist.length_le (by decide)

end Grammar

end ProtoScript
