import ProtoScript.Text.Blank
import ProtoScript.Token.Basic

/-!
# Scanning

A source text is cut into segments. Each segment is one blank character, one comment, or the text of
one token, and the segments put together are the source text again: scanning never fails, and it
loses nothing. `cut` takes the first segment off a text that is not empty, `segments` repeats it, and
`place` walks over the segments to find where each token starts.

* A comment that starts with two slashes ends before the next line feed; one that starts with a slash
  and a star ends with the next star and slash, or with the text.
* A quoted text ends with the next quote that has no backslash before it, or with the text.
* A mark is the longest one that fits.
* Everything else is a word, up to the next blank, quote or mark. A word that starts with a digit is a
  numeral, and may hold one point if a digit follows it.
-/

namespace ProtoScript

/-- A piece of a source text, and the token it is the text of, if any. -/
structure Segment where
  chars : List Char
  token : Option Token
deriving DecidableEq, Repr

namespace Scan

/-- Splits off the rest of a comment, up to and including the star and the slash that close it. -/
def blockComment : List Char → List Char × List Char
  | '*' :: '/' :: cs => (['*', '/'], cs)
  | c :: cs =>
    let r := blockComment cs
    (c :: r.1, r.2)
  | [] => ([], [])

theorem blockComment_append (cs : List Char) :
    (blockComment cs).1 ++ (blockComment cs).2 = cs := by
  fun_induction blockComment cs <;> simp_all +zetaDelta

/-- The character that a backslash and `c` stand for inside a quoted text. -/
def unescape (c : Char) : Char :=
  if c = 'n' then '\n' else if c = 't' then '\t' else c

/-- The rest of a quoted text: what it covers, what it stands for, and what follows it. -/
structure Quoted where
  covered : List Char
  contents : List Char
  rest : List Char

/-- Splits off the rest of a quoted text, up to and including the quote that closes it. -/
def quotedRest : List Char → Quoted
  | [] => ⟨[], [], []⟩
  | '"' :: cs => ⟨['"'], [], cs⟩
  | '\\' :: c :: cs =>
    let q := quotedRest cs
    ⟨'\\' :: c :: q.covered, unescape c :: q.contents, q.rest⟩
  | ['\\'] => ⟨['\\'], [], []⟩
  | c :: cs =>
    let q := quotedRest cs
    ⟨c :: q.covered, c :: q.contents, q.rest⟩

theorem quotedRest_append (cs : List Char) :
    (quotedRest cs).covered ++ (quotedRest cs).rest = cs := by
  fun_induction quotedRest cs <;> simp_all +zetaDelta

/-- Whether a text starts with a digit. -/
def startsWithDigit : List Char → Bool
  | c :: _ => c.isDigit
  | [] => false

/-- Whether a word ends before this character. -/
def endsWord (c : Char) : Bool :=
  Text.isBlank c || c == '"' || Mark.starts c

/-- Splits off the rest of a word. A point belongs to it when `point` allows one and a digit
follows. -/
def wordRest (point : Bool) : List Char → List Char × List Char
  | [] => ([], [])
  | c :: cs =>
    if c == '.' && point && startsWithDigit cs then
      let r := wordRest false cs
      (c :: r.1, r.2)
    else if endsWord c then
      ([], c :: cs)
    else
      let r := wordRest point cs
      (c :: r.1, r.2)

theorem wordRest_append (point : Bool) (cs : List Char) :
    (wordRest point cs).1 ++ (wordRest point cs).2 = cs := by
  fun_induction wordRest point cs <;> simp_all +zetaDelta

/-- The token that a word is: a numeral, a keyword or a name. -/
def wordToken (c : Char) (cs : List Char) : Token :=
  if c.isDigit then
    .number (String.ofList (c :: cs))
  else
    match Keyword.ofChars? (c :: cs) with
    | some k => .keyword k
    | none => .name (String.ofList (c :: cs))

/-- The first segment of a text and what follows it. -/
structure Cut where
  segment : Segment
  rest : List Char

/-- Takes the first segment off a text. -/
def cut (c : Char) (cs : List Char) : Cut :=
  if Text.isBlank c then
    ⟨⟨[c], none⟩, cs⟩
  else if c = '/' ∧ cs.head? = some '*' then
    let r := blockComment cs.tail
    ⟨⟨'/' :: '*' :: r.1, none⟩, r.2⟩
  else if c = '/' ∧ cs.head? = some '/' then
    ⟨⟨c :: cs.takeWhile (· != '\n'), none⟩, cs.dropWhile (· != '\n')⟩
  else if c = '"' then
    let q := quotedRest cs
    ⟨⟨c :: q.covered, some (.text (String.ofList q.contents))⟩, q.rest⟩
  else
    match Mark.leading? (c :: cs) with
    | some m => ⟨⟨m.chars, some (.mark m)⟩, (c :: cs).drop m.chars.length⟩
    | none =>
      let w := wordRest c.isDigit cs
      ⟨⟨c :: w.1, some (wordToken c w.1)⟩, w.2⟩

/-- Cutting loses nothing. -/
theorem cut_append (c : Char) (cs : List Char) :
    (cut c cs).segment.chars ++ (cut c cs).rest = c :: cs := by
  unfold cut
  split
  · rfl
  · split
    · rename_i h
      obtain ⟨rfl, h⟩ := h
      cases cs with
      | nil => simp at h
      | cons d ds => simp_all [blockComment_append]
    · split
      · simp [List.takeWhile_append_dropWhile]
      · split
        · simp [quotedRest_append]
        · split
          · rename_i h
            obtain ⟨ds, hds⟩ := List.isPrefixOf_iff_prefix.1 (Mark.isPrefixOf_of_leading? h)
            simp [← hds]
          · simp [wordRest_append]

/-- A segment covers at least one character. -/
theorem cut_chars_ne_nil (c : Char) (cs : List Char) : (cut c cs).segment.chars ≠ [] := by
  unfold cut
  repeat' split
  all_goals first | exact Mark.chars_ne_nil _ | simp

/-- What follows a segment is shorter than the text. -/
theorem length_cut_rest (c : Char) (cs : List Char) : (cut c cs).rest.length ≤ cs.length := by
  have h := congrArg List.length (cut_append c cs)
  have hne := List.length_pos_iff.2 (cut_chars_ne_nil c cs)
  simp only [List.length_append, List.length_cons] at h
  omega

/-- The segments of a text, in order. -/
def segments : List Char → List Segment
  | [] => []
  | c :: cs =>
    let first := cut c cs
    first.segment :: segments first.rest
termination_by cs => cs.length
decreasing_by
  have := length_cut_rest c cs
  simp only [List.length_cons]
  omega

/-- The tokens among the segments, each with the place where its segment starts. -/
def place (p : Position) : List Segment → List Lexeme
  | [] => []
  | s :: ss =>
    match s.token with
    | some t => ⟨t, p⟩ :: place (p.after s.chars) ss
    | none => place (p.after s.chars) ss

end Scan

/-- The tokens of a source text. -/
def scan (source : String) : List Lexeme :=
  Scan.place .start (Scan.segments source.toList)

end ProtoScript
