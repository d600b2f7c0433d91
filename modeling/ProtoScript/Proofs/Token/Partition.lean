import Mathlib.Data.List.Infix
import Mathlib.Data.List.Nodup
import Mathlib.Data.List.TakeWhile
import ProtoScript.Proofs.Token.Append

/-!
# Scanning partitions the text

What the segments of a text are can be said without the scanner: `Segment.Fits s rest` says that `s` is the
segment that the text `s.chars ++ rest` begins with, from the shape of its characters and from what follows
them.  `Scan.Partitions` puts such segments one after the other, and counts rows and columns from the
characters before each of them.  Every text has exactly one partition, and it is the one that the scanner
makes.
-/

namespace ProtoScript

namespace Position

/-- The place behind some characters: its row is found by counting line feeds, its column by counting the
characters since the last one. -/
def behind (before : List Char) : Position :=
  ⟨1 + before.count '\n', 1 + (before.reverse.takeWhile (· != '\n')).length⟩

/-- Behind a text, from the start of a file. -/
theorem after_start (before : List Char) : start.after before = behind before := by
  induction before using List.reverseRecOn with
  | nil => rfl
  | append_singleton cs c ih =>
    rw [after_append, ih]
    change (behind cs).next c = behind (cs ++ [c])
    unfold next behind
    by_cases hc : c = '\n'
    · simp [hc, List.count_append, Nat.add_assoc]
    · simp [hc, List.count_append, Nat.add_assoc]

/-- Behind two texts, one after the other. -/
theorem after_behind (before cs : List Char) : (behind before).after cs = behind (before ++ cs) := by
  rw [← after_start, ← after_append, after_start]

end Position

namespace Scan

/-! ### The shapes of segments -/

/-- A character that no word goes across: a blank, a quote, or the first character of a mark. -/
def Separates (c : Char) : Prop :=
  Text.isBlank c = true ∨ c = '"' ∨ ∃ m : Mark, m.chars.head? = some c

/-- What the characters between quotes stand for. -/
inductive Spells : List Char → List Char → Prop
  | nil : Spells [] []
  | plain {c : Char} {cs ds : List Char} (hquote : c ≠ '"') (hescape : c ≠ '\\')
    (h : Spells cs ds) : Spells (c :: cs) (c :: ds)
  | newline {cs ds : List Char} (h : Spells cs ds) : Spells ('\\' :: 'n' :: cs) ('\n' :: ds)
  | tab {cs ds : List Char} (h : Spells cs ds) : Spells ('\\' :: 't' :: cs) ('\t' :: ds)
  | other {c : Char} {cs ds : List Char} (hn : c ≠ 'n') (ht : c ≠ 't') (h : Spells cs ds) :
    Spells ('\\' :: c :: cs) (c :: ds)

/-- A word ends before this text.  If it may still take a point, then no point that is followed by a digit
comes next. -/
inductive WordEnds (point : Bool) : List Char → Prop
  | nil : WordEnds point []
  | cons {c : Char} {rest : List Char} (hc : Separates c)
    (hpoint : point = true → c = '.' → ∀ d ∈ rest.head?, d.isDigit = false) :
    WordEnds point (c :: rest)

/-- A word, and what follows it.  A point separates words, except for a single one in a word that starts with
a digit, which another digit follows. -/
inductive Word : List Char → List Char → Prop
  | plain {c : Char} {cs rest : List Char} (hcs : ∀ d ∈ c :: cs, ¬ Separates d)
    (hrest : WordEnds c.isDigit rest) : Word (c :: cs) rest
  | pointed {c d : Char} {whole fraction rest : List Char} (hc : c.isDigit = true)
    (hd : d.isDigit = true) (hwhole : ∀ e ∈ c :: whole, ¬ Separates e)
    (hfraction : ∀ e ∈ d :: fraction, ¬ Separates e) (hrest : WordEnds false rest) :
    Word (c :: (whole ++ '.' :: d :: fraction)) rest

/-- The token that a word is: a numeral exactly if it starts with a digit, and otherwise a keyword or a
name. -/
inductive Names : List Char → Token → Prop
  | number {c : Char} {cs : List Char} (hc : c.isDigit = true) :
    Names (c :: cs) (.number (String.ofList (c :: cs)))
  | keyword (k : Keyword) : Names k.chars (.keyword k)
  | name {c : Char} {cs : List Char} (hc : c.isDigit = false) (hk : ∀ k : Keyword, k.chars ≠ c :: cs) :
    Names (c :: cs) (.name (String.ofList (c :: cs)))

end Scan

/-- A segment is the first one of a text, where `rest` is what follows it: one blank, one comment, or the text
of one token.

A comment that starts with two slashes goes up to the next line feed or to the end of the text; one that
starts with a slash and a star goes up to the first star and slash behind these, or to the end.  A mark is the
longest of all marks that the text starts with.  A quoted text goes up to its closing quote or to the end;
a backslash at the very end stands for nothing. -/
inductive Segment.Fits : Segment → List Char → Prop
  | blank {c : Char} {rest : List Char} (hc : Text.isBlank c = true) : Fits ⟨[c], none⟩ rest
  | lineComment {body rest : List Char} (hbody : '\n' ∉ body)
    (hrest : rest = [] ∨ ∃ more, rest = '\n' :: more) : Fits ⟨'/' :: '/' :: body, none⟩ rest
  | comment {body rest : List Char} (hbody : ¬ ['*', '/'] <:+: body ++ ['*']) :
    Fits ⟨'/' :: '*' :: (body ++ ['*', '/']), none⟩ rest
  | openComment {body : List Char} (hbody : ¬ ['*', '/'] <:+: body) :
    Fits ⟨'/' :: '*' :: body, none⟩ []
  | mark {m : Mark} {rest : List Char}
    (hlongest : ∀ m' : Mark, m'.chars <+: m.chars ++ rest → m'.chars.length ≤ m.chars.length)
    (hline : ¬ ['/', '/'] <+: m.chars ++ rest) (hblock : ¬ ['/', '*'] <+: m.chars ++ rest) :
    Fits ⟨m.chars, some (.mark m)⟩ rest
  | text {body contents rest : List Char} (hbody : Scan.Spells body contents) :
    Fits ⟨'"' :: (body ++ ['"']), some (.text (String.ofList contents))⟩ rest
  | openText {body contents : List Char} (hbody : Scan.Spells body contents) :
    Fits ⟨'"' :: body, some (.text (String.ofList contents))⟩ []
  | brokenText {body contents : List Char} (hbody : Scan.Spells body contents) :
    Fits ⟨'"' :: (body ++ ['\\']), some (.text (String.ofList contents))⟩ []
  | word {cs rest : List Char} {t : Token} (hword : Scan.Word cs rest) (ht : Scan.Names cs t) :
    Fits ⟨cs, some t⟩ rest

/-- What fits covers at least one character. -/
theorem Segment.Fits.exists_cons {s : Segment} {rest : List Char} (hs : s.Fits rest) :
    ∃ c cs, s.chars = c :: cs := by
  cases hs with
  | @mark m => exact List.exists_cons_of_ne_nil m.chars_ne_nil
  | word hword => cases hword <;> exact ⟨_, _, rfl⟩
  | _ => exact ⟨_, _, rfl⟩

namespace Scan

/-- A text, and what comes before it, is cut into segments, and these are the tokens among them, each with
the place where its segment begins. -/
inductive Partitions : List Char → List Char → List Segment → List Lexeme → Prop
  | nil {before : List Char} : Partitions before [] [] []
  | skip {before rest : List Char} {s : Segment} {ss : List Segment} {ts : List Lexeme}
    (hs : s.Fits rest) (htoken : s.token = none) (hrest : Partitions (before ++ s.chars) rest ss ts) :
    Partitions before (s.chars ++ rest) (s :: ss) ts
  | take {before rest : List Char} {s : Segment} {ss : List Segment} {t : Token} {ts : List Lexeme}
    (hs : s.Fits rest) (htoken : s.token = some t)
    (hrest : Partitions (before ++ s.chars) rest ss ts) :
    Partitions before (s.chars ++ rest) (s :: ss) (⟨t, .behind before⟩ :: ts)

/-! ### Comments -/

/-- A block comment goes up to where it is closed first. -/
theorem blockComment_of_closed {body : List Char} (hbody : ¬ ['*', '/'] <:+: body ++ ['*'])
    (rest : List Char) :
    blockComment (body ++ '*' :: '/' :: rest) = (body ++ ['*', '/'], rest) := by
  induction body with
  | nil => rfl
  | cons b body ih =>
    rw [List.cons_append, List.infix_cons_iff, not_or] at hbody
    rw [List.cons_append, blockComment, ih hbody.2]
    · rfl
    · rintro more rfl heq
      cases body with
      | nil => cases heq
      | cons d body =>
        obtain ⟨rfl, -⟩ := List.cons.inj heq
        exact hbody.1 ⟨body ++ ['*'], rfl⟩

/-- A block comment that is not closed goes up to the end. -/
theorem blockComment_of_open {body : List Char} (hbody : ¬ ['*', '/'] <:+: body) :
    blockComment body = (body, []) := by
  induction body with
  | nil => rfl
  | cons b body ih =>
    rw [List.infix_cons_iff, not_or] at hbody
    rw [blockComment, ih hbody.2]
    rintro more rfl rfl
    exact hbody.1 ⟨more, rfl⟩

/-- The rest of a comment is closed by the first star and slash, or it is the rest of the text. -/
theorem blockComment_cases (cs : List Char) :
    (∃ body, (blockComment cs).1 = body ++ ['*', '/'] ∧ ¬ ['*', '/'] <:+: body ++ ['*']) ∨
      (blockComment cs).2 = [] ∧ ¬ ['*', '/'] <:+: (blockComment cs).1 := by
  fun_induction blockComment cs with
  | case1 cs => exact .inl ⟨[], rfl, by decide⟩
  | case2 c cs hopen r ih =>
    have happend : r.1 ++ r.2 = cs := blockComment_append cs
    rcases ih with ⟨body, hbody, hfirst⟩ | ⟨hrest, hnone⟩
    · refine .inl ⟨c :: body, by rw [hbody]; rfl, ?_⟩
      rw [List.cons_append, List.infix_cons_iff]
      rintro (⟨more, hmore⟩ | hinside)
      · obtain ⟨rfl, htail⟩ := List.cons.inj hmore
        cases body with
        | nil => cases htail
        | cons d body =>
          obtain ⟨rfl, -⟩ := List.cons.inj htail
          refine hopen (body ++ ['*', '/'] ++ r.2) rfl ?_
          rw [← happend, hbody]
          rfl
      · exact hfirst hinside
    · refine .inr ⟨hrest, ?_⟩
      rw [List.infix_cons_iff]
      rintro (⟨more, hmore⟩ | hinside)
      · obtain ⟨rfl, htail⟩ := List.cons.inj hmore
        refine hopen (more ++ r.2) rfl ?_
        rw [← happend, ← htail]
        rfl
      · exact hnone hinside
  | case3 => exact .inr ⟨rfl, by decide⟩

/-! ### Quoted texts -/

/-- The spelling of a text is read as the text, and reading goes on behind it. -/
theorem quotedRest_append_of_spells {body contents : List Char} (hbody : Spells body contents)
    (rest : List Char) :
    quotedRest (body ++ rest) = ⟨body ++ (quotedRest rest).covered,
      contents ++ (quotedRest rest).contents, (quotedRest rest).rest⟩ := by
  induction hbody with
  | nil => rfl
  | @plain c cs ds hquote hescape _ ih =>
    rw [List.cons_append, quotedRest, ih]
    · rfl
    · exact hquote
    · exact fun d ds heq => absurd heq hescape
    · exact fun heq => absurd heq hescape
  | newline _ ih =>
    rw [List.cons_append, List.cons_append, quotedRest, ih]
    rfl
  | tab _ ih =>
    rw [List.cons_append, List.cons_append, quotedRest, ih]
    rfl
  | @other c cs ds hn ht _ ih =>
    rw [List.cons_append, List.cons_append, quotedRest, ih]
    simp [unescape, hn, ht]

/-- A character behind a backslash stands for what it should stand for. -/
theorem Spells.escaped (c : Char) {cs ds : List Char} (h : Spells cs ds) :
    Spells ('\\' :: c :: cs) (unescape c :: ds) := by
  unfold unescape
  by_cases hn : c = 'n'
  · rw [if_pos hn, hn]
    exact .newline h
  rw [if_neg hn]
  by_cases ht : c = 't'
  · rw [if_pos ht, ht]
    exact .tab h
  · rw [if_neg ht]
    exact .other hn ht h

/-- The rest of a quoted text is closed by a quote, or it is the rest of the text. -/
theorem quotedRest_cases (cs : List Char) :
    ∃ body, Spells body (quotedRest cs).contents ∧
      ((quotedRest cs).covered = body ++ ['"'] ∨
        (quotedRest cs).rest = [] ∧
          ((quotedRest cs).covered = body ∨ (quotedRest cs).covered = body ++ ['\\'])) := by
  have hcons {covered rest body : List Char} (front : List Char)
      (h : covered = body ++ ['"'] ∨ rest = [] ∧ (covered = body ∨ covered = body ++ ['\\'])) :
      front ++ covered = front ++ body ++ ['"'] ∨
        rest = [] ∧ (front ++ covered = front ++ body ∨ front ++ covered = front ++ body ++ ['\\']) := by
    rcases h with rfl | ⟨hrest, rfl | rfl⟩ <;> simp [*]
  fun_induction quotedRest cs with
  | case1 => exact ⟨[], .nil, .inr ⟨rfl, .inl rfl⟩⟩
  | case2 cs => exact ⟨[], .nil, .inl rfl⟩
  | case3 c cs q ih =>
    obtain ⟨body, hbody, hcovered⟩ := ih
    exact ⟨'\\' :: c :: body, hbody.escaped c, hcons ['\\', c] hcovered⟩
  | case4 => exact ⟨[], .nil, .inr ⟨rfl, .inr rfl⟩⟩
  | case5 c cs hquote hescape hlast q ih =>
    obtain ⟨body, hbody, hcovered⟩ := ih
    have hplain : c ≠ '\\' := by
      rintro rfl
      cases cs with
      | nil => exact hlast rfl rfl
      | cons d cs => exact hescape d cs rfl rfl
    exact ⟨c :: body, .plain hquote hplain hbody, hcons [c] hcovered⟩

/-! ### Words -/

/-- Words end at what separates them. -/
theorem endsWord_iff_separates {c : Char} : endsWord c = true ↔ Separates c := by
  unfold endsWord Separates Mark.starts
  simp only [Bool.or_eq_true, beq_iff_eq, List.any_eq_true, or_assoc]
  refine or_congr_right (or_congr_right ⟨?_, ?_⟩)
  · rintro ⟨m, -, hm⟩
    exact ⟨m, hm⟩
  · rintro ⟨m, hm⟩
    exact ⟨m, m.mem_all, hm⟩

theorem not_separates_of_isDigit {c : Char} (hc : c.isDigit = true) : ¬ Separates c := by
  rw [← endsWord_iff_separates, endsWord_of_isDigit hc]
  exact Bool.false_ne_true

theorem separates_point : Separates '.' :=
  .inr (.inr ⟨.dot, rfl⟩)

/-- A text that does not start with a digit. -/
theorem startsWithDigit_eq_false_iff {cs : List Char} :
    startsWithDigit cs = false ↔ ∀ d ∈ cs.head?, d.isDigit = false := by
  cases cs <;> simp [startsWithDigit]

/-- A word goes on over characters that do not separate. -/
theorem wordRest_append_of_plain (point : Bool) {cs : List Char} (hcs : ∀ d ∈ cs, ¬ Separates d)
    (rest : List Char) :
    wordRest point (cs ++ rest) = (cs ++ (wordRest point rest).1, (wordRest point rest).2) := by
  induction cs with
  | nil => rfl
  | cons c cs ih =>
    obtain ⟨hc, hcs⟩ := List.forall_mem_cons.mp hcs
    have hpoint : c ≠ '.' := fun heq => hc (heq ▸ separates_point)
    rw [List.cons_append, wordRest, if_neg (by simp [hpoint]),
      if_neg (fun hends => hc (endsWord_iff_separates.mp hends)), ih hcs]
    rfl

/-- A word does not go on behind its end. -/
theorem wordRest_of_wordEnds {point : Bool} {rest : List Char} (hrest : WordEnds point rest) :
    wordRest point rest = ([], rest) := by
  cases hrest with
  | nil => rfl
  | @cons c rest hc hpoint =>
    rw [wordRest, if_neg, if_pos (endsWord_iff_separates.mpr hc)]
    rw [Bool.and_eq_true, Bool.and_eq_true, beq_iff_eq]
    rintro ⟨⟨rfl, hallowed⟩, hdigit⟩
    rw [startsWithDigit_eq_false_iff.mpr (hpoint hallowed rfl)] at hdigit
    cases hdigit

/-- What belongs to a word: characters that do not separate words, and perhaps a point with a digit behind
it. -/
theorem wordRest_cases (point : Bool) (cs : List Char) :
    (∀ d ∈ (wordRest point cs).1, ¬ Separates d) ∧ WordEnds point (wordRest point cs).2 ∨
      point = true ∧ ∃ whole d fraction, (wordRest point cs).1 = whole ++ '.' :: d :: fraction ∧
        (∀ e ∈ whole, ¬ Separates e) ∧ d.isDigit = true ∧ (∀ e ∈ d :: fraction, ¬ Separates e) ∧
        WordEnds false (wordRest point cs).2 := by
  fun_induction wordRest point cs with
  | case1 point => exact .inl ⟨List.forall_mem_nil _, .nil⟩
  | case2 point c cs hpoint r ih =>
    rw [Bool.and_eq_true, Bool.and_eq_true, beq_iff_eq] at hpoint
    obtain ⟨⟨rfl, rfl⟩, hdigit⟩ := hpoint
    obtain ⟨hplain, hends⟩ := ih.resolve_right fun h => Bool.false_ne_true h.1
    have happend : r.1 ++ r.2 = cs := wordRest_append false cs
    cases hr : r.1 with
    | nil =>
      -- the digit behind the point belongs to the word
      rw [hr, List.nil_append] at happend
      rw [happend] at hends
      cases hends with
      | nil => cases hdigit
      | cons hc => exact absurd hc (not_separates_of_isDigit hdigit)
    | cons d fraction =>
      rw [hr] at hplain happend
      rw [← happend] at hdigit
      exact .inr ⟨rfl, [], d, fraction, rfl, List.forall_mem_nil _, hdigit, hplain, hends⟩
  | case3 point c cs hpoint hends =>
    refine .inl ⟨List.forall_mem_nil _, .cons (endsWord_iff_separates.mp hends) ?_⟩
    rintro rfl rfl
    rw [← startsWithDigit_eq_false_iff]
    simpa using hpoint
  | case4 point c cs hpoint hends r ih =>
    have hc : ¬ Separates c := fun hc => hends (endsWord_iff_separates.mpr hc)
    rcases ih with ⟨hplain, hrest⟩ | ⟨hallowed, whole, d, fraction, hr, hwhole, hd, hfraction, hrest⟩
    · exact .inl ⟨List.forall_mem_cons.mpr ⟨hc, hplain⟩, hrest⟩
    · exact .inr ⟨hallowed, c :: whole, d, fraction, congrArg (c :: ·) hr,
        List.forall_mem_cons.mpr ⟨hc, hwhole⟩, hd, hfraction, hrest⟩

/-- The token of a word is the one that it names. -/
theorem wordToken_eq_iff {c : Char} {cs : List Char} {t : Token} :
    wordToken c cs = t ↔ Names (c :: cs) t := by
  unfold wordToken
  constructor
  · rintro rfl
    split
    · rename_i hc
      exact .number hc
    · rename_i hc
      split
      · rename_i k hk
        have hspelled := List.find?_some hk
        rw [← beq_iff_eq.mp hspelled]
        exact .keyword k
      · rename_i hk
        refine .name (by simpa using hc) fun k hspelled => ?_
        rw [← hspelled, Keyword.ofChars?_chars] at hk
        cases hk
  · intro ht
    generalize hchars : c :: cs = chars at ht ⊢
    cases ht with
    | number hc =>
      obtain ⟨rfl, rfl⟩ := List.cons.inj hchars
      rw [if_pos hc]
    | keyword k =>
      have hc : c.isDigit = false := by
        cases k <;> cases hchars <;> rfl
      rw [if_neg (by simp [hc]), Keyword.ofChars?_chars]
    | name hc hk =>
      obtain ⟨rfl, rfl⟩ := List.cons.inj hchars
      have hnone : Keyword.ofChars? (c :: cs) = none := by
        refine List.find?_eq_none.mpr fun k _ heq => hk k (beq_iff_eq.mp heq)
      rw [if_neg (by simp [hc]), hnone]

end Scan

/-! ### Marks -/

namespace Mark

/-- Longer marks come first. -/
theorem pairwise_all : all.Pairwise fun m m' => m'.chars.length ≤ m.chars.length := by
  decide

/-- A mark is known by its characters. -/
theorem chars_injective : Function.Injective chars := by
  intro m m' heq
  have hnodup : (all.map chars).Nodup := by decide
  exact List.inj_on_of_nodup_map hnodup m.mem_all m'.mem_all heq

/-- The mark that a text starts with is the longest one. -/
theorem leading?_eq_some_iff {cs : List Char} {m : Mark} :
    leading? cs = some m ↔
      m.chars <+: cs ∧ ∀ m' : Mark, m'.chars <+: cs → m'.chars.length ≤ m.chars.length := by
  have hlongest {m : Mark} (hm : leading? cs = some m) (m' : Mark) (hm' : m'.chars <+: cs) :
      m'.chars.length ≤ m.chars.length := by
    obtain ⟨-, front, behind, hall, hfront⟩ := List.find?_eq_some_iff_append.mp hm
    have hmem := m'.mem_all
    have hpairwise := pairwise_all
    rw [hall] at hmem hpairwise
    rcases List.mem_append.mp hmem with hmem | hmem
    · have hnot := hfront m' hmem
      rw [List.isPrefixOf_iff_prefix.mpr hm'] at hnot
      cases hnot
    · rcases List.mem_cons.mp hmem with rfl | hmem
      · exact Nat.le_refl _
      · exact List.rel_of_pairwise_cons (List.pairwise_append.mp hpairwise).2.1 hmem
  constructor
  · intro hm
    exact ⟨List.isPrefixOf_iff_prefix.mp (isPrefixOf_of_leading? hm), hlongest hm⟩
  · rintro ⟨hbegins, hmax⟩
    cases hfound : leading? cs with
    | none =>
      have hnone := List.find?_eq_none.mp hfound m m.mem_all
      exact absurd (List.isPrefixOf_iff_prefix.mpr hbegins) hnone
    | some m' =>
      have hbegins' := List.isPrefixOf_iff_prefix.mp (isPrefixOf_of_leading? hfound)
      have hlength : m'.chars.length = m.chars.length :=
        Nat.le_antisymm (hmax m' hbegins') (hlongest hfound m hbegins)
      have hchars : m'.chars = m.chars :=
        (List.prefix_of_prefix_length_le hbegins' hbegins (Nat.le_of_eq hlength)).eq_of_length hlength
      rw [chars_injective hchars]

end Mark

namespace Scan

/-! ### The first segment -/

/-- The first character of a word does not separate. -/
theorem Word.not_separates {c : Char} {cs rest : List Char} (hword : Word (c :: cs) rest) :
    ¬ Separates c := by
  cases hword with
  | plain hcs => exact hcs c List.mem_cons_self
  | pointed _ _ hwhole => exact hwhole c List.mem_cons_self

/-- A word is read up to its end. -/
theorem wordRest_of_word {c : Char} {cs rest : List Char} (hword : Word (c :: cs) rest) :
    wordRest c.isDigit (cs ++ rest) = (cs, rest) := by
  cases hword with
  | plain hcs hrest =>
    rw [wordRest_append_of_plain _ (List.forall_mem_cons.mp hcs).2, wordRest_of_wordEnds hrest,
      List.append_nil]
  | @pointed _ d whole fraction _ hc hd hwhole hfraction hrest =>
    have hpointed : wordRest true ('.' :: (d :: fraction ++ rest)) = ('.' :: d :: fraction, rest) := by
      rw [wordRest, if_pos (by simp [startsWithDigit, hd]), wordRest_append_of_plain _ hfraction,
        wordRest_of_wordEnds hrest, List.append_nil]
    rw [hc, List.append_assoc, wordRest_append_of_plain _ (List.forall_mem_cons.mp hwhole).2]
    change (whole ++ (wordRest true ('.' :: (d :: fraction ++ rest))).1,
      (wordRest true ('.' :: (d :: fraction ++ rest))).2) = _
    rw [hpointed]

/-- A word is cut off where nothing else begins. -/
theorem cut_of_not_separates {c : Char} (hc : ¬ Separates c) (cs : List Char) :
    cut c cs = ⟨⟨c :: (wordRest c.isDigit cs).1, some (wordToken c (wordRest c.isDigit cs).1)⟩,
      (wordRest c.isDigit cs).2⟩ := by
  obtain ⟨hblank, hquote, hmark⟩ : ¬ Text.isBlank c = true ∧ c ≠ '"' ∧
      ¬ ∃ m : Mark, m.chars.head? = some c := by
    simpa only [Separates, not_or] using hc
  have hslash : c ≠ '/' := by
    rintro rfl
    exact hmark ⟨.slash, rfl⟩
  have hstarts : Mark.starts c = false := by
    refine List.any_eq_false.mpr fun m _ hm => hmark ⟨m, beq_iff_eq.mp hm⟩
  rw [cut, if_neg hblank, if_neg (fun h => hslash h.1), if_neg (fun h => hslash h.1), if_neg hquote,
    (Mark.leading?_eq_none_iff c cs).mpr hstarts]

/-- A mark is cut off where no comment begins. -/
theorem cut_of_leading? {c : Char} {cs : List Char} {m : Mark}
    (hm : Mark.leading? (c :: cs) = some m) (hline : ¬ ['/', '/'] <+: c :: cs)
    (hblock : ¬ ['/', '*'] <+: c :: cs) :
    cut c cs = ⟨⟨m.chars, some (.mark m)⟩, (c :: cs).drop m.chars.length⟩ := by
  have hhead : m.chars.head? = some c := by
    obtain ⟨⟨more, hmore⟩, -⟩ := Mark.leading?_eq_some_iff.mp hm
    cases hchars : m.chars with
    | nil => exact absurd hchars m.chars_ne_nil
    | cons d ds =>
      rw [hchars] at hmore
      exact congrArg some (List.cons.inj hmore).1
  have hplain : Text.isBlank c = false ∧ c ≠ '"' := by
    cases m <;> cases hhead <;> decide
  have hpair (d : Char) (hnot : ¬ ['/', d] <+: c :: cs) : ¬ (c = '/' ∧ cs.head? = some d) := by
    rintro ⟨rfl, hd⟩
    obtain ⟨ds, rfl⟩ := List.head?_eq_some_iff.mp hd
    exact hnot ⟨ds, rfl⟩
  rw [cut, if_neg (by simp [hplain.1]), if_neg (hpair '*' hblock), if_neg (hpair '/' hline),
    if_neg hplain.2, hm]

/-- A comment up to the end of the line has no line feed in it. -/
theorem span_line {body rest : List Char} (hbody : '\n' ∉ body)
    (hrest : rest = [] ∨ ∃ more, rest = '\n' :: more) :
    (body ++ rest).takeWhile (· != '\n') = body ∧ (body ++ rest).dropWhile (· != '\n') = rest := by
  have hall : ∀ c ∈ body, (c != '\n') = true := fun c hc => bne_iff_ne.mpr fun heq => hbody (heq ▸ hc)
  rcases hrest with rfl | ⟨more, rfl⟩
  · rw [List.append_nil]
    exact ⟨List.takeWhile_eq_self_iff.mpr hall, List.dropWhile_eq_nil_iff.mpr hall⟩
  · rw [takeWhile_append_newline, dropWhile_append_newline, List.takeWhile_eq_self_iff.mpr hall,
      List.dropWhile_eq_nil_iff.mpr hall]
    exact ⟨rfl, rfl⟩

theorem cut_slash_slash (cs : List Char) :
    cut '/' ('/' :: cs) = ⟨⟨'/' :: ('/' :: cs).takeWhile (· != '\n'), none⟩,
      ('/' :: cs).dropWhile (· != '\n')⟩ := rfl

theorem cut_slash_star (cs : List Char) :
    cut '/' ('*' :: cs) = ⟨⟨'/' :: '*' :: (blockComment cs).1, none⟩, (blockComment cs).2⟩ := rfl

theorem cut_quote (cs : List Char) :
    cut '"' cs = ⟨⟨'"' :: (quotedRest cs).covered,
      some (.text (String.ofList (quotedRest cs).contents))⟩, (quotedRest cs).rest⟩ := rfl

/-- What fits is cut off. -/
theorem cut_of_fits {s : Segment} {rest : List Char} (hs : s.Fits rest) {c : Char} {cs : List Char}
    (hchars : s.chars ++ rest = c :: cs) : cut c cs = ⟨s, rest⟩ := by
  cases hs with
  | blank hc =>
    obtain ⟨rfl, rfl⟩ := List.cons_eq_cons.mp hchars
    exact if_pos hc
  | @lineComment body rest hbody hrest =>
    rw [List.cons_append] at hchars
    obtain ⟨rfl, rfl⟩ := List.cons_eq_cons.mp hchars
    have hslash : '\n' ∉ '/' :: body := by simpa using hbody
    obtain ⟨htake, hdrop⟩ := span_line hslash hrest
    rw [List.cons_append, cut_slash_slash, ← List.cons_append, htake, hdrop]
  | @comment body rest hbody =>
    rw [List.cons_append, List.cons_append, List.append_assoc] at hchars
    obtain ⟨rfl, rfl⟩ := List.cons_eq_cons.mp hchars
    rw [cut_slash_star]
    exact congrArg (fun r : List Char × List Char => (⟨⟨'/' :: '*' :: r.1, none⟩, r.2⟩ : Cut))
      (blockComment_of_closed hbody rest)
  | @openComment body hbody =>
    rw [List.append_nil] at hchars
    obtain ⟨rfl, rfl⟩ := List.cons_eq_cons.mp hchars
    rw [cut_slash_star, blockComment_of_open hbody]
  | @mark m rest hlongest hline hblock =>
    have hm := Mark.leading?_eq_some_iff.mpr ⟨List.prefix_append m.chars rest, hlongest⟩
    rw [hchars] at hm hline hblock
    rw [cut_of_leading? hm hline hblock, ← hchars, List.drop_left]
  | @text body contents rest hbody =>
    rw [List.cons_append, List.append_assoc] at hchars
    obtain ⟨rfl, rfl⟩ := List.cons_eq_cons.mp hchars
    rw [cut_quote, quotedRest_append_of_spells hbody, List.singleton_append, quotedRest,
      List.append_nil]
  | @openText body contents hbody =>
    rw [List.append_nil] at hchars
    obtain ⟨rfl, rfl⟩ := List.cons_eq_cons.mp hchars
    have hread := quotedRest_append_of_spells hbody []
    rw [quotedRest, List.append_nil, List.append_nil] at hread
    rw [cut_quote, hread]
  | @brokenText body contents hbody =>
    rw [List.append_nil] at hchars
    obtain ⟨rfl, rfl⟩ := List.cons_eq_cons.mp hchars
    rw [cut_quote, quotedRest_append_of_spells hbody, quotedRest, List.append_nil]
  | @word chars rest t hword ht =>
    cases chars with
    | nil => cases hword
    | cons d ds =>
      rw [List.cons_append] at hchars
      obtain ⟨rfl, rfl⟩ := List.cons_eq_cons.mp hchars
      rw [cut_of_not_separates hword.not_separates, wordRest_of_word hword, wordToken_eq_iff.mpr ht]

/-- A comment in slashes and stars fits. -/
theorem cut_slash_star_fits (cs : List Char) :
    (cut '/' ('*' :: cs)).segment.Fits (cut '/' ('*' :: cs)).rest := by
  rw [cut_slash_star]
  rcases blockComment_cases cs with ⟨body, hbody, hfirst⟩ | ⟨hrest, hnone⟩
  · rw [hbody]
    exact .comment hfirst
  · rw [hrest]
    exact .openComment hnone

/-- A comment up to the end of the line fits. -/
theorem cut_slash_slash_fits (cs : List Char) :
    (cut '/' ('/' :: cs)).segment.Fits (cut '/' ('/' :: cs)).rest := by
  rw [cut_slash_slash, List.takeWhile_cons_of_pos (by decide), List.dropWhile_cons_of_pos (by decide)]
  refine .lineComment (fun hmem => ?_) ?_
  · exact absurd (List.mem_takeWhile_imp hmem) (by decide)
  · cases hrest : cs.dropWhile (· != '\n') with
    | nil => exact .inl rfl
    | cons d ds =>
      have hd := List.head?_dropWhile_not (· != '\n') cs
      rw [hrest] at hd
      have hnewline : d = '\n' := by simpa using hd
      exact .inr ⟨ds, congrArg (· :: ds) hnewline⟩

/-- A quoted text fits. -/
theorem cut_quote_fits (cs : List Char) : (cut '"' cs).segment.Fits (cut '"' cs).rest := by
  rw [cut_quote]
  obtain ⟨body, hbody, hclosed | ⟨hrest, hopen | hbroken⟩⟩ := quotedRest_cases cs
  · rw [hclosed]
    exact .text hbody
  · rw [hrest, hopen]
    exact .openText hbody
  · rw [hrest, hbroken]
    exact .brokenText hbody

/-- A word fits. -/
theorem cut_word_fits {c : Char} (hc : ¬ Separates c) (cs : List Char) :
    (cut c cs).segment.Fits (cut c cs).rest := by
  rw [cut_of_not_separates hc]
  refine .word ?_ (wordToken_eq_iff.mp rfl)
  rcases wordRest_cases c.isDigit cs with
    ⟨hplain, hrest⟩ | ⟨hdigit, whole, d, fraction, hr, hwhole, hd, hfraction, hrest⟩
  · exact .plain (List.forall_mem_cons.mpr ⟨hc, hplain⟩) hrest
  · rw [hr]
    exact .pointed hdigit hd (List.forall_mem_cons.mpr ⟨hc, hwhole⟩) hfraction hrest

/-- What is cut off fits. -/
theorem cut_fits (c : Char) (cs : List Char) : (cut c cs).segment.Fits (cut c cs).rest := by
  by_cases hblank : Text.isBlank c = true
  · rw [cut, if_pos hblank]
    exact .blank hblank
  by_cases hquote : c = '"'
  · subst hquote
    exact cut_quote_fits cs
  by_cases hblock : ['/', '*'] <+: c :: cs
  · obtain ⟨ds, hds⟩ := hblock
    obtain ⟨rfl, rfl⟩ := List.cons_eq_cons.mp hds
    exact cut_slash_star_fits ds
  by_cases hline : ['/', '/'] <+: c :: cs
  · obtain ⟨ds, hds⟩ := hline
    obtain ⟨rfl, rfl⟩ := List.cons_eq_cons.mp hds
    exact cut_slash_slash_fits ds
  cases hm : Mark.leading? (c :: cs) with
  | some m =>
    obtain ⟨⟨more, hmore⟩, hlongest⟩ := Mark.leading?_eq_some_iff.mp hm
    rw [cut_of_leading? hm hline hblock]
    rw [← hmore] at hlongest hline hblock ⊢
    rw [List.drop_left]
    exact .mark hlongest hline hblock
  | none =>
    refine cut_word_fits ?_ cs
    rintro (hc | hc | ⟨m, hhead⟩)
    · exact hblank hc
    · exact hquote hc
    · have hstarts := (Mark.leading?_eq_none_iff c cs).mp hm
      exact List.any_eq_false.mp hstarts m m.mem_all (beq_iff_eq.mpr hhead)

/-! ### All segments -/

/-- What fits is the first segment. -/
theorem segments_of_fits {s : Segment} {rest : List Char} (hs : s.Fits rest) :
    segments (s.chars ++ rest) = s :: segments rest := by
  obtain ⟨c, cs, hchars⟩ := hs.exists_cons
  have hcut : cut c (cs ++ rest) = ⟨s, rest⟩ := cut_of_fits hs (by rw [hchars, List.cons_append])
  rw [hchars, List.cons_append, segments, hcut]

/-- The segments of a partition are those that the scanner makes. -/
theorem Partitions.eq {before text : List Char} {ss : List Segment} {ts : List Lexeme}
    (hp : Partitions before text ss ts) :
    ss = segments text ∧ ts = place (.behind before) (segments text) := by
  induction hp with
  | nil =>
    rw [segments]
    exact ⟨rfl, rfl⟩
  | skip hs htoken _ ih =>
    obtain ⟨rfl, rfl⟩ := ih
    rw [segments_of_fits hs, place, htoken, Position.after_behind]
    exact ⟨rfl, rfl⟩
  | take hs htoken _ ih =>
    obtain ⟨rfl, rfl⟩ := ih
    rw [segments_of_fits hs, place, htoken, Position.after_behind]
    exact ⟨rfl, rfl⟩

/-- The scanner makes a partition of every text. -/
theorem partitions_segments (before text : List Char) :
    Partitions before text (segments text) (place (.behind before) (segments text)) := by
  fun_induction segments text generalizing before with
  | case1 => exact .nil
  | case2 c cs first ih =>
    have hs : first.segment.Fits first.rest := cut_fits c cs
    have hrest := ih (before ++ first.segment.chars)
    rw [← cut_append c cs, place, Position.after_behind]
    cases htoken : first.segment.token with
    | none => exact .skip hs htoken hrest
    | some t => exact .take hs htoken hrest

end Scan

/-- **Scanning partitions the text.** Every text has exactly one partition into segments, and the scanner
makes it.  So its segments, one after the other, are the whole text; each of them is one blank, one comment
or the text of one token; and its tokens are those of the segments, in order, at the places where these
begin. -/
theorem scan_partitions (source : String) (ss : List Segment) (ts : List Lexeme) :
    Scan.Partitions [] source.toList ss ts ↔ ss = Scan.segments source.toList ∧ ts = scan source := by
  constructor
  · exact Scan.Partitions.eq
  · rintro ⟨rfl, rfl⟩
    exact Scan.partitions_segments [] source.toList

/-- A numeral takes one point, and a slash behind a star that opens a comment does not close it. -/
example : (scan "1.2.3\n /= a/*/").map (fun t => (t.token, t.pos)) =
    [(.number "1.2", ⟨1, 1⟩), (.mark .dot, ⟨1, 4⟩), (.number "3", ⟨1, 5⟩), (.mark .slashEqual, ⟨2, 2⟩),
      (.name "a", ⟨2, 5⟩)] := by
  decide +kernel

end ProtoScript
