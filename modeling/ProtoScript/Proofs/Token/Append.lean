import ProtoScript.Proofs.Token.Render

/-!
# Scanning texts one below the other

Two texts are put one below the other with a line feed between them.  No segment goes on across a line
feed except a comment or a quoted text that is not closed: words end at blanks, marks have no line feed in
them, and a comment that starts with two slashes ends there.  So if the first text ends in neither of
the two, the segments of both texts are those of the first one, the line feed, and those of the second
one, and the tokens of the second text move down by as many rows as there are above it.
-/

namespace ProtoScript

/-! ## Places further down -/

/-- The same column, some rows further down. -/
def Position.down (rows : Nat) (p : Position) : Position :=
  ⟨p.row + rows, p.col⟩

/-- A token some rows further down. -/
def Lexeme.down (rows : Nat) (t : Lexeme) : Lexeme :=
  ⟨t.token, t.pos.down rows⟩

/-- How many rows a text goes down. -/
def newlines (source : String) : Nat :=
  source.toList.count '\n'

namespace Position

/-- Further down, characters lead further down. -/
theorem after_down (rows : Nat) (p : Position) (cs : List Char) :
    (p.down rows).after cs = (p.after cs).down rows := by
  induction cs generalizing p with
  | nil => rfl
  | cons c cs ih =>
    have hnext : (p.down rows).next c = (p.next c).down rows := by
      unfold next down
      split
      · rw [Nat.add_right_comm]
      · rfl
    rw [after_cons, after_cons, hnext, ih]

/-- Each line feed leads one row down. -/
theorem row_after (p : Position) (cs : List Char) : (p.after cs).row = p.row + cs.count '\n' := by
  induction cs generalizing p with
  | nil => rfl
  | cons c cs ih =>
    rw [after_cons, ih, List.count_cons]
    unfold next
    by_cases hc : c = '\n'
    · simp only [hc, if_true, beq_self_eq_true]
      omega
    · simp [hc]

/-- Below a text, a new one starts. -/
theorem after_newline (cs : List Char) :
    (start.after cs).next '\n' = start.down (cs.count '\n' + 1) := by
  have hrow := row_after start cs
  unfold next down
  rw [if_pos rfl, hrow, Nat.add_assoc]
  rfl

end Position

/-! ## What a line feed ends -/

namespace Scan

/-- A comment that is closed stays the same, whatever follows. -/
theorem blockComment_append_of_closed {cs : List Char} (ds : List Char)
    (h : (blockComment cs).2 ≠ [] ∨ ['*', '/'] <:+ (blockComment cs).1) :
    blockComment (cs ++ ds) = ((blockComment cs).1, (blockComment cs).2 ++ ds) := by
  fun_induction blockComment cs with
  | case1 cs => rfl
  | case2 c cs hopen r ih =>
    have hmore : r.2 ≠ [] ∨ ['*', '/'] <:+ r.1 := by
      refine h.imp id fun hsuffix => ?_
      rcases List.suffix_cons_iff.mp hsuffix with heq | hsuffix
      · -- then the star and the slash would have been found here
        obtain ⟨rfl, hr⟩ := List.cons.inj heq
        have hcs : cs = '/' :: r.2 := by
          rw [← blockComment_append cs, ← hr]
          rfl
        exact (hopen _ rfl hcs).elim
      · exact hsuffix
    rw [List.cons_append, blockComment, ih hmore]
    rintro es rfl hes
    cases cs with
    | nil =>
      rcases hmore with hne | hsuffix
      · exact hne rfl
      · exact absurd (List.suffix_nil.mp hsuffix) (List.cons_ne_nil _ _)
    | cons d cs =>
      obtain ⟨rfl, -⟩ := List.cons.inj hes
      exact hopen cs rfl rfl
  | case3 =>
    rcases h with hne | hsuffix
    · exact absurd rfl hne
    · exact absurd (List.suffix_nil.mp hsuffix) (List.cons_ne_nil _ _)

/-- A quoted text that something follows is closed, and stays the same. -/
theorem quotedRest_append_of_ne_nil {cs : List Char} (ds : List Char)
    (h : (quotedRest cs).rest ≠ []) :
    quotedRest (cs ++ ds) =
      ⟨(quotedRest cs).covered, (quotedRest cs).contents, (quotedRest cs).rest ++ ds⟩ := by
  fun_induction quotedRest cs with
  | case1 => exact absurd rfl h
  | case2 cs => rfl
  | case3 c cs q ih =>
    rw [List.cons_append, List.cons_append, quotedRest, ih h]
  | case4 => exact absurd rfl h
  | case5 c cs hquote hescape hlast q ih =>
    rw [List.cons_append, quotedRest, ih h]
    · exact hquote
    · rintro d es rfl hes
      cases cs with
      | nil => exact hlast rfl rfl
      | cons d' cs => exact hescape d' cs rfl rfl
    · rintro rfl hes
      obtain ⟨rfl, -⟩ := List.append_eq_nil_iff.mp hes
      exact hlast rfl rfl

/-- A line feed is no digit. -/
theorem startsWithDigit_append_newline (cs ds : List Char) :
    startsWithDigit (cs ++ '\n' :: ds) = startsWithDigit cs := by
  cases cs with
  | nil => rfl
  | cons c cs => rfl

/-- A word ends at a line feed. -/
theorem wordRest_append_newline (point : Bool) (cs ds : List Char) :
    wordRest point (cs ++ '\n' :: ds) =
      ((wordRest point cs).1, (wordRest point cs).2 ++ '\n' :: ds) := by
  fun_induction wordRest point cs with
  | case1 point =>
    rw [List.nil_append, wordRest, if_neg (by simp), if_pos (by decide)]
  | case2 point c cs hpoint r ih =>
    rw [List.cons_append, wordRest, startsWithDigit_append_newline, if_pos hpoint, ih]
  | case3 point c cs hpoint hends =>
    rw [List.cons_append, wordRest, startsWithDigit_append_newline, if_neg hpoint, if_pos hends]
  | case4 point c cs hpoint hends r ih =>
    rw [List.cons_append, wordRest, startsWithDigit_append_newline, if_neg hpoint, if_neg hends, ih]

/-- What has no line feed in it does not reach across one. -/
theorem isPrefixOf_append_newline {xs : List Char} (hxs : '\n' ∉ xs) (cs ds : List Char) :
    xs.isPrefixOf (cs ++ '\n' :: ds) = xs.isPrefixOf cs := by
  induction xs generalizing cs with
  | nil => rfl
  | cons x xs ih =>
    obtain ⟨hx, hxs⟩ := not_or.mp (mt List.mem_cons.mpr hxs)
    cases cs with
    | nil =>
      change (x == '\n' && _) = false
      rw [beq_eq_false_iff_ne.mpr (Ne.symm hx), Bool.false_and]
    | cons c cs =>
      rw [List.cons_append, List.isPrefixOf_cons_cons, List.isPrefixOf_cons_cons, ih hxs]

/-- What comes first is not changed by a line feed behind it, unless it is the line feed itself. -/
theorem head?_append_newline {d : Char} (hd : d ≠ '\n') (cs ds : List Char) :
    (cs ++ '\n' :: ds).head? = some d ↔ cs.head? = some d := by
  cases cs with
  | nil =>
    change some '\n' = some d ↔ none = some d
    simp [Ne.symm hd]
  | cons e cs => exact Iff.rfl

/-- A comment up to the end of the line ends at a line feed. -/
theorem takeWhile_append_newline (cs ds : List Char) :
    (cs ++ '\n' :: ds).takeWhile (· != '\n') = cs.takeWhile (· != '\n') := by
  rw [List.takeWhile_append]
  split
  · rename_i hall
    rw [List.takeWhile_cons_of_neg (by simp), List.append_nil]
    exact ((List.takeWhile_prefix _).eq_of_length hall).symm
  · rfl

/-- What follows a comment up to the end of the line starts with a line feed. -/
theorem dropWhile_append_newline (cs ds : List Char) :
    (cs ++ '\n' :: ds).dropWhile (· != '\n') = cs.dropWhile (· != '\n') ++ '\n' :: ds := by
  rw [List.dropWhile_append]
  split
  · rename_i hall
    rw [List.dropWhile_cons_of_neg (by simp), List.isEmpty_iff.mp hall, List.nil_append]
  · rfl

/-- A mark ends at a line feed. -/
theorem leading?_append_newline (cs ds : List Char) :
    Mark.leading? (cs ++ '\n' :: ds) = Mark.leading? cs := by
  have hmark : ∀ m : Mark, m.chars.isPrefixOf (cs ++ '\n' :: ds) = m.chars.isPrefixOf cs := by
    intro m
    exact isPrefixOf_append_newline (by cases m <;> decide) cs ds
  unfold Mark.leading?
  congr 1
  funext m
  exact hmark m

end Scan

/-! ## Segments -/

/-- A comment that is not closed. -/
def Segment.isOpenComment (s : Segment) : Bool :=
  s.token.isNone && ['/', '*'].isPrefixOf s.chars && !(['*', '/'].isSuffixOf (s.chars.drop 2))

/-- The text ends inside a comment that is not closed. -/
def endsInComment (source : String) : Bool :=
  (Scan.segments source.toList).getLast?.any Segment.isOpenComment

/-- What follows a segment does not change it: it is no comment that is not closed, and no text. -/
structure Segment.Stops (s : Segment) : Prop where
  comment : s.isOpenComment = false
  text : ∀ contents, s.token ≠ some (.text contents)

namespace Scan

/-- A segment ends at a line feed, if not before. -/
theorem cut_append_newline {c : Char} {cs : List Char} (ds : List Char)
    (h : (cut c cs).rest ≠ [] ∨ (cut c cs).segment.Stops) :
    cut c (cs ++ '\n' :: ds) = ⟨(cut c cs).segment, (cut c cs).rest ++ '\n' :: ds⟩ := by
  have hmark := leading?_append_newline (c :: cs) ds
  rw [List.cons_append] at hmark
  unfold cut at h ⊢
  simp only [head?_append_newline (show '*' ≠ '\n' by decide),
    head?_append_newline (show '/' ≠ '\n' by decide), hmark]
  by_cases hblank : Text.isBlank c = true
  · rw [if_pos hblank, if_pos hblank]
  rw [if_neg hblank] at h ⊢
  rw [if_neg hblank]
  by_cases hblock : c = '/' ∧ cs.head? = some '*'
  · -- a comment in slashes and stars may go on behind the line feed, unless it is closed
    rw [if_pos hblock] at h ⊢
    rw [if_pos hblock]
    have htail : (cs ++ '\n' :: ds).tail = cs.tail ++ '\n' :: ds := by
      cases cs with
      | nil => exact absurd hblock.2 (by simp)
      | cons e cs => rfl
    have hclosed : (blockComment cs.tail).2 ≠ [] ∨ ['*', '/'] <:+ (blockComment cs.tail).1 := by
      refine h.imp id fun hstops => ?_
      have hcomment := hstops.comment
      simpa [Segment.isOpenComment, List.isPrefixOf] using hcomment
    rw [htail, blockComment_append_of_closed _ hclosed]
  rw [if_neg hblock] at h ⊢
  rw [if_neg hblock]
  by_cases hline : c = '/' ∧ cs.head? = some '/'
  · rw [if_pos hline, if_pos hline]
    rw [takeWhile_append_newline, dropWhile_append_newline]
  rw [if_neg hline] at h ⊢
  rw [if_neg hline]
  by_cases hquote : c = '"'
  · -- and so may a text in quotes, which only something behind it shows to be closed
    rw [if_pos hquote] at h ⊢
    rw [if_pos hquote]
    have hclosed : (quotedRest cs).rest ≠ [] := by
      rcases h with hne | hstops
      · exact hne
      · exact absurd rfl (hstops.text _)
    rw [quotedRest_append_of_ne_nil _ hclosed]
  rw [if_neg hquote, if_neg hquote]
  cases hm : Mark.leading? (c :: cs) with
  | some m =>
    obtain ⟨es, hes⟩ := List.isPrefixOf_iff_prefix.mp (Mark.isPrefixOf_of_leading? hm)
    dsimp only
    rw [← List.cons_append, ← hes, List.append_assoc, List.drop_left, List.drop_left]
  | none =>
    dsimp only
    rw [wordRest_append_newline]

/-- A line feed is a segment of its own. -/
theorem segments_newline (cs : List Char) :
    segments ('\n' :: cs) = ⟨['\n'], none⟩ :: segments cs := by
  rw [segments]
  rfl

/-- If the last segment ends at a line feed, the segments of two texts are those of the first one, the
line feed, and those of the second one. -/
theorem segments_append_newline {cs : List Char} (ds : List Char)
    (h : ∀ s ∈ (segments cs).getLast?, s.Stops) :
    segments (cs ++ '\n' :: ds) = segments cs ++ ⟨['\n'], none⟩ :: segments ds := by
  fun_induction segments cs with
  | case1 => exact segments_newline ds
  | case2 c cs first ih =>
    have hfirst : first.rest ≠ [] ∨ first.segment.Stops := by
      by_cases hne : first.rest = []
      · rw [hne, segments] at h
        exact .inr (h first.segment rfl)
      · exact .inl hne
    have hmore : ∀ s ∈ (segments first.rest).getLast?, s.Stops := by
      intro s hs
      refine h s ?_
      cases hsegments : segments first.rest with
      | nil =>
        rw [hsegments] at hs
        cases hs
      | cons s' ss =>
        rw [hsegments] at hs
        exact hs
    rw [List.cons_append, segments, cut_append_newline ds hfirst]
    exact congrArg (first.segment :: ·) (ih hmore)

/-! ## Tokens -/

/-- The tokens of two runs of segments. -/
theorem place_append (p : Position) (ss ts : List Segment) :
    place p (ss ++ ts) = place p ss ++ place (p.after (ss.flatMap (·.chars))) ts := by
  induction ss generalizing p with
  | nil => rfl
  | cons s ss ih =>
    rw [List.cons_append, List.flatMap_cons, Position.after_append]
    conv_lhs => unfold place
    rw [place, ih]
    cases s.token with
    | none => rfl
    | some t => rfl

/-- Further down, tokens are further down. -/
theorem place_down (rows : Nat) (p : Position) (ss : List Segment) :
    place (p.down rows) ss = (place p ss).map (Lexeme.down rows) := by
  induction ss generalizing p with
  | nil => rfl
  | cons s ss ih =>
    unfold place
    rw [Position.after_down]
    cases s.token with
    | none => exact ih _
    | some t => exact congrArg (_ :: ·) (ih _)

/-- Segments lose nothing. -/
theorem flatMap_segments (cs : List Char) : (segments cs).flatMap (·.chars) = cs := by
  fun_induction segments cs with
  | case1 => rfl
  | case2 c cs first ih =>
    rw [List.flatMap_cons, ih]
    exact cut_append c cs

/-- If the last segment is a token, it is the last token. -/
theorem getLast?_place {ss : List Segment} {s : Segment} {t : Token} (hs : s ∈ ss.getLast?)
    (ht : s.token = some t) (p : Position) : ∃ pos, ⟨t, pos⟩ ∈ (place p ss).getLast? := by
  obtain ⟨front, rfl⟩ := List.getLast?_eq_some_iff.mp hs
  rw [place_append]
  refine ⟨p.after (front.flatMap (·.chars)), ?_⟩
  unfold place
  rw [ht]
  exact List.getLast?_concat

end Scan

/-- The tokens of two texts, one below the other, are those of the first text and those of the second
one, further down. -/
theorem scan_append_newline {first second : String} (hcomment : endsInComment first = false)
    (htext : ∀ t ∈ (scan first).getLast?, ∀ contents, t.token ≠ .text contents) :
    scan (first ++ "\n" ++ second) =
      scan first ++ (scan second).map (Lexeme.down (newlines first + 1)) := by
  have hstops : ∀ s ∈ (Scan.segments first.toList).getLast?, s.Stops := by
    intro s hs
    refine ⟨?_, fun contents ht => ?_⟩
    · unfold endsInComment at hcomment
      rw [hs] at hcomment
      exact hcomment
    · obtain ⟨pos, hpos⟩ := Scan.getLast?_place hs ht .start
      exact htext _ hpos contents rfl
  have hchars : (first ++ "\n" ++ second).toList = first.toList ++ '\n' :: second.toList := by
    rw [String.toList_append, String.toList_append, List.append_assoc]
    rfl
  unfold scan newlines
  rw [hchars, Scan.segments_append_newline _ hstops, Scan.place_append, Scan.flatMap_segments,
    ← Scan.place_down, ← Position.after_newline]
  rfl

end ProtoScript
