import Mathlib.Data.List.Basic
import Mathlib.Tactic.Common
import Mathlib.Tactic.IntervalCases
import ProtoScript.Token.Scan
import ProtoScript.Token.Text

/-!
# Scanning what was rendered

Tokens are rendered with single spaces between them, and scanning the text gives the same tokens back.
The reason is local: `Token.Stands t` says that the characters of a token, followed by a space or by
nothing, are cut off as this very token.  The scanner only makes tokens that stand.

* A quoted text stands because escaping is undone character by character.
* A mark stands because no longer mark has a space in it, and because a slash starts a comment only
  together with a second character that is neither a space nor the end.
* A word stands because it goes on up to the first character that ends words, and a space does.  A
  point inside a numeral has its digit with it.
-/

namespace ProtoScript

/-! ## Characters that end words -/

namespace Mark

/-- For every mark, its first character alone is a mark. -/
theorem exists_chars_eq_head (m : Mark) {c : Char} (h : m.chars.head? = some c) :
    ∃ short ∈ all, short.chars = [c] := by
  cases m <;> cases h <;> decide

/-- A text starts with a mark if and only if its first character starts one. -/
theorem leading?_eq_none_iff (c : Char) (cs : List Char) :
    leading? (c :: cs) = none ↔ starts c = false := by
  unfold leading? starts
  rw [List.find?_eq_none, List.any_eq_false]
  constructor
  · intro h m hm hhead
    obtain ⟨short, hshort, hchars⟩ := exists_chars_eq_head m (by simpa using hhead)
    have hpre := h short hshort
    rw [hchars] at hpre
    simp at hpre
  · intro h m hm hpre
    have hhead := h m hm
    obtain ⟨rest, hrest⟩ := List.isPrefixOf_iff_prefix.mp hpre
    cases hchars : m.chars with
    | nil => exact chars_ne_nil m hchars
    | cons d ds =>
      rw [hchars] at hrest hhead
      obtain rfl : d = c := (List.cons.inj hrest).1
      simp at hhead

end Mark

namespace Scan

/-- Digits are no blanks, quotes or marks. -/
theorem endsWord_of_isDigit {c : Char} (h : c.isDigit = true) : endsWord c = false := by
  simp only [Char.isDigit, Bool.and_eq_true, decide_eq_true_eq] at h
  have hlow : 48 ≤ c.toNat := h.1
  have hhigh : c.toNat ≤ 57 := h.2
  have hc : c = Char.ofNat c.toNat := by simp
  generalize c.toNat = n at hlow hhigh hc
  subst hc
  interval_cases n <;> decide

/-- What may follow a token of a rendered text: nothing, or a space. -/
def Gap (rest : List Char) : Prop :=
  rest = [] ∨ ∃ cs, rest = ' ' :: cs

/-- A word that was split off is split off again if a gap follows it. -/
theorem wordRest_append_gap (point : Bool) (cs : List Char) {rest : List Char} (h : Gap rest) :
    wordRest point ((wordRest point cs).1 ++ rest) = ((wordRest point cs).1, rest) := by
  have hgap : ∀ point, wordRest point rest = ([], rest) := by
    intro point
    rcases h with rfl | ⟨ds, rfl⟩
    · rfl
    · unfold wordRest
      rw [if_neg (by simp), if_pos (by decide)]
  fun_induction wordRest point cs with
  | case1 point => exact hgap point
  | case2 point c cs hpoint r ih =>
    simp only [Bool.and_eq_true, beq_iff_eq] at hpoint
    obtain ⟨⟨rfl, rfl⟩, hdigit⟩ := hpoint
    -- the digit after the point belongs to the word, so that the point does so again
    have hagain : startsWithDigit (r.1 ++ rest) = true := by
      cases cs with
      | nil => cases hdigit
      | cons d ds =>
        have hd : endsWord d = false := endsWord_of_isDigit hdigit
        have hr : r = (d :: (wordRest false ds).1, (wordRest false ds).2) := by
          change wordRest false (d :: ds) = _
          rw [wordRest, if_neg (by simp), hd]
          rfl
        rw [hr]
        exact hdigit
    rw [List.cons_append, wordRest, if_pos (by simp [hagain])]
    exact congrArg (fun w : List Char × List Char => ('.' :: w.1, w.2)) ih
  | case3 point c cs hpoint hends => exact hgap point
  | case4 point c cs hpoint hends r ih =>
    have hc : c ≠ '.' := by
      rintro rfl
      exact hends (by decide)
    rw [List.cons_append, wordRest, if_neg (by simp [hc]), if_neg hends]
    exact congrArg (fun w : List Char × List Char => (c :: w.1, w.2)) ih

/-- An escaped text is read back, up to the quote after it. -/
theorem quotedRest_escape (cs rest : List Char) :
    quotedRest (cs.flatMap escapeChar ++ '"' :: rest) =
      ⟨cs.flatMap escapeChar ++ ['"'], cs, rest⟩ := by
  induction cs with
  | nil => rfl
  | cons c cs ih =>
    rw [List.flatMap_cons, List.append_assoc]
    by_cases hescaped : c = '\n' ∨ c = '\t' ∨ c = '"' ∨ c = '\\'
    · rcases hescaped with rfl | rfl | rfl | rfl <;> simp [escapeChar, quotedRest, unescape, ih]
    · obtain ⟨hn, ht, hq, hb⟩ : c ≠ '\n' ∧ c ≠ '\t' ∧ c ≠ '"' ∧ c ≠ '\\' := by
        simpa only [not_or] using hescaped
      have hplain : escapeChar c = [c] := by
        simp [escapeChar, hn, ht, hq, hb]
      rw [hplain, List.singleton_append, quotedRest, ih]
      · rfl
      · exact hq
      · intro d ds heq
        exact absurd heq hb
      · intro heq
        exact absurd heq hb

end Scan

/-! ## Tokens that stand -/

namespace Token

open Scan

/-- Before a gap, the characters of a token are cut off as this token. -/
def Stands (t : Token) : Prop :=
  ∃ c cs, t.chars = c :: cs ∧ ∀ rest, Gap rest → cut c (cs ++ rest) = ⟨⟨t.chars, some t⟩, rest⟩

/-- Quoted texts stand. -/
theorem stands_text (contents : String) : (text contents).Stands := by
  refine ⟨'"', _, rfl, fun rest _ => ?_⟩
  have hread := quotedRest_escape contents.toList rest
  rw [List.append_assoc, List.singleton_append, cut, if_neg (by decide), if_neg (by simp),
    if_neg (by simp), if_pos rfl, hread]
  simp [chars, quoted]

/-- Marks stand. -/
theorem stands_mark (m : Mark) : (mark m).Stands := by
  obtain ⟨c, cs, hchars⟩ : ∃ c cs, m.chars = c :: cs := by
    cases hm : m.chars with
    | nil => exact absurd hm m.chars_ne_nil
    | cons c cs => exact ⟨c, cs, rfl⟩
  refine ⟨c, cs, hchars, fun rest hrest => ?_⟩
  rcases hrest with rfl | ⟨ds, rfl⟩
  · cases m <;> cases hchars <;> rfl
  · cases m <;> cases hchars <;> rfl

/-- Words stand. -/
theorem stands_word {c : Char} (hblank : Text.isBlank c = false) (hquote : c ≠ '"')
    (hmark : Mark.starts c = false) (cs : List Char) :
    (wordToken c (wordRest c.isDigit cs).1).Stands := by
  have hchars : ∀ ds, (wordToken c ds).chars = c :: ds := by
    intro ds
    unfold wordToken
    split
    · exact String.toList_ofList
    · split
      · rename_i k hk
        have hspelled := List.find?_some hk
        exact beq_iff_eq.mp hspelled
      · exact String.toList_ofList
  have hslash : c ≠ '/' := by
    rintro rfl
    exact absurd hmark (by decide)
  refine ⟨c, (wordRest c.isDigit cs).1, hchars _, fun rest hrest => ?_⟩
  rw [cut, if_neg (by simp [hblank]), if_neg (by simp [hslash]), if_neg (by simp [hslash]),
    if_neg hquote, (Mark.leading?_eq_none_iff c _).mpr hmark]
  dsimp only
  rw [wordRest_append_gap _ _ hrest, hchars]

end Token

namespace Scan

/-- Only tokens that stand are cut off. -/
theorem stands_of_cut {c : Char} {cs : List Char} {t : Token}
    (h : (cut c cs).segment.token = some t) : t.Stands := by
  unfold cut at h
  split at h
  · cases h
  · rename_i hblank
    split at h
    · cases h
    · split at h
      · cases h
      · split at h
        · cases h
          exact Token.stands_text _
        · rename_i hquote
          split at h
          · cases h
            exact Token.stands_mark _
          · rename_i hmark
            cases h
            exact Token.stands_word (by simpa using hblank) hquote
              ((Mark.leading?_eq_none_iff c cs).mp hmark) cs

/-- Every token of a text stands. -/
theorem stands_of_mem_segments {cs : List Char} {s : Segment} (hs : s ∈ segments cs) {t : Token}
    (ht : s.token = some t) : t.Stands := by
  fun_induction segments cs with
  | case1 => cases hs
  | case2 c cs first ih =>
    rcases List.mem_cons.mp hs with rfl | hs
    · exact stands_of_cut ht
    · exact ih hs

/-! ## Scanning tokens with spaces between them -/

/-- Placing segments keeps their tokens. -/
theorem map_token_place (p : Position) (ss : List Segment) :
    (place p ss).map (·.token) = ss.filterMap (·.token) := by
  induction ss generalizing p with
  | nil => rfl
  | cons s ss ih =>
    unfold place
    cases ht : s.token with
    | none => rw [List.filterMap_cons_none ht, ← ih]
    | some t => rw [List.filterMap_cons_some ht, ← ih (p.after s.chars), List.map_cons]

/-- The segment of a token that stands comes first. -/
theorem segments_append_gap {t : Token} (ht : t.Stands) {rest : List Char} (hrest : Gap rest) :
    segments (t.chars ++ rest) = ⟨t.chars, some t⟩ :: segments rest := by
  obtain ⟨c, cs, hchars, hcut⟩ := ht
  rw [hchars, List.cons_append, segments, hcut rest hrest, hchars]

/-- A space is a segment of its own. -/
theorem segments_space (cs : List Char) : segments (' ' :: cs) = ⟨[' '], none⟩ :: segments cs := by
  rw [segments]
  rfl

/-- The characters of tokens that stand, with spaces between them, scan to these tokens. -/
theorem filterMap_segments_intercalate {ts : List Token} (h : ∀ t ∈ ts, t.Stands) :
    (segments ([' '].intercalate (ts.map Token.chars))).filterMap (·.token) = ts := by
  induction ts with
  | nil =>
    rw [List.map_nil, List.intercalate_nil, segments]
    rfl
  | cons t ts ih =>
    have ht := h t List.mem_cons_self
    have hts := ih fun u hu => h u (List.mem_cons_of_mem _ hu)
    cases ts with
    | nil =>
      have hlast := segments_append_gap ht (.inl rfl)
      rw [List.append_nil] at hlast
      rw [List.map_singleton, List.intercalate_singleton, hlast, segments]
      rfl
    | cons u us =>
      have hfirst := segments_append_gap ht
        (.inr ⟨[' '].intercalate ((u :: us).map Token.chars), rfl⟩)
      rw [List.map_cons, List.map_cons, List.intercalate_cons_cons, List.append_assoc,
        List.singleton_append, ← List.map_cons, hfirst, segments_space]
      exact congrArg (t :: ·) hts

end Scan

namespace Token

/-- A token that comes from some text stands. -/
theorem stands_of_mem_scan {t : Token} (h : ∃ source, t ∈ (scan source).map (·.token)) :
    t.Stands := by
  obtain ⟨source, hsource⟩ := h
  unfold scan at hsource
  rw [Scan.map_token_place] at hsource
  obtain ⟨s, hs, hst⟩ := List.mem_filterMap.mp hsource
  exact Scan.stands_of_mem_segments hs hst

/-- Tokens that stand are scanned back. -/
theorem map_token_scan_render {ts : List Token} (h : ∀ t ∈ ts, t.Stands) :
    (scan (Token.render ts)).map (·.token) = ts := by
  have hchars : (Token.render ts).toList = [' '].intercalate (ts.map Token.chars) := by
    unfold Token.render
    rw [String.toList_intercalate, List.map_map]
    exact congrArg _ (List.map_congr_left fun t _ => String.toList_ofList)
  unfold scan
  rw [Scan.map_token_place, hchars]
  exact Scan.filterMap_segments_intercalate h

end Token

/-- Scanning undoes rendering.  Whatever tokens are put together, as long as each of them comes from
some text, the text that they are rendered to scans to exactly these tokens. -/
theorem scan_render {ts : List Token} (h : ∀ t ∈ ts, ∃ source, t ∈ (scan source).map (·.token)) :
    (scan (Token.render ts)).map (·.token) = ts :=
  Token.map_token_scan_render fun t ht => Token.stands_of_mem_scan (h t ht)

/-- Tokens that need care: a text with a quote, a backslash, a line feed, a carriage return and a letter
outside ASCII, a numeral with a point and letters, a name that is no word, and marks that would start
a comment if nothing stood between them. -/
def Token.awkward : List Token :=
  [.text "a\"\\\n\ré", .number "1.5e3x", .mark .slash, .mark .star, .name "@#", .keyword .mixinWord,
    .mark .dot, .number "7"]

/-- A text in which the awkward tokens occur. -/
def Token.awkwardSource : String :=
  "1.5e3x.7 *@# /mixin\"a\\\"\\\\\\n\ré\""

/-- The awkward tokens are scanned back. -/
theorem scan_render_awkward :
    (∀ t ∈ Token.awkward, ∃ source, t ∈ (scan source).map (·.token)) ∧
      (scan (Token.render Token.awkward)).map (·.token) = Token.awkward := by
  have hsource : ∀ t ∈ Token.awkward, t ∈ (scan Token.awkwardSource).map (·.token) := by
    decide +kernel
  have hoccur : ∀ t ∈ Token.awkward, ∃ source, t ∈ (scan source).map (·.token) :=
    fun t ht => ⟨Token.awkwardSource, hsource t ht⟩
  exact ⟨hoccur, scan_render hoccur⟩

end ProtoScript
