import Mathlib.Tactic.IntervalCases
import ProtoScript.Number.Integral
import ProtoScript.Proofs.Number.Exact
import ProtoScript.Proofs.Token.Render
import ProtoScript.Text.Blank

/-!
# Integers as text

Reading the digits of a number gives the number back, whatever zeros stand in front of them and in whatever
case their letters are, as long as it is the value of a word; otherwise nothing is read.  Runs with more
than 64 digits are given up without being read: already in radix two they stand for numbers that are too
large.  What an integer is written as is read as the integer, the least one included, which has no positive
counterpart.
-/

namespace ProtoScript.Number

/-- A text consists of the digits of a number in some radix: any number of zeros, then the digits that the
number has, with letters of either case. -/
def Spells (radix n : Nat) (cs : List Char) : Prop :=
  ∃ zeros, cs.map Char.toLower = List.replicate zeros '0' ++ Nat.toDigits radix n

/-- A spelling has at least one digit. -/
theorem ne_nil_of_spells {radix n : Nat} {cs : List Char} (h : Spells radix n cs) : cs ≠ [] := by
  rintro rfl
  obtain ⟨zeros, hzeros⟩ := h
  exact absurd hzeros.symm (by simp)

/-! ## Letters of either case -/

/-- What holds of the capital letters, and of the characters that are their own small ones, holds of all
characters. -/
theorem toLower_cases {P : Char → Prop} (hself : ∀ c : Char, c.toLower = c → P c)
    (hcapital : ∀ n, 65 ≤ n → n ≤ 90 → P (Char.ofNat n)) (c : Char) : P c := by
  by_cases h : c.val ≥ 'A'.val ∧ c.val ≤ 'Z'.val
  · have hc : Char.ofNat c.toNat = c := by simp
    exact hc ▸ hcapital c.toNat h.1 h.2
  · exact hself c (dif_neg h)

/-- The case of a digit does not matter for its value. -/
theorem digitValue?_toLower (c : Char) : digitValue? c.toLower = digitValue? c := by
  induction c using toLower_cases with
  | hself c hc => rw [hc]
  | hcapital n hlow hhigh => interval_cases n <;> decide

/-- Only zero is zero in lower case. -/
theorem toLower_eq_zero_iff (c : Char) : c.toLower = '0' ↔ c = '0' := by
  induction c using toLower_cases with
  | hself c hc => rw [hc]
  | hcapital n hlow hhigh => interval_cases n <;> decide

theorem digit?_toLower (radix : Nat) (c : Char) : digit? radix c.toLower = digit? radix c := by
  rw [digit?, digit?, digitValue?_toLower]

/-- The case of digits does not matter for what they add up to. -/
theorem appendDigits?_map_toLower (radix n : Nat) (cs : List Char) :
    appendDigits? radix n (cs.map Char.toLower) = appendDigits? radix n cs := by
  induction cs generalizing n with
  | nil => rfl
  | cons c cs ih => simp only [List.map_cons, appendDigits?, digit?_toLower, ih]

/-- The case of digits does not matter for their number. -/
theorem magnitude?_map_toLower (radix : Nat) (cs : List Char) :
    magnitude? radix (cs.map Char.toLower) = magnitude? radix cs := by
  have hzeros : (fun c => decide (c = '0')) ∘ Char.toLower = fun c => decide (c = '0') := by
    funext c
    simp only [Function.comp, toLower_eq_zero_iff]
  simp only [magnitude?, List.dropWhile_map, hzeros, List.length_map, List.isEmpty_map,
    appendDigits?_map_toLower]

/-! ## Reading digits -/

/-- Digits are appended one after the other. -/
theorem appendDigits?_append (radix n : Nat) (cs ds : List Char) :
    appendDigits? radix n (cs ++ ds) =
      (appendDigits? radix n cs).bind fun n' => appendDigits? radix n' ds := by
  induction cs generalizing n with
  | nil => rfl
  | cons c cs ih =>
    rw [List.cons_append, appendDigits?, appendDigits?, Option.bind_assoc]
    exact Option.bind_congr fun d _ => ih _

section

variable {radix : Nat} (hradix : 1 < radix) (hsixteen : radix ≤ 16)

/-- The character of a digit is read as the digit. -/
theorem digit?_digitChar {d : Nat} (hd : d < radix) (hsixteen : radix ≤ 16) :
    digit? radix d.digitChar = some d := by
  have hvalue : digitValue? d.digitChar = some d := by
    have hlt : d < 16 := Nat.lt_of_lt_of_le hd hsixteen
    interval_cases d <;> rfl
  rw [digit?, hvalue, Option.filter_some, if_pos (decide_eq_true hd)]

theorem digitChar_ne_zero {d : Nat} (hd : d ≠ 0) (hlt : d < 16) : d.digitChar ≠ '0' := by
  interval_cases d <;> first | exact absurd rfl hd | decide

include hradix hsixteen

/-- The digits of a number other than zero do not start with a zero. -/
theorem dropWhile_toDigits {n : Nat} (hn : n ≠ 0) :
    (Nat.toDigits radix n).dropWhile (· = '0') = Nat.toDigits radix n := by
  induction n using Nat.strongRecOn with
  | ind n ih =>
    rw [Nat.toDigits_eq_if hradix]
    split
    · rename_i hlt
      rw [List.dropWhile_cons_of_neg]
      simpa using digitChar_ne_zero hn (Nat.lt_of_lt_of_le hlt hsixteen)
    · rename_i hge
      have hpos : n / radix ≠ 0 := Nat.ne_of_gt (Nat.div_pos (Nat.le_of_not_lt hge) (by omega))
      rw [List.dropWhile_append, ih _ (Nat.div_lt_self (by omega) hradix) hpos, if_neg]
      simp

/-- Reading the digits of a number gives the number. -/
theorem appendDigits?_toDigits (n : Nat) : appendDigits? radix 0 (Nat.toDigits radix n) = some n := by
  induction n using Nat.strongRecOn with
  | ind n ih =>
    rw [Nat.toDigits_eq_if hradix]
    split
    · rename_i hn
      simp [appendDigits?, digit?_digitChar hn hsixteen]
    · rename_i hn
      have hdigit := digit?_digitChar (Nat.mod_lt n (by omega)) hsixteen
      rw [appendDigits?_append, ih _ (Nat.div_lt_self (by omega) hradix)]
      simp only [Option.bind_some, appendDigits?, hdigit, Nat.div_add_mod']

/-- What the digits of a number stand for, unless they are more than a word can have. -/
theorem magnitude?_of_spells {n : Nat} {cs : List Char} (h : Spells radix n cs) :
    magnitude? radix cs = if n < radix ^ wordDigits then some n else none := by
  obtain ⟨zeros, hcs⟩ := h
  have hzeros : ∀ c ∈ List.replicate zeros '0', decide (c = '0') = true := by
    intro c hc
    exact decide_eq_true (List.eq_of_mem_replicate hc)
  have hne : ¬ (List.replicate zeros '0' ++ Nat.toDigits radix n).isEmpty = true := by
    simp [Nat.toDigits_ne_nil]
  rw [← magnitude?_map_toLower, hcs, magnitude?, List.dropWhile_append_of_pos hzeros]
  by_cases hn : n = 0
  · subst hn
    have hdigits : Nat.toDigits radix 0 = ['0'] := Nat.toDigits_of_lt_base (by omega)
    have hpos : 0 < radix ^ wordDigits := Nat.pow_pos (by omega)
    rw [if_pos hpos, hdigits, if_neg]
    · rfl
    · simp
  · have hlength := Nat.length_toDigits_le_iff (n := n) (k := wordDigits) hradix (by decide)
    rw [dropWhile_toDigits hradix hsixteen hn, appendDigits?_toDigits hradix hsixteen]
    by_cases hlt : n < radix ^ wordDigits
    · rw [if_pos hlt, if_neg (not_or.mpr ⟨hne, Nat.not_lt.mpr (hlength.mpr hlt)⟩)]
    · rw [if_neg hlt, if_pos (.inr (Nat.lt_of_not_le (mt hlength.mp hlt)))]

/-- If digits are more than a word can have, the number fits no word, with a sign or without. -/
theorem bind_magnitude?_of_spells {n : Nat} {cs : List Char} (h : Spells radix n cs) :
    (magnitude? radix cs).bind (fun n => fit? n) = fit? n ∧
      (magnitude? radix cs).bind (fun n => fit? (-(n : Int))) = fit? (-(n : Int)) := by
  rw [magnitude?_of_spells hradix hsixteen h]
  by_cases hlt : n < radix ^ wordDigits
  · rw [if_pos hlt]
    exact ⟨rfl, rfl⟩
  · have hlarge : 2 ^ wordDigits ≤ n :=
      Nat.le_trans (Nat.pow_le_pow_left hradix wordDigits) (Nat.le_of_not_lt hlt)
    have hwords : 2 ^ wordDigits = 2 ^ 64 := rfl
    rw [if_neg hlt]
    refine ⟨((fit?_exact _).none_iff.mpr ?_).symm, ((fit?_exact _).none_iff.mpr ?_).symm⟩
    · unfold Fits
      omega
    · unfold Fits
      omega

/-- Every character of a spelling is a digit of the radix. -/
theorem exists_digit?_of_spells {n : Nat} {cs : List Char} (h : Spells radix n cs) :
    ∀ c ∈ cs, ∃ d, digit? radix c = some d := by
  have hdigits (n : Nat) : ∀ c ∈ Nat.toDigits radix n, ∃ d, digit? radix c = some d := by
    induction n using Nat.strongRecOn with
    | ind n ih =>
      rw [Nat.toDigits_eq_if hradix]
      split
      · rename_i hlt
        simpa using ⟨n, digit?_digitChar hlt hsixteen⟩
      · rename_i hge
        intro c hc
        rcases List.mem_append.mp hc with hc | hc
        · exact ih _ (Nat.div_lt_self (by omega) hradix) c hc
        · rw [List.mem_singleton.mp hc]
          exact ⟨_, digit?_digitChar (Nat.mod_lt n (by omega)) hsixteen⟩
  obtain ⟨zeros, hcs⟩ := h
  intro c hc
  have hmem := List.mem_map_of_mem (f := Char.toLower) hc
  rw [hcs] at hmem
  rw [← digit?_toLower]
  rcases List.mem_append.mp hmem with hmem | hmem
  · rw [List.eq_of_mem_replicate hmem]
    exact ⟨0, digit?_digitChar (d := 0) (by omega) hsixteen⟩
  · exact hdigits n _ hmem

/-- A text that consists of the digits of a number is read as the word with its value, if there is one. -/
theorem integer?_of_spells {n : Nat} {cs : List Char} (h : Spells radix n cs) :
    integer? radix cs = fit? n := by
  have hdigits := exists_digit?_of_spells hradix hsixteen h
  have hnone : ∀ c, digitValue? c = none → c ∉ cs := by
    intro c hc hmem
    obtain ⟨d, hd⟩ := hdigits c hmem
    rw [digit?, hc] at hd
    cases hd
  unfold integer?
  split
  · exact absurd List.mem_cons_self (hnone '-' rfl)
  · exact absurd List.mem_cons_self (hnone '+' rfl)
  · exact (bind_magnitude?_of_spells hradix hsixteen h).1

end

/-! ## Reading what was written -/

/-- The digits that a number is written with in decimal are a spelling of it. -/
theorem spells_toDigits (n : Nat) : Spells 10 n (Nat.toDigits 10 n) := by
  have hlower : ∀ c ∈ Nat.toDigits 10 n, c.toLower = c := by
    intro c hc
    have hdigit := Nat.isDigit_of_mem_toDigits (by decide) (by decide) hc
    induction c using toLower_cases with
    | hself c hself => exact hself
    | hcapital n hlow hhigh => interval_cases n <;> exact absurd hdigit (by decide)
  exact ⟨0, by simpa using List.map_congr_left hlower⟩

/-- An integer is written with the digits of its absolute value, after a minus sign if it is negative. -/
theorem toList_integerText (i : Int64) :
    (∃ n : Nat, i.toInt = n ∧ (integerText i).toList = Nat.toDigits 10 n) ∨
      ∃ n : Nat, i.toInt = -n ∧ (integerText i).toList = '-' :: Nat.toDigits 10 n := by
  unfold integerText
  change (∃ n : Nat, _ ∧ (Int.repr i.toInt).toList = _) ∨ ∃ n : Nat, _ ∧ (Int.repr i.toInt).toList = _
  match i.toInt with
  | .ofNat n => exact .inl ⟨n, rfl, Nat.toList_repr⟩
  | .negSucc n =>
    refine .inr ⟨n + 1, Int.negSucc_eq n, ?_⟩
    rw [Int.repr, String.toList_append, Nat.toList_repr]
    rfl

/-- Trimming does not change a text without blanks. -/
theorem trim_of_forall {cs : List Char} (h : ∀ c ∈ cs, Text.isBlank c = false) : Text.trim cs = cs := by
  have hdrop : ∀ ds : List Char, (∀ c ∈ ds, Text.isBlank c = false) → ds.dropWhile Text.isBlank = ds := by
    intro ds hds
    cases ds with
    | nil => rfl
    | cons d ds => rw [List.dropWhile_cons_of_neg (by simp [hds d List.mem_cons_self])]
  unfold Text.trim
  rw [hdrop cs h, hdrop cs.reverse fun c hc => h c (List.mem_reverse.mp hc), List.reverse_reverse]

/-- What an integer is written as is read as the integer. -/
theorem integer?_integerText (i : Int64) : integer? 10 (Text.trim (integerText i).toList) = some i := by
  have hblank (n : Nat) : ∀ c ∈ Nat.toDigits 10 n, Text.isBlank c = false := by
    intro c hc
    have hends := Scan.endsWord_of_isDigit (Nat.isDigit_of_mem_toDigits (by decide) (by decide) hc)
    simp only [Scan.endsWord, Bool.or_eq_false_iff] at hends
    exact hends.1.1
  rcases toList_integerText i with ⟨n, hn, htext⟩ | ⟨n, hn, htext⟩
  · rw [htext, trim_of_forall (hblank n), integer?_of_spells (by decide) (by decide) (spells_toDigits n)]
    exact ((fit?_exact _).some_iff i).mpr hn
  · rw [htext, trim_of_forall (List.forall_mem_cons.mpr ⟨by decide, hblank n⟩)]
    change (magnitude? 10 (Nat.toDigits 10 n)).bind _ = _
    rw [(bind_magnitude?_of_spells (by decide) (by decide) (spells_toDigits n)).2]
    exact ((fit?_exact _).some_iff i).mpr hn

end ProtoScript.Number
