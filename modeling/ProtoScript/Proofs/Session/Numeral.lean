import ProtoScript.Proofs.Evaluation.Expansion
import ProtoScript.Proofs.Grammar.Advances
import ProtoScript.Proofs.Grammar.Independence
import ProtoScript.Proofs.Grammar.Soundness
import ProtoScript.Proofs.Number.Spelling
import ProtoScript.Proofs.Session.Discipline
import ProtoScript.Proofs.Token.Partition

/-!
# Numerals of a program

A numeral is a spelling of a natural number in radix ten, or a mark for another radix and a spelling in that
radix.  On its way from the text to a value it passes the scanner, for which it is one word that starts with
a digit; the reader, which takes the word for a literal if the number fits and otherwise gives the statement
up; and the evaluator, which hands the literal out.  The native conversions lead from integers to texts and
back without loss.
-/

namespace ProtoScript

namespace Literal

open Number (Spells digit? digitValue? fit? integer?_of_spells exists_digit?_of_spells)

/-- How the numerals of a radix begin. -/
inductive Leads : Nat → List Char → Prop
  | decimal : Leads 10 []
  | hexadecimal {c : Char} (hc : c = 'x' ∨ c = 'X') : Leads 16 ['0', c]
  | octal {c : Char} (hc : c = 'o' ∨ c = 'O') : Leads 8 ['0', c]
  | binary {c : Char} (hc : c = 'b' ∨ c = 'B') : Leads 2 ['0', c]

/-- A text is a numeral for a natural number. -/
def Denotes (cs : List Char) (n : Nat) : Prop :=
  ∃ radix lead digits, Leads radix lead ∧ Spells radix n digits ∧ cs = lead ++ digits

/-! ## What numerals stand for -/

/-- The radix that a mark stands for is between two and sixteen. -/
theorem Leads.radix_bounds {radix : Nat} {lead : List Char} (h : Leads radix lead) :
    1 < radix ∧ radix ≤ 16 := by
  cases h <;> decide

/-- A digit of a decimal number asks for no other radix. -/
theorem radix?_of_digit? {c : Char} {d : Nat} (h : digit? 10 c = some d) : radix? c = none := by
  unfold radix?
  split_ifs with hsixteen height htwo
  · rcases hsixteen with rfl | rfl <;> cases h
  · rcases height with rfl | rfl <;> cases h
  · rcases htwo with rfl | rfl <;> cases h
  · rfl

/-- A numeral stands for the word with its value, if there is one. -/
theorem ofNumeral?_of_denotes {cs : List Char} {n : Nat} (h : Denotes cs n) :
    ofNumeral? (String.ofList cs) = (fit? n).map int := by
  obtain ⟨radix, lead, digits, hleads, hspells, rfl⟩ := h
  obtain ⟨hradix, hsixteen⟩ := hleads.radix_bounds
  have hinteger := integer?_of_spells hradix hsixteen hspells
  unfold ofNumeral?
  rw [String.toList_ofList]
  cases hleads with
  | hexadecimal hc =>
    rcases hc with rfl | rfl <;> exact congrArg (Option.map int) hinteger
  | octal hc =>
    rcases hc with rfl | rfl <;> exact congrArg (Option.map int) hinteger
  | binary hc =>
    rcases hc with rfl | rfl <;> exact congrArg (Option.map int) hinteger
  | decimal =>
    have hdigits := exists_digit?_of_spells hradix hsixteen hspells
    have hplain : plainNumeral? digits = (fit? n).map int := by
      have hpoint : '.' ∉ digits := by
        intro hmem
        obtain ⟨d, hd⟩ := hdigits _ hmem
        cases hd
      rw [plainNumeral?, if_neg hpoint, hinteger]
    rw [List.nil_append]
    split
    · rename_i c rest
      obtain ⟨d, hd⟩ := hdigits c (List.mem_cons_of_mem _ List.mem_cons_self)
      rw [radix?_of_digit? hd]
      exact hplain
    · exact hplain

end Literal

namespace Scan

open Number (digitValue? digit?)

/-! ## Scanning a numeral -/

/-- Digits and letters do not end words. -/
theorem not_separates_of_digitValue? {c : Char} {d : Nat} (h : digitValue? c = some d) :
    ¬ Separates c := by
  have hends (n : Nat) (hn : (65 ≤ n ∧ n ≤ 90) ∨ (97 ≤ n ∧ n ≤ 122)) :
      endsWord (Char.ofNat n) = false := by
    rcases hn with ⟨hlow, hhigh⟩ | ⟨hlow, hhigh⟩ <;> interval_cases n <;> decide
  have hc : Char.ofNat c.toNat = c := by simp
  rw [← endsWord_iff_separates, Bool.not_eq_true]
  unfold digitValue? at h
  split_ifs at h with hdigit hsmall hcapital
  · exact endsWord_of_isDigit hdigit
  · exact hc ▸ hends c.toNat (.inr hsmall)
  · exact hc ▸ hends c.toNat (.inl hcapital)

theorem isDigit_of_digit? {c : Char} {d : Nat} (h : digit? 10 c = some d) : c.isDigit = true := by
  obtain ⟨hvalue, hlt⟩ := Option.filter_eq_some_iff.mp h
  unfold digitValue? at hvalue
  split_ifs at hvalue with hdigit
  · exact hdigit
  · cases hvalue
    simp at hlt
  · cases hvalue
    simp at hlt

/-- A numeral starts with a digit, and nothing in it ends a word. -/
theorem exists_cons_of_denotes {cs : List Char} {n : Nat} (h : Literal.Denotes cs n) :
    (∃ c rest, cs = c :: rest ∧ c.isDigit = true) ∧ ∀ c ∈ cs, ¬ Separates c := by
  obtain ⟨radix, lead, digits, hleads, hspells, rfl⟩ := h
  obtain ⟨hradix, hsixteen⟩ := hleads.radix_bounds
  have hdigit? := Number.exists_digit?_of_spells hradix hsixteen hspells
  have hdigits : ∀ c ∈ digits, ¬ Separates c := by
    intro c hc
    obtain ⟨d, hd⟩ := hdigit? c hc
    exact not_separates_of_digitValue? (Option.filter_eq_some_iff.mp hd).1
  -- the marks for other radices are a digit and a letter
  have hmarked (c : Char) (d : Nat) (hc : digitValue? c = some d) :
      (∃ c' rest, ['0', c] ++ digits = c' :: rest ∧ c'.isDigit = true) ∧
        ∀ c' ∈ ['0', c] ++ digits, ¬ Separates c' := by
    refine ⟨⟨'0', _, rfl, rfl⟩, List.forall_mem_cons.mpr ⟨not_separates_of_isDigit rfl, ?_⟩⟩
    exact List.forall_mem_cons.mpr ⟨not_separates_of_digitValue? hc, hdigits⟩
  cases hleads with
  | decimal =>
    cases hcs : digits with
    | nil => exact absurd hcs (Number.ne_nil_of_spells hspells)
    | cons c rest =>
      obtain ⟨d, hd⟩ := hdigit? c (hcs ▸ List.mem_cons_self)
      exact ⟨⟨c, rest, rfl, isDigit_of_digit? hd⟩, hcs ▸ hdigits⟩
  | hexadecimal hc => rcases hc with rfl | rfl <;> exact hmarked _ 33 rfl
  | octal hc => rcases hc with rfl | rfl <;> exact hmarked _ 24 rfl
  | binary hc => rcases hc with rfl | rfl <;> exact hmarked _ 11 rfl

/-- A numeral and a semicolon are two tokens. -/
theorem scan_of_denotes {cs : List Char} {n : Nat} (h : Literal.Denotes cs n) :
    scan (String.ofList cs ++ ";") =
      [⟨.number (String.ofList cs), ⟨1, 1⟩⟩, ⟨.mark .semicolon, ⟨1, 1 + cs.length⟩⟩] := by
  obtain ⟨⟨c, rest, rfl, hc⟩, hseparates⟩ := exists_cons_of_denotes h
  have hfits : Segment.Fits ⟨c :: rest, some (.number (String.ofList (c :: rest)))⟩ [';'] :=
    .word (.plain hseparates (.cons (.inr (.inr ⟨.semicolon, rfl⟩)) fun _ => nofun)) (.number hc)
  have hsemicolon : segments [';'] = [⟨[';'], some (.mark .semicolon)⟩] := by
    rw [segments, show cut ';' [] = ⟨⟨[';'], some (.mark .semicolon)⟩, []⟩ from rfl, segments]
  have hbehind : Position.behind (c :: rest) = ⟨1, 1 + (c :: rest).length⟩ := by
    have hline : '\n' ∉ c :: rest := fun hmem => hseparates _ hmem (.inl (by decide))
    have hall : ∀ d ∈ (c :: rest).reverse, (d != '\n') = true := by
      intro d hd
      exact bne_iff_ne.mpr fun heq => hline (heq ▸ List.mem_reverse.mp hd)
    rw [Position.behind, List.count_eq_zero_of_not_mem hline, List.takeWhile_eq_self_iff.mpr hall,
      List.length_reverse]
  have hsource : (String.ofList (c :: rest) ++ ";").toList = c :: rest ++ [';'] := by
    rw [String.toList_append, String.toList_ofList]
    rfl
  rw [scan, hsource, segments_of_fits hfits, hsemicolon, place, place, Position.after_start, hbehind]
  rfl

end Scan

namespace Grammar

/-! ## Reading a numeral -/

/-- A numeral and a semicolon. -/
abbrev numeralTokens (s : String) (p q : Position) : List Lexeme :=
  [⟨.number s, p⟩, ⟨.mark .semicolon, q⟩]

section

variable (ctx : Context) (self : {α : Type} → Goal α → Reader α) (s : String) (p q : Position)
  (es : List Diagnostic)

/-- Up to the semicolon, a numeral is the whole expression. -/
theorem expression_number :
    expression ctx self ⟨numeralTokens s p q, es⟩ =
      match Literal.ofNumeral? s with
      | some v => .ok (.literal v p) ⟨[⟨.mark .semicolon, q⟩], es⟩
      | none => .error ⟨.badNumeral s, p⟩ ⟨[⟨.mark .semicolon, q⟩], es⟩ := by
  have hprimary : primary ctx self ⟨numeralTokens s p q, es⟩ =
      (match Literal.ofNumeral? s with
        | some v => pure (.literal v p)
        | none => fail (.badNumeral s) p : Reader Expression) ⟨[⟨.mark .semicolon, q⟩], es⟩ := rfl
  cases h : Literal.ofNumeral? s with
  | some v =>
    rw [h] at hprimary
    have hunary : unary ctx self ⟨numeralTokens s p q, es⟩ =
        .ok (.literal v p) ⟨[⟨.mark .semicolon, q⟩], es⟩ := bind_of_ok (f := suffixes ctx self) hprimary
    have hoperand : operand ctx self 0 ⟨numeralTokens s p q, es⟩ =
        .ok (.literal v p) ⟨[⟨.mark .semicolon, q⟩], es⟩ := bind_of_ok hunary
    exact bind_of_ok hoperand
  | none =>
    rw [h] at hprimary
    have hunary : unary ctx self ⟨numeralTokens s p q, es⟩ =
        .error ⟨.badNumeral s, p⟩ ⟨[⟨.mark .semicolon, q⟩], es⟩ :=
      bind_of_error (f := suffixes ctx self) hprimary
    have hoperand : operand ctx self 0 ⟨numeralTokens s p q, es⟩ =
        .error ⟨.badNumeral s, p⟩ ⟨[⟨.mark .semicolon, q⟩], es⟩ := bind_of_error hunary
    exact bind_of_error hoperand

/-- A numeral and a semicolon are a statement, or nothing if the numeral stands for no number. -/
theorem readTokens_number :
    readTokens ctx [] (numeralTokens s p q) =
      match Literal.ofNumeral? s with
      | some v => ⟨[.expression (.literal v p)], []⟩
      | none => ⟨[], [Fault.diagnostic ⟨.badNumeral s, p⟩ ctx.file]⟩ := by
  have hexpression := expression_number ctx (read ctx 2) s p q []
  have hstatement : statement ctx (read ctx 2) ⟨numeralTokens s p q, []⟩ =
      (expression ctx (read ctx 2) >>= fun e => do endStatement ctx; return .expression e) _ := rfl
  have hfirst : statement? ctx (read ctx 2) ⟨numeralTokens s p q, []⟩ =
      match Literal.ofNumeral? s with
      | some v => .ok (some (.expression (.literal v p))) ⟨[], []⟩
      | none => .ok none ⟨[], [Fault.diagnostic ⟨.badNumeral s, p⟩ ctx.file]⟩ := by
    rw [Reads.statement?_apply, hstatement]
    cases h : Literal.ofNumeral? s with
    | some v =>
      rw [h] at hexpression
      rw [bind_of_ok hexpression]
      rfl
    | none =>
      rw [h] at hexpression
      rw [bind_of_error hexpression]
      rfl
  have hstatements : read ctx 3 (.statements false) ⟨numeralTokens s p q, []⟩ =
      (do
        let first ← statement? ctx (read ctx 2)
        let more ← read ctx 2 (.statements false)
        return first.toList ++ more) _ := rfl
  rw [readTokens_apply]
  dsimp only [List.length_cons, List.length_nil]
  rw [hstatements]
  cases h : Literal.ofNumeral? s with
  | some v =>
    rw [h] at hfirst
    rw [bind_of_ok hfirst]
    rfl
  | none =>
    rw [h] at hfirst
    rw [bind_of_ok hfirst]
    rfl

end

end Grammar

/-- What is read from a numeral and a semicolon. -/
theorem readProgram_of_denotes {cs : List Char} {n : Nat} (h : Literal.Denotes cs n) (library : Library)
    (file : String) :
    readProgram library file [] (String.ofList cs ++ ";") =
      match Number.fit? n with
      | some i => ⟨[.expression (.literal (.int i) ⟨1, 1⟩)], []⟩
      | none => ⟨[], [Fault.diagnostic ⟨.badNumeral (String.ofList cs), ⟨1, 1⟩⟩ file]⟩ := by
  unfold readProgram
  rw [Grammar.readSource_eq, Scan.scan_of_denotes h, Grammar.readTokens_number,
    Literal.ofNumeral?_of_denotes h]
  cases Number.fit? n with
  | some i => rfl
  | none => rfl

namespace Session

/-! ## Running a numeral -/

/-- A text without imports is loaded if it was read without errors. -/
theorem readAndLoad_of_no_imports {fuel : Nat} (hfuel : 0 < fuel) {source : String}
    (hpaths : importedPaths (scan source) = []) {file : String} {reading : Reading}
    (hreading : ∀ library, readProgram library file [] source = reading) (m : Machine) :
    readAndLoad fuel file [] source m =
      if reading.errors.isEmpty then
        .ok (.ok (loadProgram m.loads reading.statements)) { m with loads := m.loads + 1 }
      else .ok (.error reading.errors) m := by
  obtain ⟨library, hread⟩ := Eval.readText_of_no_imports hfuel hpaths file m
  rw [hreading library] at hread
  have hobserve : observe (do
        let reading ← Eval.readText fuel file [] source
        if reading.errors.isEmpty then return .ok (← Eval.load reading.statements)
        else return .error reading.errors : Eval (Except (List Diagnostic) (List Statement))) m =
      if reading.errors.isEmpty then
        .ok (.ok (.ok (loadProgram m.loads reading.statements))) { m with loads := m.loads + 1 }
      else .ok (.ok (.error reading.errors)) m := by
    rw [observe, Eval.bind_of_ok hread]
    cases reading.errors.isEmpty <;> rfl
  unfold readAndLoad
  cases herrors : reading.errors.isEmpty with
  | true =>
    rw [herrors] at hobserve
    rw [bind_of_ok hobserve]
    rfl
  | false =>
    rw [herrors] at hobserve
    rw [bind_of_ok hobserve]
    rfl

end Session

/-- What running a numeral and a semicolon comes to. -/
theorem runSource_of_denotes {cs : List Char} {n : Nat} (h : Literal.Denotes cs n) {fuel : Nat}
    (hfuel : 2 ≤ fuel) (file : String) (m : Machine) :
    Session.runSource fuel file (String.ofList cs ++ ";") m =
      match Number.fit? n with
      | some i => .ok (.ok (.int i)) { m with raised := [], loads := m.loads + 1 }
      | none => .ok (.error [Fault.diagnostic ⟨.badNumeral (String.ofList cs), ⟨1, 1⟩⟩ file]) m := by
  have hpaths : importedPaths (scan (String.ofList cs ++ ";")) = [] := by
    rw [Scan.scan_of_denotes h]
    rfl
  have hreading := fun library => readProgram_of_denotes h library file
  obtain ⟨fuel, rfl⟩ := Nat.exists_eq_add_of_le' hfuel
  cases hfit : Number.fit? n with
  | some i =>
    rw [hfit] at hreading
    have hload := Session.readAndLoad_of_no_imports (Nat.succ_pos (fuel + 1)) hpaths hreading m
    exact Session.bind_of_ok hload
  | none =>
    rw [hfit] at hreading
    have hload := Session.readAndLoad_of_no_imports (Nat.succ_pos (fuel + 1)) hpaths hreading m
    exact Session.bind_of_ok hload

/-! ## Integers as texts of a program -/

namespace Eval

variable {m : Machine} {c : NativeCall} {i : Int64}

/-- The native conversion to a text gives the text of an integer. -/
theorem toText_of_int (self : Work → Eval Value) (h : m.heap.unwrap c.this = .int i) :
    toText self c m = .ok (.text (Number.integerText i)) m := by
  have hthis : unwrap c.this m = .ok (.int i) m := congrArg (EStateM.Result.ok · m) h
  unfold toText
  rw [bind_of_ok hthis]
  rfl

/-- The native conversion to an integer undoes the conversion of an integer to a text. -/
theorem toInt_of_integerText (h : m.heap.unwrap c.this = .text (Number.integerText i)) :
    toInt c m = .ok (.int i) m := by
  have hthis : unwrap c.this m = .ok (.text (Number.integerText i)) m := congrArg (EStateM.Result.ok · m) h
  unfold toInt
  rw [bind_of_ok hthis]
  simp only [asInt, Number.integer?_integerText]
  rfl

end Eval

/-- Integer texts keep their value.  A numeral for a natural number below 2 ^ 63 is scanned as one token, read
as one literal and run to the integer with this value; a numeral for a larger one is read as no statement and
one error.  The text that an integer is converted to is converted to this integer again. -/
theorem integer_texts_keep_value :
    (∀ (cs : List Char) (n : Nat), Literal.Denotes cs n →
      scan (String.ofList cs ++ ";") =
        [⟨.number (String.ofList cs), ⟨1, 1⟩⟩, ⟨.mark .semicolon, ⟨1, 1 + cs.length⟩⟩] ∧
      (n < 2 ^ 63 → ∃ i : Int64, i.toInt = n ∧
        (∀ library file, readProgram library file [] (String.ofList cs ++ ";") =
          ⟨[.expression (.literal (.int i) ⟨1, 1⟩)], []⟩) ∧
        ∀ fuel file m, 2 ≤ fuel → Session.runSource fuel file (String.ofList cs ++ ";") m =
          .ok (.ok (.int i)) { m with raised := [], loads := m.loads + 1 }) ∧
      (2 ^ 63 ≤ n → ∀ file, ∃ e : Diagnostic,
        e = ⟨.grammar, file, ⟨1, 1⟩, "Invalid numeric literal '" ++ String.ofList cs ++ "'"⟩ ∧
        (∀ library, readProgram library file [] (String.ofList cs ++ ";") = ⟨[], [e]⟩) ∧
        ∀ fuel m, 2 ≤ fuel → Session.runSource fuel file (String.ofList cs ++ ";") m =
          .ok (.error [e]) m)) ∧
    ∀ (i : Int64) (m : Machine) (c : NativeCall) (fuel : Nat) (self : Work → Eval Value),
      (m.heap.unwrap c.this = .int i →
        Eval.callNative fuel self .toText c m = .ok (.text (Number.integerText i)) m) ∧
      (m.heap.unwrap c.this = .text (Number.integerText i) →
        Eval.callNative fuel self .toInt c m = .ok (.int i) m) := by
  refine ⟨fun cs n h => ⟨Scan.scan_of_denotes h, fun hn => ?_, fun hn file => ?_⟩,
    fun i m c fuel self => ⟨Eval.toText_of_int self, Eval.toInt_of_integerText⟩⟩
  · have hfits : Number.Fits n := ⟨by omega, by omega⟩
    have hvalue := Number.toInt_ofInt_of_fits hfits
    have hfit := ((Number.fit?_exact n).some_iff _).mpr hvalue
    refine ⟨Int64.ofInt n, hvalue, fun library file => ?_, fun fuel file m hfuel => ?_⟩
    · rw [readProgram_of_denotes h, hfit]
    · rw [runSource_of_denotes h hfuel, hfit]
  · have hnone : Number.fit? n = none := by
      refine (Number.fit?_exact n).none_iff.mpr fun hfits => ?_
      have := hfits.2
      omega
    refine ⟨_, rfl, fun library => ?_, fun fuel m hfuel => ?_⟩
    · rw [readProgram_of_denotes h, hnone]
      rfl
    · rw [runSource_of_denotes h hfuel, hnone]
      rfl

/-- The machine whose only object is a box of a text. -/
def Machine.boxing (text : String) : Machine :=
  { Machine.bare with heap := ⟨#[.plain none ⟨[(Heap.payload, .text text)]⟩], #[]⟩ }

/-- The numeral `0X00fF` is run to 255, `0x8000000000000000` is refused, and the text of the least integer is
converted back. -/
theorem integer_texts_keep_value_extremes :
    Literal.Denotes ['0', 'X', '0', '0', 'f', 'F'] 255 ∧
      (∃ i : Int64, i.toInt = 255 ∧ Session.runSource 2 "main" "0X00fF;" .bare =
        .ok (.ok (.int i)) { Machine.bare with loads := 1 }) ∧
      Literal.Denotes "0x8000000000000000".toList (2 ^ 63) ∧
      Session.runSource 2 "main" "0x8000000000000000;" .bare =
        .ok (.error [⟨.grammar, "main", ⟨1, 1⟩, "Invalid numeric literal '0x8000000000000000'"⟩]) .bare ∧
      Number.integerText Int64.minValue = "-9223372036854775808" ∧
      Eval.toInt ⟨some ⟨0⟩, [], ⟨1, 1⟩⟩ (.boxing "-9223372036854775808") =
        .ok (.int Int64.minValue) (.boxing "-9223372036854775808") := by
  obtain ⟨hnumerals, hconversions⟩ := integer_texts_keep_value
  have hsmall : Literal.Denotes ['0', 'X', '0', '0', 'f', 'F'] 255 :=
    ⟨16, ['0', 'X'], ['0', '0', 'f', 'F'], .hexadecimal (.inr rfl), ⟨2, by decide⟩, rfl⟩
  have hlarge : Literal.Denotes "0x8000000000000000".toList (2 ^ 63) :=
    ⟨16, ['0', 'x'], "8000000000000000".toList, .hexadecimal (.inl rfl), ⟨0, by decide +kernel⟩, by decide⟩
  have hleast : Number.integerText Int64.minValue = "-9223372036854775808" := by decide +kernel
  obtain ⟨i, hi, -, hrun⟩ := (hnumerals _ _ hsmall).2.1 (by decide)
  obtain ⟨e, rfl, -, hrefused⟩ := (hnumerals _ _ hlarge).2.2 (by decide) "main"
  exact ⟨hsmall, ⟨i, hi, hrun 2 "main" .bare (by decide)⟩, hlarge, hrefused 2 .bare (by decide), hleast,
    (hconversions Int64.minValue (.boxing "-9223372036854775808") ⟨some ⟨0⟩, [], ⟨1, 1⟩⟩ 0
      fun _ => pure .null).2 (hleast ▸ rfl)⟩

end ProtoScript
