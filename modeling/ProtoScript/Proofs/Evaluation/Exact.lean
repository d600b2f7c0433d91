import ProtoScript.Proofs.Evaluation.Integer
import ProtoScript.Proofs.Number.Exact

/-!
# Integer arithmetic is exact or says so

The native functions of integers hand out what the checked operations on words give, and report an overflow
where these give nothing.  So they are as exact as the operations are.
-/

namespace ProtoScript

/-! ## What native functions report -/

namespace Eval

open Number (Exact Fits checked)

/-- A computation ends with the integer `i` if that is the value of a word, and otherwise raises an
overflow; the machine is not changed otherwise. -/
structure EndsExactly (m : Machine) (x : Eval Value) (action : String) (pos : Position) (i : Int) :
    Prop where
  value : ∀ w : Int64, w.toInt = i → x m = .ok (.int w) m
  overflow : ¬ Fits i → x m = raise (.overflow action) pos m

/-- A computation that hands out a checked result ends exactly if the result is exact. -/
theorem endsExactly_of_exact {m : Machine} {x : Eval Value} {action : String} {pos : Position}
    {result : Option Int64} {i : Int} (hexact : Exact result i)
    (hx : x m = concluded m ((checked action result).mapError (⟨·, pos⟩))) :
    EndsExactly m x action pos i := by
  refine ⟨fun w hw => ?_, fun hi => ?_⟩
  · rw [hx, (hexact.some_iff w).mpr hw]
    rfl
  · rw [hx, hexact.none_iff.mpr hi]
    rfl

end Eval

/-! ## Exact arithmetic -/

open Number Eval in
/-- Integer arithmetic is exact or says so.  For all words, sums, differences, products, negations and
quotients by words other than zero are the exact results, the quotients rounded to the floor, if these are
values of words, and there is no result exactly if they are not.  The same holds for remainders, apart from
those of the least word divided by -1.  Quotient and remainder belong together, and no step on the way to
them leaves the range of the words.  The native functions end with these results or report an overflow. -/
theorem integer_arithmetic_exact (a b : Int64) :
    Exact (add? a b) (a.toInt + b.toInt) ∧ Exact (sub? a b) (a.toInt - b.toInt) ∧
    Exact (mul? a b) (a.toInt * b.toInt) ∧ Exact (neg? a) (-a.toInt) ∧
    (b ≠ 0 → Exact (floorDiv? a b) ⌊(a.toInt : ℚ) / b.toInt⌋ ∧
      (¬ (a = Int64.minValue ∧ b = -1) →
        Exact (floorMod? a b) (a.toInt - b.toInt * ⌊(a.toInt : ℚ) / b.toInt⌋) ∧
        StepsFit a b ∧
        ∃ q r : Int64, floorDiv? a b = some q ∧ floorMod? a b = some r ∧
          a.toInt = b.toInt * q.toInt + r.toInt ∧ (r = 0 ∨ r.toInt.sign = b.toInt.sign) ∧
          |r.toInt| < |b.toInt|)) ∧
    ∀ (m : Machine) (c : NativeCall) (fuel : Nat) (self : Work → Eval Value),
      m.heap.unwrap c.this = .int a →
      EndsExactly m (callNative fuel self .negateNumber c) "negate" c.pos (-a.toInt) ∧
      (m.heap.unwrap (c.argument 0) = .int b →
        EndsExactly m (callNative fuel self .addNumber c) "add" c.pos (a.toInt + b.toInt) ∧
        EndsExactly m (callNative fuel self .subtract c) "subtract" c.pos (a.toInt - b.toInt) ∧
        EndsExactly m (callNative fuel self .multiply c) "multiply" c.pos (a.toInt * b.toInt) ∧
        (b ≠ 0 →
          EndsExactly m (callNative fuel self .divide c) "divide" c.pos
            ⌊(a.toInt : ℚ) / b.toInt⌋ ∧
          (¬ (a = Int64.minValue ∧ b = -1) →
            EndsExactly m (callNative fuel self .modulo c) "take the modulo of" c.pos
              (a.toInt - b.toInt * ⌊(a.toInt : ℚ) / b.toInt⌋)))) := by
  refine ⟨fit?_exact _, fit?_exact _, fit?_exact _, fit?_exact _, fun hb => ⟨floorDiv?_exact hb, ?_⟩, ?_⟩
  · intro hpair
    have hfails := divisionFails_eq_false_of_ne hb hpair
    obtain ⟨q, r, hq, hr, hsum, hbounds⟩ := exists_floor_division hfails
    exact ⟨floorMod?_exact hb hpair, stepsFit_of_divisionFails hfails, q, r, hq, hr, hsum,
      hbounds.eq_zero_or_sign_eq, hbounds.abs_lt⟩
  · intro m c fuel self ha
    have hthis : unwrap c.this m = .ok (.int a) m := congrArg (EStateM.Result.ok · m) ha
    refine ⟨endsExactly_of_exact (fit?_exact _) (negateNumber_of_int hthis), fun hargument => ?_⟩
    have hother : unwrap (c.argument 0) m = .ok (.int b) m :=
      congrArg (EStateM.Result.ok · m) hargument
    refine ⟨endsExactly_of_exact (fit?_exact _) (arithmetic_of_ints hthis hother .add),
      endsExactly_of_exact (fit?_exact _) (arithmetic_of_ints hthis hother .subtract),
      endsExactly_of_exact (fit?_exact _) (arithmetic_of_ints hthis hother .multiply), fun hb => ?_⟩
    -- a divisor other than zero is not refused, so divisions are like the other operations
    have hdivision (r : ArithmeticRule) : division r c m =
        concluded m ((checked r.action (r.onInts a b)).mapError (⟨·, c.pos⟩)) := by
      rw [division_of_ints hthis hother r, if_neg hb]
    exact ⟨endsExactly_of_exact (floorDiv?_exact hb) (hdivision .divide),
      fun hpair => endsExactly_of_exact (floorMod?_exact hb hpair) (hdivision .modulo)⟩

open Number in
/-- The least word divided by 3, where both the quotient and the remainder are corrected. -/
theorem integer_arithmetic_exact_least :
    (3 : Int64) ≠ 0 ∧ ¬ (Int64.minValue = Int64.minValue ∧ (3 : Int64) = -1) ∧
      Exact (floorDiv? Int64.minValue 3) ⌊(Int64.minValue.toInt : ℚ) / (3 : Int64).toInt⌋ ∧
      floorDiv? Int64.minValue 3 = some (-3074457345618258603) ∧
      floorMod? Int64.minValue 3 = some 1 ∧
      |(1 : Int64).toInt| < |(3 : Int64).toInt| := by
  obtain ⟨hexact, hmodulo⟩ :=
    (integer_arithmetic_exact Int64.minValue 3).2.2.2.2.1 (by decide)
  obtain ⟨-, -, q, r, hq, hr, -, -, hlt⟩ := hmodulo (by decide)
  have hq' : floorDiv? Int64.minValue 3 = some (-3074457345618258603) := by decide
  have hr' : floorMod? Int64.minValue 3 = some 1 := by decide
  obtain rfl := Option.some.inj (hr.symm.trans hr')
  exact ⟨by decide, by decide, hexact, hq', hr', hlt⟩

open Number in
/-- The remainder of the least word divided by -1 is zero, which is the value of a word, but an overflow is
reported. -/
theorem remainder_of_least_refused :
    floorMod? Int64.minValue (-1) = none ∧
      ¬ Exact (floorMod? Int64.minValue (-1))
        (Int64.minValue.toInt - (-1 : Int64).toInt * ⌊(Int64.minValue.toInt : ℚ) / (-1 : Int64).toInt⌋) := by
  have hnone : floorMod? Int64.minValue (-1) = none := by decide
  refine ⟨hnone, fun hexact => hexact.none_iff.mp hnone ?_⟩
  have hfloor : ⌊(Int64.minValue.toInt : ℚ) / (-1 : Int64).toInt⌋ = 2 ^ 63 := by
    rw [show Int64.minValue.toInt = -2 ^ 63 from rfl, show (-1 : Int64).toInt = -1 from rfl]
    norm_num
  rw [hfloor]
  exact ⟨by decide, by decide⟩

end ProtoScript
