import ProtoScript.Proofs.Evaluation.Ending

/-!
# The wording of problems

The two internal problems stand for a machine in disorder.  Of a diagnostic only the text is shown,
so it is the text that has to tell: no other problem is worded like one of these two, whatever names
and values take part in it.  In a part of each wording that does not vary there is a letter that
the two texts lack, with three exceptions that are looked at one by one.
-/

namespace ProtoScript

/-- The letters of a text that is written out. -/
theorem mem_toList_ofList {c : Char} {cs : List Char} (h : c ∈ cs) :
    c ∈ (String.ofList cs).toList := by
  rwa [String.toList_ofList]

/-- Texts differ if one of them has a letter that the other one lacks. -/
theorem ne_of_mem_toList {s : String} {c : Char} {cs : List Char} (hs : c ∈ s.toList)
    (hcs : c ∉ cs) : s ≠ String.ofList cs := by
  rintro rfl
  rw [String.toList_ofList] at hs
  exact hcs hs

/-- A text differs from two others if it has a letter that both of them lack. -/
theorem ne_both_of_mem_toList {s : String} {c : Char} {cs ds : List Char} (hs : c ∈ s.toList)
    (hcs : c ∉ cs) (hds : c ∉ ds) : s ≠ String.ofList cs ∧ s ≠ String.ofList ds :=
  ⟨ne_of_mem_toList hs hcs, ne_of_mem_toList hs hds⟩

/-- No other problem is worded like one of the internal ones. -/
theorem Problem.message_ne_internal {p : Problem} (hp : p.isInternal = false) :
    p.message ≠ "Operand stack underflow" ∧ p.message ≠ "Cannot close the global scope" := by
  -- `message` is opened by hand, since its equations are expensive to state
  cases p <;> (delta message; dsimp only)
  case operandsExhausted | rootScopeClosed => cases hp
  case returnOutside | strayArgumentSpread | badTarget | noReceiver | divisionByZero
      | notExpandable =>
    exact ne_both_of_mem_toList (c := 'i') (mem_toList_ofList (by decide)) (by decide) (by decide)
  case undefinedVariable | undeclaredTarget | badConstructor | badTruth | cannotWrite
      | cannotShow | cannotReadInput | badExitCode | exitCodeOutOfRange | expansionFailed =>
    refine ne_both_of_mem_toList (c := 'i') ?_ (by decide) (by decide)
    simp only [String.toList_append, List.append_assoc, List.mem_append]
    exact .inl (mem_toList_ofList (by decide))
  case operatorMismatch | cannotKeepSign =>
    refine ne_both_of_mem_toList (c := 'y') ?_ (by decide) (by decide)
    simp only [String.toList_append, List.append_assoc, List.mem_append]
    exact .inl (mem_toList_ofList (by decide))
  case noTypeFor | cannotSpread | unreadableNumber | notConvertible =>
    refine ne_both_of_mem_toList (c := 'v') ?_ (by decide) (by decide)
    simp only [String.toList_append, List.append_assoc, List.mem_append]
    exact .inl (mem_toList_ofList (by decide))
  case typeMismatch | argumentCount | expectedObject | expectedIndex | expectedArray
      | expectedText | expectedArguments | expectedPropertyName =>
    refine ne_both_of_mem_toList (c := 'E') ?_ (by decide) (by decide)
    simp only [String.toList_append, List.append_assoc, List.mem_append]
    exact .inl (mem_toList_ofList (by decide))
  case indexOutOfRange | overflow =>
    refine ne_both_of_mem_toList (c := 'I') ?_ (by decide) (by decide)
    simp only [String.toList_append, List.append_assoc, List.mem_append]
    exact .inl (mem_toList_ofList (by decide))
  case cannotCompare | notAMacroBody =>
    refine ne_both_of_mem_toList (c := 'm') ?_ (by decide) (by decide)
    simp only [String.toList_append, List.append_assoc, List.mem_append]
    exact .inl (mem_toList_ofList (by decide))
  case alreadyDefined | unknownColor | cannotOpen =>
    refine ne_both_of_mem_toList (c := '\'') ?_ (by decide) (by decide)
    simp only [String.toList_append, List.append_assoc, List.mem_append]
    exact .inl (mem_toList_ofList (by decide))
  case notAType | notCallable | noTemplate =>
    refine ne_both_of_mem_toList (c := 'i') ?_ (by decide) (by decide)
    rw [String.toList_append]
    exact List.mem_append_right _ (mem_toList_ofList (by decide))
  case noCandidates =>
    refine ne_both_of_mem_toList (c := 'x') ?_ (by decide) (by decide)
    rw [String.toList_append]
    exact List.mem_append_right _ (mem_toList_ofList (by decide))
  case noMember =>
    refine ne_both_of_mem_toList (c := 'i') ?_ (by decide) (by decide)
    simp only [String.toList_append, List.append_assoc, List.mem_append]
    exact .inr (.inl (mem_toList_ofList (by decide)))
  case incomparable =>
    refine ne_both_of_mem_toList (c := ':') ?_ (by decide) (by decide)
    simp only [String.toList_append, List.append_assoc, List.mem_append]
    exact .inr (.inl (mem_toList_ofList (by decide)))
  case cannotConstruct =>
    refine ne_both_of_mem_toList (c := 'm') ?_ (by decide) (by decide)
    simp only [String.toList_append, List.append_assoc, List.mem_append]
    exact .inr (.inr (.inl (mem_toList_ofList (by decide))))
  case cannotCombine action left right =>
    refine ⟨ne_of_mem_toList (c := 'C') ?_ (by decide), ne_of_mem_toList (c := 'd') ?_ (by decide)⟩
    · simp only [String.toList_append, List.append_assoc, List.mem_append]
      exact .inl (mem_toList_ofList (by decide))
    · simp only [String.toList_append, List.mem_append]
      exact .inl (.inr (mem_toList_ofList (by decide)))
  case cannotSleep shown =>
    refine ⟨ne_of_mem_toList (c := 'C') ?_ (by decide), ne_of_mem_toList (c := 'f') ?_ (by decide)⟩
    all_goals
      rw [String.toList_append]
      exact List.mem_append_left _ (mem_toList_ofList (by decide))
  case cannotNegate type =>
    refine ⟨ne_of_mem_toList (c := 'C') ?_ (by decide), ?_⟩
    · rw [String.toList_append]
      exact List.mem_append_left _ (mem_toList_ofList (by decide))
    · -- every letter of `Cannot negate` is in the other text too, but they part after `Cannot`
      intro h
      have hlist := congrArg (fun s : String => s.toList[7]?) h
      rw [String.toList_append, List.getElem?_append_left (by decide)] at hlist
      revert hlist
      decide

end ProtoScript
