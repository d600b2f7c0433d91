import ProtoScript.Proofs.Evaluation.Boxes
import ProtoScript.Proofs.Heap.Unwrap
import ProtoScript.Proofs.Number.Exact

/-!
# Indices of arrays and texts

An index addresses a position of a sequence from the front, or, if it is negative, from the end.  So the
positions of a sequence have two indices each, and every index in range addresses exactly one position.  On
words the length is added to a negative index; the sum of a negative word and a length never leaves the range
of the words, and the computation on words finds the same positions.

Arrays and texts are read in the same way, which `Reads` describes for a sequence of items: the elements of
the array, or the characters of the text.  What `set` and `append` do is told by what is read afterwards.
-/

namespace ProtoScript

namespace Eval

/-! ## Definitions -/

/-- An index is in the range of a sequence, which goes from minus its length to below its length. -/
def InRange (i : Int64) (length : Nat) : Prop :=
  -(length : Int) ≤ i.toInt ∧ i.toInt < length

instance (i : Int64) (length : Nat) : Decidable (InRange i length) :=
  inferInstanceAs (Decidable (_ ∧ _))

/-- An index addresses a position of a sequence: it is that position, or it becomes that position when the
length is added. -/
def Addresses (i : Int64) (length k : Nat) : Prop :=
  k < length ∧ (i.toInt = k ∨ i.toInt + length = k)

instance (i : Int64) (length k : Nat) : Decidable (Addresses i length k) :=
  inferInstanceAs (Decidable (_ ∧ _))

/-- The position that an index addresses, as it is computed on words. -/
def wordPosition? (i : Int64) (length : Nat) : Option Nat :=
  let resolved := if i < 0 then i + Int64.ofNat length else i
  if resolved < 0 ∨ Int64.ofNat length ≤ resolved then none else some resolved.toNatClampNeg

/-- The characters of a text, each as a text. -/
def characters (s : String) : List String :=
  s.toList.map fun ch => String.ofList [ch]

/-- A call with an index as its first argument, for a receiver that holds this value. -/
structure Indexes (h : Heap) (c : NativeCall) (holder : Value) (i : Int64) : Prop where
  this_eq : h.unwrap c.this = holder
  index_eq : h.unwrap (c.argument 0) = .int i

/-- How a call ends whose index is out of range: with an error, and with nothing changed but the record of
errors. -/
def refused {α : Type} (m : Machine) (c : NativeCall) (i : Int64) (length : Nat) :
    EStateM.Result Interruption Machine α :=
  let d := (Problem.indexOutOfRange i.toInt length).diagnostic m.file c.pos
  .error (.raised d) { m with raised := m.raised ++ [d] }

/-- A native function that takes an index succeeds exactly if the index is in range, and is refused
otherwise. -/
structure TakesRange (m : Machine) (f : NativeCall → Eval Value) (holder : Value) (length : Nat) :
    Prop where
  succeeds_iff : ∀ c i, Indexes m.heap c holder i →
    ((∃ v m', f c m = .ok v m') ↔ InRange i length)
  refused_of_not : ∀ c i, Indexes m.heap c holder i → ¬ InRange i length →
    f c m = refused m c i length

/-- A native function reads the items of a sequence: it yields the item at the position that the index
addresses, and changes nothing. -/
structure Reads (m : Machine) (read : NativeCall → Eval Value) (holder : Value) (items : List Value) :
    Prop extends TakesRange m read holder items.length where
  item : ∀ c i k v, Indexes m.heap c holder i → Addresses i items.length k → items[k]? = some v →
    read c m = .ok v m

/-- From the first machine to the second one, the value was put at a position of the array.  Every index
that addresses the position reads the value, every other index reads what it read before, and the length and
everything besides this array are as they were. -/
structure Replaced (m m' : Machine) (a : ArrayRef) (k : Nat) (v : Value) : Prop where
  refilled : m.Refilled m' a ((m.heap.elements a).setIfInBounds k v)
  size_eq : (m'.heap.elements a).size = (m.heap.elements a).size
  same : ∀ fuel self c j, Indexes m.heap c (.array a) j → Addresses j (m.heap.elements a).size k →
    callNative fuel self .elementAt c m' = .ok v m'
  other : ∀ fuel self c j l w, Indexes m.heap c (.array a) j → Addresses j (m.heap.elements a).size l →
    l ≠ k → (m.heap.elements a)[l]? = some w → callNative fuel self .elementAt c m' = .ok w m'

/-- From the first machine to the second one, the value was added at the end of the array.  It is read at the
old length and at -1, and what was there before is read where it was. -/
structure Appended (m m' : Machine) (a : ArrayRef) (v : Value) : Prop where
  refilled : m.Refilled m' a ((m.heap.elements a).push v)
  size_eq : (m'.heap.elements a).size = (m.heap.elements a).size + 1
  old : ∀ fuel self c j k w, Indexes m.heap c (.array a) j →
    Addresses j ((m.heap.elements a).size + 1) k → (m.heap.elements a)[k]? = some w →
      callNative fuel self .elementAt c m' = .ok w m'
  last : ∀ fuel self c j, Indexes m.heap c (.array a) j →
    j.toInt = (m.heap.elements a).size ∨ j = -1 → callNative fuel self .elementAt c m' = .ok v m'

/-- A message to the value calls the native function of that name, with a box of the value as its receiver. -/
def AnswersWith (m : Machine) (v : Value) (native : Native) : Prop :=
  ∀ n arguments pos, ∃ o m', m.Boxed m' v o ∧
    send (run (n + 1)) v native.name arguments pos m =
      callNative n (run n) native ⟨some o, arguments, pos⟩ m'

/-! ## Positions -/

section

variable {i : Int64} {length k : Nat}

/-- An index is in range if it addresses a position. -/
theorem inRange_iff : InRange i length ↔ ∃ k, Addresses i length k := by
  unfold InRange Addresses
  constructor
  · rintro ⟨hlow, hhigh⟩
    by_cases hi : i.toInt < 0
    · exact ⟨(i.toInt + length).toNat, by omega, .inr (by omega)⟩
    · exact ⟨i.toInt.toNat, by omega, .inl (by omega)⟩
  · rintro ⟨k, hk, hi⟩
    omega

/-- An index addresses one position at most. -/
theorem Addresses.unique {l : Nat} (hk : Addresses i length k) (hl : Addresses i length l) : l = k := by
  obtain ⟨hk, hik⟩ := hk
  obtain ⟨hl, hil⟩ := hl
  omega

/-- The position that is worked out is the one that the index addresses. -/
theorem position?_eq_some_iff : position? i length = some k ↔ Addresses i length k := by
  unfold position? Addresses
  dsimp only
  by_cases hi : i.toInt < 0
  · rw [if_pos hi, Option.ite_none_right_eq_some, Option.some.injEq]
    omega
  · rw [if_neg hi, Option.ite_none_right_eq_some, Option.some.injEq]
    omega

/-- No position is worked out for an index that is out of range. -/
theorem position?_eq_none_iff : position? i length = none ↔ ¬ InRange i length := by
  rw [inRange_iff, Option.eq_none_iff_forall_ne_some, not_exists]
  exact forall_congr' fun k => not_congr position?_eq_some_iff

/-- The value of a length as a word. -/
theorem toInt_ofNat (hlength : length < 2 ^ 63) : (Int64.ofNat length).toInt = length :=
  Int64.toInt_ofNat_of_lt hlength

theorem lt_zero_iff : i < 0 ↔ i.toInt < 0 :=
  Int64.lt_iff_toInt_lt

/-- The sum of a negative word and a length is the value of a word. -/
theorem fits_add (hlength : length < 2 ^ 63) (hi : i < 0) :
    Number.Fits (i.toInt + (Int64.ofNat length).toInt) := by
  obtain ⟨hlow, -⟩ := Number.fits_toInt i
  have hnegative := lt_zero_iff.mp hi
  rw [toInt_ofNat hlength]
  exact ⟨by omega, by omega⟩

/-- Adding the length to a negative index does not overflow. -/
theorem add?_of_negative (hlength : length < 2 ^ 63) (hi : i < 0) :
    Number.add? i (Int64.ofNat length) = some (i + Int64.ofNat length) :=
  ((Number.fit?_exact _).some_iff _).mpr (Number.toInt_add_of_fits (fits_add hlength hi))

/-- On words, the same positions are found. -/
theorem wordPosition?_eq_some_iff (hlength : length < 2 ^ 63) :
    wordPosition? i length = some k ↔ Addresses i length k := by
  have hvalue := toInt_ofNat hlength
  unfold wordPosition? Addresses
  dsimp only
  by_cases hi : i < 0
  · have hsum := Number.toInt_add_of_fits (fits_add hlength hi)
    have hnegative := lt_zero_iff.mp hi
    rw [if_pos hi, Option.ite_none_left_eq_some, Option.some.injEq, lt_zero_iff, Int64.le_iff_toInt_le,
      Int64.toNatClampNeg, hsum, hvalue]
    omega
  · have hfront : ¬ i.toInt < 0 := fun hlt => hi (lt_zero_iff.mpr hlt)
    rw [if_neg hi, Option.ite_none_left_eq_some, Option.some.injEq, lt_zero_iff, Int64.le_iff_toInt_le,
      Int64.toNatClampNeg, hvalue]
    omega

end

/-! ## What the natives do with an index -/

section

variable {m : Machine} {c : NativeCall} {a : ArrayRef} {s : String} {i : Int64} {length k : Nat}

/-- An index that addresses a position is resolved to it. -/
theorem resolveIndex_of_addresses (c : NativeCall) (hk : Addresses i length k) :
    resolveIndex c i length m = .ok k m := by
  unfold resolveIndex
  rw [position?_eq_some_iff.mpr hk]
  rfl

/-- An index that is out of range is refused. -/
theorem resolveIndex_of_not_inRange (c : NativeCall) (hi : ¬ InRange i length) :
    resolveIndex c i length m = refused m c i length := by
  unfold resolveIndex
  rw [position?_eq_none_iff.mpr hi]
  rfl

theorem indexArgument_of_unwrap (hindex : m.heap.unwrap (c.argument 0) = .int i) :
    indexArgument c 0 m = .ok i m := by
  unfold indexArgument unwrap
  rw [bind_assoc, get_bind]
  simp only [hindex]
  rfl

theorem textReceiver_of_unwrap (htext : m.heap.unwrap c.this = .text s) :
    textReceiver c m = .ok s m := by
  unfold textReceiver unwrap
  rw [bind_assoc, get_bind]
  simp only [htext]
  rfl

/-- A native function that resolves its index and then succeeds takes the range of the sequence. -/
theorem takesRange_of_resolveIndex {f : NativeCall → Eval Value} {holder : Value}
    (next : NativeCall → Nat → Eval Value)
    (hf : ∀ c i, Indexes m.heap c holder i → f c m = (resolveIndex c i length >>= next c) m)
    (hnext : ∀ c k, ∃ v m', next c k m = .ok v m') : TakesRange m f holder length := by
  have hrefused (c : NativeCall) (i : Int64) (hc : Indexes m.heap c holder i)
      (hi : ¬ InRange i length) : f c m = refused m c i length := by
    rw [hf c i hc]
    exact bind_of_error (resolveIndex_of_not_inRange c hi)
  refine ⟨fun c i hc => ⟨?_, ?_⟩, hrefused⟩
  · rintro ⟨v, m', hok⟩
    by_contra hi
    rw [hrefused c i hc hi] at hok
    cases hok
  · intro hi
    obtain ⟨k, hk⟩ := inRange_iff.mp hi
    obtain ⟨v, m', hok⟩ := hnext c k
    refine ⟨v, m', ?_⟩
    rw [hf c i hc, bind_of_ok (resolveIndex_of_addresses c hk), hok]

variable (fuel : Nat) (self : Work → Eval Value)

/-- Reading an element resolves the index first. -/
theorem callNative_elementAt (hc : Indexes m.heap c (.array a) i) :
    callNative fuel self .elementAt c m =
      (resolveIndex c i (m.heap.elements a).size >>= fun k =>
        pure ((m.heap.elements a)[k]?.getD .null)) m := by
  refine (bind_of_ok (arrayReceiver_of_unwrap hc.this_eq)).trans ?_
  rw [bind_of_ok (indexArgument_of_unwrap hc.index_eq)]
  rfl

/-- Writing an element resolves the index first. -/
theorem callNative_setElement (hc : Indexes m.heap c (.array a) i) :
    callNative fuel self .setElement c m =
      (resolveIndex c i (m.heap.elements a).size >>= fun k => do
        modifyHeap fun h => h.modifyArray a (·.setIfInBounds k (c.argument 1))
        pure (c.argument 1)) m := by
  refine (bind_of_ok (arrayReceiver_of_unwrap hc.this_eq)).trans ?_
  rw [bind_of_ok (indexArgument_of_unwrap hc.index_eq)]
  rfl

/-- Reading a character resolves the index first. -/
theorem callNative_charAt (hc : Indexes m.heap c (.text s) i) :
    callNative fuel self .charAt c m =
      (resolveIndex c i s.toList.length >>= fun k =>
        pure (.text (String.ofList (s.toList[k]?).toList))) m := by
  refine (bind_of_ok (textReceiver_of_unwrap hc.this_eq)).trans ?_
  rw [bind_of_ok (indexArgument_of_unwrap hc.index_eq)]

/-- The length of an array is the number of its elements. -/
theorem callNative_arrayLength (harray : m.heap.unwrap c.this = .array a) :
    callNative fuel self .arrayLength c m =
      .ok (.int (Int64.ofNat (m.heap.elements a).size)) m :=
  bind_of_ok (arrayReceiver_of_unwrap harray)

/-- The length of a text is the number of its characters. -/
theorem callNative_textLength (htext : m.heap.unwrap c.this = .text s) :
    callNative fuel self .textLength c m = .ok (.int (Int64.ofNat s.length)) m :=
  bind_of_ok (textReceiver_of_unwrap htext)

/-- Appending puts an element behind the others. -/
theorem callNative_appendElement (harray : m.heap.unwrap c.this = .array a) :
    callNative fuel self .appendElement c m =
      .ok .null { m with heap := m.heap.modifyArray a (·.push (c.argument 0)) } :=
  bind_of_ok (arrayReceiver_of_unwrap harray)

/-! ## Reading -/

/-- Reading elements reads the array. -/
theorem reads_elementAt (m : Machine) (a : ArrayRef) :
    Reads m (callNative fuel self .elementAt) (.array a) (m.heap.elements a).toList := by
  refine ⟨?_, ?_⟩
  · rw [Array.length_toList]
    exact takesRange_of_resolveIndex _ (fun _ _ => callNative_elementAt fuel self)
      fun _ _ => ⟨_, _, rfl⟩
  · intro c i k v hc hk hv
    rw [Array.length_toList] at hk
    rw [Array.getElem?_toList] at hv
    rw [callNative_elementAt fuel self hc, bind_of_ok (resolveIndex_of_addresses c hk), hv]
    rfl

/-- A text has as many characters as it is long. -/
theorem length_characters (s : String) : (characters s).length = s.length := by
  rw [characters, List.length_map, String.length_toList]

/-- The characters of a text, put together, are the text. -/
theorem join_characters (s : String) : String.join (characters s) = s := by
  have hlist (cs : List Char) :
      String.join (cs.map fun ch => String.ofList [ch]) = String.ofList cs := by
    induction cs with
    | nil => rfl
    | cons ch cs ih => rw [List.map_cons, String.join_cons, ih, ← String.ofList_append]; rfl
  rw [characters, hlist, String.ofList_toList]

/-- Reading characters reads the text. -/
theorem reads_charAt (m : Machine) (s : String) :
    Reads m (callNative fuel self .charAt) (.text s) ((characters s).map .text) := by
  have hlength : ((characters s).map Value.text).length = s.toList.length := by
    rw [List.length_map, characters, List.length_map]
  refine ⟨?_, ?_⟩
  · rw [hlength]
    exact takesRange_of_resolveIndex _ (fun _ _ => callNative_charAt fuel self)
      fun _ _ => ⟨_, _, rfl⟩
  · intro c i k v hc hk hv
    rw [hlength] at hk
    rw [characters, List.map_map, List.getElem?_map, Option.map_eq_some_iff] at hv
    obtain ⟨ch, hch, rfl⟩ := hv
    rw [callNative_charAt fuel self hc, bind_of_ok (resolveIndex_of_addresses c hk), hch]
    rfl

/-! ## Writing -/

/-- An array with a position is in the heap. -/
theorem has_of_lt_size {h : Heap} (hk : k < (h.elements a).size) : h.Has (.array a) := by
  by_contra hnot
  rw [Heap.elements, Array.getElem?_eq_none (Nat.le_of_not_lt hnot)] at hk
  exact absurd hk (Nat.not_lt_zero k)

/-- Receivers and indices are the same in a heap with the same objects. -/
theorem Indexes.of_objects_eq {h h' : Heap} {holder : Value} (heq : h'.objects = h.objects)
    (hc : Indexes h c holder i) : Indexes h' c holder i where
  this_eq := (Heap.unwrap_of_objects_eq heq c.this).trans hc.this_eq
  index_eq := (Heap.unwrap_of_objects_eq heq (c.argument 0)).trans hc.index_eq

/-- In an array that got other elements, these are read. -/
theorem elementAt_of_refilled {m' : Machine} {elements : Array Value} {w : Value}
    (hrefilled : m.Refilled m' a elements) (hobjects : m'.heap.objects = m.heap.objects)
    (hc : Indexes m.heap c (.array a) i) (hk : Addresses i elements.size k)
    (hw : elements[k]? = some w) : callNative fuel self .elementAt c m' = .ok w m' := by
  refine (reads_elementAt fuel self m' a).item c i k w (hc.of_objects_eq hobjects) ?_ ?_
  · rwa [Array.length_toList, hrefilled.elements_eq]
  · rwa [Array.getElem?_toList, hrefilled.elements_eq]

/-- Setting an element replaces what is read at its position. -/
theorem replaced_modifyArray (hk : k < (m.heap.elements a).size) (v : Value) :
    Replaced m { m with heap := m.heap.modifyArray a (·.setIfInBounds k v) } a k v := by
  have hrefilled := refilled_modifyArray (has_of_lt_size hk) (·.setIfInBounds k v)
  have hsize : ((m.heap.elements a).setIfInBounds k v).size = (m.heap.elements a).size :=
    Array.size_setIfInBounds
  refine ⟨hrefilled, ?_, fun fuel self c j hc hj => ?_, fun fuel self c j l w hc hj hne hw => ?_⟩
  · rw [hrefilled.elements_eq, hsize]
  · refine elementAt_of_refilled fuel self hrefilled rfl hc (hsize ▸ hj) ?_
    rw [Array.getElem?_setIfInBounds, if_pos rfl, if_pos hk]
  · refine elementAt_of_refilled fuel self hrefilled rfl hc (hsize ▸ hj) ?_
    rw [Array.getElem?_setIfInBounds, if_neg (Ne.symm hne), hw]

/-- Pushing an element appends it. -/
theorem appended_modifyArray (ha : m.heap.Has (.array a)) (v : Value) :
    Appended m { m with heap := m.heap.modifyArray a (·.push v) } a v := by
  have hrefilled := refilled_modifyArray ha (·.push v)
  have hsize : ((m.heap.elements a).push v).size = (m.heap.elements a).size + 1 := Array.size_push v
  refine ⟨hrefilled, ?_, fun fuel self c j k w hc hj hw => ?_, fun fuel self c j hc hj => ?_⟩
  · rw [hrefilled.elements_eq, hsize]
  · refine elementAt_of_refilled fuel self hrefilled rfl hc (hsize ▸ hj) ?_
    have hk : k ≠ (m.heap.elements a).size := by
      rintro rfl
      rw [Array.getElem?_eq_none (Nat.le_refl _)] at hw
      cases hw
    rw [Array.getElem?_push, if_neg hk, hw]
  · have hlast : Addresses j ((m.heap.elements a).size + 1) (m.heap.elements a).size := by
      refine ⟨Nat.lt_succ_self _, ?_⟩
      rcases hj with hj | rfl
      · exact .inl hj
      · have hvalue : (-1 : Int64).toInt = -1 := rfl
        exact .inr (by omega)
    refine elementAt_of_refilled fuel self hrefilled rfl hc (hsize ▸ hlast) ?_
    rw [Array.getElem?_push, if_pos rfl]

end

/-! ## The laws -/

/-- A scalar answers with the native members of its type. -/
theorem answersWith_of_member {m : Machine} {v : Value} {native : Native} (hm : m.Installed)
    (hv : ∀ o, v ≠ .object o)
    (hmember : v.coreType.typeObject.members.get? native.name = some (.native native)) :
    AnswersWith m v native := by
  intro n arguments pos
  obtain ⟨o, m', hboxed, -, hsend⟩ := send_scalar hm n hv hmember arguments pos
  exact ⟨o, m', hboxed, hsend⟩

/-- **Indices address positions.**  An index is in range exactly if it addresses a position, and then only
one; words find that position, without a sum that leaves their range, for every index and every length that
is a word.

For every array, `at` and `set` succeed exactly if the index is in range, and are refused otherwise, with
nothing changed.  `at` yields the element at the position; after `set`, the new value is read at every index
of the position and the old elements at all others; after `append`, the new value is read at the old length
and at -1 and the old elements where they were.  For every text, `at` takes the same range and yields the
character at the position, and the characters put together are the text.

Where the core types are as they were installed, these native functions are what arrays and texts answer
with, called with a box that holds the very array or text. -/
theorem indices_address_positions :
    (∀ (i : Int64) (length : Nat),
      (InRange i length ↔ ∃ k, Addresses i length k) ∧
      (∀ k l, Addresses i length k → Addresses i length l → l = k) ∧
      (length < 2 ^ 63 → (Int64.ofNat length).toInt = length ∧
        (i < 0 → Number.add? i (Int64.ofNat length) = some (i + Int64.ofNat length)) ∧
        ∀ k, wordPosition? i length = some k ↔ Addresses i length k)) ∧
    (∀ (m : Machine) (fuel : Nat) (self : Work → Eval Value) (a : ArrayRef),
      Reads m (callNative fuel self .elementAt) (.array a) (m.heap.elements a).toList ∧
      TakesRange m (callNative fuel self .setElement) (.array a) (m.heap.elements a).size ∧
      (∀ c i k, Indexes m.heap c (.array a) i → Addresses i (m.heap.elements a).size k →
        ∃ m', callNative fuel self .setElement c m = .ok (c.argument 1) m' ∧
          Replaced m m' a k (c.argument 1)) ∧
      ∀ c, m.heap.unwrap c.this = .array a →
        callNative fuel self .arrayLength c m = .ok (.int (Int64.ofNat (m.heap.elements a).size)) m ∧
        (m.heap.Has (.array a) → ∃ m', callNative fuel self .appendElement c m = .ok .null m' ∧
          Appended m m' a (c.argument 0))) ∧
    (∀ (m : Machine) (fuel : Nat) (self : Work → Eval Value) (s : String),
      Reads m (callNative fuel self .charAt) (.text s) ((characters s).map .text) ∧
      (∀ c, m.heap.unwrap c.this = .text s →
        callNative fuel self .textLength c m = .ok (.int (Int64.ofNat s.length)) m) ∧
      (characters s).length = s.length ∧ String.join (characters s) = s) ∧
    ∀ m : Machine, m.Installed →
      (∀ a, ∀ native ∈ [Native.arrayLength, .elementAt, .setElement, .appendElement],
        AnswersWith m (.array a) native) ∧
      ∀ s, ∀ native ∈ [Native.textLength, .charAt], AnswersWith m (.text s) native := by
  refine ⟨fun i length => ⟨inRange_iff, fun k l => Addresses.unique, fun hlength => ?_⟩,
    fun m fuel self a => ?_, fun m fuel self s => ?_, fun m hm => ⟨?_, ?_⟩⟩
  · exact ⟨toInt_ofNat hlength, add?_of_negative hlength, fun k => wordPosition?_eq_some_iff hlength⟩
  · refine ⟨reads_elementAt fuel self m a, ?_, fun c i k hc hk => ?_, fun c hthis => ⟨?_, fun ha => ?_⟩⟩
    · exact takesRange_of_resolveIndex _ (fun _ _ => callNative_setElement fuel self)
        fun _ _ => ⟨_, _, rfl⟩
    · refine ⟨_, ?_, replaced_modifyArray hk.1 (c.argument 1)⟩
      rw [callNative_setElement fuel self hc, bind_of_ok (resolveIndex_of_addresses c hk)]
      rfl
    · exact callNative_arrayLength fuel self hthis
    · exact ⟨_, callNative_appendElement fuel self hthis, appended_modifyArray ha (c.argument 0)⟩
  · exact ⟨reads_charAt fuel self m s, fun c => callNative_textLength fuel self, length_characters s,
      join_characters s⟩
  · intro a native hnative
    refine answersWith_of_member hm (v := .array a) nofun ?_
    simp only [List.mem_cons, List.not_mem_nil, or_false] at hnative
    rcases hnative with rfl | rfl | rfl | rfl <;> rfl
  · intro s native hnative
    refine answersWith_of_member hm (v := .text s) nofun ?_
    simp only [List.mem_cons, List.not_mem_nil, or_false] at hnative
    rcases hnative with rfl | rfl <;> rfl

/-- A machine with a box of an array of two integers, and a box of a text of two characters. -/
def twoBoxes : Machine :=
  Machine.bare.enlarged [.holding .array (.array ⟨1⟩), .holding .str (.text "añ")] [#[.int 4, .int 5]]

/-- A call for one of the boxes. -/
def callTo (o : ObjectRef) (arguments : List Value) : NativeCall :=
  ⟨some o, arguments, ⟨1, 1⟩⟩

/-- In `twoBoxes`, -1 is the last index and 2 is out of range; what is put at -1 is read at 1, what is appended
is read at -1, and the least word is no problem. -/
theorem indices_address_positions_twoBoxes :
    (Number.add? Int64.minValue (Int64.ofNat 2) = some (Int64.minValue + Int64.ofNat 2) ∧
      ¬ InRange Int64.minValue 2) ∧
    callNative 0 (run 0) .elementAt (callTo ⟨22⟩ [.int (-1)]) twoBoxes = .ok (.int 5) twoBoxes ∧
    callNative 0 (run 0) .elementAt (callTo ⟨22⟩ [.int 2]) twoBoxes =
      refused twoBoxes (callTo ⟨22⟩ [.int 2]) 2 2 ∧
    (∃ m', callNative 0 (run 0) .setElement (callTo ⟨22⟩ [.int (-1), .null]) twoBoxes = .ok .null m' ∧
      callNative 0 (run 0) .elementAt (callTo ⟨22⟩ [.int 1]) m' = .ok .null m' ∧
      callNative 0 (run 0) .elementAt (callTo ⟨22⟩ [.int (-2)]) m' = .ok (.int 4) m') ∧
    (∃ m', callNative 0 (run 0) .appendElement (callTo ⟨22⟩ [.int 6]) twoBoxes = .ok .null m' ∧
      callNative 0 (run 0) .elementAt (callTo ⟨22⟩ [.int (-1)]) m' = .ok (.int 6) m' ∧
      callNative 0 (run 0) .elementAt (callTo ⟨22⟩ [.int 1]) m' = .ok (.int 5) m') ∧
    callNative 0 (run 0) .charAt (callTo ⟨23⟩ [.int (-1)]) twoBoxes = .ok (.text "ñ") twoBoxes ∧
    ∃ o m', twoBoxes.Boxed m' (.array ⟨1⟩) o ∧ send (run 1) (.array ⟨1⟩) "at" [.int 0] ⟨1, 1⟩ twoBoxes =
      callNative 0 (run 0) .elementAt (callTo o [.int 0]) m' := by
  have hinstalled : twoBoxes.Installed :=
    (Machine.fresh_installed "main" (.replayed []) []).enlarged _ _
  have hheap : twoBoxes.heap = coreHeap.append
      [.holding .array (.array ⟨1⟩), .holding .str (.text "añ")] [#[.int 4, .int 5]] :=
    congrArg (Heap.append · _ _) (Machine.fresh_defined "main" (.replayed []) []).1
  have harray : twoBoxes.heap.unwrap (.object ⟨22⟩) = .array ⟨1⟩ := by
    refine Heap.unwrap_holding (t := .array) ?_ nofun
    rw [hheap]
    rfl
  have htext : twoBoxes.heap.unwrap (.object ⟨23⟩) = .text "añ" := by
    refine Heap.unwrap_holding (t := .str) ?_ nofun
    rw [hheap]
    rfl
  have helements : twoBoxes.heap.elements ⟨1⟩ = #[.int 4, .int 5] := by
    rw [hheap]
    rfl
  have hhas : twoBoxes.heap.Has (.array ⟨1⟩) := by
    rw [hheap]
    exact Nat.lt_add_one 1
  have hcall (i : Int64) (others : List Value) :
      Indexes twoBoxes.heap (callTo ⟨22⟩ (.int i :: others)) (.array ⟨1⟩) i := ⟨harray, rfl⟩
  obtain ⟨hwords, harrays, htexts, hmessages⟩ := indices_address_positions
  obtain ⟨hreads, -, hset, hends⟩ := harrays twoBoxes 0 (run 0) ⟨1⟩
  obtain ⟨-, happend⟩ := hends (callTo ⟨22⟩ [.int 6]) harray
  rw [helements] at hreads hset
  obtain ⟨m', hput, hreplaced⟩ := hset _ (-1) 1 (hcall (-1) [.null]) (by decide)
  obtain ⟨m₂, hadd, happended⟩ := happend hhas
  have hsize : (twoBoxes.heap.elements ⟨1⟩).size = 2 := congrArg Array.size helements
  refine ⟨⟨((hwords _ 2).2.2 (by decide)).2.1 (by decide), by decide⟩, ?_, ?_, ⟨m', hput, ?_, ?_⟩,
    ⟨m₂, hadd, ?_, ?_⟩, ?_, ?_⟩
  · exact hreads.item _ (-1) 1 _ (hcall (-1) []) (by decide) rfl
  · exact hreads.refused_of_not _ 2 (hcall 2 []) (by decide)
  · exact hreplaced.same 0 (run 0) _ 1 (hcall 1 []) (by rw [hsize]; decide)
  · exact hreplaced.other 0 (run 0) _ (-2) 0 _ (hcall (-2) []) (by rw [hsize]; decide) (by decide)
      (helements ▸ rfl)
  · exact happended.last 0 (run 0) _ (-1) (hcall (-1) []) (.inr rfl)
  · exact happended.old 0 (run 0) _ 1 1 _ (hcall 1 []) (by rw [hsize]; decide) (helements ▸ rfl)
  · exact (htexts twoBoxes 0 (run 0) "añ").1.item _ (-1) 1 _ ⟨htext, rfl⟩ (by decide) rfl
  · exact (hmessages twoBoxes hinstalled).1 ⟨1⟩ .elementAt (by simp) 0 [.int 0] ⟨1, 1⟩

end Eval

end ProtoScript
