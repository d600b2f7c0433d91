import ProtoScript.Value.Basic

/-!
# The operand stack

Arguments travel to a procedure, and its result back, through a stack of values. A call pushes one
value for each argument and leaves exactly one result.
-/

namespace ProtoScript

/-- A stack of values, the top one first. -/
structure Operands where
  values : List Value
deriving Inhabited

namespace Operands

/-- The stack without values. -/
def empty : Operands := ⟨[]⟩

/-- How many values are on the stack. -/
def height (s : Operands) : Nat := s.values.length

/-- Puts a value on top. -/
def push (s : Operands) (v : Value) : Operands := ⟨v :: s.values⟩

/-- Puts values on top, one after the other. -/
def pushAll (s : Operands) (vs : List Value) : Operands := vs.foldl push s

/-- Takes the top value off, if there is one. -/
def pop? (s : Operands) : Option (Value × Operands) :=
  match s.values with
  | [] => none
  | v :: vs => some (v, ⟨vs⟩)

/-- Drops what stands above the given height. -/
def unwindTo (s : Operands) (height : Nat) : Operands :=
  ⟨s.values.drop (s.height - height)⟩

@[simp] theorem height_push (s : Operands) (v : Value) : (s.push v).height = s.height + 1 := rfl

@[simp] theorem pop?_push (s : Operands) (v : Value) : (s.push v).pop? = some (v, s) := rfl

theorem values_pushAll (s : Operands) (vs : List Value) :
    (s.pushAll vs).values = vs.reverse ++ s.values := by
  induction vs generalizing s with
  | nil => rfl
  | cons v vs ih => simpa [pushAll, push] using ih (s.push v)

/-- Unwinding to the height of a stack removes exactly what was pushed onto it. -/
theorem unwindTo_pushAll (s : Operands) (vs : List Value) :
    (s.pushAll vs).unwindTo s.height = s := by
  have h := values_pushAll s vs
  obtain ⟨values⟩ := s
  simp only [unwindTo, height, h, List.length_append, List.length_reverse, Nat.add_sub_cancel]
  rw [List.drop_append_of_le_length (by simp)]
  simp

end Operands

end ProtoScript
