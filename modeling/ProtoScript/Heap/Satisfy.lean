import ProtoScript.Heap.Accept
import ProtoScript.Heap.Lineage

/-!
# Which objects satisfy which types

An object satisfies a type if it inherits from it, or if it has, by itself or by inheritance, every
member that the type has, each with a fitting value, and satisfies the parent of the type too. It
satisfies a union if it satisfies one of the sides. Pairs that were looked at are kept as in the
comparison of types.
-/

namespace ProtoScript.Heap

section

variable (h : Heap) (resolve : Resolver) (self : ObjectRef → ObjectRef → Search Bool)

/-- Whether a value fits a required type: a plain object if it satisfies the type, any other value if
the type accepts its own. -/
def valueFits (v : Value) (required : ObjectRef) : Search Bool :=
  let byType : Search Bool :=
    match resolve v with
    | some t => return h.accepts resolve required t
    | none => return false
  match v with
  | .object o => if h.isType o then byType else self o required
  | _ => byType

/-- Whether an object has a member that fits one that is required. -/
def hasFitting (o : ObjectRef) (required : String × Value) : Search Bool :=
  match h.memberType? resolve required.2 with
  | some t => someOf (fun v => valueFits h resolve self v t) (h.inherited o required.1)
  | none => return !(h.inherited o required.1).isEmpty

/-- One step of the search. -/
def satisfyStep (o required : ObjectRef) : Search Bool := do
  if ← visit o required then
    if h.inheritsFrom o required then return true
    else
      match (h.object required).kind with
      | .union l r => either (self o l) (self o r)
      | _ =>
        both (every (hasFitting h resolve self o) (h.object required).members.entries)
          (match h.parent? required with
            | some p => self o p
            | none => return true)
  else return true

end

/-- A search that nests at most `fuel` deep. -/
def satisfyWithin (h : Heap) (resolve : Resolver) : Nat → ObjectRef → ObjectRef → Search Bool
  | 0, _, _ => return true
  | fuel + 1, o, required => satisfyStep h resolve (satisfyWithin h resolve fuel) o required

/-- Whether an object satisfies a type. -/
def satisfies (h : Heap) (resolve : Resolver) (o required : ObjectRef) : Bool :=
  (satisfyWithin h resolve h.pairBound o required []).1

end ProtoScript.Heap
