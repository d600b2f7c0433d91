import ProtoScript.Heap.Basic

/-!
# Which types accept which

A declared type accepts the values of another type if the two are the same object, if they are nominal
types of one name, or if both are structural, their parents are related in the same way, and every
member of the first has a counterpart in the second. A declared union accepts what one of its sides
accepts; the values of a union are accepted if those of both sides are.

Types may refer to themselves, so the comparison keeps the pairs that it has looked at, and takes a
pair that comes up again to be related. Each pair is looked at once, so the number of pairs bounds how
deep the comparison nests.
-/

namespace ProtoScript.Heap

/-- How the type of a value is found. -/
abbrev Resolver := Value → Option ObjectRef

/-- The pairs that were looked at. -/
abbrev Seen := List (ObjectRef × ObjectRef)

/-- A search that keeps the pairs it has looked at. -/
abbrev Search := StateM Seen

/-- Notes a pair, and tells whether it is new. -/
def visit (a b : ObjectRef) : Search Bool := do
  let seen ← get
  if (a, b) ∈ seen then return false
  else
    set ((a, b) :: seen)
    return true

/-- Whether two searches both succeed; the second one is run only if the first one does. -/
def both (p q : Search Bool) : Search Bool := do
  if ← p then q else return false

/-- Whether one of two searches succeeds; the second one is run only if the first one does not. -/
def either (p q : Search Bool) : Search Bool := do
  if ← p then return true else q

/-- Whether a search succeeds for every item; it ends at the first one for which it does not. -/
def every {α : Type} (p : α → Search Bool) : List α → Search Bool
  | [] => return true
  | a :: as => both (p a) (every p as)

/-- Whether a search succeeds for some item; it ends at the first one for which it does. -/
def someOf {α : Type} (p : α → Search Bool) : List α → Search Bool
  | [] => return false
  | a :: as => either (p a) (someOf p as)

/-- The type that a member stands for: a type stands for itself, anything else for the type of its
value. -/
def memberType? (h : Heap) (resolve : Resolver) (v : Value) : Option ObjectRef :=
  match v with
  | .object o => if h.isType o then some o else resolve v
  | _ => resolve v

/-- Something to compare. -/
inductive Comparison where
  /-- Whether one type accepts another. -/
  | types (declared actual : ObjectRef)
  /-- Whether the members of one plain object are matched by those of another. -/
  | fields (declared actual : ObjectRef)
deriving DecidableEq, Repr

section

variable (h : Heap) (resolve : Resolver) (self : Comparison → Search Bool)

/-- Whether a member matches another of the same name. Plain objects are compared member by member,
everything else by type. -/
def memberMatches (a b : Value) : Search Bool :=
  let byType : Search Bool :=
    match h.memberType? resolve a, h.memberType? resolve b with
    | some s, some t => self (.types s t)
    | _, _ => return false
  match a, b with
  | .object o, .object p => if !h.isType o && !h.isType p then self (.fields o p) else byType
  | _, _ => byType

/-- Whether every member is matched by one of the same name. -/
def membersMatch (a b : Members) : Search Bool :=
  every
    (fun entry =>
      match b.get? entry.1 with
      | some v => memberMatches h resolve self entry.2 v
      | none => return false)
    a.entries

/-- Whether the parents of two types are related. -/
def parentsMatch (a b : Option ObjectRef) : Search Bool :=
  match a, b with
  | none, none => return true
  | some p, some q => self (.types p q)
  | _, _ => return false

/-- Whether two types are related by their parents and members. -/
def structureMatches (a b : ObjectRef) : Search Bool :=
  both (parentsMatch self (h.parent? a) (h.parent? b))
    (membersMatch h resolve self (h.object a).members (h.object b).members)

/-- Whether one type accepts another, the pair being new. -/
def kindsMatch (a b : ObjectRef) : Search Bool :=
  match (h.object a).kind, (h.object b).kind with
  | .union l r, _ => either (self (.types l b)) (self (.types r b))
  | _, .union l r => both (self (.types a l)) (self (.types a r))
  | .type m p, .type n q =>
    if p || q then return p == q && m == n else structureMatches h resolve self a b
  | _, _ => structureMatches h resolve self a b

/-- One step of a comparison. -/
def compareStep : Comparison → Search Bool
  | .types a b => do
    if a = b then return true
    else if ← visit a b then kindsMatch h resolve self a b
    else return true
  | .fields a b => do
    if a = b then return true
    else if ← visit a b then
      membersMatch h resolve self (h.object a).members (h.object b).members
    else return true

end

/-- A comparison that nests at most `fuel` deep. -/
def compareWithin (h : Heap) (resolve : Resolver) : Nat → Comparison → Search Bool
  | 0, _ => return true
  | fuel + 1, c => compareStep h resolve (compareWithin h resolve fuel) c

/-- How deep a search over pairs of objects can nest. -/
def pairBound (h : Heap) : Nat :=
  h.objects.size * h.objects.size + 1

/-- Whether a declared type accepts the values of another type. -/
def accepts (h : Heap) (resolve : Resolver) (declared actual : ObjectRef) : Bool :=
  (compareWithin h resolve h.pairBound (.types declared actual) []).1

end ProtoScript.Heap
