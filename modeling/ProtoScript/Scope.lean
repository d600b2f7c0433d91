import ProtoScript.NameMap
import ProtoScript.Value.Basic

/-!
# Scopes

A scope binds names to cells and may have a parent, whose bindings it sees unless it has its own. A
cell holds the declared type of a variable and what was put into it; everyone who found the cell sees
later assignments to it. Scopes are never removed, and the parent of a scope is older than the scope.
-/

namespace ProtoScript

/-- A reference to a scope. -/
structure ScopeRef where
  index : Nat
deriving DecidableEq, Repr, Inhabited

/-- A reference to a cell. -/
structure CellRef where
  index : Nat
deriving DecidableEq, Repr, Inhabited

/-- A variable: the type it was declared with, and what was put into it since. -/
structure Cell where
  type : Option ObjectRef
  contents : Option Value
deriving Inhabited

/-- The value of a variable, which is null as long as it was given none. -/
def Cell.value (c : Cell) : Value :=
  c.contents.getD .null

/-- The bindings of one scope. -/
structure Scope where
  bindings : NameMap CellRef
  parent : Option ScopeRef
deriving Inhabited

/-- All scopes and cells. -/
structure Scopes where
  scopes : Array Scope
  cells : Array Cell
deriving Inhabited

namespace Scopes

/-- The outermost scope, which is the first one. -/
def root : ScopeRef := ⟨0⟩

/-- A root scope without bindings. -/
def initial : Scopes := ⟨#[⟨.empty, none⟩], #[]⟩

/-- The scope that is referred to. -/
def scope (s : Scopes) (r : ScopeRef) : Scope :=
  s.scopes[r.index]?.getD default

/-- The cell that is referred to. -/
def cell (s : Scopes) (c : CellRef) : Cell :=
  s.cells[c.index]?.getD ⟨none, none⟩

/-- Adds a scope without bindings inside another. -/
def addChild (s : Scopes) (r : ScopeRef) : ScopeRef × Scopes :=
  (⟨s.scopes.size⟩, { s with scopes := s.scopes.push ⟨.empty, some r⟩ })

/-- The parent of a scope; the root has none. -/
def parent? (s : Scopes) (r : ScopeRef) : Option ScopeRef :=
  (s.scope r).parent

/-- The cell of a name that is bound in this very scope. -/
def findLocal? (s : Scopes) (r : ScopeRef) (name : String) : Option CellRef :=
  (s.scope r).bindings.get? name

/-- The cell of a name in a scope or the nearest one around it that binds it, for at most `fuel`
scopes. -/
def findWithin? (s : Scopes) (name : String) : Nat → ScopeRef → Option CellRef
  | 0, _ => none
  | fuel + 1, r =>
    match s.findLocal? r name with
    | some c => some c
    | none =>
      match s.parent? r with
      | some p => s.findWithin? name fuel p
      | none => none

/-- The cell of a name in a scope or the nearest one around it that binds it. -/
def find? (s : Scopes) (r : ScopeRef) (name : String) : Option CellRef :=
  s.findWithin? name s.scopes.size r

/-- Binds a name in a scope to a new cell that holds nothing yet. -/
def bind (s : Scopes) (r : ScopeRef) (name : String) (type : Option ObjectRef) : CellRef × Scopes :=
  let c : CellRef := ⟨s.cells.size⟩
  (c,
    { scopes := s.scopes.modify r.index fun sc => { sc with bindings := sc.bindings.insert name c }
      cells := s.cells.push ⟨type, none⟩ })

/-- Declares a name in a scope; one that is bound in this very scope is refused. -/
def declare? (s : Scopes) (r : ScopeRef) (name : String) (type : Option ObjectRef) :
    Option (CellRef × Scopes) :=
  match s.findLocal? r name with
  | some _ => none
  | none => some (s.bind r name type)

/-- Puts a value into a cell. -/
def put (s : Scopes) (c : CellRef) (value : Value) : Scopes :=
  { s with cells := s.cells.modify c.index fun cell => { cell with contents := some value } }

/-- Puts a value into the cell that a name is bound to, if it is bound. -/
def assign? (s : Scopes) (r : ScopeRef) (name : String) (value : Value) : Option Scopes :=
  (s.find? r name).map fun c => s.put c value

end Scopes

end ProtoScript
