import Mathlib.Data.Nat.Basic
import Mathlib.Tactic.Common
import ProtoScript.Machine.Core

/-!
# How scopes nest

Scopes are only ever added, each one inside a scope that exists already.  So the parent of a scope is
older than the scope, and following the parents from any scope leads to the root.  `Scopes.Nested`
states this for a collection of scopes, `Scopes.Within` says that one scope is another or stands
somewhere inside it, and `Scopes.Grown` relates the scopes at two moments of a run: none of the
earlier ones has gone, and none has moved into another parent.  `Scopes.BindsOnly` says that, of the
earlier ones, one scope alone may have got new names meanwhile, and `Scopes.Retained` that none has.
-/

namespace ProtoScript

namespace Scopes

/-! ## Definitions -/

/-- The root has no parent, and the parent of every other scope is an older scope. -/
structure Nested (s : Scopes) : Prop where
  root_lt : root.index < s.scopes.size
  root_parent : s.parent? root = none
  parent_older : ∀ r : ScopeRef, r.index < s.scopes.size → r ≠ root →
    ∃ p, s.parent? r = some p ∧ p.index < r.index

/-- The first scope is the second one, or stands inside it. -/
inductive Within (s : Scopes) : ScopeRef → ScopeRef → Prop
  | self (r : ScopeRef) : Within s r r
  | inside {r p outer : ScopeRef} (hp : s.parent? r = some p) (h : Within s p outer) :
      Within s r outer

/-- The scopes at a later moment: all of the earlier ones are there, with their parents. -/
structure Grown (s t : Scopes) : Prop where
  size_le : s.scopes.size ≤ t.scopes.size
  parent?_eq : ∀ r : ScopeRef, r.index < s.scopes.size → t.parent? r = s.parent? r

/-- The scopes at a later moment, when no earlier scope but one has other names. -/
def BindsOnly (s : Scopes) (r : ScopeRef) (t : Scopes) : Prop :=
  ∀ q : ScopeRef, q.index < s.scopes.size → q ≠ r → ∀ name, t.findLocal? q name = s.findLocal? q name

/-- The scopes at a later moment: all of the earlier ones are there, with their parents and names. -/
structure Retained (s t : Scopes) : Prop extends Grown s t where
  findLocal?_eq : ∀ r : ScopeRef, r.index < s.scopes.size → ∀ name,
    t.findLocal? r name = s.findLocal? r name

/-! ## Walking to the root -/

/-- In nested scopes every chain of parents ends at the root. -/
theorem Nested.within_root {s : Scopes} (h : s.Nested) {r : ScopeRef}
    (hr : r.index < s.scopes.size) : s.Within r root := by
  obtain ⟨i⟩ := r
  induction i using Nat.strong_induction_on with
  | _ i ih =>
    by_cases hroot : (⟨i⟩ : ScopeRef) = root
    · rw [hroot]
      exact .self root
    · obtain ⟨p, hp, hlt⟩ := h.parent_older ⟨i⟩ hr hroot
      exact .inside hp (ih p.index hlt (lt_trans hlt hr))

/-- Standing inside is transitive. -/
theorem Within.trans {s : Scopes} {a b c : ScopeRef} (hab : s.Within a b) (hbc : s.Within b c) :
    s.Within a c := by
  induction hab with
  | self => exact hbc
  | inside hp _ ih => exact .inside hp (ih hbc)

/-! ## Growth -/

/-- Nothing changes from a moment to itself. -/
theorem Grown.refl (s : Scopes) : s.Grown s :=
  ⟨le_refl _, fun _ _ => rfl⟩

/-- Growth over two stretches of time is growth over both. -/
theorem Grown.trans {s t u : Scopes} (hst : s.Grown t) (htu : t.Grown u) : s.Grown u :=
  ⟨le_trans hst.size_le htu.size_le, fun r hr =>
    (htu.parent?_eq r (lt_of_lt_of_le hr hst.size_le)).trans (hst.parent?_eq r hr)⟩

/-! ## What the operations do to the nesting -/

/-- Adding a scope adds one scope. -/
@[simp] theorem addChild_size (s : Scopes) (r : ScopeRef) :
    (s.addChild r).2.scopes.size = s.scopes.size + 1 := by
  simp [addChild]

/-- A new scope stands in the scope that it was added to. -/
theorem addChild_parent?_self (s : Scopes) (r : ScopeRef) :
    (s.addChild r).2.parent? (s.addChild r).1 = some r := by
  simp [addChild, parent?, scope]

/-- Adding a scope leaves the others where they are. -/
theorem addChild_parent?_of_lt (s : Scopes) (r : ScopeRef) {q : ScopeRef}
    (hq : q.index < s.scopes.size) : (s.addChild r).2.parent? q = s.parent? q := by
  simp [addChild, parent?, scope, Array.getElem?_push, Nat.ne_of_lt hq]

/-- Adding a scope is growth. -/
theorem addChild_grown (s : Scopes) (r : ScopeRef) : s.Grown (s.addChild r).2 :=
  ⟨by simp, fun _ hq => addChild_parent?_of_lt s r hq⟩

/-- Scopes stay nested when one is added inside an existing one. -/
theorem Nested.addChild {s : Scopes} (h : s.Nested) {r : ScopeRef}
    (hr : r.index < s.scopes.size) : (s.addChild r).2.Nested := by
  refine ⟨?_, ?_, ?_⟩
  · rw [addChild_size]
    exact Nat.lt_succ_of_lt h.root_lt
  · rw [addChild_parent?_of_lt s r h.root_lt]
    exact h.root_parent
  · intro q hq hne
    rw [addChild_size] at hq
    rcases Nat.lt_succ_iff_lt_or_eq.mp hq with hlt | heq
    · rw [addChild_parent?_of_lt s r hlt]
      exact h.parent_older q hlt hne
    · obtain rfl : q = (s.addChild r).1 := by
        obtain ⟨i⟩ := q
        exact congrArg ScopeRef.mk heq
      exact ⟨r, addChild_parent?_self s r, hr⟩

/-- Binding a name changes no scope's parent. -/
@[simp] theorem bind_parent? (s : Scopes) (r : ScopeRef) (name : String)
    (type : Option ObjectRef) (q : ScopeRef) :
    (s.bind r name type).2.parent? q = s.parent? q := by
  simp only [bind, parent?, scope, Array.getElem?_modify]
  split
  · cases s.scopes[q.index]? <;> rfl
  · rfl

/-- Binding a name adds no scope. -/
@[simp] theorem bind_size (s : Scopes) (r : ScopeRef) (name : String) (type : Option ObjectRef) :
    (s.bind r name type).2.scopes.size = s.scopes.size := by
  simp [bind]

/-- Scopes with the same number and the same parents as nested ones are nested. -/
theorem Nested.of_same {s t : Scopes} (h : s.Nested) (hsize : t.scopes.size = s.scopes.size)
    (hparent : ∀ r, t.parent? r = s.parent? r) : t.Nested := by
  refine ⟨?_, ?_, ?_⟩
  · rw [hsize]
    exact h.root_lt
  · rw [hparent]
    exact h.root_parent
  · intro r hr hne
    rw [hsize] at hr
    rw [hparent]
    exact h.parent_older r hr hne

/-- Scopes with the same number and the same parents have grown, if only by nothing. -/
theorem Grown.of_same {s t : Scopes} (hsize : t.scopes.size = s.scopes.size)
    (hparent : ∀ r, t.parent? r = s.parent? r) : s.Grown t :=
  ⟨le_of_eq hsize.symm, fun r _ => hparent r⟩

/-! ## What the operations do to the names -/

/-- A name that is bound in one scope is not bound in another. -/
theorem findLocal?_bind_of_scope_ne (s : Scopes) {r q : ScopeRef} (name other : String)
    (type : Option ObjectRef) (hne : r ≠ q) :
    (s.bind r name type).2.findLocal? q other = s.findLocal? q other := by
  have hindex : r.index ≠ q.index := fun heq => hne (by cases r; cases q; simpa using heq)
  simp [bind, findLocal?, scope, Array.getElem?_modify, hindex]

/-- Adding a scope leaves the names of the others alone. -/
theorem findLocal?_addChild (s : Scopes) (r : ScopeRef) {q : ScopeRef}
    (hq : q.index < s.scopes.size) (name : String) :
    (s.addChild r).2.findLocal? q name = s.findLocal? q name := by
  simp [addChild, findLocal?, scope, Array.getElem?_push, Nat.ne_of_lt hq]

theorem BindsOnly.refl (s : Scopes) (r : ScopeRef) : s.BindsOnly r s :=
  fun _ _ _ _ => rfl

/-- Of two stretches of time, the second one may also bind names in a scope that the first one made. -/
theorem BindsOnly.trans {s t u : Scopes} {r r' : ScopeRef} (h : s.BindsOnly r t)
    (hsize : s.scopes.size ≤ t.scopes.size) (h' : t.BindsOnly r' u)
    (hr' : r' = r ∨ s.scopes.size ≤ r'.index) : s.BindsOnly r u := by
  intro q hq hne name
  have hne' : q ≠ r' := by
    rintro rfl
    rcases hr' with heq | hle
    · exact hne heq
    · exact Nat.not_le_of_lt hq hle
  exact (h' q (lt_of_lt_of_le hq hsize) hne' name).trans (h q hq hne name)

theorem Retained.refl (s : Scopes) : s.Retained s :=
  ⟨.refl s, fun _ _ _ => rfl⟩

theorem Retained.trans {s t u : Scopes} (h : s.Retained t) (h' : t.Retained u) : s.Retained u :=
  ⟨h.toGrown.trans h'.toGrown, fun r hr name =>
    (h'.findLocal?_eq r (lt_of_lt_of_le hr h.size_le) name).trans (h.findLocal?_eq r hr name)⟩

/-- If names are bound in a new scope only, all earlier ones are as they were. -/
theorem Retained.of_bindsOnly {s t u : Scopes} {r : ScopeRef} (h : s.Retained t) (hgrown : t.Grown u)
    (hbinds : t.BindsOnly r u) (hr : s.scopes.size ≤ r.index) : s.Retained u := by
  refine ⟨h.toGrown.trans hgrown, fun q hq name => ?_⟩
  have hne : q ≠ r := by
    rintro rfl
    exact Nat.not_le_of_lt hq hr
  exact (hbinds q (lt_of_lt_of_le hq h.size_le) hne name).trans (h.findLocal?_eq q hq name)

/-- Opening a scope retains the others. -/
theorem retained_addChild (s : Scopes) (r : ScopeRef) : s.Retained (s.addChild r).2 :=
  ⟨addChild_grown s r, fun _ hq name => findLocal?_addChild s r hq name⟩

/-- Binding a name in a scope binds in this scope only. -/
theorem bindsOnly_bind (s : Scopes) (r : ScopeRef) (name : String) (type : Option ObjectRef) :
    s.BindsOnly r (s.bind r name type).2 :=
  fun _ _ hne _ => findLocal?_bind_of_scope_ne s _ _ type hne.symm

/-- Opening a scope binds nothing. -/
theorem bindsOnly_addChild (s : Scopes) (r q : ScopeRef) : s.BindsOnly q (s.addChild r).2 :=
  fun _ hq _ name => findLocal?_addChild s r hq name

/-! ## The scopes that a program starts with -/

/-- A single root is nested. -/
theorem initial_nested : initial.Nested := by
  refine ⟨by decide, rfl, ?_⟩
  rintro ⟨i⟩ hr hne
  have hi : i < 1 := hr
  obtain rfl : i = 0 := by omega
  exact absurd rfl hne

/-- Defining a name in the root changes no scope's parent. -/
theorem define_same (s : Scopes) (name : String) (v : Value) :
    (s.define name v).scopes.size = s.scopes.size ∧
      ∀ r, (s.define name v).parent? r = s.parent? r := by
  unfold define declare?
  cases hl : s.findLocal? root name with
  | none => exact ⟨bind_size s root name none, bind_parent? s root name none⟩
  | some c => exact ⟨rfl, fun _ => rfl⟩

/-- Defining a name in the root binds it nowhere else. -/
theorem bindsOnly_define (s : Scopes) (name : String) (v : Value) :
    s.BindsOnly root (s.define name v) := by
  unfold define declare?
  cases s.findLocal? root name with
  | none => exact bindsOnly_bind s root name none
  | some c => exact .refl s root

/-- Scopes stay nested when a name is defined in the root. -/
theorem Nested.define {s : Scopes} (h : s.Nested) (name : String) (v : Value) :
    (s.define name v).Nested :=
  h.of_same (define_same s name v).1 (define_same s name v).2

end Scopes

/-- The scopes that every program starts with are nested. -/
theorem coreScopes_nested : coreScopes.Nested := by
  unfold coreScopes
  generalize coreVariables = entries
  have key : ∀ s : Scopes, s.Nested →
      (entries.foldl (fun s entry => s.define entry.1 entry.2) s).Nested := by
    induction entries with
    | nil => exact fun s hs => hs
    | cons entry entries ih => exact fun s hs => ih _ (hs.define entry.1 entry.2)
  exact key _ Scopes.initial_nested

end ProtoScript
