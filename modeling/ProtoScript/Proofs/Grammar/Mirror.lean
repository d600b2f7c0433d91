import ProtoScript.Grammar.Read
import ProtoScript.Proofs.Grammar.Relocation

/-!
# Two readings side by side

`Mirrors τ P x y f Q` compares two readers.  From every cursor with `P`, the first one goes onward: it
leaves a part of the tokens, and what it records it adds to the errors that are there.  The second one,
started from the relocated cursor, does the same up to relocation, unless the first one has recorded an
error after which nothing is compared any more.  If the first one yields a result, then `Q` holds of the
result and the cursor.

The comparison is closed under sequencing, so each rule of the grammar is compared step by step.
-/

namespace ProtoScript

namespace Grammar

/-! ## Going onward -/

/-- A later cursor of the same reading: some tokens were consumed, some errors were added. -/
structure Cursor.Onward (c c' : Cursor) : Prop where
  rest : c'.rest <:+ c.rest
  errors : c.errors <+: c'.errors

/-- A cursor is onward from itself. -/
theorem Cursor.Onward.refl (c : Cursor) : c.Onward c :=
  ⟨List.suffix_rfl, List.prefix_rfl⟩

/-- What is onward from a later cursor is onward from an earlier one. -/
theorem Cursor.Onward.trans {c c₁ c₂ : Cursor} (h₁ : c.Onward c₁) (h₂ : c₁.Onward c₂) :
    c.Onward c₂ :=
  ⟨h₂.rest.trans h₁.rest, h₁.errors.trans h₂.errors⟩

/-- Where a reader has come to, with or without a result. -/
def reached {α : Type} : EStateM.Result Fault Cursor α → Cursor
  | .ok _ c => c
  | .error _ c => c

/-- A reader stands at a part of the tokens. -/
def Within (ts : List Lexeme) (c : Cursor) : Prop :=
  c.rest <:+ ts

/-- A reader stands at a part of the tokens and has consumed at least one of them. -/
def Inside (ts : List Lexeme) (c : Cursor) : Prop :=
  c.rest <:+ ts ∧ c.rest.length < ts.length

/-- A reader that has consumed a token stands at a part of the tokens. -/
theorem Inside.within {ts : List Lexeme} {c : Cursor} (h : Inside ts c) : Within ts c :=
  h.1

/-- Going onward, a reader stays at a part of the tokens. -/
theorem Within.onward {ts : List Lexeme} {c c' : Cursor} (h : Within ts c) (ho : c.Onward c') :
    Within ts c' :=
  ho.rest.trans h

/-- Past one token, a reader has consumed a token. -/
theorem Inside.of_cons {ts : List Lexeme} {l : Lexeme} {c : Cursor} (h : l :: c.rest <:+ ts) :
    Inside ts c :=
  ⟨(List.suffix_cons l c.rest).trans h, Nat.lt_of_lt_of_le (Nat.lt_succ_self _) h.length_le⟩

/-- Going onward, a reader does not give back what it has consumed. -/
theorem Inside.onward {ts : List Lexeme} {c c' : Cursor} (h : Inside ts c) (ho : c.Onward c') :
    Inside ts c' :=
  ⟨h.within.onward ho, Nat.lt_of_le_of_lt ho.rest.length_le h.2⟩

/-! ## Relocating readers -/

end Grammar

namespace Relocation

variable (τ : Relocation)

/-- A fault at its new place. -/
def fault (e : Fault) : Fault :=
  ⟨e.complaint, τ.place e.pos⟩

/-- A cursor over the tokens at their new places. -/
def cursor (c : Grammar.Cursor) : Grammar.Cursor :=
  ⟨c.rest.map (Lexeme.relocated τ), c.errors.map τ.error⟩

/-- What comes out of a reader, with the result relocated by the given function. -/
def outcome {α : Type} (f : α → α) :
    EStateM.Result Fault Grammar.Cursor α → EStateM.Result Fault Grammar.Cursor α
  | .ok a c => .ok (f a) (τ.cursor c)
  | .error e c => .error (τ.fault e) (τ.cursor c)

/-- What the file with the given path brings in. -/
def inclusion (path : String) (i : Grammar.Inclusion) : Grammar.Inclusion :=
  ⟨τ.imported path i.statements, i.errors.map τ.error⟩

/-- What an import brings in, or why it brings in nothing. -/
def brought (path : String) :
    Except Complaint Grammar.Inclusion → Except Complaint Grammar.Inclusion
  | .ok i => .ok (τ.inclusion path i)
  | .error complaint => .error complaint

end Relocation

namespace Grammar

/-- The same goal, behind what was relocated. -/
def Goal.relocated (τ : Relocation) : {α : Type} → Goal α → Goal α
  | _, .operators rank left => .operators rank (left.relocated τ)
  | _, .suffixes target => .suffixes (target.relocated τ)
  | _, .parameters first rest => .parameters first (Parameter.optionRelocated τ rest)
  | _, .procedure pos => .procedure (τ.place pos)
  | _, g => g

/-- What was read for a goal, relocated. -/
def Goal.image (τ : Relocation) : {α : Type} → Goal α → α → α
  | _, .expression => Expression.relocated τ
  | _, .operand _ => Expression.relocated τ
  | _, .operators _ _ => Expression.relocated τ
  | _, .unary => Expression.relocated τ
  | _, .suffixes _ => Expression.relocated τ
  | _, .arguments _ => Expression.allRelocated τ
  | _, .elements _ => Expression.allRelocated τ
  | _, .members => Declaration.allRelocated τ
  | _, .parameters _ _ => Prod.map (Parameter.allRelocated τ) (Parameter.optionRelocated τ)
  | _, .procedure _ => Procedure.relocated τ
  | _, .block => Block.relocated τ
  | _, .branches => Branch.allRelocated τ
  | _, .statements _ => Statement.allRelocated τ

/-! ## The comparison -/

/-- An error was recorded after which two readings need not agree. -/
def Final (τ : Relocation) (c : Cursor) : Prop :=
  ∃ d ∈ c.errors, τ.final d

/-- Errors stay recorded. -/
theorem Final.onward {τ : Relocation} {c c' : Cursor} (h : Final τ c) (ho : c.Onward c') :
    Final τ c' := by
  obtain ⟨d, hd, hfinal⟩ := h
  exact ⟨d, ho.errors.subset hd, hfinal⟩

/-- From every cursor with `P`, the first reader goes onward, the second one does the same up to
relocation, and a result of the first one has `Q`. -/
def Mirrors {α : Type} (τ : Relocation) (P : Cursor → Prop) (x y : Reader α) (f : α → α)
    (Q : α → Cursor → Prop) : Prop :=
  ∀ c, P c → c.Onward (reached (x c)) ∧ (∀ a c', x c = .ok a c' → Q a c') ∧
    (Final τ (reached (x c)) ∨ y (τ.cursor c) = τ.outcome f (x c))

namespace Mirrors

variable {α β : Type} {τ : Relocation} {P : Cursor → Prop} {ts : List Lexeme}

/-- The condition may be strengthened and what is known afterwards weakened. -/
theorem mono {P' : Cursor → Prop} {x y : Reader α} {f : α → α} {Q Q' : α → Cursor → Prop}
    (h : Mirrors τ P x y f Q) (hP : ∀ c, P' c → P c) (hQ : ∀ a c, Q a c → Q' a c) :
    Mirrors τ P' x y f Q' := by
  intro c hc
  obtain ⟨ho, hpost, hsame⟩ := h c (hP c hc)
  exact ⟨ho, fun a c' hok => hQ a c' (hpost a c' hok), hsame⟩

/-- Nothing needs to be known afterwards. -/
theorem forget {x y : Reader α} {f : α → α} {Q : α → Cursor → Prop} (h : Mirrors τ P x y f Q) :
    Mirrors τ P x y f fun _ _ => True :=
  h.mono (fun _ => id) fun _ _ _ => trivial

/-- What stays true onward is still true afterwards. -/
theorem keep {x y : Reader α} {f : α → α} {Q : α → Cursor → Prop} (h : Mirrors τ P x y f Q)
    (hP : ∀ c c', P c → c.Onward c' → P c') : Mirrors τ P x y f fun a c => Q a c ∧ P c := by
  intro c hc
  obtain ⟨ho, hpost, hsame⟩ := h c hc
  refine ⟨ho, fun a c' hok => ⟨hpost a c' hok, hP c c' hc ?_⟩, hsame⟩
  rw [hok] at ho
  exact ho

/-- What compares readers at a part of the tokens compares them inside the tokens. -/
theorem inside {x y : Reader α} {f : α → α} {Q : α → Cursor → Prop}
    (h : Mirrors τ (Within ts) x y f Q) : Mirrors τ (Inside ts) x y f fun _ => Inside ts :=
  ((h.mono (fun _ => Inside.within) fun _ _ => id).keep fun _ _ => Inside.onward).mono
    (fun _ => id) fun _ _ hc => hc.2

/-- What follows from the condition may be assumed. -/
theorem assuming {x y : Reader α} {f : α → α} {Q : α → Cursor → Prop} {p : Prop}
    (hp : ∀ c, P c → p) (h : p → Mirrors τ P x y f Q) : Mirrors τ P x y f Q :=
  fun c hc => h (hp c hc) c hc

/-- Readers that go on after a result are compared one after the other. -/
theorem bind {x y : Reader α} {k k' : α → Reader β} {f : α → α} {g : β → β}
    {Q : α → Cursor → Prop} {R : β → Cursor → Prop} (hx : Mirrors τ P x y f Q)
    (hk : ∀ a, Mirrors τ (Q a) (k a) (k' (f a)) g R) :
    Mirrors τ P (x >>= k) (y >>= k') g R := by
  intro c hc
  obtain ⟨ho, hpost, hsame⟩ := hx c hc
  change c.Onward (reached (EStateM.bind x k c)) ∧
    (∀ b c', EStateM.bind x k c = .ok b c' → R b c') ∧
      (Final τ (reached (EStateM.bind x k c)) ∨
        EStateM.bind y k' (τ.cursor c) = τ.outcome g (EStateM.bind x k c))
  unfold EStateM.bind
  cases hrun : x c with
  | ok a c₁ =>
    rw [hrun] at ho hsame
    obtain ⟨ho', hpost', hsame'⟩ := hk a c₁ (hpost a c₁ hrun)
    refine ⟨ho.trans ho', hpost', ?_⟩
    obtain hfinal | hsame := hsame
    · exact .inl (hfinal.onward ho')
    · simp only [hsame, Relocation.outcome]
      exact hsame'
  | error e c₁ =>
    rw [hrun] at ho hsame
    refine ⟨ho, fun b c' h => (by cases h), ?_⟩
    obtain hfinal | hsame := hsame
    · exact .inl hfinal
    · exact .inr (by simp only [hsame, Relocation.outcome])

/-- A result that is there. -/
theorem pure {a b : α} {f : α → α} {Q : α → Cursor → Prop} (hb : b = f a)
    (hQ : ∀ c, P c → Q a c) : Mirrors τ P (Pure.pure a) (Pure.pure b) f Q := by
  subst hb
  intro c hc
  refine ⟨.refl c, ?_, .inr rfl⟩
  intro a' c' hok
  cases hok
  exact hQ c hc

/-- A fault at its place. -/
theorem fail {f : α → α} {Q : α → Cursor → Prop} (complaint : Complaint) (pos : Position) :
    Mirrors τ P (Grammar.fail complaint pos) (Grammar.fail complaint (τ.place pos)) f Q := by
  intro c hc
  exact ⟨.refl c, fun a c' hok => (by cases hok), .inr rfl⟩

/-! ## Looking at tokens -/

/-- The token at a new place is the same. -/
theorem head?_relocated (ls : List Lexeme) :
    (ls.map (Lexeme.relocated τ)).head?.map (·.token) = ls.head?.map (·.token) := by
  cases ls <;> rfl

/-- Looking at the next token. -/
theorem peek? : Mirrors τ P Grammar.peek? Grammar.peek? id fun found c =>
    P c ∧ found = c.rest.head?.map (·.token) := by
  intro c hc
  refine ⟨.refl c, ?_, .inr ?_⟩
  · intro found c' hok
    cases hok
    exact ⟨hc, rfl⟩
  · change EStateM.Result.ok ((c.rest.map (Lexeme.relocated τ)).head?.map (·.token)) (τ.cursor c) =
      .ok (c.rest.head?.map (·.token)) (τ.cursor c)
    rw [head?_relocated]

/-- Looking at the cursor. -/
theorem get : Mirrors τ P (MonadState.get : Reader Cursor) MonadState.get τ.cursor fun c₀ c =>
    P c ∧ c₀ = c := by
  intro c hc
  refine ⟨.refl c, ?_, .inr rfl⟩
  intro c₀ c' hok
  cases hok
  exact ⟨hc, rfl⟩

/-- Asking for the place of the next token. -/
theorem here {ctx ctx' : Context} (hlast : ctx'.last = τ.place ctx.last) :
    Mirrors τ P (Grammar.here ctx) (Grammar.here ctx') τ.place fun _ => P := by
  intro c hc
  obtain ⟨rest, errors⟩ := c
  cases rest with
  | nil =>
    refine ⟨.refl _, ?_, .inr ?_⟩
    · intro pos c' hok
      cases hok
      exact hc
    · change EStateM.Result.ok ctx'.last _ = .ok (τ.place ctx.last) _
      rw [hlast]
  | cons t rest =>
    refine ⟨.refl _, ?_, .inr rfl⟩
    intro pos c' hok
    cases hok
    exact hc

/-- Skipping a token that was looked at. -/
theorem skip_of {t : Token} :
    Mirrors τ (fun c => Within ts c ∧ some t = c.rest.head?.map (·.token)) Grammar.skip Grammar.skip
      id fun _ c => ∃ l : Lexeme, l.token = t ∧ l :: c.rest <:+ ts := by
  rintro ⟨rest, errors⟩ ⟨hwithin, hhead⟩
  cases rest with
  | nil => cases hhead
  | cons l rest =>
    refine ⟨⟨List.suffix_cons l rest, List.prefix_rfl⟩, ?_, .inr rfl⟩
    intro _ c' hok
    cases hok
    cases hhead
    exact ⟨l, rfl, hwithin⟩

/-- Behind a token that was looked at, a reader has consumed a token. -/
theorem skip {t : Token} :
    Mirrors τ (fun c => Within ts c ∧ some t = c.rest.head?.map (·.token)) Grammar.skip Grammar.skip
      id fun _ => Inside ts := by
  refine skip_of.mono (fun _ => id) ?_
  rintro _ c ⟨l, -, hsuffix⟩
  exact .of_cons hsuffix

/-- Going on at a later part of the tokens. -/
theorem goOn {rest : List Lexeme} (hrest : ∀ c, P c → Inside ts c ∧ rest <:+ c.rest) :
    Mirrors τ P (modify fun c => { c with rest })
      (modify fun c => { c with rest := rest.map (Lexeme.relocated τ) }) id fun _ => Inside ts := by
  intro c hc
  obtain ⟨hin, hsuffix⟩ := hrest c hc
  have ho : c.Onward ⟨rest, c.errors⟩ := ⟨hsuffix, List.prefix_rfl⟩
  refine ⟨ho, ?_, .inr rfl⟩
  intro _ c' hok
  cases hok
  exact hin.onward ho

/-- Consuming the next token, whatever it is.  If there is one, it is the one that the cursor before
was at. -/
theorem next?_of {ctx ctx' : Context} (hlast : ctx'.last = τ.place ctx.last) :
    Mirrors τ P (Grammar.next? ctx) (Grammar.next? ctx') (Prod.map id τ.place) fun found c =>
      ∃ c₀, P c₀ ∧ c₀.Onward c ∧
        ∀ t, found.1 = some t → ∃ l : Lexeme, l.token = t ∧ c₀.rest = l :: c.rest := by
  rintro ⟨rest, errors⟩ hc
  cases rest with
  | nil =>
    refine ⟨.refl _, ?_, .inr ?_⟩
    · intro found c' hok
      cases hok
      exact ⟨_, hc, .refl _, fun t ht => (by cases ht)⟩
    · change EStateM.Result.ok (none, ctx'.last) _ = .ok (none, τ.place ctx.last) _
      rw [hlast]
  | cons l rest =>
    have ho : Cursor.Onward ⟨l :: rest, errors⟩ ⟨rest, errors⟩ :=
      ⟨List.suffix_cons l rest, List.prefix_rfl⟩
    refine ⟨ho, ?_, .inr rfl⟩
    intro found c' hok
    cases hok
    refine ⟨_, hc, ho, ?_⟩
    intro t ht
    cases ht
    exact ⟨l, rfl, rfl⟩

/-- Consuming the next token, whatever it is. -/
theorem next? {ctx ctx' : Context} (hlast : ctx'.last = τ.place ctx.last) :
    Mirrors τ (Within ts) (Grammar.next? ctx) (Grammar.next? ctx') (Prod.map id τ.place)
      fun found c => Within ts c ∧ (found.1.isSome → Inside ts c) := by
  refine (next?_of hlast).mono (fun _ => id) ?_
  rintro found c ⟨c₀, hc₀, ho, hfound⟩
  refine ⟨hc₀.onward ho, fun hsome => ?_⟩
  obtain ⟨t, ht⟩ := Option.isSome_iff_exists.mp hsome
  obtain ⟨l, -, hl⟩ := hfound t ht
  unfold Within at hc₀
  rw [hl] at hc₀
  exact .of_cons hc₀

/-- Checking for a token. -/
theorem check (t : Token) :
    Mirrors τ P (Grammar.check t) (Grammar.check t) id fun found c =>
      P c ∧ (found = true → some t = c.rest.head?.map (·.token)) := by
  unfold Grammar.check
  refine peek?.bind fun found => .pure rfl fun c hc => ⟨hc.1, fun hfound => ?_⟩
  rw [← hc.2]
  exact (eq_of_beq hfound).symm

/-- A token is consumed if it is the given one. -/
theorem accept?_cons (t : Token) (l : Lexeme) (rest : List Lexeme) (errors : List Diagnostic) :
    Grammar.accept? t ⟨l :: rest, errors⟩ =
      if l.token = t then .ok (some l.pos) ⟨rest, errors⟩ else .ok none ⟨l :: rest, errors⟩ := by
  unfold Grammar.accept?
  change (if l.token = t then _ else _ : Reader _) _ = _
  split <;> rfl

/-- Consuming a token if it is there. -/
theorem accept? (t : Token) :
    Mirrors τ (Within ts) (Grammar.accept? t) (Grammar.accept? t) (Option.map τ.place)
      fun found c => Within ts c ∧ (found.isSome → Inside ts c) := by
  rintro ⟨rest, errors⟩ hc
  cases rest with
  | nil =>
    refine ⟨.refl _, ?_, .inr rfl⟩
    intro found c' hok
    cases hok
    exact ⟨hc, fun h => (by cases h)⟩
  | cons l rest =>
    have hy : Grammar.accept? t (τ.cursor ⟨l :: rest, errors⟩) =
        τ.outcome (Option.map τ.place) (Grammar.accept? t ⟨l :: rest, errors⟩) := by
      rw [accept?_cons]
      refine (accept?_cons t (l.relocated τ) _ _).trans ?_
      change (if l.token = t then _ else _) = _
      split <;> rfl
    rw [hy, accept?_cons]
    split
    · have ho : Cursor.Onward ⟨l :: rest, errors⟩ ⟨rest, errors⟩ :=
        ⟨List.suffix_cons l rest, List.prefix_rfl⟩
      refine ⟨ho, ?_, .inr rfl⟩
      intro found c' hok
      cases hok
      exact ⟨hc.onward ho, fun _ => .of_cons hc⟩
    · refine ⟨.refl _, ?_, .inr rfl⟩
      intro found c' hok
      cases hok
      exact ⟨hc, fun h => (by cases h)⟩

/-- Consuming a token that has to be there. -/
theorem expect {ctx ctx' : Context} (hlast : ctx'.last = τ.place ctx.last) (t : Token) :
    Mirrors τ (Within ts) (Grammar.expect ctx t) (Grammar.expect ctx' t) τ.place
      fun _ => Inside ts := by
  unfold Grammar.expect
  refine (accept? t).bind fun found => ?_
  cases found with
  | some pos => exact .pure rfl fun c hc => hc.2 rfl
  | none => exact peek?.bind fun _ => (here hlast).bind fun _ => .fail _ _

/-- Consuming a name. -/
theorem name {ctx ctx' : Context} (hlast : ctx'.last = τ.place ctx.last) :
    Mirrors τ (Within ts) (Grammar.name ctx) (Grammar.name ctx') id fun _ => Inside ts := by
  unfold Grammar.name
  refine (next? hlast).bind fun found => ?_
  obtain ⟨token, pos⟩ := found
  cases token with
  | none => exact .fail _ _
  | some t =>
    cases t with
    | name spelling => exact .pure rfl fun c hc => hc.2 rfl
    | _ => exact .fail _ _

/-! ## Recording errors -/

/-- Recording errors. -/
theorem recordAll (errors : List Diagnostic) (hP : ∀ c c', P c → c.Onward c' → P c') :
    Mirrors τ P (Grammar.recordAll errors) (Grammar.recordAll (errors.map τ.error)) id
      fun _ => P := by
  intro c hc
  have ho : c.Onward ⟨c.rest, c.errors ++ errors⟩ := ⟨List.suffix_rfl, List.prefix_append _ _⟩
  refine ⟨ho, ?_, .inr ?_⟩
  · intro _ c' hok
    cases hok
    exact hP _ _ hc ho
  · change EStateM.Result.ok () (Cursor.mk _ (c.errors.map τ.error ++ errors.map τ.error)) =
      .ok () (Cursor.mk _ ((c.errors ++ errors).map τ.error))
    rw [List.map_append]
    rfl

/-- Recording a fault. -/
theorem record {ctx ctx' : Context} {e : Fault} (hP : ∀ c c', P c → c.Onward c' → P c')
    (he : τ.error (e.diagnostic ctx.file) = (τ.fault e).diagnostic ctx'.file) :
    Mirrors τ P (Grammar.record ctx e) (Grammar.record ctx' (τ.fault e)) id fun _ => P := by
  unfold Grammar.record
  rw [← he]
  exact recordAll [e.diagnostic ctx.file] hP

/-- The semicolon at the end of a statement. -/
theorem endStatement {ctx ctx' : Context} (hlast : ctx'.last = τ.place ctx.last)
    (he : ∀ e : Fault, τ.error (e.diagnostic ctx.file) = (τ.fault e).diagnostic ctx'.file) :
    Mirrors τ (Within ts) (Grammar.endStatement ctx) (Grammar.endStatement ctx') id
      fun _ => Within ts := by
  unfold Grammar.endStatement
  refine (accept? _).bind fun found => ?_
  cases found with
  | some pos => exact .pure rfl fun c hc => hc.1
  | none =>
    refine peek?.bind fun token => (here hlast).bind fun pos => ?_
    refine (record (fun c c' hc ho => hc.onward ho) (he _)).mono (fun c hc => hc.1.1) fun _ _ => id

/-! ## Going on after a fault -/

/-- A fault of the first reader is handled from where it stopped. -/
theorem handling {x y : Reader α} {k k' : Fault → Reader α} {f : α → α} {Q : α → Cursor → Prop}
    (hx : Mirrors τ P x y f Q)
    (hk : ∀ c, P c → ∀ e, Mirrors τ c.Onward (k e) (k' (τ.fault e)) f Q) :
    Mirrors τ P (tryCatch x k) (tryCatch y k') f Q := by
  intro c hc
  obtain ⟨ho, hpost, hsame⟩ := hx c hc
  change c.Onward (reached (EStateM.tryCatch x k c)) ∧
    (∀ a c', EStateM.tryCatch x k c = .ok a c' → Q a c') ∧
      (Final τ (reached (EStateM.tryCatch x k c)) ∨
        EStateM.tryCatch y k' (τ.cursor c) = τ.outcome f (EStateM.tryCatch x k c))
  unfold EStateM.tryCatch
  cases hrun : x c with
  | ok a c₁ =>
    rw [hrun] at ho hsame
    refine ⟨ho, fun b c' hok => ?_, ?_⟩
    · cases hok
      exact hpost a c₁ hrun
    · obtain hfinal | hsame := hsame
      · exact .inl hfinal
      · exact .inr (by simp only [hsame, Relocation.outcome])
  | error e c₁ =>
    rw [hrun] at ho hsame
    obtain ⟨ho', hpost', hsame'⟩ := hk c hc e c₁ ho
    refine ⟨ho.trans ho', hpost', ?_⟩
    obtain hfinal | hsame := hsame
    · exact .inl (hfinal.onward ho')
    · simp only [hsame, Relocation.outcome]
      exact hsame'

/-- Where the next statement may start does not depend on places. -/
theorem toBoundary_relocated (us : List Lexeme) :
    toBoundary (us.map (Lexeme.relocated τ)) = (toBoundary us).map (Lexeme.relocated τ) := by
  induction us with
  | nil => rfl
  | cons t us ih =>
    rw [List.map_cons]
    unfold toBoundary
    change (if t.token = _ then _ else if isBoundary t.token = true then _ else _) = _
    split
    · rfl
    · split
      · rfl
      · exact ih

/-- The next statement starts further on. -/
theorem toBoundary_suffix (us : List Lexeme) : toBoundary us <:+ us := by
  induction us with
  | nil => exact List.suffix_rfl
  | cons t us ih =>
    unfold toBoundary
    split
    · exact List.suffix_cons t us
    · split
      · exact List.suffix_rfl
      · exact ih.trans (List.suffix_cons t us)

/-- Going on at the next statement after a fault.  At least one token is consumed, if there is one. -/
theorem recover {ctx ctx' : Context} {e : Fault} (us : List Lexeme)
    (he : τ.error (e.diagnostic ctx.file) = (τ.fault e).diagnostic ctx'.file) :
    Mirrors τ (Within us) (Grammar.recover ctx us.length e)
      (Grammar.recover ctx' us.length (τ.fault e)) id
      fun _ c => Within us c ∧ (us ≠ [] → Inside us c) := by
  unfold Grammar.recover
  refine (record (fun c c' hc ho => hc.onward ho) he).bind fun _ => ?_
  intro c hc
  let rest := if (toBoundary c.rest).length = us.length then (toBoundary c.rest).tail
    else toBoundary c.rest
  have hsuffix : rest <:+ toBoundary c.rest := by
    unfold rest
    split
    · exact List.tail_suffix _
    · exact List.suffix_rfl
  have ho : c.Onward ⟨rest, c.errors⟩ :=
    ⟨hsuffix.trans (toBoundary_suffix c.rest), List.prefix_rfl⟩
  refine ⟨ho, ?_, .inr ?_⟩
  · intro _ c' hok
    cases hok
    refine ⟨hc.onward ho, fun hne => ⟨hc.onward ho, ?_⟩⟩
    change rest.length < us.length
    have hlen := ((toBoundary_suffix c.rest).trans hc).length_le
    have hpos := List.length_pos_iff.mpr hne
    unfold rest
    -- where no token would be skipped otherwise, one is
    split
    · rw [List.length_tail]
      omega
    · omega
  · change EStateM.Result.ok () (Cursor.mk (if (toBoundary (c.rest.map (Lexeme.relocated τ))).length =
        us.length then (toBoundary (c.rest.map (Lexeme.relocated τ))).tail
        else toBoundary (c.rest.map (Lexeme.relocated τ))) (c.errors.map τ.error)) =
      .ok () (Cursor.mk (rest.map (Lexeme.relocated τ)) (c.errors.map τ.error))
    unfold rest
    rw [toBoundary_relocated, List.length_map, ← List.map_tail]
    split <;> rfl

end Mirrors

end Grammar

end ProtoScript
