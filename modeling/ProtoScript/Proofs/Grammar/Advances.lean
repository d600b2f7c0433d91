import ProtoScript.Grammar.Read

/-!
# Readers that go over given tokens

`Spells us ts` says that the tokens `us`, wherever they stand, are spelled `ts`.  `Advances` says that
a reader goes over all tokens that are spelled in some way, and on with their result; `Consumes` is the
case in which it stops there and yields the result.

A reader goes on for as long as it can, so it matters what comes after the tokens: the kind of the next
token is part of the statement.  It also matters how many tokens are left, for reading nests no deeper
than there are tokens.
-/

namespace ProtoScript

namespace Grammar

/-! ## Tokens wherever they stand -/

/-- The tokens are spelled like this, wherever they stand. -/
def Spells (us : List Lexeme) (ts : List Token) : Prop :=
  us.map (·.token) = ts

/-- No tokens spell nothing. -/
theorem Spells.eq_nil {us : List Lexeme} (h : Spells us []) : us = [] :=
  List.map_eq_nil_iff.mp h

/-- What is spelled with a token first starts with this token. -/
theorem Spells.cons {us : List Lexeme} {t : Token} {ts : List Token} (h : Spells us (t :: ts)) :
    ∃ pos vs, us = ⟨t, pos⟩ :: vs ∧ Spells vs ts := by
  obtain ⟨l, vs, rfl, rfl, hvs⟩ := List.map_eq_cons_iff.mp h
  exact ⟨l.pos, vs, rfl, hvs⟩

/-- What is spelled in two parts has two parts. -/
theorem Spells.append {us : List Lexeme} {ts ts' : List Token} (h : Spells us (ts ++ ts')) :
    ∃ vs ws, us = vs ++ ws ∧ Spells vs ts ∧ Spells ws ts' := by
  obtain ⟨vs, ws, rfl, hvs, hws⟩ := List.map_eq_append_iff.mp h
  exact ⟨vs, ws, rfl, hvs, hws⟩

/-- There are as many tokens as are spelled. -/
theorem Spells.length_eq {us : List Lexeme} {ts : List Token} (h : Spells us ts) :
    us.length = ts.length := by
  rw [← show us.map (·.token) = ts from h, List.length_map]

/-! ## What comes next -/

/-- The next token, if there is one, is of some kind. -/
def Next (p : Token → Bool) (ts : List Lexeme) : Prop :=
  ∀ t, ts.head? = some t → p t.token = true

/-- The kind of the next token may be weakened. -/
theorem Next.mono {p q : Token → Bool} {ts : List Lexeme} (h : Next p ts)
    (hpq : ∀ t, p t = true → q t = true) : Next q ts :=
  fun t ht => hpq _ (h t ht)

/-- Every token. -/
def anything : Token → Bool := fun _ => true

/-- If a token of the kind `q` comes after the tokens, the first of all is of the kind `p`. -/
def Leads (p q : Token → Bool) : List Token → Prop
  | [] => ∀ t, q t = true → p t = true
  | t :: _ => p t = true

/-- Nothing is asked of the first token if anything may come. -/
theorem leads_anything (q : Token → Bool) (ts : List Token) : Leads anything q ts := by
  cases ts with
  | nil => exact fun _ _ => rfl
  | cons t ts => rfl

/-- Less may be allowed to come after the tokens. -/
theorem Leads.mono {p q q' : Token → Bool} {ts : List Token} (h : Leads p q ts)
    (hq : ∀ t, q' t = true → q t = true) : Leads p q' ts := by
  cases ts with
  | nil => exact fun t ht => h t (hq t ht)
  | cons t ts => exact h

/-- What comes next is the first of the tokens, or what comes after them. -/
theorem Leads.next {p q : Token → Bool} {ts : List Token} (h : Leads p q ts)
    {us rest : List Lexeme} (hs : Spells us ts) (hrest : Next q rest) : Next p (us ++ rest) := by
  cases ts with
  | nil =>
    obtain rfl := hs.eq_nil
    exact hrest.mono h
  | cons t ts =>
    obtain ⟨pos, vs, rfl, -⟩ := hs.cons
    intro t' ht'
    cases ht'
    exact h

/-! ## Going over tokens -/

/-- If at most `n` tokens are left, those spelled `ts` come first and one of the kind `p`, if any, comes
after them, then `x` goes over them and on with `y`, for a result that satisfies `P`. -/
def Advances {α β : Type} (x : Reader β) (y : Nat → α → Reader β) (n : Nat) (ts : List Token)
    (p : Token → Bool) (P : α → Prop) : Prop :=
  ∀ used rest es, Spells used ts → Next p rest → (used ++ rest).length ≤ n →
    ∃ a m, P a ∧ rest.length ≤ m ∧ x ⟨used ++ rest, es⟩ = y m a ⟨rest, es⟩

/-- The tokens spelled `ts` are consumed, and the result satisfies `P`. -/
abbrev Consumes {α : Type} (x : Reader α) (n : Nat) (ts : List Token) (p : Token → Bool)
    (P : α → Prop) : Prop :=
  Advances x (fun _ => pure) n ts p P

/-- A step that yields a result hands it to the next step. -/
theorem bind_of_ok {α β : Type} {x : Reader α} {f : α → Reader β} {c c' : Cursor} {a : α}
    (h : x c = .ok a c') : (x >>= f) c = f a c' := by
  change EStateM.bind x f c = _
  unfold EStateM.bind
  rw [h]

/-- A step that stops with a fault is the last one. -/
theorem bind_of_error {α β : Type} {x : Reader α} {f : α → Reader β} {c c' : Cursor} {e : Fault}
    (h : x c = .error e c') : (x >>= f) c = .error e c' := by
  change EStateM.bind x f c = _
  unfold EStateM.bind
  rw [h]

namespace Advances

variable {α β γ : Type} {ctx : Context} {n : Nat} {ts us : List Token} {p q : Token → Bool}

/-- Fewer tokens may be left, less may be allowed to come next, and less may be said of the result. -/
theorem mono {x : Reader β} {y : Nat → α → Reader β} {P Q : α → Prop} {m : Nat}
    (h : Advances x y n ts p P) (hm : m ≤ n) (hpq : ∀ t, q t = true → p t = true)
    (hPQ : ∀ a, P a → Q a) : Advances x y m ts q Q := by
  intro used rest es hs hrest hlen
  obtain ⟨a, k, hP, hk, hx⟩ := h used rest es hs (hrest.mono hpq) (Nat.le_trans hlen hm)
  exact ⟨a, k, hPQ a hP, hk, hx⟩

/-- Fewer tokens may be left. -/
theorem of_le {x : Reader β} {y : Nat → α → Reader β} {P : α → Prop} {m : Nat}
    (h : Advances x y n ts p P) (hm : m ≤ n) : Advances x y m ts p P :=
  h.mono hm (fun _ ht => ht) fun _ ha => ha

/-- Less may be allowed to come next. -/
theorem of_next {x : Reader β} {y : Nat → α → Reader β} {P : α → Prop} (h : Advances x y n ts p P)
    (hpq : ∀ t, q t = true → p t = true) : Advances x y n ts q P :=
  h.mono (Nat.le_refl n) hpq fun _ ha => ha

/-- To go on at once is to go over no tokens. -/
theorem refl {y : Nat → α → Reader β} {P : α → Prop} {m : Nat} (hm : n ≤ m) {a : α} (ha : P a) :
    Advances (y m a) y n [] p P := by
  intro used rest es hs _ hlen
  obtain rfl := hs.eq_nil
  exact ⟨a, m, ha, Nat.le_trans hlen hm, rfl⟩

/-- To yield a result is to consume no tokens. -/
theorem pure {P : α → Prop} {a : α} (ha : P a) : Consumes (Pure.pure a) n [] p P :=
  refl (y := fun _ => Pure.pure) (Nat.le_refl n) ha

/-- Reading goes over a token and then over those behind it. -/
theorem token {x : Reader β} {y : Nat → α → Reader β} {z : Position → Reader β} {P : α → Prop}
    {t : Token} (hx : ∀ pos ts es, x ⟨⟨t, pos⟩ :: ts, es⟩ = z pos ⟨ts, es⟩)
    (hz : ∀ pos m, m < n → Advances (z pos) y m ts p P) : Advances x y n (t :: ts) p P := by
  intro used rest es hs hrest hlen
  obtain ⟨pos, vs, rfl, hvs⟩ := hs.cons
  obtain ⟨a, m, ha, hm, hok⟩ := hz pos (vs ++ rest).length hlen vs rest es hvs hrest (Nat.le_refl _)
  exact ⟨a, m, ha, hm, (hx pos (vs ++ rest) es).trans hok⟩

/-- A reader may look at the next token before it does something. -/
theorem of_peek {x x' : Reader β} {y : Nat → α → Reader β} {P : α → Prop} {t : Token}
    (hx : Advances x y n (t :: ts) p P)
    (h : ∀ pos ts es, x' ⟨⟨t, pos⟩ :: ts, es⟩ = x ⟨⟨t, pos⟩ :: ts, es⟩) :
    Advances x' y n (t :: ts) p P := by
  intro used rest es hs hrest hlen
  obtain ⟨a, m, ha, hm, hok⟩ := hx used rest es hs hrest hlen
  obtain ⟨pos, vs, rfl, -⟩ := hs.cons
  exact ⟨a, m, ha, hm, (h pos (vs ++ rest) es).trans hok⟩

/-- A sequence goes over the tokens that are consumed by its first step, and then over those behind
them. -/
theorem bind {x : Reader γ} {f : γ → Reader β} {y : Nat → α → Reader β} {R : γ → Prop} {P : α → Prop}
    (hx : Consumes x n ts p R)
    (hf : ∀ c m, R c → m + ts.length ≤ n → Advances (f c) y m us q P) (hlead : Leads p q us) :
    Advances (x >>= f) y n (ts ++ us) q P := by
  intro used rest es hs hrest hlen
  obtain ⟨vs, ws, rfl, hvs, hws⟩ := hs.append
  rw [List.append_assoc] at hlen ⊢
  obtain ⟨c, _, hc, -, hok⟩ := hx vs (ws ++ rest) es hvs (hlead.next hws hrest) hlen
  have hbound : (ws ++ rest).length + ts.length ≤ n := by
    rw [List.length_append, hvs.length_eq, Nat.add_comm] at hlen
    exact hlen
  obtain ⟨a, m, ha, hm, hok'⟩ := hf c _ hc hbound ws rest es hws hrest (Nat.le_refl _)
  exact ⟨a, m, ha, hm, (bind_of_ok hok).trans hok'⟩

/-- The first step of a sequence may consume nothing. -/
theorem pass {x : Reader γ} {f : γ → Reader β} {y : Nat → α → Reader β} {R : γ → Prop} {P : α → Prop}
    (hx : Consumes x n [] p R) (hf : ∀ c, R c → Advances (f c) y n us q P) (hlead : Leads p q us) :
    Advances (x >>= f) y n us q P := by
  have h : Advances (x >>= f) y n ([] ++ us) q P :=
    bind hx (fun c m hc hm => (hf c hc).of_le hm) hlead
  exact h

/-- The last step of a sequence may consume nothing. -/
theorem bind_nil {x : Reader γ} {f : γ → Reader β} {y : Nat → α → Reader β} {R : γ → Prop}
    {P : α → Prop} (hx : Consumes x n ts p R)
    (hf : ∀ c m, R c → m + ts.length ≤ n → Advances (f c) y m [] q P)
    (hqp : ∀ t, q t = true → p t = true) : Advances (x >>= f) y n ts q P := by
  have h : Advances (x >>= f) y n (ts ++ []) q P := bind hx hf hqp
  rwa [List.append_nil] at h

/-- Reading goes over some tokens, and from there over those behind them. -/
theorem trans {x : Reader β} {y : Nat → γ → Reader β} {z : Nat → α → Reader β} {R : γ → Prop}
    {P : α → Prop} (hx : Advances x y n ts p R) (hy : ∀ c m, R c → Advances (y m c) z m us q P)
    (hlead : Leads p q us) : Advances x z n (ts ++ us) q P := by
  intro used rest es hs hrest hlen
  obtain ⟨vs, ws, rfl, hvs, hws⟩ := hs.append
  rw [List.append_assoc] at hlen ⊢
  obtain ⟨c, m, hc, hm, hok⟩ := hx vs (ws ++ rest) es hvs (hlead.next hws hrest) hlen
  obtain ⟨a, k, ha, hk, hok'⟩ := hy c m hc ws rest es hws hrest hm
  exact ⟨a, k, ha, hk, hok.trans hok'⟩

/-- Reading may stop where nothing more is read. -/
theorem stop {x : Reader α} {y : Nat → α → Reader α} {P : α → Prop} (hx : Advances x y n ts p P)
    (hy : ∀ a m, Consumes (y m a) m [] q (· = a)) (hqp : ∀ t, q t = true → p t = true) :
    Consumes x n ts q P := by
  have h : Consumes x n (ts ++ []) q P :=
    hx.trans (fun a m ha => (hy a m).mono (Nat.le_refl m) (fun _ h => h) fun b hb => hb ▸ ha) hqp
  rwa [List.append_nil] at h

/-- What a rule goes over is gone over from outside, where fewer tokens are left than rules may be
inside each other. -/
theorem self (g : Goal β) {y : Nat → α → Reader β} {P : α → Prop}
    (h : ∀ k, Advances (rule ctx (read ctx k) g) y k ts p P) {k : Nat} (hn : n < k) :
    Advances (read ctx k g) y n ts p P := by
  obtain ⟨j, rfl⟩ : ∃ j, k = j + 1 := ⟨k - 1, by omega⟩
  exact (h j).of_le (Nat.lt_succ_iff.mp hn)

/-- A rule that is called for what it goes on with goes over no tokens. -/
theorem again (g : α → Goal β) {P : α → Prop} {a : α} (ha : P a) {k : Nat} (hn : n < k) :
    Advances (read ctx k (g a)) (fun m b => rule ctx (read ctx m) (g b)) n [] p P :=
  self (g a) (fun k => refl (y := fun m b => rule ctx (read ctx m) (g b)) (Nat.le_refl k) ha) hn

/-- A sequence goes on with the result of its first step. -/
theorem onward {x : Reader α} {y : Nat → α → Reader β} {P : α → Prop} (hx : Consumes x n ts p P) :
    Advances (x >>= y n) y n ts p P := by
  intro used rest es hs hrest hlen
  obtain ⟨a, _, ha, -, hok⟩ := hx used rest es hs hrest hlen
  refine ⟨a, n, ha, ?_, bind_of_ok hok⟩
  rw [List.length_append] at hlen
  exact Nat.le_trans (Nat.le_add_left _ _) hlen

end Advances

/-! ## Single tokens -/

/-- A token that is the next one is taken. -/
theorem accept?_apply (t : Token) (pos : Position) (ts : List Lexeme) (es : List Diagnostic) :
    accept? t ⟨⟨t, pos⟩ :: ts, es⟩ = .ok (some pos) ⟨ts, es⟩ := by
  change (if t = t then _ else _ : Reader (Option Position)) _ = _
  rw [if_pos rfl]
  rfl

namespace Consumes

variable {ctx : Context} {n : Nat} {q : Token → Bool}

/-- A token that is not the next one is not accepted. -/
theorem accept?_of_ne (t : Token) : Consumes (accept? t) n [] (· != t) (· = none) := by
  intro used rest es hs hrest hlen
  obtain rfl := hs.eq_nil
  refine ⟨none, rest.length, rfl, Nat.le_refl _, ?_⟩
  cases rest with
  | nil => rfl
  | cons l us =>
    have hne : l.token ≠ t := by simpa using hrest l rfl
    change (if l.token = t then _ else _ : Reader (Option Position)) _ = _
    rw [if_neg hne]
    rfl

/-- The next token is accepted. -/
theorem accept? (t : Token) : Consumes (accept? t) n [t] anything (·.isSome = true) :=
  .token (z := fun pos => pure (some pos)) (accept?_apply t) fun _ _ _ => .pure rfl

/-- The next token is as expected. -/
theorem expect (t : Token) : Consumes (expect ctx t) n [t] anything fun _ => True :=
  .token (z := fun pos => pure pos) (fun pos ts es => bind_of_ok (accept?_apply t pos ts es))
    fun _ _ _ => .pure trivial

/-- The next token is a name. -/
theorem name (s : String) : Consumes (name ctx) n [.name s] anything (· = s) :=
  .token (z := fun _ => pure s) (fun _ _ _ => rfl) fun _ _ _ => .pure rfl

/-- Another token than the next one is not there. -/
theorem check_of_ne (t : Token) : Consumes (check t) n [] (· != t) (· = false) := by
  intro used rest es hs hrest hlen
  obtain rfl := hs.eq_nil
  refine ⟨false, rest.length, rfl, Nat.le_refl _, ?_⟩
  cases rest with
  | nil => rfl
  | cons l us =>
    have hne : (some l.token == some t) = false := by simpa using hrest l rfl
    change (Pure.pure (some l.token == some t) : Reader Bool) _ = _
    rw [hne]
    rfl

/-- Asking for the place of the next token consumes nothing. -/
theorem here : Consumes (here ctx) n [] anything fun _ => True := by
  intro used rest es hs _ _
  obtain rfl := hs.eq_nil
  cases rest with
  | nil => exact ⟨ctx.last, 0, trivial, Nat.le_refl 0, rfl⟩
  | cons t ts => exact ⟨t.pos, _, trivial, Nat.le_refl _, rfl⟩

/-- The next token ends a statement. -/
theorem endStatement :
    Consumes (endStatement ctx) n [.mark .semicolon] anything fun _ => True :=
  .token (z := fun _ => pure ()) (fun _ _ _ => rfl) fun _ _ _ => .pure trivial

end Consumes

end Grammar

end ProtoScript
