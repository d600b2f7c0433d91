import Mathlib
import ProtoScript.Heap.Accept

/-!
# Searches over pairs of objects

Two searches over the heap keep the pairs of objects that they have looked at: the comparison of types,
and the search for what satisfies a type.  Both are inquiries.  A question of an inquiry is about a pair
of objects, and what it asks for is written as a `Demand`: a combination of further questions by "both"
and "either".  The search runs such a demand for every pair that is new, and takes the other pairs to be
settled.  Two facts about it are all that later modules use.

* `Inquiry.search_of_consistent`: if a set of questions contains, with each of its members, enough of
  what that member demands, then the search succeeds for every member of the set, whatever it has seen
  before and however deep it may nest.
* `Inquiry.exists_consistent`: if the search succeeds, and the questions it can get to leave no choice by
  "either", then there is such a set.  The pairs seen at the end of the search are one: a pair gets there
  once, and then its own demand is met by pairs that are there at the end too.

The second fact needs that the search was not cut short.  Every nested question adds a pair of objects
of the heap to those that were seen, so the number of the others bounds how deep it still can nest.
-/

namespace ProtoScript.Heap

/-- What a question asks for. -/
inductive Demand (Q : Type) where
  | settled (answer : Bool)
  | on (q : Q)
  | both (p q : Demand Q)
  | either (p q : Demand Q)

namespace Demand

variable {Q : Type}

/-- The search for what is demanded. -/
def search (self : Q → Search Bool) : Demand Q → Search Bool
  | settled answer => return answer
  | on q => self q
  | both p q => Heap.both (p.search self) (q.search self)
  | either p q => Heap.either (p.search self) (q.search self)

/-- Whether a demand is met when the questions of a set succeed. -/
def Holds (S : Q → Prop) : Demand Q → Prop
  | settled answer => answer = true
  | on q => S q
  | both p q => p.Holds S ∧ q.Holds S
  | either p q => p.Holds S ∨ q.Holds S

/-- The questions that a demand mentions. -/
def Mentions : Demand Q → Q → Prop
  | settled _, _ => False
  | on q, q' => q = q'
  | both p q, q' => p.Mentions q' ∨ q.Mentions q'
  | either p q, q' => p.Mentions q' ∨ q.Mentions q'

/-- Whether a demand leaves no choice: where one of two things is asked for, the first is settled without
a search, or the second is refused in any case. -/
def Plain : Demand Q → Prop
  | settled _ => True
  | on _ => True
  | both p q => p.Plain ∧ q.Plain
  | either p q => (∃ answer, p = settled answer) ∧ q.Plain ∨ p.Plain ∧ q = settled false

/-- A question that must succeed, if there is one. -/
def onSome : Option Q → Demand Q
  | some q => on q
  | none => settled false

/-- Several demands together. -/
def all : List (Demand Q) → Demand Q
  | [] => settled true
  | d :: ds => both d (all ds)

/-- One of several demands. -/
def any : List (Demand Q) → Demand Q
  | [] => settled false
  | d :: ds => either d (any ds)

@[simp] theorem holds_onSome {S : Q → Prop} {q : Option Q} :
    (onSome q).Holds S ↔ ∃ q', q = some q' ∧ S q' := by
  rcases q with _ | q <;> simp [onSome, Holds]

@[simp] theorem holds_all {S : Q → Prop} {ds : List (Demand Q)} :
    (all ds).Holds S ↔ ∀ d ∈ ds, d.Holds S := by
  induction ds with
  | nil => simp [all, Holds]
  | cons d ds ih => simp [all, Holds, ih]

@[simp] theorem holds_any {S : Q → Prop} {ds : List (Demand Q)} :
    (any ds).Holds S ↔ ∃ d ∈ ds, d.Holds S := by
  induction ds with
  | nil => simp [any, Holds]
  | cons d ds ih => simp [any, Holds, ih]

@[simp] theorem mentions_onSome {q : Option Q} {q' : Q} :
    (onSome q).Mentions q' ↔ q = some q' := by
  rcases q with _ | q <;> simp [onSome, Mentions]

@[simp] theorem mentions_all {ds : List (Demand Q)} {q : Q} :
    (all ds).Mentions q ↔ ∃ d ∈ ds, d.Mentions q := by
  induction ds with
  | nil => simp [all, Mentions]
  | cons d ds ih => simp [all, Mentions, ih]

@[simp] theorem mentions_any {ds : List (Demand Q)} {q : Q} :
    (any ds).Mentions q ↔ ∃ d ∈ ds, d.Mentions q := by
  induction ds with
  | nil => simp [any, Mentions]
  | cons d ds ih => simp [any, Mentions, ih]

@[simp] theorem plain_onSome (q : Option Q) : (onSome q).Plain := by
  rcases q with _ | q <;> trivial

@[simp] theorem plain_all {ds : List (Demand Q)} : (all ds).Plain ↔ ∀ d ∈ ds, d.Plain := by
  induction ds with
  | nil => simp [all, Plain]
  | cons d ds ih => simp [all, Plain, ih]

/-- One of several demands leaves no choice if all but the last are settled without a search. -/
theorem plain_any {ds : List (Demand Q)} (hfirst : ∀ d ∈ ds.dropLast, ∃ answer, d = settled answer)
    (hplain : ∀ d ∈ ds, d.Plain) : (any ds).Plain := by
  induction ds with
  | nil => trivial
  | cons d ds ih =>
    cases ds with
    | nil => exact .inr ⟨hplain d List.mem_cons_self, rfl⟩
    | cons e es =>
      have hd : ∃ answer, d = settled answer := hfirst d List.mem_cons_self
      refine .inl ⟨hd, ih ?_ ?_⟩
      · exact fun d' hd' => hfirst d' (List.mem_cons_of_mem _ hd')
      · exact fun d' hd' => hplain d' (List.mem_cons_of_mem _ hd')

/-- A demand that is met stays met when more questions succeed. -/
theorem Holds.mono {S T : Q → Prop} (hST : ∀ q, S q → T q) {d : Demand Q} (hd : d.Holds S) :
    d.Holds T := by
  induction d with
  | settled answer => exact hd
  | on q => exact hST q hd
  | both p q hp hq => exact ⟨hp hd.1, hq hd.2⟩
  | either p q hp hq => exact hd.imp hp hq

/-- Only the questions that a demand mentions matter for it. -/
theorem Holds.restrict {S : Q → Prop} {d : Demand Q} (hd : d.Holds S) :
    d.Holds fun q => S q ∧ d.Mentions q := by
  induction d with
  | settled answer => exact hd
  | on q => exact ⟨hd, rfl⟩
  | both p q hp hq =>
    exact ⟨(hp hd.1).mono fun c hc => ⟨hc.1, .inl hc.2⟩, (hq hd.2).mono fun c hc => ⟨hc.1, .inr hc.2⟩⟩
  | either p q hp hq =>
    exact hd.imp (fun hd => (hp hd).mono fun c hc => ⟨hc.1, .inl hc.2⟩)
      fun hd => (hq hd).mono fun c hc => ⟨hc.1, .inr hc.2⟩

/-- A search depends on the questions that its demand mentions. -/
theorem search_congr {self self' : Q → Search Bool} {d : Demand Q}
    (hself : ∀ q, d.Mentions q → self' q = self q) : d.search self' = d.search self := by
  induction d with
  | settled answer => rfl
  | on q => exact hself q rfl
  | both p q hp hq =>
    rw [search, search, hp fun c hc => hself c (.inl hc), hq fun c hc => hself c (.inr hc)]
  | either p q hp hq =>
    rw [search, search, hp fun c hc => hself c (.inl hc), hq fun c hc => hself c (.inr hc)]

/-- Two demands for the same, whatever the order in which it is searched for. -/
structure Same (d d' : Demand Q) : Prop where
  holds_iff : ∀ S, d.Holds S ↔ d'.Holds S
  mentions_iff : ∀ q, d.Mentions q ↔ d'.Mentions q
  plain_iff : d.Plain ↔ d'.Plain

theorem Same.refl (d : Demand Q) : d.Same d :=
  ⟨fun _ => Iff.rfl, fun _ => Iff.rfl, Iff.rfl⟩

theorem Same.both {d d' e e' : Demand Q} (hd : d.Same d') (he : e.Same e') :
    (both d e).Same (both d' e') :=
  ⟨fun S => and_congr (hd.holds_iff S) (he.holds_iff S),
    fun q => or_congr (hd.mentions_iff q) (he.mentions_iff q), and_congr hd.plain_iff he.plain_iff⟩

/-- Of several demands together, the order does not matter. -/
theorem Same.all {ds ds' : List (Demand Q)} (h : ds.Perm ds') : (all ds).Same (all ds') := by
  refine ⟨fun S => ?_, fun q => ?_, ?_⟩
  · simp only [holds_all, h.mem_iff]
  · simp only [mentions_all, h.mem_iff]
  · simp only [plain_all, h.mem_iff]

end Demand

/-! ### Steps of a search -/

/-- Both searches, of which the second one runs if the first one succeeds. -/
theorem both_apply (p q : Search Bool) (seen : Seen) :
    both p q seen = if (p seen).1 = true then q (p seen).2 else (false, (p seen).2) := by
  change (if (p seen).1 = true then q else pure false) (p seen).2 = _
  split <;> rfl

/-- One of two searches, of which the second one runs if the first one fails. -/
theorem either_apply (p q : Search Bool) (seen : Seen) :
    either p q seen = if (p seen).1 = true then (true, (p seen).2) else q (p seen).2 := by
  change (if (p seen).1 = true then pure true else q) (p seen).2 = _
  split <;> rfl

/-- A pair that was seen is passed over, and one that is new is noted. -/
theorem visit_bind (a b : ObjectRef) (p : Search Bool) (seen : Seen) :
    (do if ← visit a b then p else return true : Search Bool) seen =
      if (a, b) ∈ seen then (true, seen) else p ((a, b) :: seen) := by
  by_cases hmem : (a, b) ∈ seen
  · simp only [visit, bind, StateT.bind, get, getThe, MonadStateOf.get, StateT.get, pure,
      StateT.pure, hmem, if_true]
    rfl
  · simp only [visit, bind, StateT.bind, get, getThe, MonadStateOf.get, StateT.get, set,
      StateT.set, pure, StateT.pure, hmem, if_false]
    rfl

section

variable {Q α : Type} {self : Q → Search Bool} {p : α → Search Bool} {f : α → Demand Q}

/-- Going through a list until something is missing is searching for all of it. -/
theorem every_eq (hp : ∀ a, p a = (f a).search self) (as : List α) :
    every p as = (Demand.all (as.map f)).search self := by
  induction as with
  | nil => rfl
  | cons a as ih => simp only [every, List.map_cons, Demand.all, Demand.search, hp a, ih]

/-- Going through a list until something is found is searching for one part of it. -/
theorem someOf_eq (hp : ∀ a, p a = (f a).search self) (as : List α) :
    someOf p as = (Demand.any (as.map f)).search self := by
  induction as with
  | nil => rfl
  | cons a as ih => simp only [someOf, List.map_cons, Demand.any, Demand.search, hp a, ih]

end

/-! ### Pairs that were not seen -/

section

variable {h : Heap}

/-- The pairs of objects of the heap that were not seen. -/
def unseen (h : Heap) (seen : Seen) : Finset (Nat × Nat) :=
  (Finset.range h.objects.size ×ˢ Finset.range h.objects.size).filter fun pair =>
    !seen.contains (⟨pair.1⟩, ⟨pair.2⟩)

/-- What is not seen yet of the pairs of objects. -/
theorem mem_unseen {seen : Seen} {pair : Nat × Nat} :
    pair ∈ h.unseen seen ↔ (pair.1 < h.objects.size ∧ pair.2 < h.objects.size) ∧
      ((⟨pair.1⟩, ⟨pair.2⟩) : ObjectRef × ObjectRef) ∉ seen := by
  simp [unseen]

/-- Seeing a pair of objects of the heap leaves fewer that were not seen. -/
theorem card_unseen_cons {seen : Seen} {a b : ObjectRef} (ha : a.index < h.objects.size)
    (hb : b.index < h.objects.size) (hnew : (a, b) ∉ seen) :
    (h.unseen ((a, b) :: seen)).card < (h.unseen seen).card := by
  refine Finset.card_lt_card ⟨?_, ?_⟩
  · intro pair hpair
    rw [mem_unseen, List.mem_cons, not_or] at hpair
    exact mem_unseen.mpr ⟨hpair.1, hpair.2.2⟩
  · intro hsub
    have hmem : (a.index, b.index) ∈ h.unseen seen := mem_unseen.mpr ⟨⟨ha, hb⟩, hnew⟩
    exact (mem_unseen.mp (hsub hmem)).2 List.mem_cons_self

/-- Seeing more pairs leaves no more that were not seen. -/
theorem card_unseen_le {seen later : Seen} (hsub : ∀ pair ∈ seen, pair ∈ later) :
    (h.unseen later).card ≤ (h.unseen seen).card := by
  refine Finset.card_le_card fun pair hpair => ?_
  rw [mem_unseen] at hpair ⊢
  exact ⟨hpair.1, fun hmem => hpair.2 (hsub _ hmem)⟩

/-- At first there are fewer of them than the search may nest deep. -/
theorem card_unseen_nil (h : Heap) : (h.unseen []).card < h.pairBound := by
  have hcard : (h.unseen []).card ≤
      (Finset.range h.objects.size ×ˢ Finset.range h.objects.size).card :=
    Finset.card_le_card (Finset.filter_subset _ _)
  rw [Finset.card_product, Finset.card_range] at hcard
  exact Nat.lt_succ_of_le hcard

end

/-! ### Inquiries -/

/-- Questions about pairs of objects: those that are obvious, and what the others demand. -/
structure Inquiry (Q : Type) where
  pair : Q → ObjectRef × ObjectRef
  obvious : Q → Bool
  demand : Q → Demand Q

namespace Inquiry

variable {Q : Type}

/-- Whether a question is settled by the pairs that were seen. -/
def Noted (I : Inquiry Q) (seen : Seen) (q : Q) : Prop :=
  I.obvious q = true ∨ I.pair q ∈ seen

instance (I : Inquiry Q) (seen : Seen) (q : Q) : Decidable (I.Noted seen q) :=
  inferInstanceAs (Decidable (_ ∨ _))

/-- The search for the answer to a question, which nests at most `fuel` deep. -/
def search (I : Inquiry Q) : Nat → Q → Search Bool
  | 0, _ => return true
  | fuel + 1, q => fun seen =>
    if I.Noted seen q then (true, seen) else (I.demand q).search (I.search fuel) (I.pair q :: seen)

/-- A set of questions in which every one that is not obvious has its demand met. -/
def Consistent (I : Inquiry Q) (S : Q → Prop) : Prop :=
  ∀ q, S q → I.obvious q = true ∨ (I.demand q).Holds S

/-- A set of questions that a search does not leave.  In it, a question is known by its pair, and other
questions come from objects of the heap only. -/
structure Enclosed (I : Inquiry Q) (h : Heap) (G : Q → Prop) : Prop where
  known : ∀ q q', G q → G q' → I.pair q = I.pair q' → q = q'
  closed : ∀ q q', G q → (I.demand q).Mentions q' → G q'
  inside : ∀ q q', G q → (I.demand q).Mentions q' →
    (I.pair q).1.index < h.objects.size ∧ (I.pair q).2.index < h.objects.size

/-- A set of questions that a search does not leave, and that leave no choice. -/
structure Confined (I : Inquiry Q) (h : Heap) (G : Q → Prop) : Prop extends I.Enclosed h G where
  plain : ∀ q, G q → (I.demand q).Plain

variable {I : Inquiry Q} {h : Heap} {G : Q → Prop}

/-! ### A consistent set succeeds -/

/-- If the questions of a set succeed, so does the search for what they meet. -/
theorem search_of_holds {S : Q → Prop} {self : Q → Search Bool}
    (hself : ∀ q, S q → ∀ seen, (self q seen).1 = true) {d : Demand Q} (hd : d.Holds S) (seen : Seen) :
    (d.search self seen).1 = true := by
  induction d generalizing seen with
  | settled answer => exact hd
  | on q => exact hself q hd seen
  | both p q hp hq =>
    rw [Demand.search, both_apply, if_pos (hp hd.1 seen)]
    exact hq hd.2 _
  | either p q hp hq =>
    rw [Demand.search, either_apply]
    split
    · rfl
    · rename_i hnot
      rcases hd with hd | hd
      · exact absurd (hp hd seen) hnot
      · exact hq hd _

/-- The search succeeds for every question of a consistent set. -/
theorem search_of_consistent {S : Q → Prop} (hS : I.Consistent S) (fuel : Nat) {q : Q} (hq : S q)
    (seen : Seen) : (I.search fuel q seen).1 = true := by
  induction fuel generalizing q seen with
  | zero => rfl
  | succ fuel ih =>
    unfold search
    split
    · rfl
    · rename_i hnew
      rcases hS q hq with hobvious | hdemand
      · exact absurd (.inl hobvious) hnew
      · exact search_of_holds (fun q hq => ih hq) hdemand _

/-- What a search does not get to may be left out of a consistent set. -/
theorem Enclosed.consistent {S : Q → Prop} (hG : I.Enclosed h G)
    (hS : ∀ q, G q → S q → I.obvious q = true ∨ (I.demand q).Holds S) :
    I.Consistent fun q => G q ∧ S q := by
  rintro q ⟨hq, hqS⟩
  refine (hS q hq hqS).imp_right fun hholds => ?_
  exact hholds.restrict.mono fun q' hq' => ⟨hG.closed q q' hq hq'.2, hq'.1⟩

/-! ### Success gives a consistent set -/

/-- Pairs seen by the end of a search, among them those seen at its beginning. Each of the others stands
for a question whose demand is met by what was seen at the end. -/
structure Completes (I : Inquiry Q) (G : Q → Prop) (seen later : Seen) : Prop where
  subset : ∀ pair ∈ seen, pair ∈ later
  met : ∀ pair ∈ later, pair ∈ seen ∨
    ∃ q, G q ∧ I.pair q = pair ∧ (I.demand q).Holds (I.Noted later)

/-- A question that is noted stays noted. -/
theorem Noted.mono {seen later : Seen} (hsub : ∀ pair ∈ seen, pair ∈ later) (q : Q)
    (hq : I.Noted seen q) : I.Noted later q :=
  hq.imp_right (hsub _)

theorem Completes.refl (seen : Seen) : I.Completes G seen seen :=
  ⟨fun _ hpair => hpair, fun _ hpair => .inl hpair⟩

/-- What two searches complete, one after the other. -/
theorem Completes.trans {seen between later : Seen} (hfirst : I.Completes G seen between)
    (hthen : I.Completes G between later) : I.Completes G seen later := by
  refine ⟨fun pair hpair => hthen.subset _ (hfirst.subset _ hpair), fun pair hpair => ?_⟩
  rcases hthen.met pair hpair with hbetween | hmet
  · refine (hfirst.met pair hbetween).imp_right ?_
    rintro ⟨q, hq, hpair, hholds⟩
    exact ⟨q, hq, hpair, hholds.mono (Noted.mono hthen.subset)⟩
  · exact .inr hmet

/-- A search for what leaves no choice is complete if its questions are. -/
theorem completes_search {self : Q → Search Bool} (room : Nat) {d : Demand Q} (hd : d.Plain)
    (hself : ∀ q, d.Mentions q → ∀ seen, (h.unseen seen).card < room → (self q seen).1 = true →
      I.Completes G seen (self q seen).2 ∧ I.Noted (self q seen).2 q)
    {seen : Seen} (hroom : (h.unseen seen).card < room) (hok : (d.search self seen).1 = true) :
    I.Completes G seen (d.search self seen).2 ∧ d.Holds (I.Noted (d.search self seen).2) := by
  induction d generalizing seen with
  | settled answer => exact ⟨.refl seen, hok⟩
  | on q => exact hself q rfl seen hroom hok
  | both p q hp hq =>
    rw [Demand.search, both_apply] at hok ⊢
    split at hok
    · rename_i hfirst
      rw [if_pos hfirst]
      obtain ⟨hcomp, hholds⟩ := hp hd.1 (fun c hc => hself c (.inl hc)) hroom hfirst
      have hroom' := Nat.lt_of_le_of_lt (card_unseen_le hcomp.subset) hroom
      obtain ⟨hcomp', hholds'⟩ := hq hd.2 (fun c hc => hself c (.inr hc)) hroom' hok
      exact ⟨hcomp.trans hcomp', hholds.mono (Noted.mono hcomp'.subset), hholds'⟩
    · cases hok
  | either p q hp hq =>
    rw [Demand.search, either_apply] at hok ⊢
    by_cases hfirst : (p.search self seen).1 = true
    · -- the first one succeeds, so it was searched for completely, unless it needed no search
      rw [if_pos hfirst]
      have hplain : p.Plain := by
        rcases hd with ⟨⟨answer, rfl⟩, -⟩ | ⟨hplain, -⟩
        · trivial
        · exact hplain
      obtain ⟨hcomp, hholds⟩ := hp hplain (fun c hc => hself c (.inl hc)) hroom hfirst
      exact ⟨hcomp, .inl hholds⟩
    · -- the first one fails, and the second one succeeds: then the first one needed no search
      rw [if_neg hfirst] at hok ⊢
      rcases hd with ⟨⟨answer, rfl⟩, hplain⟩ | ⟨-, rfl⟩
      · obtain ⟨hcomp, hholds⟩ := hq hplain (fun c hc => hself c (.inr hc)) hroom hok
        exact ⟨hcomp, .inr hholds⟩
      · cases hok

/-- A question that succeeds is settled by what was seen at its end, and completes what was seen at its
beginning. The induction is on how deep it may nest, which the pairs that were not seen keep below. -/
theorem completes (hG : I.Confined h G) (fuel : Nat) {q : Q} (hq : G q) {seen : Seen}
    (hroom : (h.unseen seen).card < fuel) (hok : (I.search fuel q seen).1 = true) :
    I.Completes G seen (I.search fuel q seen).2 ∧ I.Noted (I.search fuel q seen).2 q := by
  induction fuel generalizing q seen with
  | zero => exact absurd hroom (Nat.not_lt_zero _)
  | succ fuel ih =>
    unfold search at hok ⊢
    by_cases hnoted : I.Noted seen q
    · rw [if_pos hnoted]
      exact ⟨.refl seen, hnoted⟩
    rw [if_neg hnoted] at hok ⊢
    have hnew := (not_or.mp hnoted).2
    set start : Seen := I.pair q :: seen
    set final := ((I.demand q).search (I.search fuel) start).2
    -- A demand that mentions nothing leaves room however little fuel there is.
    have hsearch : I.Completes G start final ∧ (I.demand q).Holds (I.Noted final) := by
      by_cases hany : ∃ q', (I.demand q).Mentions q'
      · obtain ⟨q', hq'⟩ := hany
        obtain ⟨ha, hb⟩ := hG.inside q q' hq hq'
        have hless : (h.unseen start).card < (h.unseen seen).card := card_unseen_cons ha hb hnew
        exact completes_search fuel (hG.plain q hq)
          (fun q' hq' seen hroom hok => ih (hG.closed q q' hq hq') hroom hok) (by omega) hok
      · exact completes_search ((h.unseen start).card + 1) (hG.plain q hq)
          (fun q' hq' => absurd ⟨q', hq'⟩ hany) (Nat.lt_succ_self _) hok
    obtain ⟨hcompletes, hholds⟩ := hsearch
    have hpair : I.pair q ∈ final := hcompletes.subset _ List.mem_cons_self
    refine ⟨⟨fun pair hpair => hcompletes.subset _ (List.mem_cons_of_mem _ hpair), ?_⟩, .inr hpair⟩
    intro pair hmem
    rcases hcompletes.met pair hmem with hbefore | hmet
    · rcases List.mem_cons.mp hbefore with rfl | hbefore
      · exact .inr ⟨q, hq, rfl, hholds⟩
      · exact .inl hbefore
    · exact .inr hmet

/-- If a question succeeds without any choice being left, and nothing that it can get to was seen before,
then it is in a consistent set of such questions. -/
theorem exists_consistent (hG : I.Confined h G) {fuel : Nat} {q : Q} (hq : G q) {seen : Seen}
    (hroom : (h.unseen seen).card < fuel) (hfresh : ∀ q', G q' → I.pair q' ∉ seen)
    (hok : (I.search fuel q seen).1 = true) :
    ∃ S, S q ∧ (∀ q', S q' → G q') ∧ I.Consistent S := by
  obtain ⟨hcompletes, hnoted⟩ := completes hG fuel hq hroom hok
  set final := (I.search fuel q seen).2
  refine ⟨fun q => G q ∧ I.Noted final q, ⟨hq, hnoted⟩, fun q hq => hq.1, hG.consistent ?_⟩
  rintro q' hq' (hobvious | hmem)
  · exact .inl hobvious
  · rcases hcompletes.met _ hmem with hseen | ⟨q'', hq'', hpair, hholds⟩
    · exact absurd hseen (hfresh q' hq')
    · obtain rfl := hG.known q'' q' hq'' hq' hpair
      exact .inr hholds

/-- What was seen before does not matter to a question that cannot get to it. -/
theorem search_iff_exists_consistent (hG : I.Confined h G) {fuel : Nat} {q : Q} (hq : G q)
    {seen : Seen} (hroom : (h.unseen seen).card < fuel) (hfresh : ∀ q', G q' → I.pair q' ∉ seen) :
    (I.search fuel q seen).1 = true ↔ ∃ S, S q ∧ I.Consistent S := by
  constructor
  · intro hok
    obtain ⟨S, hS, -, hconsistent⟩ := exists_consistent hG hq hroom hfresh hok
    exact ⟨S, hS, hconsistent⟩
  · rintro ⟨S, hS, hconsistent⟩
    exact search_of_consistent hconsistent fuel hS seen

/-- Two inquiries about the same pairs run in the same way where their questions have the same
demands. -/
theorem search_eq_of_demand {I I' : Inquiry Q} {G : Q → Prop}
    (hclosed : ∀ q q', G q → (I.demand q).Mentions q' → G q') (hpair : ∀ q, I'.pair q = I.pair q)
    (hobvious : ∀ q, I'.obvious q = I.obvious q) (hdemand : ∀ q, G q → I'.demand q = I.demand q)
    (fuel : Nat) {q : Q} (hq : G q) : I'.search fuel q = I.search fuel q := by
  induction fuel generalizing q with
  | zero => rfl
  | succ fuel ih =>
    have hsearch : (I.demand q).search (I'.search fuel) = (I.demand q).search (I.search fuel) :=
      Demand.search_congr fun q' hq' => ih (hclosed q q' hq hq')
    funext seen
    have hnoted : I'.Noted seen q ↔ I.Noted seen q := by rw [Noted, Noted, hobvious, hpair]
    simp only [search, hnoted, hpair, hdemand q hq, hsearch]

/-- Two inquiries about the same pairs, whose questions demand the same in some order, come to the same
answers where no choice is left. -/
theorem search_eq_of_same {I I' : Inquiry Q} {h h' : Heap} {G : Q → Prop} (hG : I.Confined h G)
    (hsize : h'.objects.size = h.objects.size) (hpair : ∀ q, I'.pair q = I.pair q)
    (hobvious : ∀ q, I'.obvious q = I.obvious q) (hsame : ∀ q, G q → (I.demand q).Same (I'.demand q))
    {q : Q} (hq : G q) :
    (I'.search h'.pairBound q []).1 = (I.search h.pairBound q []).1 := by
  have hG' : I'.Confined h' G := by
    refine ⟨⟨fun q q' hq hq' heq => ?_, fun q q' hq hq' => ?_, fun q q' hq hq' => ?_⟩, fun q hq => ?_⟩
    · rw [hpair, hpair] at heq
      exact hG.known q q' hq hq' heq
    · exact hG.closed q q' hq (((hsame q hq).mentions_iff q').mpr hq')
    · rw [hpair, hsize]
      exact hG.inside q q' hq (((hsame q hq).mentions_iff q').mpr hq')
    · exact (hsame q hq).plain_iff.mp (hG.plain q hq)
  rw [Bool.eq_iff_iff]
  constructor
  · intro hok
    obtain ⟨S, hS, hsub, hconsistent⟩ :=
      exists_consistent hG' hq h'.card_unseen_nil (fun _ _ => List.not_mem_nil) hok
    refine search_of_consistent (S := S) (fun q' hq' => ?_) h.pairBound hS []
    rw [← hobvious q', (hsame q' (hsub q' hq')).holds_iff]
    exact hconsistent q' hq'
  · intro hok
    obtain ⟨S, hS, hsub, hconsistent⟩ :=
      exists_consistent hG hq h.card_unseen_nil (fun _ _ => List.not_mem_nil) hok
    refine search_of_consistent (S := S) (fun q' hq' => ?_) h'.pairBound hS []
    rw [hobvious q', ← (hsame q' (hsub q' hq')).holds_iff]
    exact hconsistent q' hq'

/-! ### What a search leaves behind -/

/-- Pairs seen by the end of a search: those seen at its beginning, and pairs of a set of questions. -/
structure Visits (I : Inquiry Q) (G : Q → Prop) (seen later : Seen) : Prop where
  subset : ∀ pair ∈ seen, pair ∈ later
  inside : ∀ pair ∈ later, pair ∈ seen ∨ ∃ q, G q ∧ pair = I.pair q

theorem Visits.refl (seen : Seen) : I.Visits G seen seen :=
  ⟨fun _ hpair => hpair, fun _ hpair => .inl hpair⟩

/-- What two searches visit, one after the other. -/
theorem Visits.trans {seen between later : Seen} (hfirst : I.Visits G seen between)
    (hthen : I.Visits G between later) : I.Visits G seen later := by
  refine ⟨fun pair hpair => hthen.subset _ (hfirst.subset _ hpair), fun pair hpair => ?_⟩
  rcases hthen.inside pair hpair with hbetween | hinside
  · exact hfirst.inside pair hbetween
  · exact .inr hinside

/-- The search for what is demanded visits what its questions visit. -/
theorem visits_search {self : Q → Search Bool} {d : Demand Q}
    (hself : ∀ q, d.Mentions q → ∀ seen, I.Visits G seen (self q seen).2) (seen : Seen) :
    I.Visits G seen (d.search self seen).2 := by
  induction d generalizing seen with
  | settled answer => exact .refl seen
  | on q => exact hself q rfl seen
  | both p q hp hq =>
    have hfirst := hp (fun c hc => hself c (.inl hc)) seen
    rw [Demand.search, both_apply]
    split
    · exact hfirst.trans (hq (fun c hc => hself c (.inr hc)) _)
    · exact hfirst
  | either p q hp hq =>
    have hfirst := hp (fun c hc => hself c (.inl hc)) seen
    rw [Demand.search, either_apply]
    split
    · exact hfirst
    · exact hfirst.trans (hq (fun c hc => hself c (.inr hc)) _)

/-- Whether it succeeds or not, a search leaves behind only pairs that it can get to. -/
theorem visits (hclosed : ∀ q q', G q → (I.demand q).Mentions q' → G q') (fuel : Nat) {q : Q} (hq : G q)
    (seen : Seen) : I.Visits G seen (I.search fuel q seen).2 := by
  induction fuel generalizing q seen with
  | zero => exact .refl seen
  | succ fuel ih =>
    unfold search
    split
    · exact .refl seen
    · have hnote : I.Visits G seen (I.pair q :: seen) := by
        refine ⟨fun pair hpair => List.mem_cons_of_mem _ hpair, fun pair hpair => ?_⟩
        rcases List.mem_cons.mp hpair with rfl | hpair
        · exact .inr ⟨q, hq, rfl⟩
        · exact .inl hpair
      exact hnote.trans (visits_search (fun q' hq' => ih (hclosed q q' hq hq')) _)

end Inquiry

end ProtoScript.Heap
