import ProtoScript.Proofs.Heap.Growth
import ProtoScript.Proofs.Heap.Walk
import ProtoScript.Proofs.Typing.Satisfaction

/-!
# Traversals of types end by themselves

The traversals of types are run with a bound on how deep they may nest.  `Inquiry.Runs` is an inquiry
without any bound: it describes runs by the rules of the search alone, and a search that went on for ever
would have no run.  On a heap whose links stay inside it, every question about its objects has a run, and
only one, whatever cycles there are.

The reason is in the pairs that were seen.  A question whose pair is new notes it before it asks anything
further, so along every call within a call there is one more pair, and all of them are pairs of objects of
the heap.  So calls cannot nest deeper than the number of pairs that were not seen, and what a search would do
at its bound never matters.
-/

namespace ProtoScript.Heap

/-- Both objects are in the heap. -/
def HasPair (h : Heap) (pair : ObjectRef × ObjectRef) : Prop :=
  h.Has (.object pair.1) ∧ h.Has (.object pair.2)

/-- The links of the heap, and the types of values, lead to objects of the heap. -/
structure Linked (h : Heap) (resolve : Resolver) : Prop where
  member : ∀ o name q, (name, .object q) ∈ (h.object o).members.entries → h.Has (.object q)
  parent : ∀ o p, h.parent? o = some p → h.Has (.object p)
  sides : ∀ o l r, (h.object o).kind = .union l r → h.HasPair (l, r)
  resolved : ∀ v t, resolve v = some t → h.Has (.object t)

/-! ### Inquiries without a bound -/

namespace Inquiry

variable {Q : Type}

/-- A run for a demand, from the pairs seen at its beginning to its answer and the pairs seen at its end.
Where something is asked for after something else, it is run only if the answer of the first one leaves it
open. -/
inductive Runs (I : Inquiry Q) : Demand Q → Seen → Bool → Seen → Prop
  | settled {answer : Bool} {seen : Seen} : Runs I (.settled answer) seen answer seen
  | noted {q : Q} {seen : Seen} (hq : I.Noted seen q) : Runs I (.on q) seen true seen
  | asked {q : Q} {seen later : Seen} {answer : Bool} (hq : ¬ I.Noted seen q)
    (hdemand : Runs I (I.demand q) (I.pair q :: seen) answer later) :
    Runs I (.on q) seen answer later
  | bothFails {d e : Demand Q} {seen later : Seen} (hd : Runs I d seen false later) :
    Runs I (.both d e) seen false later
  | bothGoesOn {d e : Demand Q} {seen between later : Seen} {answer : Bool}
    (hd : Runs I d seen true between) (he : Runs I e between answer later) :
    Runs I (.both d e) seen answer later
  | eitherSucceeds {d e : Demand Q} {seen later : Seen} (hd : Runs I d seen true later) :
    Runs I (.either d e) seen true later
  | eitherGoesOn {d e : Demand Q} {seen between later : Seen} {answer : Bool}
    (hd : Runs I d seen false between) (he : Runs I e between answer later) :
    Runs I (.either d e) seen answer later

/-- A run for a demand comes to a question when these pairs were seen. -/
inductive Arrives (I : Inquiry Q) : Demand Q → Seen → Q → Seen → Prop
  | on {q : Q} {seen : Seen} : Arrives I (.on q) seen q seen
  | bothFirst {d e : Demand Q} {q : Q} {seen reached : Seen} (hd : Arrives I d seen q reached) :
    Arrives I (.both d e) seen q reached
  | bothNext {d e : Demand Q} {q : Q} {seen between reached : Seen} (hd : I.Runs d seen true between)
    (he : Arrives I e between q reached) : Arrives I (.both d e) seen q reached
  | eitherFirst {d e : Demand Q} {q : Q} {seen reached : Seen} (hd : Arrives I d seen q reached) :
    Arrives I (.either d e) seen q reached
  | eitherNext {d e : Demand Q} {q : Q} {seen between reached : Seen} (hd : I.Runs d seen false between)
    (he : Arrives I e between q reached) : Arrives I (.either d e) seen q reached

/-- A question, asked when some pairs were seen, calls another one. -/
def Calls (I : Inquiry Q) (call next : Q × Seen) : Prop :=
  ¬ I.Noted call.2 call.1 ∧
    I.Arrives (I.demand call.1) (I.pair call.1 :: call.2) next.1 next.2

/-- One step of a search, which hands further questions on. -/
def step (I : Inquiry Q) (self : Q → Search Bool) (q : Q) : Search Bool := fun seen =>
  if I.Noted seen q then (true, seen) else (I.demand q).search self (I.pair q :: seen)

/-- An inquiry ends on a heap.  Every question about objects of the heap has exactly one run, whatever was
seen before, and the run adds pairs of objects of the heap only.  Along every call, the pairs that were seen
are strictly more, and they stay inside the heap; so no sequence of calls goes on for ever, and a search
whose bound is above the number of pairs that were not seen never comes to its bound. -/
structure Ends (I : Inquiry Q) (h : Heap) : Prop where
  runs : ∀ q, h.HasPair (I.pair q) → ∀ seen, ∃ answer later, I.Runs (.on q) seen answer later ∧
    ∀ answer' later', I.Runs (.on q) seen answer' later' → answer' = answer ∧ later' = later
  adds : ∀ q, h.HasPair (I.pair q) → ∀ seen answer later, I.Runs (.on q) seen answer later →
    (∀ pair ∈ seen, pair ∈ later) ∧ ∀ pair ∈ later, pair ∈ seen ∨ h.HasPair pair
  grows : ∀ q seen q' seen', I.Calls (q, seen) (q', seen') →
    (∀ pair ∈ seen, pair ∈ seen') ∧ I.pair q ∉ seen ∧ I.pair q ∈ seen'
  bounded : ∀ q seen q' seen', h.HasPair (I.pair q) → I.Calls (q, seen) (q', seen') →
    h.HasPair (I.pair q') ∧ ∀ pair ∈ seen', pair ∈ seen ∨ h.HasPair pair
  wellFounded : WellFounded fun next call => h.HasPair (I.pair call.1) ∧ I.Calls call next
  unbounded : ∀ q, h.HasPair (I.pair q) → ∀ seen answer later, I.Runs (.on q) seen answer later →
    ∀ stuck fuel, (h.unseen seen).card < fuel → I.step^[fuel] stuck q seen = (answer, later)

/-- A set of questions about objects of the heap leads to such questions only. -/
def StaysIn (I : Inquiry Q) (h : Heap) : Prop :=
  ∀ q q', h.HasPair (I.pair q) → (I.demand q).Mentions q' → h.HasPair (I.pair q')

variable {I : Inquiry Q} {h : Heap} {d : Demand Q} {q : Q} {seen later : Seen} {answer : Bool}

/-! ### Runs -/

/-- There is one run only. -/
theorem Runs.unique {answer' : Bool} {later' : Seen} (hr : I.Runs d seen answer later)
    (hr' : I.Runs d seen answer' later') : answer' = answer ∧ later' = later := by
  induction hr generalizing answer' later' with
  | settled =>
    cases hr'
    exact ⟨rfl, rfl⟩
  | noted hq =>
    cases hr' with
    | noted => exact ⟨rfl, rfl⟩
    | asked hnew => exact absurd hq hnew
  | asked hnew _ ih =>
    cases hr' with
    | noted hq => exact absurd hq hnew
    | asked _ hdemand => exact ih hdemand
  | bothFails _ ih =>
    cases hr' with
    | bothFails hd => exact ih hd
    | bothGoesOn hd => exact absurd (ih hd).1 nofun
  | bothGoesOn _ _ ihd ihe =>
    cases hr' with
    | bothFails hd => exact absurd (ihd hd).1 nofun
    | bothGoesOn hd he =>
      obtain ⟨-, rfl⟩ := ihd hd
      exact ihe he
  | eitherSucceeds _ ih =>
    cases hr' with
    | eitherSucceeds hd => exact ih hd
    | eitherGoesOn hd => exact absurd (ih hd).1 nofun
  | eitherGoesOn _ _ ihd ihe =>
    cases hr' with
    | eitherSucceeds hd => exact absurd (ihd hd).1 nofun
    | eitherGoesOn hd he =>
      obtain ⟨-, rfl⟩ := ihd hd
      exact ihe he

/-- What was seen stays seen. -/
theorem Runs.subset (hr : I.Runs d seen answer later) : ∀ pair ∈ seen, pair ∈ later := by
  induction hr with
  | settled => exact fun _ hpair => hpair
  | noted => exact fun _ hpair => hpair
  | asked _ _ ih => exact fun pair hpair => ih pair (List.mem_cons_of_mem _ hpair)
  | bothFails _ ih => exact ih
  | bothGoesOn _ _ ihd ihe => exact fun pair hpair => ihe pair (ihd pair hpair)
  | eitherSucceeds _ ih => exact ih
  | eitherGoesOn _ _ ihd ihe => exact fun pair hpair => ihe pair (ihd pair hpair)

/-- A run for a demand of questions about objects of the heap adds pairs of such objects only. -/
theorem Runs.inside (hstays : I.StaysIn h) (hr : I.Runs d seen answer later)
    (hd : ∀ q, d.Mentions q → h.HasPair (I.pair q)) : ∀ pair ∈ later, pair ∈ seen ∨ h.HasPair pair := by
  induction hr with
  | settled => exact fun _ hpair => .inl hpair
  | noted => exact fun _ hpair => .inl hpair
  | asked _ _ ih =>
    have hq := hd _ rfl
    intro pair hpair
    rcases ih (fun q' hq' => hstays _ q' hq hq') pair hpair with hpair | hpair
    · rcases List.mem_cons.mp hpair with rfl | hpair
      · exact .inr hq
      · exact .inl hpair
    · exact .inr hpair
  | bothFails _ ih => exact ih fun q hq => hd q (.inl hq)
  | eitherSucceeds _ ih => exact ih fun q hq => hd q (.inl hq)
  | bothGoesOn _ _ ihd ihe =>
    intro pair hpair
    rcases ihe (fun q hq => hd q (.inr hq)) pair hpair with hpair | hpair
    · exact ihd (fun q hq => hd q (.inl hq)) pair hpair
    · exact .inr hpair
  | eitherGoesOn _ _ ihd ihe =>
    intro pair hpair
    rcases ihe (fun q hq => hd q (.inr hq)) pair hpair with hpair | hpair
    · exact ihd (fun q hq => hd q (.inl hq)) pair hpair
    · exact .inr hpair

/-- There is a run for a demand if there is one for each of its questions, as long as nothing that was seen
is forgotten. -/
theorem exists_runs_demand
    (hd : ∀ q, d.Mentions q → ∀ seen', (∀ pair ∈ seen, pair ∈ seen') →
      ∃ answer later, I.Runs (.on q) seen' answer later) :
    ∃ answer later, I.Runs d seen answer later := by
  induction d generalizing seen with
  | settled answer => exact ⟨answer, seen, .settled⟩
  | on q => exact hd q rfl seen fun _ hpair => hpair
  | both d e ihd ihe =>
    obtain ⟨answer, between, hfirst⟩ := ihd fun q hq => hd q (.inl hq)
    cases answer with
    | false => exact ⟨false, between, .bothFails hfirst⟩
    | true =>
      have he : ∀ q, e.Mentions q → ∀ seen', (∀ pair ∈ between, pair ∈ seen') →
          ∃ answer later, I.Runs (.on q) seen' answer later := fun q hq seen' hsub =>
        hd q (.inr hq) seen' fun pair hpair => hsub pair (hfirst.subset pair hpair)
      obtain ⟨answer, later, hnext⟩ := ihe he
      exact ⟨answer, later, .bothGoesOn hfirst hnext⟩
  | either d e ihd ihe =>
    obtain ⟨answer, between, hfirst⟩ := ihd fun q hq => hd q (.inl hq)
    cases answer with
    | true => exact ⟨true, between, .eitherSucceeds hfirst⟩
    | false =>
      have he : ∀ q, e.Mentions q → ∀ seen', (∀ pair ∈ between, pair ∈ seen') →
          ∃ answer later, I.Runs (.on q) seen' answer later := fun q hq seen' hsub =>
        hd q (.inr hq) seen' fun pair hpair => hsub pair (hfirst.subset pair hpair)
      obtain ⟨answer, later, hnext⟩ := ihe he
      exact ⟨answer, later, .eitherGoesOn hfirst hnext⟩

/-- A search for a demand does what the run does if the search for each of its questions does, as long as
nothing that was seen is forgotten. -/
theorem Runs.search_eq {self : Q → Search Bool} (hr : I.Runs d seen answer later)
    (hself : ∀ q, d.Mentions q → ∀ seen', (∀ pair ∈ seen, pair ∈ seen') →
      ∀ answer' later', I.Runs (.on q) seen' answer' later' → self q seen' = (answer', later')) :
    d.search self seen = (answer, later) := by
  induction d generalizing seen answer later with
  | settled =>
    cases hr
    rfl
  | on q => exact hself q rfl seen (fun _ hpair => hpair) answer later hr
  | both d e ihd ihe =>
    rw [Demand.search, both_apply]
    cases hr with
    | bothFails hfirst =>
      rw [ihd hfirst fun q hq => hself q (.inl hq)]
      rfl
    | bothGoesOn hfirst hnext =>
      rw [ihd hfirst fun q hq => hself q (.inl hq)]
      exact ihe hnext fun q hq seen' hsub =>
        hself q (.inr hq) seen' fun pair hpair => hsub pair (hfirst.subset pair hpair)
  | either d e ihd ihe =>
    rw [Demand.search, either_apply]
    cases hr with
    | eitherSucceeds hfirst =>
      rw [ihd hfirst fun q hq => hself q (.inl hq)]
      rfl
    | eitherGoesOn hfirst hnext =>
      rw [ihd hfirst fun q hq => hself q (.inl hq)]
      exact ihe hnext fun q hq seen' hsub =>
        hself q (.inr hq) seen' fun pair hpair => hsub pair (hfirst.subset pair hpair)

/-! ### Calls -/

/-- A search only arrives at questions that it mentions. -/
theorem Arrives.mentions {seen' : Seen} (ha : I.Arrives d seen q seen') : d.Mentions q := by
  induction ha with
  | on => rfl
  | bothFirst _ ih => exact .inl ih
  | bothNext _ _ ih => exact .inr ih
  | eitherFirst _ ih => exact .inl ih
  | eitherNext _ _ ih => exact .inr ih

/-- Where a search arrives, all is seen that was seen before. -/
theorem Arrives.subset {seen' : Seen} (ha : I.Arrives d seen q seen') :
    ∀ pair ∈ seen, pair ∈ seen' := by
  induction ha with
  | on => exact fun _ hpair => hpair
  | bothFirst _ ih => exact ih
  | bothNext hd _ ih => exact fun pair hpair => ih pair (hd.subset pair hpair)
  | eitherFirst _ ih => exact ih
  | eitherNext hd _ ih => exact fun pair hpair => ih pair (hd.subset pair hpair)

/-- What is seen on the way is inside of the heap. -/
theorem Arrives.inside (hstays : I.StaysIn h) {seen' : Seen} (ha : I.Arrives d seen q seen')
    (hd : ∀ q, d.Mentions q → h.HasPair (I.pair q)) :
    ∀ pair ∈ seen', pair ∈ seen ∨ h.HasPair pair := by
  induction ha with
  | on => exact fun _ hpair => .inl hpair
  | bothFirst _ ih => exact ih fun q hq => hd q (.inl hq)
  | eitherFirst _ ih => exact ih fun q hq => hd q (.inl hq)
  | bothNext hfirst _ ih =>
    intro pair hpair
    rcases ih (fun q hq => hd q (.inr hq)) pair hpair with hpair | hpair
    · exact hfirst.inside hstays (fun q hq => hd q (.inl hq)) pair hpair
    · exact .inr hpair
  | eitherNext hfirst _ ih =>
    intro pair hpair
    rcases ih (fun q hq => hd q (.inr hq)) pair hpair with hpair | hpair
    · exact hfirst.inside hstays (fun q hq => hd q (.inl hq)) pair hpair
    · exact .inr hpair

/-- Along a call there is one more pair that was seen. -/
theorem Calls.grows {seen' : Seen} {q' : Q} (hc : I.Calls (q, seen) (q', seen')) :
    (∀ pair ∈ seen, pair ∈ seen') ∧ I.pair q ∉ seen ∧ I.pair q ∈ seen' :=
  ⟨fun pair hpair => hc.2.subset pair (List.mem_cons_of_mem _ hpair),
    fun hmem => hc.1 (.inr hmem), hc.2.subset _ List.mem_cons_self⟩

/-- A question about objects of the heap leaves fewer pairs that were not seen to what comes after it. -/
theorem card_unseen_lt (hq : h.HasPair (I.pair q)) (hnew : ¬ I.Noted seen q) {seen' : Seen}
    (hsub : ∀ pair ∈ I.pair q :: seen, pair ∈ seen') :
    (h.unseen seen').card < (h.unseen seen).card :=
  Nat.lt_of_le_of_lt (card_unseen_le hsub)
    (card_unseen_cons hq.1 hq.2 fun hmem => hnew (.inr hmem))

/-! ### Every question is answered -/

/-- Every question about objects of the heap has a run. -/
theorem exists_runs (hstays : I.StaysIn h) (hq : h.HasPair (I.pair q)) (seen : Seen) :
    ∃ answer later, I.Runs (.on q) seen answer later := by
  -- by induction on the number of pairs that were not seen
  induction hcard : (h.unseen seen).card using Nat.strong_induction_on generalizing q seen with
  | _ card ih =>
    by_cases hnoted : I.Noted seen q
    · exact ⟨true, seen, .noted hnoted⟩
    · have hdemand : ∃ answer later, I.Runs (I.demand q) (I.pair q :: seen) answer later :=
        exists_runs_demand fun q' hq' seen' hsub =>
          ih _ (hcard ▸ card_unseen_lt hq hnoted hsub) (hstays q q' hq hq') seen' rfl
      obtain ⟨answer, later, hr⟩ := hdemand
      exact ⟨answer, later, .asked hnoted hr⟩

/-- What a search would do at its bound does not matter if it may nest deeper than there are pairs that were
not seen. -/
theorem iterate_step_eq (hstays : I.StaysIn h) (stuck : Q → Search Bool) (fuel : Nat)
    (hq : h.HasPair (I.pair q)) (hroom : (h.unseen seen).card < fuel)
    (hr : I.Runs (.on q) seen answer later) : I.step^[fuel] stuck q seen = (answer, later) := by
  induction fuel generalizing q seen answer later with
  | zero => omega
  | succ fuel ih =>
    rw [Function.iterate_succ_apply', step]
    cases hr with
    | noted hnoted => rw [if_pos hnoted]
    | asked hnew hdemand =>
      rw [if_neg hnew]
      refine hdemand.search_eq fun q' hq' seen' hsub answer' later' hr' => ?_
      have hless := card_unseen_lt hq hnew hsub
      exact ih (hstays q q' hq hq') (by omega) hr'

/-- An inquiry whose questions stay about objects of the heap ends on it. -/
theorem ends (hstays : I.StaysIn h) : I.Ends h where
  runs q hq seen := by
    obtain ⟨answer, later, hr⟩ := exists_runs hstays hq seen
    exact ⟨answer, later, hr, fun _ _ hr' => hr.unique hr'⟩
  adds q hq seen answer later hr :=
    ⟨hr.subset, hr.inside hstays fun q' (hq' : q = q') => hq' ▸ hq⟩
  grows _ _ _ _ hc := hc.grows
  bounded q seen q' seen' hq hc := by
    refine ⟨hstays q q' hq hc.2.mentions, fun pair hpair => ?_⟩
    rcases hc.2.inside hstays (fun q'' hq'' => hstays q q'' hq hq'') pair hpair with hpair | hpair
    · rcases List.mem_cons.mp hpair with rfl | hpair
      · exact .inr hq
      · exact .inl hpair
    · exact .inr hpair
  wellFounded := by
    refine Subrelation.wf ?_ (measure fun call : Q × Seen => (h.unseen call.2).card).wf
    rintro next call ⟨hcall, hnew, harrives⟩
    exact card_unseen_lt hcall hnew harrives.subset
  unbounded q hq _ _ _ hr stuck fuel hroom := iterate_step_eq hstays stuck fuel hq hroom hr

end Inquiry

/-! ### The two inquiries -/

section

variable {h : Heap} {resolve : Resolver}

/-- What a member stands for is in the heap. -/
theorem Linked.has_memberType (hlinked : h.Linked resolve) {o t : ObjectRef} {name : String} {v : Value}
    (hv : (name, v) ∈ (h.object o).members.entries) (ht : h.memberType? resolve v = some t) :
    h.Has (.object t) := by
  unfold memberType? at ht
  split at ht
  · split at ht
    · obtain rfl := Option.some.inj ht
      exact hlinked.member o name _ hv
    · exact hlinked.resolved _ t ht
  · exact hlinked.resolved _ t ht

/-- What is inherited is in the heap. -/
theorem Linked.has_inherited (hlinked : h.Linked resolve) {o q : ObjectRef} {name : String}
    (hq : .object q ∈ h.inherited o name) : h.Has (.object q) := by
  obtain ⟨a, -, hmember⟩ := List.mem_filterMap.mp hq
  exact hlinked.member a name q (NameMap.mem_of_find? hmember)

/-- Members of objects of the heap are compared by objects of the heap. -/
theorem Linked.hasPair_of_members (hlinked : h.Linked resolve) {a b : ObjectRef} {c : Comparison}
    (hc : (h.membersDemand resolve (h.object a).members (h.object b).members).Mentions c) :
    h.HasPair (c.declared, c.actual) := by
  obtain ⟨name, v, w, hv, hw, hc⟩ := mentions_membersDemand hc
  have hw : (name, w) ∈ (h.object b).members.entries := NameMap.mem_of_find? hw
  rcases memberComparison?_cases hc with ⟨o, p, rfl, rfl, -, -, rfl⟩ | ⟨s, t, hs, ht, rfl⟩
  · exact ⟨hlinked.member a name o hv, hlinked.member b name p hw⟩
  · exact ⟨hlinked.has_memberType hv hs, hlinked.has_memberType hw ht⟩

/-- Comparisons on a linked heap stay in it. -/
theorem Linked.staysIn_comparing (hlinked : h.Linked resolve) : (comparing h resolve).StaysIn h := by
  rintro (⟨a, b⟩ | ⟨a, b⟩) c ⟨ha, hb⟩ hc
  · rcases mentions_kindsDemand hc with
      ⟨l, r, hkind, rfl | rfl⟩ | ⟨l, r, hkind, rfl | rfl⟩ | hc
    · exact ⟨(hlinked.sides a l r hkind).1, hb⟩
    · exact ⟨(hlinked.sides a l r hkind).2, hb⟩
    · exact ⟨ha, (hlinked.sides b l r hkind).1⟩
    · exact ⟨ha, (hlinked.sides b l r hkind).2⟩
    · rcases mentions_structureDemand hc with ⟨p, q, hp, hq, rfl⟩ | hc
      · exact ⟨hlinked.parent a p hp, hlinked.parent b q hq⟩
      · exact hlinked.hasPair_of_members hc
  · exact hlinked.hasPair_of_members hc

/-- Checks on a linked heap stay in it. -/
theorem Linked.staysIn_satisfying (hlinked : h.Linked resolve) : (satisfying h resolve).StaysIn h := by
  rintro ⟨o, required⟩ q ⟨ho, -⟩ hq
  rcases mentions_requirementDemand hq with
    ⟨l, r, hkind, rfl | rfl⟩ | ⟨name, v, t, p, hv, ht, hp, rfl⟩ | ⟨p, hp, rfl⟩
  · exact ⟨ho, (hlinked.sides required l r hkind).1⟩
  · exact ⟨ho, (hlinked.sides required l r hkind).2⟩
  · exact ⟨hlinked.has_inherited hp, hlinked.has_memberType hv ht⟩
  · exact ⟨ho, hlinked.parent required p hp⟩

/-- A step of a comparison is one of its inquiry. -/
theorem compareStep_eq_step (self : Comparison → Search Bool) :
    compareStep h resolve self = (comparing h resolve).step self := by
  funext c seen
  rw [compareStep_apply]
  simp [Inquiry.step, Inquiry.Noted, comparing]

/-- So is a step of the search for what satisfies a type. -/
theorem iterate_satisfyStep (stuck : ObjectRef → ObjectRef → Search Bool) (fuel : Nat)
    (o required : ObjectRef) :
    (satisfyStep h resolve)^[fuel] stuck o required =
      (satisfying h resolve).step^[fuel] (fun q => stuck q.1 q.2) (o, required) := by
  induction fuel generalizing o required with
  | zero => rfl
  | succ fuel ih =>
    rw [Function.iterate_succ_apply', Function.iterate_succ_apply']
    funext seen
    have hself : (fun q : Requirement => (satisfyStep h resolve)^[fuel] stuck q.1 q.2) =
        (satisfying h resolve).step^[fuel] (fun q => stuck q.1 q.2) := funext fun q => ih q.1 q.2
    rw [satisfyStep_apply, hself]
    simp [Inquiry.step, Inquiry.Noted, satisfying]

/-- The bounded comparison repeats one step. -/
theorem compareWithin_eq_iterate (fuel : Nat) :
    compareWithin h resolve fuel = (compareStep h resolve)^[fuel] fun _ => return true := by
  induction fuel with
  | zero => rfl
  | succ fuel ih =>
    rw [Function.iterate_succ_apply', ← ih]
    rfl

/-- The bounded check repeats one step. -/
theorem satisfyWithin_eq_iterate (fuel : Nat) :
    satisfyWithin h resolve fuel = (satisfyStep h resolve)^[fuel] fun _ _ => return true := by
  induction fuel with
  | zero => rfl
  | succ fuel ih =>
    rw [Function.iterate_succ_apply', ← ih]
    rfl

/-- Whether a type accepts another is the answer of the run, whatever the comparison would do at a bound. -/
theorem Linked.accepts_runs (hlinked : h.Linked resolve) {a b : ObjectRef} (hab : h.HasPair (a, b)) :
    (∃ later, (comparing h resolve).Runs (.on (.types a b)) [] (h.accepts resolve a b) later) ∧
      ∀ stuck fuel, h.pairBound ≤ fuel →
        ((compareStep h resolve)^[fuel] stuck (.types a b) []).1 = h.accepts resolve a b := by
  have hends := Inquiry.ends hlinked.staysIn_comparing
  have hstep : compareStep h resolve = (comparing h resolve).step := funext compareStep_eq_step
  obtain ⟨answer, later, hr, -⟩ := hends.runs (.types a b) hab []
  have hiterate (stuck : Comparison → Search Bool) (fuel : Nat) (hfuel : h.pairBound ≤ fuel) :
      (compareStep h resolve)^[fuel] stuck (.types a b) [] = (answer, later) := by
    rw [hstep]
    exact hends.unbounded (.types a b) hab [] answer later hr stuck fuel
      (Nat.lt_of_lt_of_le h.card_unseen_nil hfuel)
  have haccepts : h.accepts resolve a b = answer := by
    rw [accepts, compareWithin_eq_iterate, hiterate _ _ (Nat.le_refl _)]
  rw [haccepts]
  exact ⟨⟨later, hr⟩, fun stuck fuel hfuel => by rw [hiterate stuck fuel hfuel]⟩

/-- Whether an object satisfies a type is the answer of the run, whatever the search would do at a bound. -/
theorem Linked.satisfies_runs (hlinked : h.Linked resolve) {o required : ObjectRef}
    (ho : h.HasPair (o, required)) :
    (∃ later, (satisfying h resolve).Runs (.on (o, required)) [] (h.satisfies resolve o required)
      later) ∧
      ∀ stuck fuel, h.pairBound ≤ fuel →
        ((satisfyStep h resolve)^[fuel] stuck o required []).1 = h.satisfies resolve o required := by
  have hends := Inquiry.ends hlinked.staysIn_satisfying
  obtain ⟨answer, later, hr, -⟩ := hends.runs (o, required) ho []
  have hiterate (stuck : ObjectRef → ObjectRef → Search Bool) (fuel : Nat)
      (hfuel : h.pairBound ≤ fuel) :
      (satisfyStep h resolve)^[fuel] stuck o required [] = (answer, later) := by
    rw [iterate_satisfyStep]
    exact hends.unbounded _ ho [] answer later hr _ fuel
      (Nat.lt_of_lt_of_le h.card_unseen_nil hfuel)
  have hsatisfies : h.satisfies resolve o required = answer := by
    rw [satisfies, satisfyWithin_eq_iterate, hiterate _ _ (Nat.le_refl _)]
  rw [hsatisfies]
  exact ⟨⟨later, hr⟩, fun stuck fuel hfuel => by rw [hiterate stuck fuel hfuel]⟩

/-- Every loop along the parents ends, and passes no object twice. -/
theorem climbs_ends {α : Type} (test : ObjectRef → Option α) (o : ObjectRef) :
    ∃ visited, h.Climbs test [] (some o) visited ((h.lineage o).findSome? test) ∧ visited.Nodup := by
  obtain ⟨visited, hbegins, hclimbs⟩ := h.climbs_lineage test o
  exact ⟨visited, hclimbs, hbegins.sublist.nodup (h.nodup_lineage o)⟩

/-- Whether an object inherits from another one is what the loop finds. -/
theorem inheritsFrom_eq_findSome? (o ancestor : ObjectRef) :
    (if h.inheritsFrom o ancestor = true then some () else none) =
      (h.lineage o).findSome? fun p => if p = ancestor then some () else none := by
  unfold inheritsFrom
  induction h.lineage o with
  | nil => rfl
  | cons p ps ih =>
    by_cases hp : p = ancestor
    · simp [hp]
    · rw [List.findSome?_cons, if_neg hp, ← ih]
      simp [Ne.symm hp]

end

/-- **Traversals of types end.** On every heap whose links stay inside it, for every way to find the types of
values that stays inside it, the comparison of types and the search for what satisfies a type end by
themselves, and so does every comparison that such a search starts anew; the bounds that they are run with are
never met.  The loops along the parents end too. -/
theorem type_traversals_end {h : Heap} {resolve : Resolver} (hlinked : h.Linked resolve) :
    ((comparing h resolve).Ends h ∧ ∀ a b, h.HasPair (a, b) →
      (∃ later, (comparing h resolve).Runs (.on (.types a b)) [] (h.accepts resolve a b) later) ∧
      ∀ stuck fuel, h.pairBound ≤ fuel →
        ((compareStep h resolve)^[fuel] stuck (.types a b) []).1 = h.accepts resolve a b) ∧
    ((satisfying h resolve).Ends h ∧ ∀ o required, h.HasPair (o, required) →
      (∃ later, (satisfying h resolve).Runs (.on (o, required)) [] (h.satisfies resolve o required)
        later) ∧
      (∀ stuck fuel, h.pairBound ≤ fuel →
        ((satisfyStep h resolve)^[fuel] stuck o required []).1 = h.satisfies resolve o required) ∧
      ∀ name declared s v t, (name, declared) ∈ (h.object required).members.entries →
        h.memberType? resolve declared = some s → v ∈ h.inherited o name → resolve v = some t →
          ∃ later, (comparing h resolve).Runs (.on (.types s t)) [] (h.accepts resolve s t) later) ∧
    ∀ o, (∀ ancestor, ∃ visited, visited.Nodup ∧
        h.Climbs (fun p => if p = ancestor then some () else none) [] (some o) visited
          (if h.inheritsFrom o ancestor = true then some () else none)) ∧
      ∀ name accept, ∃ visited, visited.Nodup ∧
        h.Climbs (h.hit? name accept) [] (some o) visited (h.lookupWhere? o name accept) := by
  refine ⟨⟨Inquiry.ends hlinked.staysIn_comparing, fun a b hab => hlinked.accepts_runs hab⟩,
    ⟨Inquiry.ends hlinked.staysIn_satisfying, fun o required ho => ?_⟩,
    fun o => ⟨fun ancestor => ?_, fun name accept => ?_⟩⟩
  · obtain ⟨hruns, hbound⟩ := hlinked.satisfies_runs ho
    refine ⟨hruns, hbound, fun name declared s v t hdeclared hs _ ht => ?_⟩
    have hst : h.HasPair (s, t) := ⟨hlinked.has_memberType hdeclared hs, hlinked.resolved v t ht⟩
    exact (hlinked.accepts_runs hst).1
  · rw [inheritsFrom_eq_findSome?]
    obtain ⟨visited, hclimbs, hnodup⟩ := climbs_ends _ o
    exact ⟨visited, hnodup, hclimbs⟩
  · rw [lookupWhere?_eq_findSome?]
    obtain ⟨visited, hclimbs, hnodup⟩ := climbs_ends _ o
    exact ⟨visited, hnodup, hclimbs⟩

/-- Two structural types, each the parent of the other and a member of itself, their union, and an object that
is its own parent and a member of itself. -/
def knotted : Heap where
  objects := #[.type "A" (some ⟨1⟩) ⟨[("x", .object ⟨0⟩), ("y", .object ⟨3⟩)]⟩ false,
    .type "B" (some ⟨0⟩) ⟨[("x", .object ⟨2⟩)]⟩ false, .union ⟨0⟩ ⟨1⟩,
    .plain (some ⟨3⟩) ⟨[("x", .object ⟨3⟩), ("y", .int 1)]⟩]
  arrays := #[]

/-- In `knotted`, where every value has the first type, the traversals end with these answers. -/
theorem type_traversals_end_knotted :
    (knotted.Linked fun _ => some ⟨0⟩) ∧
    (∃ later, (comparing knotted fun _ => some ⟨0⟩).Runs (.on (.types ⟨0⟩ ⟨1⟩)) [] false later) ∧
    ∃ later, (satisfying knotted fun _ => some ⟨0⟩).Runs (.on (⟨3⟩, ⟨2⟩)) [] true later := by
  have hlinked : knotted.Linked fun _ => some ⟨0⟩ := by
    refine ⟨?_, ?_, ?_, ?_⟩
    · rintro ⟨_ | _ | _ | _ | _⟩ name q hq <;>
        simp [knotted, object, Object.type, Object.plain, Object.union, NameMap.empty] at hq
      · rcases hq with ⟨-, rfl⟩ | ⟨-, rfl⟩ <;> simp [Has, knotted]
      · simp [Has, knotted, hq]
      · simp [Has, knotted, hq]
    · rintro ⟨_ | _ | _ | _ | _⟩ p hp <;>
        simp [knotted, parent?, object, Object.type, Object.plain, Object.union] at hp <;>
        simp [Has, knotted, ← hp]
    · rintro ⟨_ | _ | _ | _ | _⟩ l r hkind <;>
        simp [knotted, object, Object.type, Object.plain, Object.union] at hkind
      simp [HasPair, Has, knotted, ← hkind]
    · rintro v t ht
      obtain rfl := Option.some.inj ht
      simp [Has, knotted]
  obtain ⟨⟨-, hcompare⟩, ⟨-, hsatisfy⟩, -⟩ := type_traversals_end hlinked
  have haccepts := (hcompare ⟨0⟩ ⟨1⟩ (by simp [HasPair, Has, knotted])).1
  have hsatisfies := (hsatisfy ⟨3⟩ ⟨2⟩ (by simp [HasPair, Has, knotted])).1
  exact ⟨hlinked, haccepts, hsatisfies⟩

end ProtoScript.Heap
