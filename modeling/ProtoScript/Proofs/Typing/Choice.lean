import ProtoScript.Proofs.Typing.Inquiry

/-!
# Searches that make choices

A search that tries one thing and then another keeps the pairs it met on the first attempt, also those
that it refused there.  If such a pair is met again it is taken to be settled, and a question may succeed
that should not.  This cannot happen if what is refused in an attempt never comes up a second time.

A question is granted if it is in some consistent set of questions.  What a search refuses is never
granted, so the pairs that a failed attempt leaves behind are of two kinds: granted ones, which do no harm,
and refused ones.  The main result, `Inquiry.granted_of_search`, is that success means to be granted as
long as each refused question that may be left behind is asked for by one question only, and there in one
place.

The argument follows a search along what it notes.  `Adds` says which pairs a search notes, whether it
succeeds or not: those its demand mentions, and those asked for by what was noted on the way.  Hence a
refused question that is noted has its only asker noted before it (`Upheld`), and is new where a search
comes to it (`Ready.fresh`).  `Backs` says what success adds to that: the questions found by the way have
their demands met by each other, by granted questions, and by pairs that were there at the beginning.
-/

namespace ProtoScript.Heap

namespace Demand

variable {Q : Type}

/-- The questions that are tried before something else is: they are mentioned by the first of two
alternatives, and the second one is not refused in any case. -/
def Tried : Demand Q → Q → Prop
  | settled _, _ => False
  | on _, _ => False
  | both p q, x => p.Tried x ∨ q.Tried x
  | either p q, x => (p.Mentions x ∧ q ≠ settled false) ∨ p.Tried x ∨ q.Tried x

/-- Whether a demand mentions a question in one place at most. -/
def Once : Demand Q → Q → Prop
  | settled _, _ => True
  | on _, _ => True
  | both p q, x => ¬ (p.Mentions x ∧ q.Mentions x) ∧ p.Once x ∧ q.Once x
  | either p q, x => ¬ (p.Mentions x ∧ q.Mentions x) ∧ p.Once x ∧ q.Once x

/-- What is tried is mentioned. -/
theorem Tried.mentions {d : Demand Q} {x : Q} (hx : d.Tried x) : d.Mentions x := by
  induction d with
  | settled answer => exact hx
  | on q => exact hx.elim
  | both p q hp hq => exact hx.imp hp hq
  | either p q hp hq =>
    rcases hx with ⟨hmention, -⟩ | hx
    · exact .inl hmention
    · exact hx.imp hp hq

end Demand

namespace Inquiry

variable {Q : Type}

/-- Whether a question asks for another one. -/
def Asks (I : Inquiry Q) (q x : Q) : Prop :=
  (I.demand q).Mentions x

/-- Whether a question comes up, sooner or later, in the search for another one. -/
def Arises (I : Inquiry Q) : Q → Q → Prop :=
  Relation.ReflTransGen I.Asks

/-- A question is granted if it is in a consistent set. -/
def Granted (I : Inquiry Q) (q : Q) : Prop :=
  ∃ S, S q ∧ I.Consistent S

/-- A question is at stake if it may come up in an attempt after which another one can be made. -/
def AtStake (I : Inquiry Q) (root x : Q) : Prop :=
  ∃ y z, I.Arises root y ∧ (I.demand y).Tried z ∧ I.Arises z x

/-- Questions at stake that are not granted. -/
def Refused (I : Inquiry Q) (root x : Q) : Prop :=
  I.AtStake root x ∧ ¬ I.Granted x

/-- Whether a question comes up in one place only. -/
structure ComesUpOnce (I : Inquiry Q) (root x : Q) : Prop where
  notRoot : x ≠ root
  once : ∀ y, I.Arises root y → (I.demand y).Once x
  unique : ∀ y y', I.Arises root y → I.Arises root y' → I.Asks y x → I.Asks y' x → y = y'

variable {I : Inquiry Q} {h : Heap} {root : Q}

/-! ### Granted questions -/

/-- The granted questions are a consistent set, the largest one. -/
theorem consistent_granted : I.Consistent I.Granted := by
  rintro q ⟨S, hq, hS⟩
  exact (hS q hq).imp_right fun hholds => hholds.mono fun q' hq' => ⟨S, hq', hS⟩

/-- Questions whose demands are met by themselves and by granted questions are granted. -/
theorem granted_of_backed {X : Q → Prop}
    (hX : ∀ q, X q → (I.demand q).Holds fun q' => I.Granted q' ∨ X q') {q : Q} (hq : X q) :
    I.Granted q := by
  refine ⟨fun q' => I.Granted q' ∨ X q', .inr hq, ?_⟩
  rintro q' (hgranted | hq')
  · exact (consistent_granted q' hgranted).imp_right fun hholds => hholds.mono fun _ => .inl
  · exact .inr (hX q' hq')

/-- An obvious question is granted. -/
theorem granted_of_obvious {q : Q} (hq : I.obvious q = true) : I.Granted q :=
  ⟨fun q' => I.obvious q' = true, hq, fun _ hq' => .inl hq'⟩

/-! ### What a search notes -/

/-- Pairs noted by the end of a search for some of the questions of a set, whether it succeeds or not: a
pair that is new stands for a question that arises from one of the set, and that is itself one of them or
is asked for by another one that is new. -/
structure Adds (I : Inquiry Q) (root : Q) (M : Q → Prop) (seen later : Seen) : Prop where
  subset : ∀ pair ∈ seen, pair ∈ later
  new : ∀ pair ∈ later, pair ∉ seen → ∃ x, I.pair x = pair ∧ (∃ z, M z ∧ I.Arises z x) ∧
    (M x ∨ ∃ y, I.Arises root y ∧ I.Asks y x ∧ I.pair y ∈ later ∧ I.pair y ∉ seen)

theorem Adds.refl {M : Q → Prop} (seen : Seen) : I.Adds root M seen seen :=
  ⟨fun _ hpair => hpair, fun _ hpair hnew => absurd hpair hnew⟩

/-- The set of questions that are searched for may be larger. -/
theorem Adds.mono {M N : Q → Prop} (hMN : ∀ x, M x → N x) {seen later : Seen}
    (ha : I.Adds root M seen later) : I.Adds root N seen later := by
  refine ⟨ha.subset, fun pair hpair hnew => ?_⟩
  obtain ⟨x, hx, ⟨z, hz, harises⟩, hwhence⟩ := ha.new pair hpair hnew
  exact ⟨x, hx, ⟨z, hMN z hz, harises⟩, hwhence.imp_left (hMN x)⟩

/-- What two searches add, one after the other. -/
theorem Adds.trans {M : Q → Prop} {seen between later : Seen} (hfirst : I.Adds root M seen between)
    (hthen : I.Adds root M between later) : I.Adds root M seen later := by
  refine ⟨fun pair hpair => hthen.subset _ (hfirst.subset _ hpair), fun pair hpair hnew => ?_⟩
  by_cases hbetween : pair ∈ between
  · obtain ⟨x, hx, harises, hwhence⟩ := hfirst.new pair hbetween hnew
    refine ⟨x, hx, harises, hwhence.imp_right ?_⟩
    rintro ⟨y, hy, hasks, hlater, hseen⟩
    exact ⟨y, hy, hasks, hthen.subset _ hlater, hseen⟩
  · obtain ⟨x, hx, harises, hwhence⟩ := hthen.new pair hpair hbetween
    refine ⟨x, hx, harises, hwhence.imp_right ?_⟩
    rintro ⟨y, hy, hasks, hlater, hnot⟩
    exact ⟨y, hy, hasks, hlater, fun hseen => hnot (hfirst.subset _ hseen)⟩

/-- The search for what is demanded adds what its questions add. -/
theorem adds_search {self : Q → Search Bool} {d : Demand Q}
    (hself : ∀ q, d.Mentions q → ∀ seen, I.Adds root (· = q) seen (self q seen).2) (seen : Seen) :
    I.Adds root d.Mentions seen (d.search self seen).2 := by
  induction d generalizing seen with
  | settled answer => exact .refl seen
  | on q => exact (hself q rfl seen).mono fun x hx => hx.symm
  | both p q hp hq =>
    have hfirst := (hp (fun c hc => hself c (.inl hc)) seen).mono
      (N := (Demand.both p q).Mentions) fun _ => .inl
    rw [Demand.search, both_apply]
    split
    · exact hfirst.trans ((hq (fun c hc => hself c (.inr hc)) _).mono fun _ => .inr)
    · exact hfirst
  | either p q hp hq =>
    have hfirst := (hp (fun c hc => hself c (.inl hc)) seen).mono
      (N := (Demand.either p q).Mentions) fun _ => .inl
    rw [Demand.search, either_apply]
    split
    · exact hfirst
    · exact hfirst.trans ((hq (fun c hc => hself c (.inr hc)) _).mono fun _ => .inr)

/-- A search adds what comes up in it. -/
theorem adds (fuel : Nat) {q : Q} (hq : I.Arises root q) (seen : Seen) :
    I.Adds root (· = q) seen (I.search fuel q seen).2 := by
  induction fuel generalizing q seen with
  | zero => exact .refl seen
  | succ fuel ih =>
    unfold search
    by_cases hnoted : I.Noted seen q
    · rw [if_pos hnoted]
      exact .refl seen
    rw [if_neg hnoted]
    have hnew : I.pair q ∉ seen := (not_or.mp hnoted).2
    have hinner : I.Adds root (I.demand q).Mentions (I.pair q :: seen)
        ((I.demand q).search (I.search fuel) (I.pair q :: seen)).2 :=
      adds_search (fun q' hq' => ih (hq.tail hq')) _
    set later := ((I.demand q).search (I.search fuel) (I.pair q :: seen)).2
    have hpair : I.pair q ∈ later := hinner.subset _ List.mem_cons_self
    refine ⟨fun pair hpair => hinner.subset _ (List.mem_cons_of_mem _ hpair), ?_⟩
    intro pair hlater hnot
    by_cases heq : pair = I.pair q
    · exact ⟨q, heq.symm, ⟨q, rfl, .refl⟩, .inl rfl⟩
    obtain ⟨x, hx, ⟨z, hz, harises⟩, hwhence⟩ := hinner.new pair hlater
      (List.not_mem_cons_of_ne_of_not_mem heq hnot)
    refine ⟨x, hx, ⟨q, rfl, harises.head hz⟩, .inr ?_⟩
    rcases hwhence with hmention | ⟨y, hy, hasks, hyLater, hyNew⟩
    · exact ⟨q, hq, hmention, hpair, hnew⟩
    · exact ⟨y, hy, hasks, hyLater, fun hmem => hyNew (List.mem_cons_of_mem _ hmem)⟩

/-! ### Refused questions come up once -/

/-- Whoever asks for a refused question that was noted was noted as well. -/
def Upheld (I : Inquiry Q) (root : Q) (seen : Seen) : Prop :=
  ∀ x y, I.Refused root x → I.pair x ∈ seen → I.Arises root y → I.Asks y x → I.pair y ∈ seen

/-- The search for a part of what a question demands can begin. -/
structure Ready (I : Inquiry Q) (root asker : Q) (d : Demand Q) (seen : Seen) : Prop where
  arises : I.Arises root asker
  noted : I.pair asker ∈ seen
  asks : ∀ x, d.Mentions x → I.Asks asker x
  tried : ∀ x, d.Tried x → (I.demand asker).Tried x
  once : ∀ x, I.Refused root x → d.Once x
  fresh : ∀ x, I.Refused root x → d.Mentions x → I.pair x ∉ seen
  upheld : I.Upheld root seen

/-- A question whose search stays inside of the heap, and from which whatever is refused comes up once. -/
structure Orderly (I : Inquiry Q) (h : Heap) (root : Q) : Prop where
  enclosed : I.Enclosed h (I.Arises root)
  once : ∀ x, I.Refused root x → I.ComesUpOnce root x

/-- A refused question comes up. -/
theorem Refused.arises {x : Q} (hx : I.Refused root x) : I.Arises root x := by
  obtain ⟨⟨y, z, hy, hz, hx⟩, -⟩ := hx
  exact (hy.tail hz.mentions).trans hx

/-- A question that comes up is known by its pair. -/
theorem Orderly.eq_of_pair (ho : I.Orderly h root) {x y : Q} (hx : I.Arises root x)
    (hy : I.Arises root y) (hpair : I.pair x = I.pair y) : x = y :=
  ho.enclosed.known x y hx hy hpair

section

variable {asker : Q} {p q : Demand Q} {d : Demand Q} {seen later : Seen}

/-- Where the search for one of two parts can begin, the search for both can. -/
theorem Ready.both (hr : I.Ready root asker (.either p q) seen) :
    I.Ready root asker (.both p q) seen where
  arises := hr.arises
  noted := hr.noted
  asks := hr.asks
  tried x hx := hr.tried x (.inr hx)
  once := hr.once
  fresh := hr.fresh
  upheld := hr.upheld

/-- Where the search for both parts can begin, the search for the first can. -/
theorem Ready.left (hr : I.Ready root asker (.both p q) seen) : I.Ready root asker p seen where
  arises := hr.arises
  noted := hr.noted
  asks x hx := hr.asks x (.inl hx)
  tried x hx := hr.tried x (.inl hx)
  once x hx := (hr.once x hx).2.1
  fresh x hx hmention := hr.fresh x hx (.inl hmention)
  upheld := hr.upheld

/-- A refused question that a search notes is mentioned by its demand, or its only asker is new. -/
theorem Ready.whence (ho : I.Orderly h root) (hr : I.Ready root asker d seen)
    (ha : I.Adds root d.Mentions seen later) {x : Q} (hx : I.Refused root x) (hlater : I.pair x ∈ later)
    (hnew : I.pair x ∉ seen) :
    d.Mentions x ∨ ∃ y, I.Arises root y ∧ I.Asks y x ∧ I.pair y ∈ later ∧ I.pair y ∉ seen := by
  obtain ⟨x', hpair, ⟨z, hz, harises⟩, hwhence⟩ := ha.new _ hlater hnew
  have hx' : I.Arises root x' := (hr.arises.tail (hr.asks z hz)).trans harises
  obtain rfl : x' = x := ho.eq_of_pair hx' hx.arises hpair
  exact hwhence

/-- Askers of refused questions are noted after the search as well. -/
theorem Ready.upheld_later (ho : I.Orderly h root) (hr : I.Ready root asker d seen)
    (ha : I.Adds root d.Mentions seen later) : I.Upheld root later := by
  intro x y hx hlater hy hasks
  by_cases hseen : I.pair x ∈ seen
  · exact ha.subset _ (hr.upheld x y hx hseen hy hasks)
  rcases hr.whence ho ha hx hlater hseen with hmention | ⟨y', hy', hasks', hlater', -⟩
  · obtain rfl := (ho.once x hx).unique asker y hr.arises hy (hr.asks x hmention) hasks
    exact ha.subset _ hr.noted
  · obtain rfl := (ho.once x hx).unique y' y hy' hy hasks' hasks
    exact hlater'

/-- After the first of two parts, whatever came of it, the second one can begin. -/
theorem Ready.right (ho : I.Orderly h root) (hr : I.Ready root asker (.both p q) seen)
    (ha : I.Adds root p.Mentions seen later) : I.Ready root asker q later where
  arises := hr.arises
  noted := ha.subset _ hr.noted
  asks x hx := hr.asks x (.inr hx)
  tried x hx := hr.tried x (.inr hx)
  once x hx := (hr.once x hx).2.2
  fresh := by
    intro x hx hmention hlater
    have hnew : I.pair x ∉ seen := hr.fresh x hx (.inr hmention)
    rcases hr.left.whence ho ha hx hlater hnew with hfirst | ⟨y, hy, hasks, -, hyNew⟩
    · exact (hr.once x hx).1 ⟨hfirst, hmention⟩
    · obtain rfl := (ho.once x hx).unique y asker hy hr.arises hasks (hr.asks x (.inr hmention))
      exact hyNew hr.noted
  upheld := hr.left.upheld_later ho ha

/-- Where a question is new, the search for what it demands can begin once it is noted. -/
theorem Ready.ask {x : Q} (ho : I.Orderly h root) (hr : I.Ready root asker (.on x) seen)
    (hnew : I.pair x ∉ seen) : I.Ready root x (I.demand x) (I.pair x :: seen) := by
  have hasked : I.Asks asker x := hr.asks x rfl
  have hx : I.Arises root x := hr.arises.tail hasked
  -- only the asker asks for it, if it is refused
  have hasker (hrefused : I.Refused root x) (y : Q) (hy : I.Arises root y) (hasks : I.Asks y x) :
      y = asker := (ho.once x hrefused).unique y asker hy hr.arises hasks hasked
  refine ⟨hx, List.mem_cons_self, fun _ hy => hy, fun _ hy => hy, ?_, ?_, ?_⟩
  · exact fun y hy => (ho.once y hy).once x hx
  · intro y hy hmention hmem
    rcases List.mem_cons.mp hmem with hpair | hseen
    · obtain rfl : y = x := ho.eq_of_pair hy.arises hx hpair
      obtain rfl : y = asker := hasker hy y hx hmention
      exact hnew hr.noted
    · exact hnew (hr.upheld y x hy hseen hx hmention)
  · intro y z hy hmem hz hasks
    rcases List.mem_cons.mp hmem with hpair | hseen
    · obtain rfl : y = x := ho.eq_of_pair hy.arises hx hpair
      obtain rfl : z = asker := hasker hy z hz hasks
      exact List.mem_cons_of_mem _ hr.noted
    · exact List.mem_cons_of_mem _ (hr.upheld y z hy hseen hz hasks)

/-- The search for what the first question demands can begin. -/
theorem ready_root (ho : I.Orderly h root) : I.Ready root root (I.demand root) [I.pair root] := by
  have hroot {x : Q} (hx : I.Refused root x) (hmem : I.pair x ∈ [I.pair root]) : False :=
    (ho.once x hx).notRoot (ho.eq_of_pair hx.arises .refl (List.mem_singleton.mp hmem))
  refine ⟨.refl, List.mem_singleton_self _, fun _ hx => hx, fun _ hx => hx, ?_, ?_, ?_⟩
  · exact fun x hx => (ho.once x hx).once root .refl
  · exact fun x hx _ hmem => hroot hx hmem
  · exact fun x y hx hmem => (hroot hx hmem).elim

end

/-! ### What success means -/

/-- A question that is granted, or was noted without being refused, or is in a set. -/
def Sound (I : Inquiry Q) (root : Q) (seen : Seen) (X : Q → Prop) (q : Q) : Prop :=
  I.Granted q ∨ (I.Arises root q ∧ I.pair q ∈ seen ∧ ¬ I.Refused root q) ∨ X q

/-- Pairs noted by the end of a search, of which those in the set have their demands met. -/
structure Backs (I : Inquiry Q) (root : Q) (X : Q → Prop) (seen later : Seen) : Prop where
  new : ∀ pair ∈ later, pair ∉ seen → ∃ q, I.Arises root q ∧ I.pair q = pair ∧
    (X q ∨ I.Granted q ∨ I.Refused root q)
  backed : ∀ q, X q → (I.demand q).Holds (I.Sound root seen X)

section

variable {X Y : Q → Prop} {seen between later : Seen}

theorem Sound.mono (hXY : ∀ q, X q → Y q) (q : Q) (hq : I.Sound root seen X q) :
    I.Sound root seen Y q :=
  hq.imp_right fun hq => hq.imp_right (hXY q)

/-- What was noted in between is granted or backed, unless it was there before. -/
theorem Backs.sound (ho : I.Orderly h root) (hb : I.Backs root X seen between) (q : Q)
    (hq : I.Sound root between Y q) : I.Sound root seen (fun q => X q ∨ Y q) q := by
  rcases hq with hgranted | ⟨hq, hmem, hrefused⟩ | hY
  · exact .inl hgranted
  · by_cases hseen : I.pair q ∈ seen
    · exact .inr (.inl ⟨hq, hseen, hrefused⟩)
    obtain ⟨q', hq', hpair, hkind⟩ := hb.new _ hmem hseen
    obtain rfl : q' = q := ho.eq_of_pair hq' hq hpair
    rcases hkind with hX | hgranted | hrefused'
    · exact .inr (.inr (.inl hX))
    · exact .inl hgranted
    · exact absurd hrefused' hrefused
  · exact .inr (.inr (.inr hY))

/-- What two searches back, one after the other. -/
theorem Backs.trans (ho : I.Orderly h root) (hfirst : I.Backs root X seen between)
    (hthen : I.Backs root Y between later) : I.Backs root (fun q => X q ∨ Y q) seen later := by
  constructor
  · intro pair hlater hnew
    by_cases hbetween : pair ∈ between
    · obtain ⟨q, hq, hpair, hkind⟩ := hfirst.new pair hbetween hnew
      exact ⟨q, hq, hpair, hkind.imp_left .inl⟩
    · obtain ⟨q, hq, hpair, hkind⟩ := hthen.new pair hlater hbetween
      exact ⟨q, hq, hpair, hkind.imp_left .inr⟩
  · rintro q (hX | hY)
    · exact (hfirst.backed q hX).mono (Sound.mono fun _ => .inl)
    · exact (hthen.backed q hY).mono (hfirst.sound ho)

theorem Backs.refl (seen : Seen) : I.Backs root (fun _ => False) seen seen :=
  ⟨fun _ hpair hnew => absurd hpair hnew, nofun⟩

/-- After an attempt that failed, what is new is granted or refused. -/
theorem Ready.backs_of_attempt {asker : Q} {p q : Demand Q}
    (hr : I.Ready root asker (.either p q) seen) (hq : q ≠ .settled false)
    (ha : I.Adds root p.Mentions seen later) : I.Backs root (fun _ => False) seen later := by
  refine ⟨fun pair hlater hnew => ?_, nofun⟩
  obtain ⟨x, hpair, ⟨z, hz, harises⟩, -⟩ := ha.new pair hlater hnew
  have hstake : I.AtStake root x := ⟨asker, z, hr.arises, hr.tried z (.inl ⟨hz, hq⟩), harises⟩
  have hx : I.Arises root x := (hr.arises.tail (hr.asks z (.inl hz))).trans harises
  by_cases hgranted : I.Granted x
  · exact ⟨x, hx, hpair, .inr (.inl hgranted)⟩
  · exact ⟨x, hx, hpair, .inr (.inr ⟨hstake, hgranted⟩)⟩

/-- A search that succeeds backs what it notes, if its questions do. -/
theorem backs_search (ho : I.Orderly h root) {self : Q → Search Bool} {asker : Q} (room : Nat)
    {d : Demand Q} (hadds : ∀ q, d.Mentions q → ∀ seen, I.Adds root (· = q) seen (self q seen).2)
    (hself : ∀ q, d.Mentions q → ∀ seen, (h.unseen seen).card < room →
      I.Ready root asker (.on q) seen → (self q seen).1 = true →
      ∃ X, I.Backs root X seen (self q seen).2 ∧ I.Sound root seen X q)
    {seen : Seen} (hroom : (h.unseen seen).card < room) (hready : I.Ready root asker d seen)
    (hok : (d.search self seen).1 = true) :
    ∃ X, I.Backs root X seen (d.search self seen).2 ∧ d.Holds (I.Sound root seen X) := by
  induction d generalizing seen with
  | settled answer => exact ⟨_, .refl seen, hok⟩
  | on q => exact hself q rfl seen hroom hready hok
  | both p q hp hq =>
    have hfirst := adds_search (fun c hc => hadds c (.inl hc)) seen
    rw [Demand.search, both_apply] at hok ⊢
    split at hok
    · rename_i hokFirst
      rw [if_pos hokFirst]
      obtain ⟨X, hX, hholds⟩ := hp (fun c hc => hadds c (.inl hc)) (fun c hc => hself c (.inl hc)) hroom
        hready.left hokFirst
      have hroom' := Nat.lt_of_le_of_lt (card_unseen_le hfirst.subset) hroom
      obtain ⟨Y, hY, hholds'⟩ := hq (fun c hc => hadds c (.inr hc)) (fun c hc => hself c (.inr hc)) hroom'
        (hready.right ho hfirst) hok
      refine ⟨_, hX.trans ho hY, ?_, ?_⟩
      · exact hholds.mono (Sound.mono fun _ => .inl)
      · exact hholds'.mono (hX.sound ho)
    · cases hok
  | either p q hp hq =>
    have hfirst := adds_search (fun c hc => hadds c (.inl hc)) seen
    rw [Demand.search, either_apply] at hok ⊢
    by_cases hokFirst : (p.search self seen).1 = true
    · rw [if_pos hokFirst]
      obtain ⟨X, hX, hholds⟩ := hp (fun c hc => hadds c (.inl hc)) (fun c hc => hself c (.inl hc)) hroom
        hready.both.left hokFirst
      exact ⟨X, hX, .inl hholds⟩
    · -- the first attempt failed; what it leaves behind is granted or will not come up again
      rw [if_neg hokFirst] at hok ⊢
      have hne : q ≠ .settled false := by
        rintro rfl
        cases hok
      have hX := hready.backs_of_attempt hne hfirst
      have hroom' := Nat.lt_of_le_of_lt (card_unseen_le hfirst.subset) hroom
      obtain ⟨Y, hY, hholds⟩ := hq (fun c hc => hadds c (.inr hc)) (fun c hc => hself c (.inr hc)) hroom'
        (hready.both.right ho hfirst) hok
      exact ⟨_, hX.trans ho hY, .inr (hholds.mono (hX.sound ho))⟩

/-- What a question demands is searched for with enough room left. -/
theorem backs_demand (ho : I.Orderly h root) (fuel : Nat) {q : Q} {seen : Seen}
    (hroom : (h.unseen seen).card < fuel + 1) (hnew : I.pair q ∉ seen)
    (hready : I.Ready root q (I.demand q) (I.pair q :: seen))
    (hself : ∀ x, I.Asks q x → ∀ seen, (h.unseen seen).card < fuel →
      I.Ready root q (.on x) seen → (I.search fuel x seen).1 = true →
      ∃ X, I.Backs root X seen (I.search fuel x seen).2 ∧ I.Sound root seen X x)
    (hok : ((I.demand q).search (I.search fuel) (I.pair q :: seen)).1 = true) :
    ∃ X, I.Backs root X (I.pair q :: seen) ((I.demand q).search (I.search fuel) (I.pair q :: seen)).2 ∧
      (I.demand q).Holds (I.Sound root (I.pair q :: seen) X) := by
  have hadds (x : Q) (hx : I.Asks q x) (seen : Seen) :
      I.Adds root (· = x) seen (I.search fuel x seen).2 := adds fuel (hready.arises.tail hx) seen
  -- A demand that mentions nothing leaves room however little fuel there is.
  by_cases hany : ∃ x, I.Asks q x
  · obtain ⟨x, hx⟩ := hany
    obtain ⟨ha, hb⟩ := ho.enclosed.inside q x hready.arises hx
    have hless : (h.unseen (I.pair q :: seen)).card < (h.unseen seen).card :=
      card_unseen_cons ha hb hnew
    exact backs_search ho fuel hadds hself (by omega) hready hok
  · exact backs_search ho ((h.unseen (I.pair q :: seen)).card + 1) hadds
      (fun x hx => absurd ⟨x, hx⟩ hany) (Nat.lt_succ_self _) hready hok

/-- A question that succeeds is backed by what was noted on the way.  The induction is on how deep the
search may nest, which the pairs that were not seen keep below. -/
theorem backs (ho : I.Orderly h root) (fuel : Nat) {asker x : Q} {seen : Seen}
    (hroom : (h.unseen seen).card < fuel) (hready : I.Ready root asker (.on x) seen)
    (hok : (I.search fuel x seen).1 = true) :
    ∃ X, I.Backs root X seen (I.search fuel x seen).2 ∧ I.Sound root seen X x := by
  induction fuel generalizing asker x seen with
  | zero => exact absurd hroom (Nat.not_lt_zero _)
  | succ fuel ih =>
    have hx : I.Arises root x := hready.arises.tail (hready.asks x rfl)
    unfold search at hok ⊢
    by_cases hnoted : I.Noted seen x
    · rw [if_pos hnoted]
      refine ⟨_, .refl seen, ?_⟩
      rcases hnoted with hobvious | hseen
      · exact .inl (granted_of_obvious hobvious)
      · exact .inr (.inl ⟨hx, hseen, fun hrefused => hready.fresh x hrefused rfl hseen⟩)
    rw [if_neg hnoted] at hok ⊢
    have hnew : I.pair x ∉ seen := (not_or.mp hnoted).2
    obtain ⟨X, hX, hholds⟩ := backs_demand ho fuel hroom hnew (hready.ask ho hnew)
      (fun y _ seen hroom hready hok => ih hroom hready hok) hok
    -- with the question itself added to the set, its pair need not be there at the beginning
    have hstart (y : Q) (hy : I.Sound root (I.pair x :: seen) X y) :
        I.Sound root seen (fun y => X y ∨ y = x) y := by
      rcases hy with hgranted | ⟨hy, hmem, hrefused⟩ | hX
      · exact .inl hgranted
      · rcases List.mem_cons.mp hmem with hpair | hseen
        · exact .inr (.inr (.inr (ho.eq_of_pair hy hx hpair)))
        · exact .inr (.inl ⟨hy, hseen, hrefused⟩)
      · exact .inr (.inr (.inl hX))
    refine ⟨fun y => X y ∨ y = x, ⟨?_, ?_⟩, .inr (.inr (.inr rfl))⟩
    · intro pair hlater hpair
      by_cases heq : pair = I.pair x
      · exact ⟨x, hx, heq.symm, .inl (.inr rfl)⟩
      obtain ⟨y, hy, hpair, hkind⟩ := hX.new pair hlater
        (List.not_mem_cons_of_ne_of_not_mem heq hpair)
      exact ⟨y, hy, hpair, hkind.imp_left .inl⟩
    · rintro y (hy | rfl)
      · exact (hX.backed y hy).mono hstart
      · exact hholds.mono hstart

/-- **A search that makes choices.** If whatever is refused in an attempt comes up once, a question
that succeeds is granted. -/
theorem granted_of_search (ho : I.Orderly h root) (hok : (I.search h.pairBound root []).1 = true) :
    I.Granted root := by
  have hbound := h.card_unseen_nil
  obtain ⟨fuel, hfuel⟩ := Nat.exists_eq_succ_of_ne_zero (Nat.ne_zero_of_lt hbound)
  rw [hfuel] at hok hbound
  unfold search at hok
  by_cases hnoted : I.Noted [] root
  · rcases hnoted with hobvious | hmem
    · exact granted_of_obvious hobvious
    · cases hmem
  rw [if_neg hnoted] at hok
  obtain ⟨X, hX, hholds⟩ := backs_demand ho fuel hbound List.not_mem_nil (ready_root ho)
    (fun y _ seen hroom hready hok => backs ho fuel hroom hready hok) hok
  -- the only pair at the beginning is that of the question itself
  have hstart (y : Q) (hy : I.Sound root [I.pair root] X y) :
      I.Granted y ∨ X y ∨ y = root := by
    rcases hy with hgranted | ⟨hy, hmem, -⟩ | hX
    · exact .inl hgranted
    · exact .inr (.inr (ho.eq_of_pair hy .refl (List.mem_singleton.mp hmem)))
    · exact .inr (.inl hX)
  refine granted_of_backed (X := fun y => X y ∨ y = root) ?_ (.inr rfl)
  rintro y (hy | rfl)
  · exact (hX.backed y hy).mono hstart
  · exact hholds.mono hstart

end

end Inquiry

end ProtoScript.Heap
