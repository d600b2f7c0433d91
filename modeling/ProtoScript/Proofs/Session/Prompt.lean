import Mathlib.Logic.Relation
import ProtoScript.Console
import ProtoScript.Proofs.Evaluation.Contained
import ProtoScript.Proofs.Session.Bindings

/-!
# The prompt between inputs

A prompt runs an input statement by statement and then asks its value for a text, outside of any
statement.  So what the text is made by has to put the machine back itself.  Procedures without types do,
and whatever ends with a text does too; for these, every input starts in the root scope and without
operands, and what one input declares is visible to all later ones.

A macro need not put the machine back.  Where a value cannot be shown because the expansion of its
`to_str` fails inside a block, the next input is run in the scope of that block, and the names that it
declares are lost with the next error; where the expansion returns, a value stays on top of the operands.
Even then the names of the root scope are bound as before, and are found from wherever the machine is.
-/

namespace ProtoScript

namespace Eval

/-! ## Reading a program -/

/-- A computation that asks the host and changes nothing else; it may have to wait, but raises no error
and returns nothing. -/
def OnlyAsks {α : Type} (x : Eval α) : Prop :=
  ∀ m, (∃ a host, x m = .ok a { m with host }) ∨ ∃ e m', x m = .error e m' ∧
    (∀ d, e ≠ .raised d) ∧ ∀ pos, e ≠ .returned pos

theorem OnlyAsks.pure {α : Type} (a : α) : OnlyAsks (Pure.pure a : Eval α) :=
  fun m => .inl ⟨a, m.host, rfl⟩

/-- Being cut off asks for nothing. -/
theorem OnlyAsks.exhausted {α : Type} : OnlyAsks (throw .exhausted : Eval α) :=
  fun m => .inr ⟨.exhausted, m, rfl, nofun, nofun⟩

/-- One computation after the other only asks if both do. -/
theorem OnlyAsks.bind {α β : Type} {x : Eval α} {f : α → Eval β} (hx : OnlyAsks x)
    (hf : ∀ a, OnlyAsks (f a)) : OnlyAsks (x >>= f) := by
  intro m
  rcases hx m with ⟨a, host, hok⟩ | ⟨e, m', herror, hno⟩
  · rw [bind_of_ok hok]
    exact hf a { m with host }
  · rw [bind_of_error herror]
    exact .inr ⟨e, m', rfl, hno⟩

/-- Asking the host is all that it does. -/
theorem OnlyAsks.ask (q : Query) : OnlyAsks (Eval.ask q) := by
  intro m
  rw [ask_apply]
  cases m.host.answer? q with
  | none => exact .inr ⟨.awaiting q, m, rfl, nofun, nofun⟩
  | some entry => exact .inl ⟨entry.1, entry.2, rfl⟩

/-- Gathering the texts of imports only asks for them. -/
theorem OnlyAsks.gather (fuel : Nat) (paths : List String)
    (known : List (String × Except FileError String)) : OnlyAsks (Eval.gather fuel paths known) := by
  induction fuel generalizing paths known with
  | zero => exact .exhausted
  | succ fuel ih =>
    cases paths with
    | nil => exact .pure known
    | cons path paths =>
      unfold Eval.gather
      split
      · exact ih paths known
      · refine (ask _).bind fun answer => ?_
        split
        · exact ih _ _
        · exact ih _ _
        · exact ih _ _

/-- Reading a text only asks for the texts of its imports. -/
theorem OnlyAsks.readText (fuel : Nat) (file : String) (imports : List String) (source : String) :
    OnlyAsks (Eval.readText fuel file imports source) := by
  have hlibrary : OnlyAsks (Eval.library fuel (imports ++ importedPaths (scan source))) := by
    intro m
    unfold Eval.library
    rw [get_bind]
    cases m.host.world with
    | simulated s => exact OnlyAsks.pure s.files.library m
    | replayed answers => exact OnlyAsks.bind (gather fuel _ []) (fun _ => .pure _) m
  exact hlibrary.bind fun _ => .pure _

end Eval

namespace Session

/-! ## Showing a value -/

/-- A value that puts the machine back however it is shown: its box can be made, and if that has a
member `to_str`, it is a contained function. -/
def Spares (n : Nat) (v : Value) (m : Machine) : Prop :=
  ∃ o m₁, Eval.box (Eval.run n) v .outside m = .ok o m₁ ∧
    ∀ f, m₁.heap.lookup? o "to_str" = some f → m₁.heap.Contained f

/-- The text of a value is found out by sending it `to_str`; nothing else can go wrong. -/
theorem send_of_stringify_error {self : Work → Eval Value} {v : Value} {pos : Position}
    {m m' : Machine} {e : Interruption} (h : Eval.stringify self v pos m = .error e m') :
    Eval.send self v "to_str" [] pos m = .error e m' := by
  unfold Eval.stringify at h
  rw [Eval.bind_apply] at h
  cases hsend : Eval.send self v "to_str" [] pos m with
  | error e' m₁ =>
    rw [hsend] at h
    cases h
    rfl
  | ok w m₁ =>
    rw [hsend] at h
    have hw : Eval.unwrap w m₁ = .ok (m₁.heap.unwrap w) m₁ := rfl
    dsimp only at h
    rw [Eval.bind_of_ok hw] at h
    cases hunwrap : m₁.heap.unwrap w <;> rw [hunwrap] at h <;> cases h

/-- A value that was shown, or that puts the machine back in any case, leaves the scope and the operands
as they were. -/
theorem unmoved_of_shown {n : Nat} {v : Value} {m m' : Machine} {r : Option String} (hm : m.Sound)
    (hspares : r = none → Spares n v m) (h : shown? n v m = .ok r m') :
    m'.current = m.current ∧ m'.operands = m.operands := by
  obtain ⟨outcome, m₁, hx, hr⟩ := exists_of_bind h
  have hend := (Eval.Kept.stringify (Eval.run_trusted n) v .outside m hm).ending
  have hfailed (hnone : r = none) :
      Eval.CallEnding m.operands m (Eval.send (Eval.run n) v "to_str" [] .outside m) := by
    obtain ⟨o, m₂, hbox, hcontained⟩ := hspares hnone
    exact Eval.callEnding_send hm hbox hcontained
  rcases observe_cases hx with ⟨s, rfl, hres⟩ | ⟨d, rfl, hres⟩ | ⟨pos, rfl, hres⟩
  · rw [hres] at hend
    cases hr
    exact hend.2
  · cases hr
    have hsend := hfailed rfl
    rw [send_of_stringify_error hres] at hsend
    exact ⟨hsend.2.1, hsend.2.2.1⟩
  · cases hr
    have hsend := hfailed rfl
    rw [send_of_stringify_error hres] at hsend
    exact hsend.elim

/-! ## Running the statements of a program -/

/-- The statements of a program are run one after the other, from one machine to another. -/
inductive Runs (n : Nat) : List Statement → Machine → Machine → Prop where
  | nil (m : Machine) : Runs n [] m m
  | cons {s : Statement} {ss : List Statement} {m m₁ m₂ : Machine}
    {r : Except (List Diagnostic) Value} (hs : execute n s m = .ok r m₁) (h : Runs n ss m₁ m₂) :
    Runs n (s :: ss) m m₂

/-- Running a program for its value and its errors runs its statements. -/
theorem runs_of_go {n : Nat} {ss : List Statement} {last : Value} {errors : List Diagnostic}
    {m m' : Machine} {r : Except (List Diagnostic) Value}
    (h : runAll.go n last errors ss m = .ok r m') : Runs n ss m m' := by
  induction ss generalizing last errors m with
  | nil =>
    cases h
    exact .nil _
  | cons s ss ih =>
    obtain ⟨outcome, m₁, hs, h⟩ := exists_of_bind h
    cases outcome with
    | ok v => exact .cons hs (ih h)
    | error es => exact .cons hs (ih h)

/-- A statement in the middle of a program is run where the ones before it end. -/
theorem Runs.middle {n : Nat} {before after : List Statement} {s : Statement} {m m₁ m' : Machine}
    (h : Runs n (before ++ s :: after) m m') (hbefore : Runs n before m m₁) :
    ∃ r m₂, execute n s m₁ = .ok r m₂ ∧ Runs n after m₂ m' := by
  induction hbefore with
  | nil m =>
    cases h with
    | cons hs h => exact ⟨_, _, hs, h⟩
  | cons hs _ ih =>
    cases h with
    | cons hs' h =>
      rw [hs] at hs'
      cases hs'
      exact ih h

end Session

namespace Console

open Session

/-! ## What a prompt does -/

/-- What a prompt does step by step.  Values that it cannot show are among the given ones. -/
inductive Step (n : Nat) (given : Value → Machine → Prop) (m : Machine) : Machine → Prop where
  /-- Something is shown, or a line is read. -/
  | waited (host : Host) (events : Array Event) : Step n given m { m with host, events }
  | loaded {m' : Machine} {file : String} {imports : List String} {source : String}
    {r : Except (List Diagnostic) (List Statement)}
    (h : readAndLoad n file imports source m = .ok r m') : Step n given m m'
  | executed {m' : Machine} {s : Statement} {r : Except (List Diagnostic) Value}
    (h : execute n s m = .ok r m') : Step n given m m'
  | shown {m' : Machine} {v : Value} {r : Option String} (h : shown? n v m = .ok r m')
    (hgiven : r = none → given v m) : Step n given m m'

/-- One after the other, a prompt takes any number of steps. -/
abbrev Steps (n : Nat) (given : Value → Machine → Prop) : Machine → Machine → Prop :=
  Relation.ReflTransGen (Step n given)

/-- The value of an input is shown or null, or it is among the given ones. -/
def Answers (n : Nat) (given : Value → Machine → Prop) (source : String) (m : Machine) : Prop :=
  ∀ v m₁ m₂, runSource n promptFile source m = .ok (.ok v) m₁ → v ≠ .null →
    shown? n v m₁ = .ok none m₂ → given v m₁

/-- What a prompt does from one input to the next. -/
inductive Round (n : Nat) (given : Value → Machine → Prop) (m : Machine) : Machine → Prop where
  | waited (host : Host) (events : Array Event) : Round n given m { m with host, events }
  | answered {m' : Machine} {source : String} (hanswers : Answers n given source m)
    (h : respond n source m = .ok () m') : Round n given m m'

/-- A prompt that is on the first machine may be about to run an input on the second one. -/
abbrev Rounds (n : Nat) (given : Value → Machine → Prop) : Machine → Machine → Prop :=
  Relation.ReflTransGen (Round n given)

variable {n : Nat} {given : Value → Machine → Prop}

/-! ## Rounds are made of steps -/

/-- Each statement that is run is a step. -/
theorem steps_of_runs {ss : List Statement} {m m' : Machine} (h : Runs n ss m m') :
    Steps n given m m' := by
  induction h with
  | nil m => exact .refl
  | cons hs _ ih => exact .head (.executed hs) ih

/-- Reporting errors only shows something. -/
theorem steps_of_report {errors : List Diagnostic} {m m' : Machine} (h : report errors m = .ok () m') :
    Steps n given m m' := by
  induction errors generalizing m with
  | nil =>
    cases h
    exact .refl
  | cons d ds ih =>
    obtain ⟨u, m₁, hfirst, hrest⟩ := exists_of_bind h
    cases hfirst
    exact .head (.waited m.host _) (ih hrest)

/-- A source text is read, and then its statements are run. -/
theorem cases_of_runSource (given : Value → Machine → Prop) {file source : String} {m m' : Machine}
    {r : Except (List Diagnostic) Value} (h : runSource n file source m = .ok r m') :
    ∃ loaded m₁, readAndLoad n file [] source m = .ok loaded m₁ ∧ Steps n given m₁ m' ∧
      ∀ ss, loaded = .ok ss → Runs n ss m₁ m' := by
  obtain ⟨loaded, m₁, hloaded, h⟩ := exists_of_bind h
  cases loaded with
  | ok ss =>
    have hruns : Runs n ss m₁ m' := runs_of_go h
    refine ⟨.ok ss, m₁, hloaded, steps_of_runs hruns, ?_⟩
    intro ss' hss
    cases hss
    exact hruns
  | error errors =>
    cases h
    refine ⟨.error errors, m', hloaded, .refl, ?_⟩
    intro ss hss
    cases hss

/-- To respond to an input, a prompt runs it and then shows the value or the errors. -/
theorem steps_of_respond {source : String} {m m' : Machine} (hanswers : Answers n given source m)
    (h : respond n source m = .ok () m') :
    ∃ r m₁, runSource n promptFile source m = .ok r m₁ ∧ Steps n given m₁ m' := by
  obtain ⟨r, m₁, hrun, h⟩ := exists_of_bind h
  refine ⟨r, m₁, hrun, ?_⟩
  match r with
  | .error errors => exact steps_of_report h
  | .ok .null =>
    cases h
    exact .refl
  | .ok (.bool _) | .ok (.int _) | .ok (.float _) | .ok (.text _) | .ok (.array _)
  | .ok (.procedure _) | .ok (.native _) | .ok (.object _) =>
    obtain ⟨text, m₂, hshown, h⟩ := exists_of_bind h
    have hstep : Step n given m₁ m₂ := by
      refine .shown hshown ?_
      rintro rfl
      exact hanswers _ _ _ hrun nofun hshown
    cases text <;> cases h <;> exact .head hstep (.single (.waited _ _))

/-- A round is made of steps. -/
theorem Round.steps {m m' : Machine} (h : Round n given m m') : Steps n given m m' := by
  cases h with
  | waited host events => exact .single (.waited host events)
  | answered hanswers h =>
    obtain ⟨r, m₁, hrun, hafter⟩ := steps_of_respond hanswers h
    obtain ⟨loaded, m₂, hloaded, hsteps, -⟩ := cases_of_runSource given hrun
    exact .head (.loaded hloaded) (hsteps.trans hafter)

/-- Rounds are made of steps. -/
theorem steps_of_rounds {m m' : Machine} (h : Rounds n given m m') : Steps n given m m' := by
  induction h with
  | refl => exact .refl
  | tail _ hround ih => exact ih.trans hround.steps

/-- Asking the host changes nothing but the host. -/
theorem host_of_ask {q : Query} {r : Except Interruption Answer} {m m' : Machine}
    (h : observe (Eval.ask q) m = .ok r m') : ∃ host, m' = { m with host } := by
  unfold observe at h
  rw [Eval.ask_apply] at h
  cases hanswer : m.host.answer? q with
  | none =>
    rw [hanswer] at h
    cases h
  | some entry =>
    rw [hanswer] at h
    cases h
    exact ⟨entry.2, rfl⟩

/-- A prompt goes from input to input. -/
theorem rounds_of_prompt {rounds : Nat} {entered : String} {m m' : Machine}
    (h : prompt n rounds entered m = .ok () m') : Rounds n (fun _ _ => True) m m' := by
  induction rounds generalizing entered m with
  | zero => cases h
  | succ rounds ih =>
    obtain ⟨u, m₁, hshown, h⟩ := exists_of_bind h
    obtain ⟨answer, m₂, hasked, h⟩ := exists_of_bind h
    cases hshown
    obtain ⟨host, rfl⟩ := host_of_ask hasked
    refine .head (.waited host (m.events.push (.prompt (if entered.isEmpty then "> " else "... ")))) ?_
    match answer with
    | .ok (.line (.ok line)) =>
      dsimp only at h
      by_cases hend : line.isEmpty = true
      · rw [if_pos hend] at h
        cases h
        exact .refl
      rw [if_neg hend] at h
      by_cases hopen : openBrackets (scan (entered ++ line)) > 0
      · rw [if_pos hopen] at h
        exact ih h
      · rw [if_neg hopen] at h
        obtain ⟨u, m₃, hrespond, h⟩ := exists_of_bind h
        exact .head (.answered (fun _ _ _ _ _ _ => trivial) hrespond) (ih h)
    | .ok (.line (.error _)) | .ok (.contents _) | .ok (.written _) | .ok (.time _) | .ok .done | .error _ =>
      cases h
      exact .refl

/-! ## What holds between inputs -/

/-- Whatever a prompt does, its machine stays sound, and names stay bound. -/
theorem Step.sound {m m' : Machine} (hm : m.Sound) (h : Step n given m m') :
    m'.Sound ∧ m.scopes.Keeps m'.scopes := by
  cases h with
  | waited host events => exact ⟨⟨hm.nested, hm.current_lt, hm.genuine⟩, .refl _⟩
  | loaded h => exact ⟨sound_of_readAndLoad hm h, keeps_of_readAndLoad h⟩
  | executed h => exact ⟨(execute_tidied hm h).1.is_sound, keeps_of_execute h⟩
  | shown h _ => exact ⟨sound_of_shown hm h, keeps_of_shown h⟩

/-- A prompt keeps the machine sound, and names stay bound. -/
theorem sound_of_steps {m m' : Machine} (hm : m.Sound) (h : Steps n given m m') :
    m'.Sound ∧ m.scopes.Keeps m'.scopes := by
  induction h with
  | refl => exact ⟨hm, .refl _⟩
  | tail _ hstep ih =>
    obtain ⟨hsound, hkeeps⟩ := ih
    obtain ⟨hsound', hkeeps'⟩ := hstep.sound hsound
    exact ⟨hsound', hkeeps.trans hkeeps'⟩

/-- A machine on which the next input may be run. -/
structure Clean (m : Machine) : Prop where
  is_sound : m.Sound
  current_eq : m.current = Scopes.root
  operands_eq : m.operands = .empty

/-- A new machine is clean. -/
theorem clean_fresh (file : String) (host : Host) (natives : List Native) :
    Clean (Machine.fresh file host natives) := by
  have hclean := (Executions.none (m := Machine.fresh file host natives)).clean
  exact ⟨hclean.1, hclean.2.1, hclean.2.2.1⟩

/-- Reading a program leaves the scope and the operands as they were. -/
theorem unmoved_of_readAndLoad {file : String} {imports : List String} {source : String}
    {m m' : Machine} {r : Except (List Diagnostic) (List Statement)}
    (h : readAndLoad n file imports source m = .ok r m') :
    m'.current = m.current ∧ m'.operands = m.operands := by
  obtain ⟨outcome, m₁, hobserve, hr⟩ := exists_of_bind h
  have hm₁ : m₁.current = m.current ∧ m₁.operands = m.operands := by
    unfold observe at hobserve
    rcases Eval.OnlyAsks.readText n file imports source m with
      ⟨reading, host, hread⟩ | ⟨e, m₂, hread, hraised, hreturned⟩
    · rw [Eval.bind_of_ok hread] at hobserve
      by_cases hempty : reading.errors.isEmpty = true
      · rw [if_pos hempty] at hobserve
        cases hobserve
        exact ⟨rfl, rfl⟩
      · rw [if_neg hempty] at hobserve
        cases hobserve
        exact ⟨rfl, rfl⟩
    · rw [Eval.bind_of_error hread] at hobserve
      cases e with
      | raised d => exact absurd rfl (hraised d)
      | returned pos => exact absurd rfl (hreturned pos)
      | exited _ | awaiting _ | exhausted => cases hobserve
  cases outcome <;> cases hr <;> exact hm₁

/-- If values that cannot be shown put the machine back, every step of a prompt leaves it clean. -/
theorem Step.clean {m m' : Machine} (hm : Clean m) (h : Step n (Spares n) m m') : Clean m' := by
  have hsound := (h.sound hm.is_sound).1
  cases h with
  | waited host events => exact ⟨hsound, hm.current_eq, hm.operands_eq⟩
  | loaded h =>
    obtain ⟨hcurrent, hoperands⟩ := unmoved_of_readAndLoad h
    exact ⟨hsound, hcurrent.trans hm.current_eq, hoperands.trans hm.operands_eq⟩
  | executed h =>
    have htidied := (execute_tidied hm.is_sound h).1
    refine ⟨hsound, ?_, htidied.operands_eq.trans hm.operands_eq⟩
    rcases htidied.current with hsame | hroot
    · exact hsame.trans hm.current_eq
    · exact hroot
  | shown h hspares =>
    obtain ⟨hcurrent, hoperands⟩ := unmoved_of_shown hm.is_sound hspares h
    exact ⟨hsound, hcurrent.trans hm.current_eq, hoperands.trans hm.operands_eq⟩

/-- A machine stays clean as long as only values that spare it cannot be shown. -/
theorem clean_of_steps {m m' : Machine} (hm : Clean m) (h : Steps n (Spares n) m m') : Clean m' := by
  induction h with
  | refl => exact hm
  | tail _ hstep ih => exact hstep.clean ih

/-! ## Inputs that are spared, and others -/

/-- Whether the `to_str` of an object is a procedure without types. -/
def saysPlainly (v : Value) (m : Machine) : Bool :=
  match v with
  | .object o =>
    match m.heap.lookup? o "to_str" with
    | some (.procedure p) => decide p.Untyped
    | _ => false
  | _ => false

/-- Whether the value of an input can be shown, or else its `to_str` is a procedure without types. -/
def answersPlainly (n : Nat) (source : String) (m : Machine) : Bool :=
  match runSource n promptFile source m with
  | .ok (.ok v) m₁ =>
    match shown? n v m₁ with
    | .ok none _ => saysPlainly v m₁
    | _ => true
  | _ => true

/-- A value that is seen to say its text plainly spares the machine. -/
theorem spares_of_saysPlainly {v : Value} {m : Machine} (h : saysPlainly v m = true) :
    Spares n v m := by
  cases v with
  | object o =>
    refine ⟨o, m, rfl, fun f hf => ?_⟩
    simp only [saysPlainly, hf] at h
    cases f with
    | procedure p => exact .procedure (of_decide_eq_true h)
    | _ => cases h
  | _ => cases h

/-- An input that is seen to answer plainly answers with values that spare the machine. -/
theorem answers_of_answersPlainly {source : String} {m : Machine}
    (h : answersPlainly n source m = true) : Answers n (Spares n) source m := by
  intro v m₁ m₂ hrun _ hshown
  unfold answersPlainly at h
  simp only [hrun, hshown] at h
  exact spares_of_saysPlainly h

/-- Enters texts at a prompt, one after the other, for as long as it goes on. -/
def respondAll (n : Nat) : List String → Machine → Option Machine
  | [], m => some m
  | source :: sources, m =>
    match respond n source m with
    | .ok _ m' => respondAll n sources m'
    | .error _ _ => none

/-- Responding to inputs one after the other is a run of rounds. -/
theorem rounds_of_respondAll {sources : List String} {m m' : Machine}
    (h : respondAll n sources m = some m') : Rounds n (fun _ _ => True) m m' := by
  induction sources generalizing m with
  | nil =>
    cases h
    exact .refl
  | cons source sources ih =>
    unfold respondAll at h
    split at h
    · rename_i m₁ hrespond
      exact .head (.answered (fun _ _ _ _ _ _ => trivial) hrespond) (ih h)
    · cases h

/-- What an input declares is bound in the root scope, and is found wherever the next inputs are run. -/
theorem exists_find?_of_declared {source : String} {before after : List Statement} {d : Declaration}
    {v : Value} {m m₁ m₂ m₃ m₄ m' : Machine} (hm : Clean m) (hanswers : Answers n (Spares n) source m)
    (hloaded : readAndLoad n promptFile [] source m = .ok (.ok (before ++ .declare d :: after)) m₁)
    (hbefore : Runs n before m₁ m₂) (hdeclare : execute n (.declare d) m₂ = .ok (.ok v) m₃)
    (hrespond : respond n source m = .ok () m₄) (hlater : Rounds n (Spares n) m₄ m') :
    ∃ c, m₃.scopes.findLocal? Scopes.root d.name = some c ∧
      m'.scopes.find? m'.current d.name = some c := by
  -- the declaration is run on a clean machine
  have hm₂ : Clean m₂ := clean_of_steps hm (.head (.loaded hloaded) (steps_of_runs hbefore))
  have hm₃ : Clean m₃ := Step.clean hm₂ (.executed hdeclare)
  obtain ⟨c, hc⟩ := exists_findLocal?_of_execute hm₂.is_sound hdeclare
  rw [hm₂.current_eq] at hc
  -- from there on, the prompt finishes this input and goes on with others
  obtain ⟨r, m₅, hrun, hshown⟩ := steps_of_respond hanswers hrespond
  obtain ⟨loaded, m₁', hloaded', -, hruns⟩ := cases_of_runSource (Spares n) hrun
  rw [hloaded] at hloaded'
  cases hloaded'
  obtain ⟨r', m₃', hdeclare', hafter⟩ := (hruns _ rfl).middle hbefore
  rw [hdeclare] at hdeclare'
  cases hdeclare'
  have hsteps : Steps n (Spares n) m₃ m' :=
    (steps_of_runs hafter).trans (hshown.trans (steps_of_rounds hlater))
  have hkept := (sound_of_steps hm₃.is_sound hsteps).2 _ _ _ hc
  refine ⟨c, hc, ?_⟩
  rw [(clean_of_steps hm₃ hsteps).current_eq]
  exact Scopes.find?_root hkept

/-- The prompt is clean between inputs.  As long as the values that cannot be shown put the machine back,
every input is run in the root scope and without operands, so what was declared by one input is visible
to all later ones.  Whatever happens when values are shown, the current scope stands in the root scope,
whose names stay bound to the same variables and are found from wherever the machine is.  All of this is
about any prompt: from its start to its end, it goes from input to input in this way. -/
theorem prompt_stays_clean (n : Nat) (file : String) (host : Host) (natives : List Native) :
    (∀ m, Rounds n (Spares n) (Machine.fresh file host natives) m →
      m.current = Scopes.root ∧ m.operands = .empty) ∧
    (∀ m source before d after v m₁ m₂ m₃ m₄ m',
      Rounds n (Spares n) (Machine.fresh file host natives) m → Answers n (Spares n) source m →
      readAndLoad n promptFile [] source m = .ok (.ok (before ++ .declare d :: after)) m₁ →
      Runs n before m₁ m₂ → execute n (.declare d) m₂ = .ok (.ok v) m₃ →
      respond n source m = .ok () m₄ → Rounds n (Spares n) m₄ m' →
      ∃ c, m₃.scopes.findLocal? Scopes.root d.name = some c ∧
        m'.scopes.find? m'.current d.name = some c) ∧
    (∀ m m', Rounds n (fun _ _ => True) (Machine.fresh file host natives) m →
      Rounds n (fun _ _ => True) m m' →
      m'.scopes.Within m'.current Scopes.root ∧
      ∀ name c, m.scopes.findLocal? Scopes.root name = some c →
        m'.scopes.findLocal? Scopes.root name = some c ∧
          ∃ c', m'.scopes.find? m'.current name = some c') ∧
    ∀ rounds entered m m', prompt n rounds entered m = .ok () m' →
      Rounds n (fun _ _ => True) m m' := by
  have hstart := clean_fresh file host natives
  refine ⟨?_, ?_, ?_, ?_⟩
  · intro m h
    have hm := clean_of_steps hstart (steps_of_rounds h)
    exact ⟨hm.current_eq, hm.operands_eq⟩
  · intro m source before d after v m₁ m₂ m₃ m₄ m' h hanswers hloaded hbefore hdeclare hrespond hlater
    have hm := clean_of_steps hstart (steps_of_rounds h)
    exact exists_find?_of_declared hm hanswers hloaded hbefore hdeclare hrespond hlater
  · intro m m' h h'
    have hm := (sound_of_steps hstart.is_sound (steps_of_rounds h)).1
    obtain ⟨hm', hkeeps⟩ := sound_of_steps hm (steps_of_rounds h')
    refine ⟨hm'.nested.within_root hm'.current_lt, ?_⟩
    intro name c hc
    have hc' := hkeeps _ _ _ hc
    exact ⟨hc', Scopes.exists_find? hm'.nested hc' hm'.current_lt⟩
  · intro rounds entered m m' h
    exact rounds_of_prompt h

/-- Whether an input consists of the declaration of a name, which succeeds. -/
def declaresOnly (n : Nat) (source name : String) (m : Machine) : Bool :=
  match readAndLoad n promptFile [] source m with
  | .ok (.ok [.declare d]) m₁ =>
    match execute n (.declare d) m₁ with
    | .ok (.ok _) _ => d.name == name
    | _ => false
  | _ => false

/-- What an input that is seen to be one declaration does. -/
theorem exists_of_declaresOnly {source name : String} {m : Machine}
    (h : declaresOnly n source name m = true) : ∃ d v m₁ m₂, d.name = name ∧
      readAndLoad n promptFile [] source m = .ok (.ok ([] ++ .declare d :: [])) m₁ ∧
      execute n (.declare d) m₁ = .ok (.ok v) m₂ := by
  unfold declaresOnly at h
  split at h
  · rename_i d m₁ hloaded
    split at h
    · rename_i v m₂ hexecute
      exact ⟨d, v, m₁, m₂, beq_iff_eq.mp h, hloaded, hexecute⟩
    · cases h
  · cases h

/-- Responding to one input only. -/
theorem respond_of_respondAll {source : String} {m m' : Machine}
    (h : respondAll n [source] m = some m') : respond n source m = .ok () m' := by
  unfold respondAll at h
  split at h
  · rename_i m₁ hrespond
    cases h
    exact hrespond
  · cases h

/-- The input `let o = { to_str = func (self) { return nope; }; };`. -/
def failingObject : String :=
  "let o = \x7b to_str = func (self) \x7b return nope; \x7d; \x7d;"

/-- An object whose `to_str` fails cannot be shown, but leaves the prompt clean: the variable of the next
input is visible afterwards. -/
theorem prompt_stays_clean_unprintable :
    ∃ m₁ m₂, respond 20 failingObject .bare = .ok () m₁ ∧ respond 20 "let a = 1;" m₁ = .ok () m₂ ∧
      (m₂.current = Scopes.root ∧ m₂.operands = .empty) ∧
      ∃ c, m₂.scopes.find? m₂.current "a" = some c := by
  obtain ⟨hclean, hvisible, -, -⟩ := prompt_stays_clean 20 "main" (.replayed []) []
  have hfirst : answersPlainly 20 failingObject .bare = true := by decide +kernel
  have hsecond : (respondAll 20 [failingObject] .bare).any (fun m =>
      answersPlainly 20 "let a = 1;" m && declaresOnly 20 "let a = 1;" "a" m &&
        (respondAll 20 ["let a = 1;"] m).isSome) = true := by
    decide +kernel
  obtain ⟨m₁, hm₁, hchecks⟩ := (Option.any_eq_true _ _).mp hsecond
  simp only [Bool.and_eq_true] at hchecks
  obtain ⟨⟨hplainly, hdeclares⟩, hlast⟩ := hchecks
  obtain ⟨m₂, hm₂⟩ := Option.isSome_iff_exists.mp hlast
  obtain ⟨d, v, m₃, m₄, hname, hloaded, hexecute⟩ := exists_of_declaresOnly hdeclares
  have hrespond₁ := respond_of_respondAll hm₁
  have hrespond₂ := respond_of_respondAll hm₂
  have hround₁ : Rounds 20 (Spares 20) .bare m₁ :=
    .single (.answered (answers_of_answersPlainly hfirst) hrespond₁)
  have hround₂ : Rounds 20 (Spares 20) m₁ m₂ :=
    .single (.answered (answers_of_answersPlainly hplainly) hrespond₂)
  obtain ⟨c, -, hc⟩ := hvisible m₁ _ [] d [] v m₃ m₃ m₄ m₂ m₂ hround₁
    (answers_of_answersPlainly hplainly) hloaded (.nil m₃) hexecute hrespond₂ .refl
  rw [hname] at hc
  exact ⟨m₁, m₂, hrespond₁, hrespond₂, hclean m₂ (hround₁.trans hround₂), c, hc⟩

/-- The inputs `macro shy() { return "{ missing; }"; }` and `let o = { to_str = shy; };`. -/
def failingExpansion : List String :=
  ["macro shy() \x7b return \"\x7b missing; \x7d\"; \x7d", "let o = \x7b to_str = shy; \x7d;"]

/-- The inputs `macro early() { return "return 5;"; }` and `let o = { to_str = early; };`. -/
def returningExpansion : List String :=
  ["macro early() \x7b return \"return 5;\"; \x7d", "let o = \x7b to_str = early; \x7d;"]

/-- A prompt is not clean after every value that it cannot show.  If the expansion of `to_str` fails in a
block, the next input is run in that block, and its variable is gone after the next error.  If the
expansion returns, an operand is left over. -/
theorem prompt_unclean_after_expansion :
    (∃ m m', Rounds 20 (fun _ _ => True) .bare m ∧ m.current ≠ Scopes.root ∧
      Rounds 20 (fun _ _ => True) m m' ∧
      m.scopes.find? m.current "a" ≠ none ∧ m'.scopes.find? m'.current "a" = none) ∧
    ∃ m, Rounds 20 (fun _ _ => True) .bare m ∧ m.operands ≠ .empty := by
  have hblock : (respondAll 20 (failingExpansion ++ ["let a = 1;"]) .bare).any (fun m =>
      m.current != Scopes.root && (m.scopes.find? m.current "a").isSome &&
        (respondAll 20 ["nope;"] m).any fun m' => (m'.scopes.find? m'.current "a").isNone) = true := by
    decide +kernel
  have hreturn : (respondAll 20 returningExpansion .bare).any (fun m => m.operands.height == 1) = true := by
    decide +kernel
  obtain ⟨m, hm, hchecks⟩ := (Option.any_eq_true _ _).mp hblock
  simp only [Bool.and_eq_true, bne_iff_ne] at hchecks
  obtain ⟨⟨hcurrent, hfound⟩, hlater⟩ := hchecks
  obtain ⟨m', hm', hlost⟩ := (Option.any_eq_true _ _).mp hlater
  obtain ⟨m₁, hm₁, hheight⟩ := (Option.any_eq_true _ _).mp hreturn
  refine ⟨⟨m, m', rounds_of_respondAll hm, hcurrent, rounds_of_respondAll hm', ?_, ?_⟩, m₁,
    rounds_of_respondAll hm₁, ?_⟩
  · exact Option.isSome_iff_ne_none.mp hfound
  · exact Option.isNone_iff_eq_none.mp hlost
  · intro hempty
    rw [hempty] at hheight
    cases hheight

end Console

end ProtoScript
