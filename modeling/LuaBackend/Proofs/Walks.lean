import LuaBackend.Proofs.GeneratedNames
import LuaBackend.Proofs.Generator
import LuaBackend.Proofs.SupportUse

/-!
# What a walk does

`Walk.Does` compares a walk of the generator with the two halves of the conversion.  The walk takes
the steps that the analysis takes for a list of events and gives the text that the printer gives in
the same setting, and it is orderly: at its end the state stands where it stood at its beginning, in
between it never stands lower, and nothing is closed that was not opened.

All walks over trees are put together from a few parts, and each part has its lemma here.  What is
opened and closed around a walk is told apart only by `Encloses`.
-/

namespace LuaBackend

open Script

/-- All snippets of the first support are in the second. -/
def Support.Within (first second : Support) : Prop :=
  ∀ snippet, first.uses snippet = true → second.uses snippet = true

namespace Generator

variable {α : Type} {before middle after : Generator}

/-! ## Where a state stands -/

/-- The second state stands where the first one does: indentation and loops are the same, and so are
the frames around the innermost one.  Support code is never given up. -/
structure Rests (before after : Generator) : Prop where
  level : after.level = before.level
  loops : after.loops = before.loops
  outerLoops : after.outerLoops = before.outerLoops
  rootBinding : after.scope.rootBinding = before.scope.rootBinding
  outer : after.scope.outer = before.scope.outer
  support : before.support.Within after.support

/-- The second state stands where the first one does or further inside.  The count of the loops
around the first state is still there, as that of the same function or set aside for a function
inside, and has not gone down. -/
structure Above (before after : Generator) : Prop where
  level : before.level ≤ after.level
  loops : ∃ inner count, after.loops :: after.outerLoops = inner ++ count :: before.outerLoops ∧
    before.loops ≤ count
  outer : before.scope.outer <:+ after.scope.outer
  support : before.support.Within after.support

theorem Rests.refl (generator : Generator) : Rests generator generator :=
  ⟨rfl, rfl, rfl, rfl, rfl, fun _ huses => huses⟩

theorem Rests.trans (hfirst : Rests before middle) (hsecond : Rests middle after) :
    Rests before after where
  level := hsecond.level.trans hfirst.level
  loops := hsecond.loops.trans hfirst.loops
  outerLoops := hsecond.outerLoops.trans hfirst.outerLoops
  rootBinding := hsecond.rootBinding.trans hfirst.rootBinding
  outer := hsecond.outer.trans hfirst.outer
  support := fun snippet huses => hsecond.support snippet (hfirst.support snippet huses)

theorem Rests.setting_eq (hrests : Rests before after) : after.setting = before.setting := by
  rw [setting, setting, hrests.level, hrests.loops, hrests.rootBinding, hrests.outer]

theorem Rests.above (hrests : Rests before after) : Above before after where
  level := Nat.le_of_eq hrests.level.symm
  loops := ⟨[], after.loops, by rw [hrests.outerLoops, List.nil_append],
    Nat.le_of_eq hrests.loops.symm⟩
  outer := ⟨[], hrests.outer.symm⟩
  support := hrests.support

theorem Above.trans (hfirst : Above before middle) (hsecond : Above middle after) :
    Above before after where
  level := Nat.le_trans hfirst.level hsecond.level
  loops := by
    obtain ⟨inner, count, hmiddle, hcount⟩ := hfirst.loops
    obtain ⟨inner', count', hafter, hcount'⟩ := hsecond.loops
    cases inner with
    | nil =>
        obtain ⟨rfl, houter⟩ := List.cons.inj hmiddle
        refine ⟨inner', count', ?_, Nat.le_trans hcount hcount'⟩
        rw [hafter, houter]
    | cons first inner =>
        rw [List.cons_append] at hmiddle
        obtain ⟨-, houter⟩ := List.cons.inj hmiddle
        refine ⟨inner' ++ count' :: inner, count, ?_, hcount⟩
        rw [hafter, houter, List.append_assoc, List.cons_append]
  outer := hfirst.outer.trans hsecond.outer
  support := fun snippet huses => hsecond.support snippet (hfirst.support snippet huses)

/-- What the move closes has been opened. -/
def Moment.Possible (moment : Moment) : Prop :=
  match moment.move with
  | .event .leave => moment.state.scope.outer ≠ []
  | .outdent => 0 < moment.state.level
  | .leaveLoop => 0 < moment.state.loops
  | .leaveFunction => moment.state.outerLoops ≠ []
  | _ => True

/-- The state behind the move.  A move that is refused changes nothing. -/
def Moment.next (moment : Moment) : Generator :=
  match moment.state.step moment.move with
  | .ok next => next
  | .error _ => moment.state

/-- The moves lead from one state to another, each from the state that the one before it left. -/
def Leads (before : Generator) : List Moment → Generator → Prop
  | [], after => after = before
  | moment :: moments, after => moment.state = before ∧ Leads moment.next moments after

theorem Leads.append {first second : List Moment} (hfirst : Leads before first middle)
    (hsecond : Leads middle second after) : Leads before (first ++ second) after := by
  induction first generalizing before with
  | nil =>
      obtain rfl := hfirst
      exact hsecond
  | cons moment first ih => exact ⟨hfirst.1, ih hfirst.2⟩

theorem leads_of_ok {move : Move} (hstep : before.step move = .ok after) :
    Leads before [⟨move, before⟩] after := by
  simp [Leads, Moment.next, hstep]

theorem leads_of_error {move : Move} {fault : Fault} (hstep : before.step move = .error fault) :
    Leads before [⟨move, before⟩] before := by
  simp [Leads, Moment.next, hstep]

/-- A walk that began in a state made its moves from there, ended where it began, and on its way
stayed there or further inside. -/
structure Orderly (before : Generator) (outcome : Outcome α) : Prop where
  leads : Leads before outcome.moments outcome.state
  moments : ∀ moment ∈ outcome.moments, Above before moment.state ∧ moment.Possible
  state : Rests before outcome.state

/-- A walk ended as a run of the analysis did: with a value in the state that the run reached, or
with its fault after the same support code and captured names. -/
def Outcome.Agrees (outcome : Outcome α) (ran : Analysis.Outcome) (value : α) : Prop :=
  match ran.fault? with
  | none => outcome.result = .ok value ∧ outcome.state.analysis = ran.state
  | some fault =>
    outcome.result = .error fault ∧ outcome.state.support = ran.state.support ∧
      outcome.state.analysis.captures = ran.state.captures

end Generator

open Generator

/-- In one setting the walk runs the events and has the value. -/
structure Walk.Does {α : Type} (setting : Setting) (walk : Walk α) (events : List Event)
    (value : α) : Prop where
  agrees : ∀ generator : Generator, generator.setting = setting →
    (walk generator).Agrees (Analysis.run generator.analysis events) value
  orderly : ∀ generator : Generator, generator.setting = setting →
    Orderly generator (walk generator)

/-! ## Single moves -/

namespace Analysis

/-- The event opens or closes a frame. -/
def movesFrame : Event → Bool
  | .enter _ | .leave => true
  | _ => false

theorem run_append_of_none {state : State} {first : List Event}
    (hpass : (run state first).fault? = none) (second : List Event) :
    run state (first ++ second) = run (run state first).state second := by
  rw [run_append, if_pos hpass]

theorem run_append_of_some {state : State} {first : List Event} {fault : Fault}
    (hfault : (run state first).fault? = some fault) (second : List Event) :
    run state (first ++ second) = run state first := by
  rw [run_append, if_neg (by simp [hfault])]

theorem Steps.support_within {state next : State} {event : Event} (hstep : Steps state event next) :
    state.support.Within next.support := by
  intro snippet huses
  cases hstep with
  | readLen | need => exact Support.uses_use.2 (.inl huses)
  | read => rwa [State.support_note]
  | _ => exact huses

theorem Steps.scope_of_movesFrame_eq_false {state next : State} {event : Event}
    (hstep : Steps state event next) (hstays : movesFrame event = false) :
    next.scope.rootBinding = state.scope.rootBinding ∧ next.scope.outer = state.scope.outer := by
  cases hstep with
  | enter | leave => cases hstays
  | read => rw [State.scope_note]; exact ⟨rfl, rfl⟩
  | _ => exact ⟨rfl, rfl⟩

end Analysis

namespace Generator

/-- The event of a move, if it has one. -/
def Move.events : Move → List Event
  | .event asked => [asked]
  | _ => []

theorem step_event_eq_ok {generator : Generator} {event : Event} {next : Analysis.State}
    (hstep : generator.analysis.step event = .ok next) :
    generator.step (.event event) = .ok { generator with analysis := next } := by
  rw [step, hstep]
  rfl

theorem step_event_eq_error {generator : Generator} {event : Event} {fault : Fault}
    (hstep : generator.analysis.step event = .error fault) :
    generator.step (.event event) = .error fault := by
  rw [step, hstep]
  rfl

/-- The analysis runs the event of a move that is made. -/
theorem run_events_of_step {generator next : Generator} {move : Move}
    (hstep : generator.step move = .ok next) :
    Analysis.run generator.analysis move.events = ⟨next.analysis, none⟩ := by
  cases move with
  | event event =>
      rw [Move.events, Analysis.run]
      cases hevent : generator.analysis.step event with
      | ok analysis =>
          rw [step_event_eq_ok hevent] at hstep
          obtain rfl := Except.ok.inj hstep
          rfl
      | error fault =>
          rw [step_event_eq_error hevent] at hstep
          cases hstep
  | leaveFunction =>
      rw [step] at hstep
      split at hstep
      · obtain rfl := Except.ok.inj hstep
        rfl
      · obtain rfl := Except.ok.inj hstep
        rfl
  | _ =>
      obtain rfl := Except.ok.inj hstep
      rfl

end Generator

namespace Walk

variable {α β : Type} {setting inner : Setting}

theorem bind_of_ok {walk : Walk α} {generator : Generator} {a : α}
    (hok : (walk generator).result = .ok a) (next : α → Walk β) :
    (walk >>= next) generator =
      let second := next a (walk generator).state
      ⟨(walk generator).moments ++ second.moments, second.state, second.result⟩ := by
  simp only [bind, hok]

theorem bind_of_error {walk : Walk α} {generator : Generator} {fault : Fault}
    (herror : (walk generator).result = .error fault) (next : α → Walk β) :
    (walk >>= next) generator =
      ⟨(walk generator).moments, (walk generator).state, .error fault⟩ := by
  simp only [bind, herror]

theorem act_of_ok {generator next : Generator} {move : Move}
    (hstep : generator.step move = .ok next) :
    act move generator = ⟨[⟨move, generator⟩], next, .ok ()⟩ := by
  rw [act, hstep]

theorem act_of_error {generator : Generator} {move : Move} {fault : Fault}
    (hstep : generator.step move = .error fault) :
    act move generator = ⟨[⟨move, generator⟩], generator, .error fault⟩ := by
  rw [act, hstep]

end Walk

theorem Generator.Orderly.bind {α β : Type} {walk : Walk α} {next : α → Walk β}
    {generator : Generator} (hwalk : Orderly generator (walk generator))
    (hnext : ∀ a, (walk generator).result = .ok a →
      Orderly (walk generator).state (next a (walk generator).state)) :
    Orderly generator ((walk >>= next) generator) := by
  cases hresult : (walk generator).result with
  | error fault =>
      rw [Walk.bind_of_error hresult]
      exact ⟨hwalk.leads, hwalk.moments, hwalk.state⟩
  | ok a =>
      have hsecond := hnext a hresult
      rw [Walk.bind_of_ok hresult]
      refine ⟨hwalk.leads.append hsecond.leads, fun moment hmoment => ?_,
        hwalk.state.trans hsecond.state⟩
      rcases List.mem_append.1 hmoment with hfirst | hlater
      · exact hwalk.moments moment hfirst
      · obtain ⟨habove, hpossible⟩ := hsecond.moments moment hlater
        exact ⟨hwalk.state.above.trans habove, hpossible⟩

namespace Walk.Does

variable {α β : Type} {setting inner : Setting} {walk : Walk α} {events more : List Event}
  {value : α}

theorem congr {events' : List Event} {value' : α} (hwalk : Does setting walk events value)
    (hevents : events = events') (hvalue : value = value') : Does setting walk events' value' := by
  subst hevents hvalue
  exact hwalk

theorem pure (value : α) : Does setting (Pure.pure value) [] value where
  agrees := fun _ _ => ⟨rfl, rfl⟩
  orderly := fun generator _ => ⟨rfl, List.forall_mem_nil _, .refl generator⟩

theorem query (f : Setting → α) : Does setting (Walk.query f) [] (f setting) where
  agrees := by
    intro generator hsetting
    subst hsetting
    exact ⟨rfl, rfl⟩
  orderly := fun generator _ => ⟨rfl, List.forall_mem_nil _, .refl generator⟩

theorem line (indent content : String) :
    Does setting (Walk.line indent content) [] (Lua.printLine indent setting.level content) :=
  query _

theorem refuse (fault : Fault) (value : α) :
    Does setting (Walk.refuse fault) [.refuse fault] value where
  agrees := fun _ _ => ⟨rfl, rfl, rfl⟩
  orderly := fun generator _ => ⟨rfl, List.forall_mem_nil _, .refl generator⟩

theorem event {event : Event} (hstays : Analysis.movesFrame event = false) :
    Does setting (Walk.event event) [event] () := by
  have hpossible : ∀ generator : Generator, (⟨.event event, generator⟩ : Moment).Possible := by
    intro generator
    cases event with
    | leave => cases hstays
    | _ => trivial
  refine ⟨fun generator _ => ?_, fun generator _ => ?_⟩
  · rw [Walk.event, Analysis.run]
    cases hstep : generator.analysis.step event with
    | ok next =>
        rw [act_of_ok (step_event_eq_ok hstep)]
        exact ⟨rfl, rfl⟩
    | error fault =>
        rw [act_of_error (step_event_eq_error hstep)]
        exact ⟨rfl, rfl, rfl⟩
  · rw [Walk.event]
    cases hstep : generator.analysis.step event with
    | ok next =>
        have hsteps := Analysis.steps_of_step_eq_ok hstep
        obtain ⟨hroot, houter⟩ := hsteps.scope_of_movesFrame_eq_false hstays
        rw [act_of_ok (step_event_eq_ok hstep)]
        refine ⟨leads_of_ok (step_event_eq_ok hstep), fun moment hmoment => ?_,
          ⟨rfl, rfl, rfl, hroot, houter, hsteps.support_within⟩⟩
        obtain rfl := List.mem_singleton.1 hmoment
        exact ⟨(Rests.refl generator).above, hpossible generator⟩
    | error fault =>
        rw [act_of_error (step_event_eq_error hstep)]
        refine ⟨leads_of_error (step_event_eq_error hstep), fun moment hmoment => ?_,
          .refl generator⟩
        obtain rfl := List.mem_singleton.1 hmoment
        exact ⟨(Rests.refl generator).above, hpossible generator⟩

/-- One walk behind another.  The second begins in the same setting, since the first ended where it
began. -/
theorem bind {next : α → Walk β} {result : β} (hwalk : Does setting walk events value)
    (hnext : Does setting (next value) more result) :
    Does setting (walk >>= next) (events ++ more) result := by
  refine ⟨fun generator hsetting => ?_, fun generator hsetting => ?_⟩
  all_goals
    have hagrees := hwalk.agrees generator hsetting
    have horderly := hwalk.orderly generator hsetting
    have hsetting' : (walk generator).state.setting = setting :=
      horderly.state.setting_eq.trans hsetting
    unfold Outcome.Agrees at hagrees
  · cases hfault : (Analysis.run generator.analysis events).fault? with
    | none =>
        simp only [hfault] at hagrees
        have hagrees' := hnext.agrees _ hsetting'
        rw [hagrees.2] at hagrees'
        rw [Analysis.run_append_of_none hfault, bind_of_ok hagrees.1]
        exact hagrees'
    | some fault =>
        simp only [hfault] at hagrees
        rw [Analysis.run_append_of_some hfault, bind_of_error hagrees.1]
        unfold Outcome.Agrees
        simp only [hfault]
        exact ⟨trivial, hagrees.2⟩
  · refine horderly.bind fun a hresult => ?_
    cases hfault : (Analysis.run generator.analysis events).fault? with
    | none =>
        simp only [hfault] at hagrees
        obtain rfl : value = a := Except.ok.inj (hagrees.1.symm.trans hresult)
        exact hnext.orderly _ hsetting'
    | some fault =>
        simp only [hfault] at hagrees
        cases hagrees.1.symm.trans hresult

end Walk.Does

/-! ## Opening and closing -/

namespace Generator

/-- Two moves that open and close something: between them a walk is in the inner setting, and the
second undoes the first for every walk that ends where it began. -/
structure Encloses (opening closing : Move) (outer inner : Setting) : Prop where
  possible : ∀ generator : Generator, (⟨opening, generator⟩ : Moment).Possible
  opens : ∀ generator : Generator, generator.setting = outer →
    ∃ opened, generator.step opening = .ok opened ∧ opened.setting = inner ∧
      Above generator opened ∧
      ∀ last, Rests opened last → (⟨closing, last⟩ : Moment).Possible ∧
        ∃ closed, last.step closing = .ok closed ∧ Rests generator closed ∧
          closed.support = last.support ∧
          closed.analysis.captures = last.analysis.captures

variable {setting : Setting}

theorem encloses_indent :
    Encloses .indent .outdent setting { setting with level := setting.level + 1 } where
  possible := fun _ => trivial
  opens := by
    rintro generator rfl
    refine ⟨_, rfl, rfl, ⟨Nat.le_succ _, ?_, List.suffix_rfl, fun _ huses => huses⟩, ?_⟩
    · exact (Rests.refl generator).above.loops
    · intro last hlast
      have hlevel : last.level = generator.level + 1 := hlast.level
      refine ⟨?_, _, rfl, ?_, rfl, rfl⟩
      · change 0 < last.level
        omega
      · refine ⟨?_, hlast.loops, hlast.outerLoops, hlast.rootBinding, hlast.outer, hlast.support⟩
        change last.level - 1 = generator.level
        omega

theorem encloses_loop :
    Encloses .enterLoop .leaveLoop setting { setting with loops := setting.loops + 1 } where
  possible := fun _ => trivial
  opens := by
    rintro generator rfl
    refine ⟨_, rfl, rfl, ⟨Nat.le_refl _, ?_, List.suffix_rfl, fun _ huses => huses⟩, ?_⟩
    · exact ⟨[], generator.loops + 1, rfl, Nat.le_succ _⟩
    · intro last hlast
      have hloops : last.loops = generator.loops + 1 := hlast.loops
      refine ⟨?_, _, rfl, ?_, rfl, rfl⟩
      · change 0 < last.loops
        omega
      · refine ⟨hlast.level, ?_, hlast.outerLoops, hlast.rootBinding, hlast.outer, hlast.support⟩
        change last.loops - 1 = generator.loops
        omega

theorem encloses_function :
    Encloses .enterFunction .leaveFunction setting { setting with loops := 0 } where
  possible := fun _ => trivial
  opens := by
    rintro generator rfl
    refine ⟨_, rfl, rfl, ⟨Nat.le_refl _, ?_, List.suffix_rfl, fun _ huses => huses⟩, ?_⟩
    · exact ⟨[0], generator.loops, rfl, Nat.le_refl _⟩
    · intro last hlast
      have houter : last.outerLoops = generator.loops :: generator.outerLoops := hlast.outerLoops
      refine ⟨?_, { last with loops := generator.loops, outerLoops := generator.outerLoops }, ?_, ?_,
        rfl, rfl⟩
      · change last.outerLoops ≠ []
        simp [houter]
      · rw [step, houter]
      · exact ⟨hlast.level, rfl, rfl, hlast.rootBinding, hlast.outer, hlast.support⟩

theorem encloses_frame (kind : FrameKind) :
    Encloses (.event (.enter kind)) (.event .leave) setting { setting with binding := .lexical } where
  possible := fun _ => trivial
  opens := by
    rintro generator rfl
    refine ⟨_, rfl, ?_, ⟨Nat.le_refl _, ?_, ?_, fun _ huses => huses⟩, ?_⟩
    · rfl
    · exact (Rests.refl generator).above.loops
    · exact List.suffix_cons _ _
    · intro last hlast
      have houter : last.scope.outer = generator.scope.current :: generator.scope.outer := hlast.outer
      have hleave : last.scope.leave =
          { last.scope with current := generator.scope.current, outer := generator.scope.outer } := by
        rw [Scope.leave, houter]
      refine ⟨?_, _, step_event_eq_ok rfl, ?_, rfl, rfl⟩
      · change last.scope.outer ≠ []
        simp [houter]
      · refine ⟨hlast.level, hlast.loops, hlast.outerLoops, ?_, ?_, hlast.support⟩
        · change last.scope.leave.rootBinding = _
          rw [hleave]
          exact hlast.rootBinding
        · change last.scope.leave.outer = _
          rw [hleave]

end Generator

namespace Walk.Does

variable {α : Type} {setting inner : Setting} {walk : Walk α} {events : List Event} {value : α}

theorem between {opening closing : Move} (hencloses : Encloses opening closing setting inner)
    (hwalk : Does inner walk events value) :
    Does setting (Walk.between opening closing walk)
      (opening.events ++ (events ++ closing.events)) value := by
  refine ⟨fun generator hsetting => ?_, fun generator hsetting => ?_⟩
  all_goals
    obtain ⟨opened, hopening, hinner, habove, hcloses⟩ := hencloses.opens generator hsetting
    have hagrees := hwalk.agrees opened hinner
    have horderly := hwalk.orderly opened hinner
    obtain ⟨hpossible, closed, hclosing, hrests, hsupport, hcaptures⟩ :=
      hcloses _ horderly.state
    rw [Walk.between, act_of_ok hopening, act_of_ok hclosing]
  · have hopened := run_events_of_step hopening
    rw [Analysis.run_append_of_none (by rw [hopened]), hopened]
    unfold Outcome.Agrees at hagrees ⊢
    cases hfault : (Analysis.run opened.analysis events).fault? with
    | none =>
        simp only [hfault] at hagrees
        have hclosed := run_events_of_step hclosing
        rw [hagrees.2] at hclosed
        rw [Analysis.run_append_of_none hfault, hclosed]
        exact ⟨hagrees.1, rfl⟩
    | some fault =>
        simp only [hfault] at hagrees
        rw [Analysis.run_append_of_some hfault]
        simp only [hfault]
        exact ⟨hagrees.1, hsupport.trans hagrees.2.1, hcaptures.trans hagrees.2.2⟩
  · refine ⟨(leads_of_ok hopening).append (horderly.leads.append (leads_of_ok hclosing)),
      fun moment hmoment => ?_, hrests⟩
    simp only [List.singleton_append, List.mem_cons, List.mem_append, List.not_mem_nil,
      or_false] at hmoment
    rcases hmoment with rfl | hmoment | rfl
    · exact ⟨(Rests.refl generator).above, hencloses.possible generator⟩
    · obtain ⟨habove', hpossible'⟩ := horderly.moments moment hmoment
      exact ⟨habove.trans habove', hpossible'⟩
    · exact ⟨habove.trans horderly.state.above, hpossible⟩

theorem inFrame (kind : FrameKind)
    (hwalk : Does { setting with binding := .lexical } walk events value) :
    Does setting (Walk.inFrame kind walk) (Event.within kind events) value :=
  between (encloses_frame kind) hwalk

theorem indented (hwalk : Does { setting with level := setting.level + 1 } walk events value) :
    Does setting (Walk.indented walk) events value :=
  (between encloses_indent hwalk).congr (List.append_nil _) rfl

theorem inLoop (hwalk : Does { setting with loops := setting.loops + 1 } walk events value) :
    Does setting (Walk.inLoop walk) events value :=
  (between encloses_loop hwalk).congr (List.append_nil _) rfl

theorem inFunction (hwalk : Does { setting with loops := 0 } walk events value) :
    Does setting (Walk.inFunction walk) events value :=
  (between encloses_function hwalk).congr (List.append_nil _) rfl

end Walk.Does

end LuaBackend
