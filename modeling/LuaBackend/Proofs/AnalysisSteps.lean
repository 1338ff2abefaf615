import LuaBackend.Proofs.Acceptance

/-!
# Steps of the analysis

What the analysis does at each event, said once: which events are answered in which states and how
the state changes, and which are refused with which fault.  What every answered event keeps is kept
by a whole run.
-/

namespace LuaBackend.Analysis

open Script

/-- The state answers the event and becomes another one. -/
inductive Steps : State → Event → State → Prop where
  | enter {state : State} {kind : FrameKind} :
      Steps state (.enter kind) { state with scope := state.scope.fork kind }
  | leave {state : State} : Steps state .leave { state with scope := state.scope.leave }
  | fresh {state : State} {id : Ident} (hnew : state.scope.isDefinedHere id.name = false) :
      Steps state (.fresh id) state
  | declare {state : State} {id : Ident} (hfree : Names.isReserved id.name = false)
      (hnew : state.scope.isDefinedHere id.name = false) :
      Steps state (.declare id)
        { state with scope.current.names := id.name :: state.scope.current.names }
  | assign {state : State} {id : Ident} (hbound : (state.scope.resolve? id.name).isSome) :
      Steps state (.assign id) state
  | read {state : State} {id : Ident} {found : Resolution}
      (hbound : state.scope.resolve? id.name = some found) :
      Steps state (.read id) (state.note found)
  | readLen {state : State} {id : Ident} (hunbound : state.scope.resolve? id.name = none)
      (hlen : id.name = "len") :
      Steps state (.read id) { state with support := state.support.use (.builtin .len) }
  | need {state : State} {snippet : Snippet} :
      Steps state (.need snippet) { state with support := state.support.use snippet }

theorem steps_of_step_eq_ok {state next : State} {event : Event}
    (hstep : state.step event = .ok next) : Steps state event next := by
  cases event with
  | enter kind =>
      obtain rfl := Except.ok.inj hstep
      exact .enter
  | leave =>
      obtain rfl := Except.ok.inj hstep
      exact .leave
  | fresh id =>
      simp only [State.step] at hstep
      split at hstep
      · simp at hstep
      · next hnew =>
          obtain rfl := Except.ok.inj hstep
          exact .fresh (by simpa using hnew)
  | declare id =>
      simp only [State.step, State.declare, Scope.define?] at hstep
      split at hstep
      · simp at hstep
      · next hfree =>
          cases hnew : state.scope.isDefinedHere id.name with
          | true => simp [hnew] at hstep
          | false =>
              rw [hnew] at hstep
              obtain rfl := Except.ok.inj hstep
              exact .declare (by simpa using hfree) hnew
  | assign id =>
      simp only [State.step] at hstep
      split at hstep
      · next hbound =>
          obtain rfl := Except.ok.inj hstep
          exact .assign hbound
      · simp at hstep
  | read id =>
      simp only [State.step, State.read] at hstep
      split at hstep
      · next found hbound =>
          obtain rfl := Except.ok.inj hstep
          exact .read hbound
      · next hunbound =>
          cases hbuiltin : Builtin.ofName? id.name with
          | none => simp [hbuiltin] at hstep
          | some builtin =>
              have hlen : id.name = "len" := by
                by_contra hlen
                simp [(Builtin.ofName?_eq_none_iff _).2 hlen] at hbuiltin
              rw [hbuiltin] at hstep
              obtain rfl := Except.ok.inj hstep
              exact .readLen hunbound hlen
  | need snippet =>
      obtain rfl := Except.ok.inj hstep
      exact .need
  | refuse fault => simp [State.step] at hstep

/-- The state has no answer to the event, for the reason that the fault gives. -/
inductive Refuses : State → Event → Fault → Prop where
  | fresh {state : State} {id : Ident} (hhere : state.scope.isDefinedHere id.name = true) :
      Refuses state (.fresh id) ⟨id.pos, .redeclared id.name⟩
  | reserved {state : State} {id : Ident} (hreserved : Names.isReserved id.name = true) :
      Refuses state (.declare id) ⟨id.pos, .reservedName id.name⟩
  | declare {state : State} {id : Ident} (hhere : state.scope.isDefinedHere id.name = true) :
      Refuses state (.declare id) ⟨id.pos, .redeclared id.name⟩
  | assign {state : State} {id : Ident} (hunbound : state.scope.resolve? id.name = none) :
      Refuses state (.assign id) ⟨id.pos, .unresolved id.name⟩
  | read {state : State} {id : Ident} (hunbound : state.scope.resolve? id.name = none)
      (hlen : id.name ≠ "len") :
      Refuses state (.read id) ⟨id.pos, .unresolved id.name⟩
  | refuse {state : State} {fault : Fault} : Refuses state (.refuse fault) fault

theorem refuses_of_step_eq_error {state : State} {event : Event} {fault : Fault}
    (hstep : state.step event = .error fault) : Refuses state event fault := by
  cases event with
  | enter | leave | need => simp [State.step] at hstep
  | fresh id =>
      simp only [State.step] at hstep
      split at hstep
      · next hhere =>
          obtain rfl := Except.error.inj hstep
          exact .fresh hhere
      · simp at hstep
  | declare id =>
      simp only [State.step, State.declare, Scope.define?] at hstep
      split at hstep
      · next hreserved =>
          obtain rfl := Except.error.inj hstep
          exact .reserved hreserved
      · cases hhere : state.scope.isDefinedHere id.name with
        | true =>
            rw [hhere] at hstep
            obtain rfl := Except.error.inj hstep
            exact .declare hhere
        | false => simp [hhere] at hstep
  | assign id =>
      simp only [State.step] at hstep
      split at hstep
      · simp at hstep
      · next hunbound =>
          obtain rfl := Except.error.inj hstep
          exact .assign (by simpa using hunbound)
  | read id =>
      simp only [State.step, State.read] at hstep
      split at hstep
      · simp at hstep
      · next hunbound =>
          cases hbuiltin : Builtin.ofName? id.name with
          | some builtin => simp [hbuiltin] at hstep
          | none =>
              rw [hbuiltin] at hstep
              obtain rfl := Except.error.inj hstep
              exact .read hunbound ((Builtin.ofName?_eq_none_iff _).1 hbuiltin)
  | refuse =>
      obtain rfl := Except.error.inj hstep
      exact .refuse

@[simp] theorem State.scope_note (state : State) (found : Resolution) :
    (state.note found).scope = state.scope := by
  unfold note
  split <;> rfl

/-- What every answered event keeps holds of every state that a run reaches. -/
theorem run_keeps {P : State → Prop}
    (hkeeps : ∀ {state next : State} {event : Event}, Steps state event next → P state → P next)
    {state : State} (hstate : P state) (events : List Event) : P (run state events).state := by
  induction events generalizing state with
  | nil => exact hstate
  | cons event events ih =>
      rw [run]
      cases hstep : state.step event with
      | ok next => exact ih (hkeeps (steps_of_step_eq_ok hstep) hstate)
      | error fault => exact hstate

/-- A run that passes answers each of its events, in a state with all that is kept. -/
theorem exists_steps_of_mem {P : State → Prop}
    (hkeeps : ∀ {state next : State} {event : Event}, Steps state event next → P state → P next)
    {state : State} (hstate : P state) {events : List Event}
    (hpass : (run state events).fault? = none) {event : Event} (hmem : event ∈ events) :
    ∃ before after, P before ∧ Steps before event after := by
  induction events generalizing state with
  | nil => simp at hmem
  | cons first rest ih =>
      rw [run] at hpass
      cases hstep : state.step first with
      | error fault => simp [hstep] at hpass
      | ok next =>
          have hsteps := steps_of_step_eq_ok hstep
          rcases List.mem_cons.1 hmem with rfl | hmem
          · exact ⟨state, next, hstate, hsteps⟩
          · rw [hstep] at hpass
            exact ih (hkeeps hsteps hstate) hpass hmem

end LuaBackend.Analysis
