import LuaBackend.Proofs.AnalysisSteps
import LuaBackend.Proofs.SupportUse

/-!
# Empty frames do not matter

A block that binds nothing of its own leaves the analysis as it is: what a name resolves to, what
may be declared and which support code is needed are the same with such a block around some events
and without it.  `Analysis.Pads` relates events to the same events with empty blocks around some of
them, at any depth, and `Analysis.run_pads` says that both are run to the same end.

Where the events bind names in the frame that they begin in, this frame must be the same one in
both runs: they are then in step.
-/

namespace LuaBackend

open Script

/-! ## Frames -/

/-- The second stack is the first with empty block frames in it. -/
inductive PaddedFrames : List Frame → List Frame → Prop where
  | nil : PaddedFrames [] []
  | cons {frame : Frame} {outer outer' : List Frame} (houter : PaddedFrames outer outer') :
      PaddedFrames (frame :: outer) (frame :: outer')
  | pad {frames frames' : List Frame} (hframes : PaddedFrames frames frames') :
      PaddedFrames frames ({ kind := .block } :: frames')

namespace Scope

/-- The second scope has further empty frames.  In step, the innermost frames are the same. -/
def Pads (inStep : Bool) (scope padded : Scope) : Prop :=
  if inStep then scope.current = padded.current ∧ PaddedFrames scope.outer padded.outer
  else PaddedFrames scope.frames padded.frames

/-- Nothing is left open or closed.  In step, names may have been added to the innermost frame. -/
def Rests (inStep : Bool) (before after : Scope) : Prop :=
  if inStep then after.outer = before.outer else after.frames = before.frames

variable {inStep : Bool} {scope padded : Scope}

theorem Pads.frames (h : Pads inStep scope padded) : PaddedFrames scope.frames padded.frames := by
  cases inStep with
  | false => exact h
  | true =>
      obtain ⟨hcurrent, houter⟩ := h
      rw [Scope.frames, Scope.frames, hcurrent]
      exact .cons houter

theorem Pads.current (h : Pads inStep scope padded) (hinStep : inStep) :
    scope.current = padded.current := by
  subst hinStep
  exact h.1

/-- Whether a name can be bound depends on the innermost frame alone. -/
theorem Pads.isDefinedHere (h : Pads true scope padded) (name : String) :
    scope.isDefinedHere name = padded.isDefinedHere name := by
  rw [Scope.isDefinedHere, Scope.isDefinedHere, h.current rfl]

theorem Pads.fork (h : Pads inStep scope padded) (kind : FrameKind) :
    Pads true (scope.fork kind) (padded.fork kind) :=
  ⟨rfl, h.frames⟩

theorem Rests.refl (inStep : Bool) (scope : Scope) : Rests inStep scope scope := by
  cases inStep <;> exact rfl

theorem Rests.trans {before middle after : Scope} (h : Rests inStep before middle)
    (hafter : Rests inStep middle after) : Rests inStep before after := by
  cases inStep <;> exact Eq.trans hafter h

end Scope

/-! ## Events -/

/-- The event leaves the frames as they are. -/
def Event.keepsFrames : Event → Bool
  | .assign _ | .read _ | .need _ | .refuse _ => true
  | _ => false

namespace Analysis

/-- The same events, with empty blocks around some that bind nothing in the frame around them. -/
inductive Pads : Bool → List Event → List Event → Prop where
  | nil {inStep : Bool} : Pads inStep [] []
  | append {inStep : Bool} {first first' second second' : List Event}
      (hfirst : Pads inStep first first') (hsecond : Pads inStep second second') :
      Pads inStep (first ++ second) (first' ++ second')
  | keep {inStep : Bool} {event : Event} (hevent : event.keepsFrames) :
      Pads inStep [event] [event]
  | fresh {id : Ident} : Pads true [.fresh id] [.fresh id]
  | declare {id : Ident} : Pads true [.declare id] [.declare id]
  | within {inStep : Bool} {kind : FrameKind} {events padded : List Event}
      (hevents : Pads true events padded) :
      Pads inStep (Event.within kind events) (Event.within kind padded)
  | block {inStep : Bool} {events padded : List Event} (hevents : Pads false events padded) :
      Pads inStep events (Event.within .block padded)

/-- Both runs end alike: with the same fault, or with the same support and related scopes. -/
structure Outcome.Pads (inStep : Bool) (before before' : State) (outcome outcome' : Outcome) :
    Prop where
  fault : outcome.fault? = outcome'.fault?
  support : outcome.state.support = outcome'.state.support
  rests : outcome.fault? = none → before.scope.Rests inStep outcome.state.scope
  rests' : outcome.fault? = none → before'.scope.Rests inStep outcome'.state.scope
  current : outcome.fault? = none → inStep →
    outcome.state.scope.current = outcome'.state.scope.current

theorem Pads.keepIf {inStep : Bool} {event : Event} (hevent : event.keepsFrames) (p : Prop)
    [Decidable p] : Pads inStep (if p then [event] else []) (if p then [event] else []) := by
  split
  · exact .keep hevent
  · exact .nil

theorem Pads.target {inStep : Bool} (pos : Pos) (target : Expr) :
    Pads inStep [Event.ofTarget pos target] [Event.ofTarget pos target] := by
  apply Pads.keep
  unfold Event.ofTarget
  split <;> rfl

theorem Pads.declareAll (ids : List Ident) :
    Pads true (ids.map Event.declare) (ids.map Event.declare) := by
  induction ids with
  | nil => exact .nil
  | cons id ids ih => exact .append .declare ih

variable {inStep : Bool} {state state' : State}

theorem Outcome.Pads.refused {fault : Fault} (hsupport : state.support = state'.support) :
    Outcome.Pads inStep state state' ⟨state, some fault⟩ ⟨state', some fault⟩ :=
  ⟨rfl, hsupport, nofun, nofun, nofun⟩

end Analysis

end LuaBackend
