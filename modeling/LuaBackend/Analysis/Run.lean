import LuaBackend.Analysis.Event

/-!
# Running the events of a tree

The analysis keeps the open frames, the support code needed so far and the names that functions
captured, and stops at the first event that cannot be answered.
-/

namespace LuaBackend

open Script

/-- A name read inside a function and bound outside of it: `frame` counts the frames around the
binding one, `distance` the frames between. -/
structure Capture where
  name : String
  frame : Nat
  distance : Nat
deriving DecidableEq, Repr, Inhabited

namespace Analysis

structure State where
  scope : Scope
  support : Support := {}
  captures : List Capture := []
deriving DecidableEq, Repr, Inhabited

/-- An empty root frame, whose names are emitted as `rootBinding` says. -/
def State.initial (rootBinding : Binding) : State where
  scope := { rootBinding }

def State.note (state : State) (found : Resolution) : State :=
  if found.captured then
    { state with
      captures := state.captures ++ [⟨found.symbol.name, found.symbol.depth, found.distance⟩] }
  else state

def State.declare (state : State) (id : Ident) : Except Fault State :=
  if Names.isReserved id.name then .error ⟨id.pos, .reservedName id.name⟩
  else
    match state.scope.define? id.name with
    | some (_, scope) => .ok { state with scope }
    | none => .error ⟨id.pos, .redeclared id.name⟩

/-- A name that is not bound may still be that of a built-in function. -/
def State.read (state : State) (id : Ident) : Except Fault State :=
  match state.scope.resolve? id.name with
  | some found => .ok (state.note found)
  | none =>
    match Builtin.ofName? id.name with
    | some builtin => .ok { state with support := state.support.use (.builtin builtin) }
    | none => .error ⟨id.pos, .unresolved id.name⟩

def State.step (state : State) : Event → Except Fault State
  | .enter kind => .ok { state with scope := state.scope.fork kind }
  | .leave => .ok { state with scope := state.scope.leave }
  | .fresh id =>
    if state.scope.isDefinedHere id.name then .error ⟨id.pos, .redeclared id.name⟩ else .ok state
  | .declare id => state.declare id
  | .assign id =>
    if (state.scope.resolve? id.name).isSome then .ok state
    else .error ⟨id.pos, .unresolved id.name⟩
  | .read id => state.read id
  | .need snippet => .ok { state with support := state.support.use snippet }
  | .refuse fault => .error fault

/-- The last state that was reached, and the fault that ended the run there. -/
structure Outcome where
  state : State
  fault? : Option Fault
deriving DecidableEq, Repr, Inhabited

def run (state : State) : List Event → Outcome
  | [] => ⟨state, none⟩
  | event :: events =>
    match state.step event with
    | .ok next => run next events
    | .error fault => ⟨state, some fault⟩

end Analysis

end LuaBackend
