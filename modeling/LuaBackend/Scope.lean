/-!
# Lexical scope

A scope is a stack of frames, the innermost first, above a root frame that stays open.  A name
can be bound once in a frame and hides the same name in the frames around it.
-/

namespace LuaBackend

inductive FrameKind where
  | block
  | function
deriving DecidableEq, Repr, Inhabited

structure Frame where
  kind : FrameKind
  names : List String := []
deriving DecidableEq, Repr, Inhabited

/-- How a binding is emitted: as a Lua global or as a Lua local. -/
inductive Binding where
  | global
  | lexical
deriving DecidableEq, Repr, Inhabited

/-- A bound name; `depth` counts the frames around the one that binds it. -/
structure Symbol where
  name : String
  binding : Binding
  depth : Nat
deriving DecidableEq, Repr, Inhabited

/-- What a name refers to.  `distance` counts the frames walked outwards to its frame, and
`captured` says whether the walk left a function. -/
structure Resolution where
  symbol : Symbol
  distance : Nat
  captured : Bool
deriving DecidableEq, Repr, Inhabited

structure Scope where
  /-- How names bound in the root frame are emitted. -/
  rootBinding : Binding
  current : Frame := { kind := .function }
  outer : List Frame := []
deriving DecidableEq, Repr, Inhabited

namespace Scope

def frames (scope : Scope) : List Frame := scope.current :: scope.outer

def bindingAt (rootBinding : Binding) (depth : Nat) : Binding :=
  if depth = 0 then rootBinding else .lexical

def fork (scope : Scope) (kind : FrameKind) : Scope :=
  { scope with current := { kind }, outer := scope.frames }

/-- Closes the innermost frame; the root frame is never closed. -/
def leave (scope : Scope) : Scope :=
  match scope.outer with
  | [] => scope
  | frame :: outer => { scope with current := frame, outer }

def isDefinedHere (scope : Scope) (name : String) : Bool :=
  scope.current.names.contains name

/-- Binds a name in the innermost frame, unless that frame binds it already. -/
def define? (scope : Scope) (name : String) : Option (Symbol × Scope) :=
  if scope.isDefinedHere name then none
  else
    let depth := scope.outer.length
    some (⟨name, bindingAt scope.rootBinding depth, depth⟩,
      { scope with current.names := name :: scope.current.names })

def resolveIn (rootBinding : Binding) (name : String) : List Frame → Option Resolution
  | [] => none
  | frame :: outer =>
    if frame.names.contains name then
      some ⟨⟨name, bindingAt rootBinding outer.length, outer.length⟩, 0, false⟩
    else
      (resolveIn rootBinding name outer).map fun found =>
        { found with
          distance := found.distance + 1
          captured := found.captured || frame.kind == .function }

/-- The binding of a name in the innermost frame that has one. -/
def resolve? (scope : Scope) (name : String) : Option Resolution :=
  resolveIn scope.rootBinding name scope.frames

end Scope

end LuaBackend
