import LuaBackend.Fault
import LuaBackend.Scope
import LuaBackend.Support

/-!
# What a tree asks of its surroundings

Walking a tree from left to right gives a list of events: frames that open and close, names that
are bound, read and assigned, support code that is needed, and forms that Lua cannot express.
The list depends on the tree alone; whether its names are bound is for `Analysis.run` to say.
-/

namespace LuaBackend

open Script

inductive Event where
  | enter (kind : FrameKind)
  | leave
  /-- The name must not be bound in the innermost frame. -/
  | fresh (id : Ident)
  | declare (id : Ident)
  /-- The name must be bound, as the root of an assignment target. -/
  | assign (id : Ident)
  | read (id : Ident)
  | need (snippet : Snippet)
  | refuse (fault : Fault)
deriving DecidableEq, Repr, Inhabited

namespace Event

/-- A frame around the given events. -/
def within (kind : FrameKind) (events : List Event) : List Event :=
  .enter kind :: events ++ [.leave]

/-- The variables of a loop over a container; `_` binds nothing. -/
def ofLoopVariable (id : Ident) : List Event :=
  if id.name = Names.discard then [] else [.declare id]

def ofTarget (pos : Pos) (target : Expr) : Event :=
  match target.root? with
  | some id => .assign id
  | none => .refuse ⟨if target.pos.isKnown then target.pos else pos, .invalidTarget⟩

/-- The events of `target := value`, given those of the value.  A function is bound before its
body, so that it can call itself. -/
def ofDefinition (pos : Pos) (target value : Expr) (events : List Event) : List Event :=
  match target with
  | .ident id =>
    if value.isFunction then .declare id :: events else .fresh id :: events ++ [.declare id]
  | .selector .. | .index .. => [.refuse ⟨pos, .defineWithSelector⟩]
  | _ => [.refuse ⟨pos, .invalidTarget⟩]

/-- The events of an assignment that is no definition. -/
def ofAssignment (pos : Pos) (op : AssignOp) (target : Expr) (events : List Event) :
    List Event :=
  if op.isBitwise then [.refuse ⟨pos, .bitwiseAssignment op⟩]
  else
    ofTarget pos target :: events ++
      if op = .add then [.need (.helper .stringConcat)] else []

end Event

namespace Script

mutual

def Expr.events : Expr → List Event
  | .ident id => [.read id]
  | .int .. | .float .. | .bool .. | .str .. | .undefined _ => []
  | .char pos _ => [.refuse ⟨pos, .charLiteral⟩]
  | .paren _ expr => expr.events
  | .binary pos op lhs rhs =>
    if op.isBitwise then [.refuse ⟨pos, .bitwiseOperator op⟩]
    else
      lhs.events ++ rhs.events ++ if op = .add then [.need (.helper .stringConcat)] else []
  | .unary pos op expr =>
    expr.events ++ if op = .complement then [.refuse ⟨pos, .complement⟩] else []
  | .selector _ expr _ => expr.events
  | .index _ expr key => expr.events ++ key.events
  | .slice _ expr low high =>
    expr.events ++ Expr.eventsOfOption low ++ Expr.eventsOfOption high ++
      [.need (.helper .slicing)]
  | .cond _ test whenTrue whenFalse => test.events ++ whenTrue.events ++ whenFalse.events
  | .call _ callee args => callee.events ++ Expr.eventsOfList args
  | .array _ elements => Expr.eventsOfList elements
  | .map _ elements => MapElement.eventsOfList elements
  | .func _ params body => Event.within .function (params.map .declare ++ body.events false)
  | .importModule pos _ => [.refuse ⟨pos, .importExpr⟩]
  | .error pos _ => [.refuse ⟨pos, .errorExpr⟩]
  | .immutable pos _ => [.refuse ⟨pos, .immutableExpr⟩]

def Expr.eventsOfOption : Option Expr → List Event
  | none => []
  | some expr => expr.events

def Expr.eventsOfList : List Expr → List Event
  | [] => []
  | expr :: exprs => expr.events ++ Expr.eventsOfList exprs

def MapElement.eventsOfList : List MapElement → List Event
  | [] => []
  | ⟨_, _, value⟩ :: elements => value.events ++ MapElement.eventsOfList elements

/-- The events of a statement; `inLoop` says whether a branch finds a loop around it. -/
def Stmt.events (inLoop : Bool) : Stmt → List Event
  | .expr _ expr => expr.events
  | .incDec pos _ target => Event.ofTarget pos target :: target.events
  | .assign pos op [target] [value] =>
    if op = .define then Event.ofDefinition pos target value value.events
    else Event.ofAssignment pos op target (target.events ++ value.events)
  | .assign pos _ _ _ => [.refuse ⟨pos, .tupleAssignment⟩]
  | .ret _ result => Expr.eventsOfOption result
  | .branch pos op => if inLoop then [] else [.refuse ⟨pos, .branchOutsideLoop op⟩]
  | .block body => Event.within .block (body.events inLoop)
  | .ifElse _ init test body rest =>
    Event.within .block
      (Stmt.eventsOfOption inLoop init ++ test.events ++
        Event.within .block (body.events inLoop) ++ Stmt.eventsOfElse inLoop rest)
  | .loop _ init test post body =>
    Event.within .block
      (Stmt.eventsOfOption inLoop init ++ Expr.eventsOfOption test ++
        Event.within .block (body.events true) ++ Stmt.eventsOfOption true post)
  | .forIn _ key value iterable body =>
    iterable.events ++ [.need (.helper .iterator)] ++
      Event.within .block
        (key.toList.flatMap Event.ofLoopVariable ++ Event.ofLoopVariable value ++
          Event.within .block (body.events true))
  | .exportValue pos _ => [.refuse ⟨pos, .exportStmt⟩]

def Stmt.eventsOfOption (inLoop : Bool) : Option Stmt → List Event
  | none => []
  | some stmt => stmt.events inLoop

/-- What follows the first branch of an `if`.  A further `if` without an initial statement is a
branch of the same chain, everything else opens a frame of its own. -/
def Stmt.eventsOfElse (inLoop : Bool) : Option Stmt → List Event
  | none => []
  | some (.ifElse _ none test body rest) =>
    test.events ++ Event.within .block (body.events inLoop) ++ Stmt.eventsOfElse inLoop rest
  | some (.block body) => Event.within .block (body.events inLoop)
  | some stmt => Event.within .block (stmt.events inLoop)

def Stmt.eventsOfList (inLoop : Bool) : List Stmt → List Event
  | [] => []
  | stmt :: stmts => stmt.events inLoop ++ Stmt.eventsOfList inLoop stmts

def Block.events (inLoop : Bool) : Block → List Event
  | ⟨_, stmts⟩ => Stmt.eventsOfList inLoop stmts

end

def File.events (file : File) : List Event := Stmt.eventsOfList false file.stmts

end Script

end LuaBackend
