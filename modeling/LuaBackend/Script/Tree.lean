import LuaBackend.Script.Operator

/-!
# The syntax tree of a script

Every node carries the position it was written at; a position on line 0 is unknown.
-/

namespace LuaBackend.Script

structure Pos where
  line : UInt32 := 0
  column : UInt32 := 0
deriving DecidableEq, Repr, Inhabited

namespace Pos

def isKnown (pos : Pos) : Bool := 0 < pos.line

def text (pos : Pos) : String :=
  pos.line.toNat.repr ++ ":" ++ pos.column.toNat.repr

end Pos

structure Ident where
  pos : Pos := {}
  name : String
deriving DecidableEq, Repr, Inhabited

mutual

inductive Expr where
  | ident (id : Ident)
  | int (pos : Pos) (literal : String)
  | float (pos : Pos) (literal : String)
  | bool (pos : Pos) (value : Bool)
  | str (pos : Pos) (value : String)
  | char (pos : Pos) (value : Char)
  | undefined (pos : Pos)
  | paren (pos : Pos) (expr : Expr)
  | binary (pos : Pos) (op : BinaryOp) (lhs rhs : Expr)
  | unary (pos : Pos) (op : UnaryOp) (expr : Expr)
  | selector (pos : Pos) (expr : Expr) (field : String)
  | index (pos : Pos) (expr : Expr) (key : Expr)
  | slice (pos : Pos) (expr : Expr) (low high : Option Expr)
  | cond (pos : Pos) (test whenTrue whenFalse : Expr)
  | call (pos : Pos) (callee : Expr) (args : List Expr)
  | array (pos : Pos) (elements : List Expr)
  | map (pos : Pos) (elements : List MapElement)
  | func (pos : Pos) (params : List Ident) (body : Block)
  | importModule (pos : Pos) (name : String)
  | error (pos : Pos) (expr : Expr)
  | immutable (pos : Pos) (expr : Expr)

structure MapElement where
  pos : Pos := {}
  key : String
  value : Expr

inductive Stmt where
  | expr (pos : Pos) (expr : Expr)
  | incDec (pos : Pos) (op : IncDecOp) (target : Expr)
  | assign (pos : Pos) (op : AssignOp) (lhs rhs : List Expr)
  | ret (pos : Pos) (result : Option Expr)
  | branch (pos : Pos) (op : BranchOp)
  | block (block : Block)
  | ifElse (pos : Pos) (init : Option Stmt) (test : Expr) (body : Block) (rest : Option Stmt)
  | loop (pos : Pos) (init : Option Stmt) (test : Option Expr) (post : Option Stmt) (body : Block)
  | forIn (pos : Pos) (key : Option Ident) (value : Ident) (iterable : Expr) (body : Block)
  | exportValue (pos : Pos) (result : Expr)

structure Block where
  pos : Pos := {}
  stmts : List Stmt := []

end

/-- A whole script. -/
structure File where
  stmts : List Stmt := []

namespace Expr

def pos : Expr → Pos
  | .ident id => id.pos
  | .int pos _ | .float pos _ | .bool pos _ | .str pos _ | .char pos _ | .undefined pos
  | .paren pos _ | .binary pos _ _ _ | .unary pos _ _ | .selector pos _ _ | .index pos _ _
  | .slice pos _ _ _ | .cond pos _ _ _ | .call pos _ _ | .array pos _ | .map pos _
  | .func pos _ _ | .importModule pos _ | .error pos _ | .immutable pos _ => pos

def isFunction : Expr → Bool
  | .func .. => true
  | _ => false

/-- The identifier that an assignment to this expression goes through. -/
def root? : Expr → Option Ident
  | .ident id => some id
  | .selector _ expr _ | .index _ expr _ | .paren _ expr => expr.root?
  | _ => none

end Expr

end LuaBackend.Script
