import LuaBackend.Script.Tree

/-!
# Faults

A fault is the first reason why a script has no Lua counterpart, with the position to blame.
-/

namespace LuaBackend

open Script

inductive Category where
  | unsupported
  | scope
  | structural
deriving DecidableEq, Repr, Inhabited

def Category.code : Category → String
  | .unsupported => "unsupported"
  | .scope => "scope"
  | .structural => "structure"

inductive Cause where
  | bitwiseOperator (op : BinaryOp)
  | bitwiseAssignment (op : AssignOp)
  | complement
  | charLiteral
  | importExpr
  | exportStmt
  | errorExpr
  | immutableExpr
  | unresolved (name : String)
  | redeclared (name : String)
  | reservedName (name : String)
  | defineWithSelector
  | tupleAssignment
  | invalidTarget
  | branchOutsideLoop (op : BranchOp)
deriving DecidableEq, Repr, Inhabited

namespace Cause

def category : Cause → Category
  | .bitwiseOperator _ | .bitwiseAssignment _ | .complement | .charLiteral | .importExpr
  | .exportStmt | .errorExpr | .immutableExpr => .unsupported
  | .unresolved _ | .redeclared _ | .reservedName _ | .defineWithSelector => .scope
  | .tupleAssignment | .invalidTarget | .branchOutsideLoop _ => .structural

def message : Cause → String
  | .bitwiseOperator op => "operator '" ++ op.spelling ++ "' not supported"
  | .bitwiseAssignment op => "compound assignment '" ++ op.spelling ++ "' not supported"
  | .complement => "binary complement not supported"
  | .charLiteral => "character literal not supported"
  | .importExpr => "import expression not supported"
  | .exportStmt => "export statement not supported"
  | .errorExpr => "error expression not supported"
  | .immutableExpr => "immutable expression not supported"
  | .unresolved name => "unresolved reference '" ++ name ++ "'"
  | .redeclared name => "'" ++ name ++ "' redeclared in this block"
  | .reservedName name => "cannot use variable name '" ++ name ++ "'"
  | .defineWithSelector => "operator ':=' not allowed with selector"
  | .tupleAssignment => "tuple assignment not allowed"
  | .invalidTarget => "cannot assign to this expression"
  | .branchOutsideLoop op => "'" ++ op.spelling ++ "' outside of a loop"

end Cause

structure Fault where
  pos : Pos
  cause : Cause
deriving DecidableEq, Repr, Inhabited

/-- The fault on a line of its own and, below it, its position. -/
def Fault.text (fault : Fault) : String :=
  "Transpile Error: " ++ fault.cause.message ++ "\n\tat " ++ fault.pos.text

end LuaBackend
