/-!
# Lua code

Expressions and statements of Lua, with parentheses kept where they are written.  A block is
written over several lines or within one; `Style` says which.
-/

namespace LuaBackend.Lua

inductive UnaryOp where
  | not
  | neg
  /-- Lua has no such operator; a script that uses it is passed on as written. -/
  | plus
deriving DecidableEq, Repr, Inhabited

inductive BinaryOp where
  | add
  | sub
  | mul
  | div
  | mod
  | eq
  | ne
  | lt
  | gt
  | le
  | ge
  | and
  | or
deriving DecidableEq, Repr, Inhabited

def BinaryOp.spelling : BinaryOp → String
  | .add => "+"
  | .sub => "-"
  | .mul => "*"
  | .div => "/"
  | .mod => "%"
  | .eq => "=="
  | .ne => "~="
  | .lt => "<"
  | .gt => ">"
  | .le => "<="
  | .ge => ">="
  | .and => "and"
  | .or => "or"

inductive Style where
  | lines
  | inline
deriving DecidableEq, Repr, Inhabited

mutual

inductive Expr where
  | nil
  | bool (value : Bool)
  | numeral (text : String)
  | str (value : String)
  | name (name : String)
  | paren (expr : Expr)
  | unary (op : UnaryOp) (expr : Expr)
  | binary (op : BinaryOp) (lhs rhs : Expr)
  | index (expr key : Expr)
  | call (callee : Expr) (args : List Expr)
  | table (fields : List Field)
  | func (style : Style) (params : List String) (body : List Stmt)

/-- A field of a table constructor: at the next position, at a computed key, or at a name. -/
inductive Field where
  | item (value : Expr)
  | keyed (key value : Expr)
  | named (name : String) (value : Expr)

inductive Stmt where
  | expr (expr : Expr)
  | assign (target value : Expr)
  | localVar (name : String) (value : Expr)
  /-- `local f; f = value`, so that the value can refer to the name. -/
  | localRec (name : String) (value : Expr)
  | ret (value : Option Expr)
  | break
  | block (style : Style) (body : List Stmt)
  | cond (style : Style) (test : Expr) (body : List Stmt) (rest : Else)
  | whileLoop (test : Expr) (body : List Stmt)
  | repeatLoop (body : List Stmt) (test : Expr)
  | forIn (names : List String) (iterator : Expr) (body : List Stmt)

/-- What follows the first branch of an `if`. -/
inductive Else where
  | absent
  | otherwise (body : List Stmt)
  | elseIf (test : Expr) (body : List Stmt) (rest : Else)

end

end LuaBackend.Lua
