import LuaBackend.Lua.Code

/-!
# The scopes of Lua locals

`Stmt.ListRelabels` compares Lua code with a copy of it in which the locals have other names.  The
copy may name every local as it likes, but an occurrence must have the name that the copy gives to
the local which the occurrence denotes in the original; where it denotes no local, it must be left
alone.  So a copy in which no two locals share a name shows for each occurrence what it denotes.

The rules are those of lexical scope in Lua: a local is visible from the next statement to the end
of its block, `local f; f = v` also in `v`, parameters and loop variables in their body, and the
locals of a `repeat` body also in its test.
-/

namespace LuaBackend.Lua

/-- The names that the copy gives to the locals in scope, innermost declaration of a name first. -/
abbrev Labels := String → Option String

namespace Labels

/-- No local is in scope. -/
def empty : Labels := fun _ => none

def bind (labels : Labels) (name label : String) : Labels :=
  fun other => if other = name then some label else labels other

def bindAll (labels : Labels) (pairs : List (String × String)) : Labels :=
  pairs.foldl (fun labels pair => labels.bind pair.1 pair.2) labels

/-- What stands in the copy for an occurrence of the name. -/
def occurrence (labels : Labels) (name : String) : String := (labels name).getD name

@[simp] theorem bind_self (labels : Labels) (name label : String) :
    labels.bind name label name = some label := by simp [bind]

theorem bind_of_ne (labels : Labels) {name other : String} (label : String) (hne : other ≠ name) :
    labels.bind name label other = labels other := by simp [bind, hne]

end Labels

mutual

inductive Expr.Relabels : Labels → Expr → Expr → Prop where
  | nil {labels} : Expr.Relabels labels .nil .nil
  | bool {labels value} : Expr.Relabels labels (.bool value) (.bool value)
  | numeral {labels text} : Expr.Relabels labels (.numeral text) (.numeral text)
  | str {labels value} : Expr.Relabels labels (.str value) (.str value)
  | name {labels name} : Expr.Relabels labels (.name name) (.name (labels.occurrence name))
  | paren {labels expr expr'} (hexpr : Expr.Relabels labels expr expr') :
      Expr.Relabels labels (.paren expr) (.paren expr')
  | unary {labels op expr expr'} (hexpr : Expr.Relabels labels expr expr') :
      Expr.Relabels labels (.unary op expr) (.unary op expr')
  | binary {labels op lhs lhs' rhs rhs'} (hlhs : Expr.Relabels labels lhs lhs')
      (hrhs : Expr.Relabels labels rhs rhs') :
      Expr.Relabels labels (.binary op lhs rhs) (.binary op lhs' rhs')
  | index {labels expr expr' key key'} (hexpr : Expr.Relabels labels expr expr')
      (hkey : Expr.Relabels labels key key') :
      Expr.Relabels labels (.index expr key) (.index expr' key')
  | call {labels callee callee' args args'} (hcallee : Expr.Relabels labels callee callee')
      (hargs : Expr.ListRelabels labels args args') :
      Expr.Relabels labels (.call callee args) (.call callee' args')
  | table {labels fields fields'} (hfields : Field.ListRelabels labels fields fields') :
      Expr.Relabels labels (.table fields) (.table fields')
  | func {labels inner style params params' body body'} (hlength : params'.length = params.length)
      (hbody : Stmt.ListRelabels (labels.bindAll (params.zip params')) body body' inner) :
      Expr.Relabels labels (.func style params body) (.func style params' body')

inductive Expr.ListRelabels : Labels → List Expr → List Expr → Prop where
  | nil {labels} : Expr.ListRelabels labels [] []
  | cons {labels expr expr' exprs exprs'} (hexpr : Expr.Relabels labels expr expr')
      (hexprs : Expr.ListRelabels labels exprs exprs') :
      Expr.ListRelabels labels (expr :: exprs) (expr' :: exprs')

inductive Field.Relabels : Labels → Field → Field → Prop where
  | item {labels value value'} (hvalue : Expr.Relabels labels value value') :
      Field.Relabels labels (.item value) (.item value')
  | keyed {labels key key' value value'} (hkey : Expr.Relabels labels key key')
      (hvalue : Expr.Relabels labels value value') :
      Field.Relabels labels (.keyed key value) (.keyed key' value')
  /-- The name of a field is no variable. -/
  | named {labels name value value'} (hvalue : Expr.Relabels labels value value') :
      Field.Relabels labels (.named name value) (.named name value')

inductive Field.ListRelabels : Labels → List Field → List Field → Prop where
  | nil {labels} : Field.ListRelabels labels [] []
  | cons {labels field field' fields fields'} (hfield : Field.Relabels labels field field')
      (hfields : Field.ListRelabels labels fields fields') :
      Field.ListRelabels labels (field :: fields) (field' :: fields')

/-- The last argument tells which locals are in scope behind the statement. -/
inductive Stmt.Relabels : Labels → Stmt → Stmt → Labels → Prop where
  | expr {labels expr expr'} (hexpr : Expr.Relabels labels expr expr') :
      Stmt.Relabels labels (.expr expr) (.expr expr') labels
  | assign {labels target target' value value'} (htarget : Expr.Relabels labels target target')
      (hvalue : Expr.Relabels labels value value') :
      Stmt.Relabels labels (.assign target value) (.assign target' value') labels
  | localVar {labels name name' value value'} (hvalue : Expr.Relabels labels value value') :
      Stmt.Relabels labels (.localVar name value) (.localVar name' value')
        (labels.bind name name')
  | localRec {labels name name' value value'}
      (hvalue : Expr.Relabels (labels.bind name name') value value') :
      Stmt.Relabels labels (.localRec name value) (.localRec name' value')
        (labels.bind name name')
  | ret {labels} : Stmt.Relabels labels (.ret none) (.ret none) labels
  | retValue {labels value value'} (hvalue : Expr.Relabels labels value value') :
      Stmt.Relabels labels (.ret (some value)) (.ret (some value')) labels
  | break {labels} : Stmt.Relabels labels .break .break labels
  | block {labels inner style body body'} (hbody : Stmt.ListRelabels labels body body' inner) :
      Stmt.Relabels labels (.block style body) (.block style body') labels
  | cond {labels inner style test test' body body' rest rest'}
      (htest : Expr.Relabels labels test test')
      (hbody : Stmt.ListRelabels labels body body' inner)
      (hrest : Else.Relabels labels rest rest') :
      Stmt.Relabels labels (.cond style test body rest) (.cond style test' body' rest') labels
  | whileLoop {labels inner test test' body body'} (htest : Expr.Relabels labels test test')
      (hbody : Stmt.ListRelabels labels body body' inner) :
      Stmt.Relabels labels (.whileLoop test body) (.whileLoop test' body') labels
  | repeatLoop {labels inner body body' test test'}
      (hbody : Stmt.ListRelabels labels body body' inner) (htest : Expr.Relabels inner test test') :
      Stmt.Relabels labels (.repeatLoop body test) (.repeatLoop body' test') labels
  | forIn {labels inner names names' iterator iterator' body body'}
      (hiterator : Expr.Relabels labels iterator iterator') (hlength : names'.length = names.length)
      (hbody : Stmt.ListRelabels (labels.bindAll (names.zip names')) body body' inner) :
      Stmt.Relabels labels (.forIn names iterator body) (.forIn names' iterator' body') labels

inductive Stmt.ListRelabels : Labels → List Stmt → List Stmt → Labels → Prop where
  | nil {labels} : Stmt.ListRelabels labels [] [] labels
  | cons {labels middle after stmt stmt' stmts stmts'}
      (hstmt : Stmt.Relabels labels stmt stmt' middle)
      (hstmts : Stmt.ListRelabels middle stmts stmts' after) :
      Stmt.ListRelabels labels (stmt :: stmts) (stmt' :: stmts') after

inductive Else.Relabels : Labels → Else → Else → Prop where
  | absent {labels} : Else.Relabels labels .absent .absent
  | otherwise {labels inner body body'} (hbody : Stmt.ListRelabels labels body body' inner) :
      Else.Relabels labels (.otherwise body) (.otherwise body')
  | elseIf {labels inner test test' body body' rest rest'}
      (htest : Expr.Relabels labels test test')
      (hbody : Stmt.ListRelabels labels body body' inner)
      (hrest : Else.Relabels labels rest rest') :
      Else.Relabels labels (.elseIf test body rest) (.elseIf test' body' rest')

end

/-- The copy of a whole chunk, around which no local is in scope. -/
def ChunkRelabels (code copy : List Stmt) : Prop :=
  ∃ after, Stmt.ListRelabels .empty code copy after

theorem Stmt.ListRelabels.single {labels after : Labels} {stmt stmt' : Stmt}
    (hstmt : Stmt.Relabels labels stmt stmt' after) :
    Stmt.ListRelabels labels [stmt] [stmt'] after :=
  .cons hstmt .nil

theorem Stmt.ListRelabels.append {labels middle after : Labels} {first first' second : List Stmt}
    {second' : List Stmt} (hfirst : Stmt.ListRelabels labels first first' middle)
    (hsecond : Stmt.ListRelabels middle second second' after) :
    Stmt.ListRelabels labels (first ++ second) (first' ++ second') after := by
  induction first generalizing labels first' with
  | nil =>
      cases hfirst
      exact hsecond
  | cons stmt stmts ih =>
      cases hfirst with
      | cons hstmt hstmts => exact .cons hstmt (ih hstmts)

end LuaBackend.Lua
