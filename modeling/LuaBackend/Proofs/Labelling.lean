import LuaBackend.Proofs.Sites

/-!
# Naming every declaration apart

A declaration is known by its path in the tree.  Given a label for every path, `File.relabel` gives
each declaration that becomes a Lua local the label of its path, and each occurrence the label of
the declaration that looking its name up leads to.  Globals, built-in functions and the variables
that a loop discards keep their names.
-/

namespace LuaBackend

open Script

/-- The way from the root of the tree to a node, last step first. -/
abbrev Path := List Nat

/-- A place with the labels of the names bound there. -/
structure Naming where
  label : Path → String
  /-- How names bound in the root frame are emitted. -/
  rootBinding : Binding
  place : Place
  /-- By the depth of the binding frame and the name. -/
  labels : Nat → String → String := fun _ name => name

namespace Naming

/-- The top of a file. -/
def root (label : Path → String) (rootBinding : Binding) : Naming where
  label
  rootBinding
  place := .root

def enter (naming : Naming) : Naming := { naming with place := naming.place.enter }

def enterFunction (naming : Naming) : Naming :=
  { naming with place := naming.place.enterFunction }

def enterLoop (naming : Naming) : Naming := { naming with place := naming.place.enterLoop }

/-- The depth of the innermost frame. -/
def depth (naming : Naming) : Nat := naming.place.frames.length - 1

/-- How a name bound here is emitted. -/
def binding (naming : Naming) : Binding := Scope.bindingAt naming.rootBinding naming.depth

/-- The label of the local that the name refers to, if it refers to one. -/
def lookup (naming : Naming) (name : String) : Option String :=
  match Scope.resolveIn naming.rootBinding name naming.place.frames with
  | none => none
  | some found =>
    match found.symbol.binding with
    | .global => none
    | .lexical => some (naming.labels found.symbol.depth name)

def occurrence (naming : Naming) (id : Ident) : Ident :=
  { id with name := (naming.lookup id.name).getD id.name }

/-- A declaration as it is written in the labelled tree. -/
def declared (naming : Naming) (path : Path) (id : Ident) : Ident :=
  match naming.binding with
  | .global => id
  | .lexical => { id with name := naming.label path }

def bind (naming : Naming) (path : Path) (id : Ident) : Naming :=
  { naming with
    place := naming.place.bind id
    labels := fun depth name =>
      if depth = naming.depth ∧ name = id.name then naming.label path
      else naming.labels depth name }

/-- The naming behind a statement. -/
def after (naming : Naming) (path : Path) (stmt : Stmt) : Naming :=
  match stmt.binder? with
  | some id => naming.bind path id
  | none => naming

def afterOption (naming : Naming) (path : Path) : Option Stmt → Naming
  | none => naming
  | some stmt => naming.after path stmt

def declaredParams (naming : Naming) (path : Path) : List Ident → List Ident
  | [] => []
  | id :: ids =>
    naming.declared (0 :: path) id ::
      (naming.bind (0 :: path) id).declaredParams (1 :: path) ids

def bindParams (naming : Naming) (path : Path) : List Ident → Naming
  | [] => naming
  | id :: ids => (naming.bind (0 :: path) id).bindParams (1 :: path) ids

/-- A variable of a loop over a container. -/
def declaredVariable (naming : Naming) (path : Path) (id : Ident) : Ident :=
  if id.name = Names.discard then id else naming.declared path id

def bindVariable (naming : Naming) (path : Path) (id : Ident) : Naming :=
  if id.name = Names.discard then naming else naming.bind path id

def bindKey (naming : Naming) (path : Path) : Option Ident → Naming
  | none => naming
  | some id => naming.bindVariable path id

/-- The left side of a definition. -/
def declaredTargets (naming : Naming) (path : Path) : List Expr → List Expr
  | [.ident id] => [.ident (naming.declared path id)]
  | targets => targets

end Naming

namespace Script

mutual

def Expr.relabel (naming : Naming) (path : Path) : Expr → Expr
  | .ident id => .ident (naming.occurrence id)
  | .int pos literal => .int pos literal
  | .float pos literal => .float pos literal
  | .bool pos value => .bool pos value
  | .str pos value => .str pos value
  | .char pos value => .char pos value
  | .undefined pos => .undefined pos
  | .paren pos expr => .paren pos (expr.relabel naming (0 :: path))
  | .binary pos op lhs rhs =>
    .binary pos op (lhs.relabel naming (0 :: path)) (rhs.relabel naming (1 :: path))
  | .unary pos op expr => .unary pos op (expr.relabel naming (0 :: path))
  | .selector pos expr field => .selector pos (expr.relabel naming (0 :: path)) field
  | .index pos expr key =>
    .index pos (expr.relabel naming (0 :: path)) (key.relabel naming (1 :: path))
  | .slice pos expr low high =>
    .slice pos (expr.relabel naming (0 :: path)) (Expr.relabelOption naming (1 :: path) low)
      (Expr.relabelOption naming (2 :: path) high)
  | .cond pos test whenTrue whenFalse =>
    .cond pos (test.relabel naming (0 :: path)) (whenTrue.relabel naming (1 :: path))
      (whenFalse.relabel naming (2 :: path))
  | .call pos callee args =>
    .call pos (callee.relabel naming (0 :: path)) (Expr.relabelList naming (1 :: path) args)
  | .array pos elements => .array pos (Expr.relabelList naming (0 :: path) elements)
  | .map pos elements => .map pos (MapElement.relabelList naming (0 :: path) elements)
  | .func pos params body =>
    let inner := naming.enterFunction
    .func pos (inner.declaredParams (0 :: path) params)
      (body.relabel (inner.bindParams (0 :: path) params) (1 :: path))
  | .importModule pos name => .importModule pos name
  | .error pos expr => .error pos (expr.relabel naming (0 :: path))
  | .immutable pos expr => .immutable pos (expr.relabel naming (0 :: path))

def Expr.relabelOption (naming : Naming) (path : Path) : Option Expr → Option Expr
  | none => none
  | some expr => some (expr.relabel naming path)

def Expr.relabelList (naming : Naming) (path : Path) : List Expr → List Expr
  | [] => []
  | expr :: exprs =>
    expr.relabel naming (0 :: path) :: Expr.relabelList naming (1 :: path) exprs

def MapElement.relabelList (naming : Naming) (path : Path) : List MapElement → List MapElement
  | [] => []
  | ⟨pos, key, value⟩ :: elements =>
    ⟨pos, key, value.relabel naming (0 :: path)⟩ ::
      MapElement.relabelList naming (1 :: path) elements

def Stmt.relabel (naming : Naming) (path : Path) : Stmt → Stmt
  | .expr pos expr => .expr pos (expr.relabel naming (0 :: path))
  | .incDec pos op target => .incDec pos op (target.relabel naming (0 :: path))
  | .assign pos op lhs rhs =>
    let inner :=
      if rhs.any Expr.isFunction then naming.after path (.assign pos op lhs rhs) else naming
    .assign pos op
      (if op = .define then naming.declaredTargets path lhs
        else Expr.relabelList naming (0 :: path) lhs)
      (Expr.relabelList inner (1 :: path) rhs)
  | .ret pos result => .ret pos (Expr.relabelOption naming (0 :: path) result)
  | .branch pos op => .branch pos op
  | .block body => .block (body.relabel naming.enter (0 :: path))
  | .ifElse pos init test body rest =>
    let inner := naming.enter.afterOption (0 :: path) init
    .ifElse pos (Stmt.relabelOption naming.enter (0 :: path) init)
      (test.relabel inner (1 :: path)) (body.relabel inner.enter (2 :: path))
      (Stmt.relabelElse inner (3 :: path) rest)
  | .loop pos init test post body =>
    let inner := naming.enter.afterOption (0 :: path) init
    .loop pos (Stmt.relabelOption naming.enter (0 :: path) init)
      (Expr.relabelOption inner (1 :: path) test)
      (Stmt.relabelOption inner.enterLoop (2 :: path) post)
      (body.relabel inner.enterLoop.enter (3 :: path))
  | .forIn pos key value iterable body =>
    let withKey := naming.enter.bindKey (0 :: path) key
    .forIn pos (key.map (naming.enter.declaredVariable (0 :: path)))
      (withKey.declaredVariable (1 :: path) value) (iterable.relabel naming (2 :: path))
      (body.relabel (withKey.bindVariable (1 :: path) value).enterLoop.enter (3 :: path))
  | .exportValue pos result => .exportValue pos (result.relabel naming (0 :: path))

def Stmt.relabelOption (naming : Naming) (path : Path) : Option Stmt → Option Stmt
  | none => none
  | some stmt => some (stmt.relabel naming path)

def Stmt.relabelElse (naming : Naming) (path : Path) : Option Stmt → Option Stmt
  | none => none
  | some (.ifElse pos none test body rest) =>
    some (.ifElse pos none (test.relabel naming (1 :: path))
      (body.relabel naming.enter (2 :: path)) (Stmt.relabelElse naming (3 :: path) rest))
  | some (.block body) => some (.block (body.relabel naming.enter (0 :: path)))
  | some stmt => some (stmt.relabel naming.enter path)

def Stmt.relabelList (naming : Naming) (path : Path) : List Stmt → List Stmt
  | [] => []
  | stmt :: stmts =>
    stmt.relabel naming (0 :: path) ::
      Stmt.relabelList (naming.after (0 :: path) stmt) (1 :: path) stmts

def Block.relabel (naming : Naming) (path : Path) : Block → Block
  | ⟨pos, stmts⟩ => ⟨pos, Stmt.relabelList naming path stmts⟩

end

def File.relabel (label : Path → String) (rootBinding : Binding) (file : File) : File :=
  { stmts := Stmt.relabelList (.root label rootBinding) [] file.stmts }

end Script

/-! ## Labels do not change the shape of a tree -/

namespace Script

@[simp] theorem Expr.isFunction_relabel (naming : Naming) (path : Path) (expr : Expr) :
    (expr.relabel naming path).isFunction = expr.isFunction := by
  cases expr <;> rfl

@[simp] theorem Stmt.isReturn_relabel (naming : Naming) (path : Path) (stmt : Stmt) :
    (stmt.relabel naming path).isReturn = stmt.isReturn := by
  cases stmt <;> rfl

theorem Stmt.relabelElse_of_standsAlone (naming : Naming) (path : Path) {stmt : Stmt}
    (halone : stmt.standsAlone) :
    Stmt.relabelElse naming path (some stmt) = some (stmt.relabel naming.enter path) := by
  cases stmt with
  | block => simp [standsAlone] at halone
  | ifElse _ init =>
      cases init with
      | none => simp [standsAlone] at halone
      | some => rfl
  | _ => rfl

theorem Stmt.standsAlone_relabel (naming : Naming) (path : Path) {stmt : Stmt}
    (halone : stmt.standsAlone) : (stmt.relabel naming path).standsAlone := by
  cases stmt with
  | block => simp [standsAlone] at halone
  | ifElse _ init =>
      cases init with
      | none => simp [standsAlone] at halone
      | some => rfl
  | _ => rfl

@[simp] theorem Stmt.isEmpty_relabelList (naming : Naming) (path : Path) (stmts : List Stmt) :
    (Stmt.relabelList naming path stmts).isEmpty = stmts.isEmpty := by
  cases stmts <;> rfl

theorem Stmt.getLast?_relabelList (naming : Naming) (path : Path) (stmts : List Stmt) :
    (Stmt.relabelList naming path stmts).getLast?.any Stmt.isReturn =
      stmts.getLast?.any Stmt.isReturn := by
  induction stmts generalizing naming path with
  | nil => rfl
  | cons stmt stmts ih =>
      cases stmts with
      | nil => simp [Stmt.relabelList]
      | cons next stmts =>
          have hrest := ih (naming.after (0 :: path) stmt) (1 :: path)
          simpa [Stmt.relabelList, List.getLast?_cons_cons] using hrest

@[simp] theorem Block.fallsThrough_relabel (naming : Naming) (path : Path) (block : Block) :
    (block.relabel naming path).fallsThrough = block.fallsThrough := by
  obtain ⟨pos, stmts⟩ := block
  simp [Block.relabel, Block.fallsThrough, Stmt.getLast?_relabelList]

end Script

end LuaBackend
