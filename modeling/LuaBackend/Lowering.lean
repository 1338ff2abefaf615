import LuaBackend.Lua.Code
import LuaBackend.Names
import LuaBackend.Scope
import LuaBackend.Script.Tree

/-!
# From scripts to Lua

Lowering is total.  Forms that Lua cannot express are refused by the analysis before their code
is used; they are lowered to `nil` or to nothing.

Lua has no `continue`.  The body of a loop becomes a `repeat ... until true` that runs once and
that both kinds of branch leave; a flag, named for the nesting depth of the loop, tells the two
apart and is tested after the body.
-/

namespace LuaBackend

open Script

def Script.BinaryOp.lower? : Script.BinaryOp → Option Lua.BinaryOp
  | .add => some .add
  | .sub => some .sub
  | .mul => some .mul
  | .quo => some .div
  | .rem => some .mod
  | .equal => some .eq
  | .notEqual => some .ne
  | .less => some .lt
  | .greater => some .gt
  | .lessEq => some .le
  | .greaterEq => some .ge
  | .logicalAnd => some .and
  | .logicalOr => some .or
  | .bitAnd | .bitOr | .bitXor | .bitAndNot | .shiftLeft | .shiftRight => none

def Script.UnaryOp.lower? : Script.UnaryOp → Option Lua.UnaryOp
  | .not => some .not
  | .neg => some .neg
  | .plus => some .plus
  | .complement => none

def Script.IncDecOp.lower : Script.IncDecOp → Lua.BinaryOp
  | .inc => .add
  | .dec => .sub

namespace Lua

/-- Operators are always bracketed, so that the precedence of Lua never comes in. -/
def Expr.operate (op : BinaryOp) (lhs rhs : Expr) : Expr := .paren (.binary op lhs rhs)

/-- `target = (target op value)`. -/
def Stmt.update (op : BinaryOp) (target value : Expr) : Stmt :=
  .assign target (.operate op target value)

/-- A function that is called at once, since `and` and `or` would take a false first value for
a failed test. -/
def Expr.choose (test whenTrue whenFalse : Expr) : Expr :=
  .call
    (.paren (.func .inline []
      [.cond .inline test [.ret (some (.paren whenTrue))]
        (.otherwise [.ret (some (.paren whenFalse))])]))
    []

/-- An array keeps its first element at key 0 and the others at the positions from 1 on. -/
def Expr.array (elements : List Expr) : Expr :=
  let items :=
    match elements with
    | [] => [Field.keyed (.numeral "0") .nil]
    | first :: others =>
      .keyed (.numeral "0") (.paren first) :: others.map fun value => .item (.paren value)
  .table (items ++ [.named Names.arrayMark (.bool true)])

/-- Binds a name to the code of a value. -/
def Stmt.bind (binding : Binding) (isFunction : Bool) (name : String) (value : Expr) : Stmt :=
  match binding with
  | .global => .assign (.name name) value
  | .lexical => if isFunction then .localRec name value else .localVar name value

/-- Runs the body of a loop once.  A body that can be run to its end asks for the next round
there. -/
def Stmt.guarded (flag : String) (body : List Stmt) (fallsThrough : Bool) : List Stmt :=
  let done := if fallsThrough then [Stmt.assign (.name flag) (.bool true)] else []
  [.localVar flag (.bool false), .repeatLoop (body ++ done) (.bool true)]

/-- Leaves the loop unless the body asked for the next round. -/
def Stmt.breakUnless (flag : String) : Stmt :=
  .cond .inline (.unary .not (.name flag)) [.break] .absent

/-- Runs the post step if the body asked for the next round, and leaves the loop otherwise. -/
def Stmt.afterRound (flag : String) : Option (List Stmt) → Stmt
  | none => .breakUnless flag
  | some post => .cond .lines (.name flag) post (.otherwise [.break])

end Lua

namespace Script

def Stmt.isReturn : Stmt → Bool
  | .ret .. => true
  | _ => false

/-- A body that ends in a return is never run to its end. -/
def Block.fallsThrough (block : Block) : Bool :=
  !block.stmts.getLast?.any Stmt.isReturn

mutual

def Expr.lower : Expr → Lua.Expr
  | .ident id => .name id.name
  | .int _ literal | .float _ literal => .numeral literal
  | .bool _ value => .bool value
  | .str _ value => .str value
  | .undefined _ => .nil
  | .paren _ expr => .paren expr.lower
  | .binary _ op lhs rhs =>
    match op.lower? with
    | some op => .operate op lhs.lower rhs.lower
    | none => .nil
  | .unary _ op expr =>
    match op.lower? with
    | some op => .paren (.unary op (.paren expr.lower))
    | none => .nil
  | .selector _ expr field => .index (.paren expr.lower) (.str field)
  | .index _ expr key => .index (.paren expr.lower) key.lower
  | .slice _ expr low high =>
    .call (.name Names.slice)
      [expr.lower, Expr.lowerOption (.numeral "0") low, Expr.lowerOption .nil high]
  | .cond _ test whenTrue whenFalse => .choose test.lower whenTrue.lower whenFalse.lower
  | .call _ callee args => .call callee.lower (Expr.lowerList args)
  | .array _ elements => .array (Expr.lowerList elements)
  | .map _ elements => .table (MapElement.lowerList elements)
  | .func _ params body => .func .lines (params.map Ident.name) (body.lower .lexical 0)
  | .char .. | .importModule .. | .error .. | .immutable .. => .nil

def Expr.lowerOption (default : Lua.Expr) : Option Expr → Lua.Expr
  | none => default
  | some expr => expr.lower

def Expr.lowerList : List Expr → List Lua.Expr
  | [] => []
  | expr :: exprs => expr.lower :: Expr.lowerList exprs

def MapElement.lowerList : List MapElement → List Lua.Field
  | [] => []
  | ⟨_, key, value⟩ :: elements =>
    .keyed (.str key) (.paren value.lower) :: MapElement.lowerList elements

/-- The code of a statement inside `depth` loops; `binding` is how it binds a name. -/
def Stmt.lower (binding : Binding) (depth : Nat) : Stmt → List Lua.Stmt
  | .expr _ expr => [.expr expr.lower]
  | .incDec _ op target => [.update op.lower target.lower (.numeral "1")]
  | .assign _ .define [.ident id] [value] =>
    [.bind binding value.isFunction id.name value.lower]
  | .assign _ .assign [target] [value] => [.assign target.lower value.lower]
  | .assign _ op [target] [value] =>
    match op.operator?.bind BinaryOp.lower? with
    | some op => [.update op target.lower value.lower]
    | none => []
  | .assign .. => []
  | .ret _ none => [.ret none]
  | .ret _ (some result) => [.ret (some (.paren result.lower))]
  | .branch _ .break => [.break]
  | .branch _ .continue => [.assign (.name (Names.continueFlag depth)) (.bool true), .break]
  | .block body => [.block .lines (body.lower .lexical depth)]
  | .ifElse _ init test body rest =>
    [.block .lines
      (Stmt.lowerOption depth init ++
        [.cond .lines test.lower (body.lower .lexical depth) (Stmt.lowerElse depth rest)])]
  | .loop _ init test post body =>
    let flag := Names.continueFlag (depth + 1)
    let round := Lua.Stmt.guarded flag (body.lower .lexical (depth + 1)) body.fallsThrough
    let next := Lua.Stmt.afterRound flag
      (match post with
        | none => none
        | some post => some (post.lower .lexical (depth + 1)))
    let loop := Lua.Stmt.whileLoop (Expr.lowerOption (.bool true) test) (round ++ [next])
    match init with
    | none => [loop]
    | some init => [.block .lines (init.lower .lexical depth ++ [loop])]
  | .forIn _ key value iterable body =>
    let flag := Names.continueFlag (depth + 1)
    let round := Lua.Stmt.guarded flag (body.lower .lexical (depth + 1)) body.fallsThrough
    [.forIn [(key.map Ident.name).getD Names.discard, value.name]
      (.call (.name Names.iterate) [iterable.lower]) (round ++ [.breakUnless flag])]
  | .exportValue .. => []

def Stmt.lowerOption (depth : Nat) : Option Stmt → List Lua.Stmt
  | none => []
  | some stmt => stmt.lower .lexical depth

/-- A further `if` without an initial statement joins the chain of the first. -/
def Stmt.lowerElse (depth : Nat) : Option Stmt → Lua.Else
  | none => .absent
  | some (.ifElse _ none test body rest) =>
    .elseIf test.lower (body.lower .lexical depth) (Stmt.lowerElse depth rest)
  | some (.block body) => .otherwise (body.lower .lexical depth)
  | some stmt => .otherwise (stmt.lower .lexical depth)

/-- In Lua a return ends its block, so one that is followed by more gets a block of its own. -/
def Stmt.lowerList (binding : Binding) (depth : Nat) : List Stmt → List Lua.Stmt
  | [] => []
  | [stmt] => stmt.lower binding depth
  | stmt :: stmts =>
    (if stmt.isReturn then [.block .inline (stmt.lower binding depth)]
      else stmt.lower binding depth) ++ Stmt.lowerList binding depth stmts

def Block.lower (binding : Binding) (depth : Nat) : Block → List Lua.Stmt
  | ⟨_, stmts⟩ => Stmt.lowerList binding depth stmts

end

/-- The code of a whole script, whose own names are bound as `binding` says. -/
def File.lower (binding : Binding) (file : File) : List Lua.Stmt :=
  Stmt.lowerList binding 0 file.stmts

end Script

end LuaBackend
