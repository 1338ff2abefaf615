import LuaBackend.Lua.Code
import LuaBackend.Lua.Layout
import LuaBackend.Lua.Quote

/-!
# Printing Lua code

An expression is laid out within a line that stands at some level, and so is a statement in
`inline` style; in `lines` style a statement takes whole lines.
-/

namespace LuaBackend.Lua

open Layout

def UnaryOp.lead : UnaryOp → String
  | .not => "not "
  | .neg => "-"
  | .plus => "+"

/-- Inside a line everything is written within that line. -/
def Style.inside (outer own : Style) : Style :=
  match outer with
  | .inline => .inline
  | .lines => own

/-- Puts a statement that is written within one line in its place. -/
def Style.place (style : Style) (level : Nat) (content : Layout) : Layout :=
  match style with
  | .inline => content
  | .lines => line level content

def functionHead (params : List String) : String :=
  "function(" ++ ", ".intercalate params ++ ")"

mutual

def Expr.layout (level : Nat) : Expr → Layout
  | .nil => text "nil"
  | .bool true => text "true"
  | .bool false => text "false"
  | .numeral digits => text digits
  | .str value => text (quote value)
  | .name name => text name
  | .paren expr => text "(" ++ expr.layout level ++ text ")"
  | .unary op expr => text op.lead ++ expr.layout level
  | .binary op lhs rhs =>
    lhs.layout level ++ text (" " ++ op.spelling ++ " ") ++ rhs.layout level
  | .index expr key => expr.layout level ++ text "[" ++ key.layout level ++ text "]"
  | .call callee args => callee.layout level ++ text "(" ++ Expr.layoutList level args ++ text ")"
  | .table fields => text "\x7b" ++ Field.layoutList level fields ++ text "\x7d"
  | .func .inline params body =>
    text (functionHead params ++ " ") ++ Stmt.layoutList .inline level body ++ text " end"
  | .func .lines params body =>
    text (functionHead params ++ "\n") ++ Stmt.layoutList .lines (level + 1) body ++ [⟨level, "end"⟩]

def Expr.layoutList (level : Nat) : List Expr → Layout
  | [] => []
  | [expr] => expr.layout level
  | expr :: exprs => expr.layout level ++ text ", " ++ Expr.layoutList level exprs

def Field.layout (level : Nat) : Field → Layout
  | .item value => value.layout level
  | .keyed key value => text "[" ++ key.layout level ++ text "]=" ++ value.layout level
  | .named name value => text (name ++ "=") ++ value.layout level

def Field.layoutList (level : Nat) : List Field → Layout
  | [] => []
  | [field] => field.layout level
  | field :: fields => field.layout level ++ text ", " ++ Field.layoutList level fields

def Stmt.layout (style : Style) (level : Nat) : Stmt → Layout
  | .expr expr => style.place level (expr.layout level)
  | .assign target value =>
    style.place level (target.layout level ++ text " = " ++ value.layout level)
  | .localVar name value => style.place level (text ("local " ++ name ++ " = ") ++ value.layout level)
  | .localRec name value =>
    style.place level (text ("local " ++ name ++ "; " ++ name ++ " = ") ++ value.layout level)
  | .ret none => style.place level (text "return")
  | .ret (some value) => style.place level (text "return " ++ value.layout level)
  | .break => style.place level (text "break")
  | .block own body =>
    match style.inside own with
    | .inline => style.place level (text "do " ++ Stmt.layoutList .inline level body ++ text " end")
    | .lines =>
      line level (text "do") ++ Stmt.layoutList .lines (level + 1) body ++
        line level (text "end")
  | .cond own test body rest =>
    match style.inside own with
    | .inline =>
      style.place level
        (text "if " ++ test.layout level ++ text " then " ++ Stmt.layoutList .inline level body ++
          rest.layout .inline level ++ text " end")
    | .lines =>
      line level (text "if " ++ test.layout level ++ text " then") ++
        Stmt.layoutList .lines (level + 1) body ++ rest.layout .lines level ++
        line level (text "end")
  | .whileLoop test body =>
    match style with
    | .inline =>
      text "while " ++ test.layout level ++ text " do " ++ Stmt.layoutList .inline level body ++ text " end"
    | .lines =>
      line level (text "while " ++ test.layout level ++ text " do") ++
        Stmt.layoutList .lines (level + 1) body ++ line level (text "end")
  | .repeatLoop body test =>
    match style with
    | .inline =>
      text "repeat " ++ Stmt.layoutList .inline level body ++ text " until " ++ test.layout level
    | .lines =>
      line level (text "repeat") ++ Stmt.layoutList .lines (level + 1) body ++
        line level (text "until " ++ test.layout level)
  | .forIn names iterator body =>
    let head := text ("for " ++ ", ".intercalate names ++ " in ") ++ iterator.layout level
    match style with
    | .inline => head ++ text " do " ++ Stmt.layoutList .inline level body ++ text " end"
    | .lines =>
      line level (head ++ text " do") ++ Stmt.layoutList .lines (level + 1) body ++
        line level (text "end")

def Stmt.layoutList (style : Style) (level : Nat) : List Stmt → Layout
  | [] => []
  | [stmt] => stmt.layout style level
  | stmt :: stmts =>
    stmt.layout style level ++
      (match style with
        | .inline => text " "
        | .lines => []) ++
      Stmt.layoutList style level stmts

def Else.layout (style : Style) (level : Nat) : Else → Layout
  | .absent => []
  | .otherwise body =>
    match style with
    | .inline => text " else " ++ Stmt.layoutList .inline level body
    | .lines => line level (text "else") ++ Stmt.layoutList .lines (level + 1) body
  | .elseIf test body rest =>
    match style with
    | .inline =>
      text " elseif " ++ test.layout level ++ text " then " ++ Stmt.layoutList .inline level body ++
        rest.layout .inline level
    | .lines =>
      line level (text "elseif " ++ test.layout level ++ text " then") ++
        Stmt.layoutList .lines (level + 1) body ++ rest.layout .lines level

end

end LuaBackend.Lua
