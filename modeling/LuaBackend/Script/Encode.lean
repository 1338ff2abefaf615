import LuaBackend.Json.Basic
import LuaBackend.Script.Tree

/-!
# Writing a syntax tree as JSON

Every node is written as an object with all its fields, absent parts as `null`.
-/

namespace LuaBackend.Script

def Pos.toJson (pos : Pos) : Json :=
  .obj [("line", .int pos.line.toNat), ("column", .int pos.column.toNat)]

def Ident.fields (id : Ident) : List (String × Json) :=
  [("pos", id.pos.toJson), ("name", .str id.name)]

def Ident.toJson (id : Ident) : Json := .obj id.fields

def Ident.toJsonOption : Option Ident → Json
  | none => .null
  | some id => id.toJson

/-- A tagged record. -/
def taggedJson (tag : String) (fields : List (String × Json)) : Json :=
  .obj (("type", .str tag) :: fields)

mutual

def Expr.toJson : Expr → Json
  | .ident id => taggedJson "Ident" id.fields
  | .int pos literal => taggedJson "IntLit" [("pos", pos.toJson), ("literal", .str literal)]
  | .float pos literal => taggedJson "FloatLit" [("pos", pos.toJson), ("literal", .str literal)]
  | .bool pos value => taggedJson "BoolLit" [("pos", pos.toJson), ("value", .bool value)]
  | .str pos value => taggedJson "StringLit" [("pos", pos.toJson), ("value", .str value)]
  | .char pos value =>
    taggedJson "CharLit" [("pos", pos.toJson), ("value", .str (String.singleton value))]
  | .undefined pos => taggedJson "UndefinedLit" [("pos", pos.toJson)]
  | .paren pos expr => taggedJson "Paren" [("pos", pos.toJson), ("expr", expr.toJson)]
  | .binary pos op lhs rhs =>
    taggedJson "Binary"
      [("pos", pos.toJson), ("op", .str op.spelling), ("lhs", lhs.toJson), ("rhs", rhs.toJson)]
  | .unary pos op expr =>
    taggedJson "Unary" [("pos", pos.toJson), ("op", .str op.spelling), ("expr", expr.toJson)]
  | .selector pos expr field =>
    taggedJson "Selector" [("pos", pos.toJson), ("expr", expr.toJson), ("sel", .str field)]
  | .index pos expr key =>
    taggedJson "Index" [("pos", pos.toJson), ("expr", expr.toJson), ("index", key.toJson)]
  | .slice pos expr low high =>
    taggedJson "Slice"
      [("pos", pos.toJson), ("expr", expr.toJson), ("low", Expr.toJsonOption low),
        ("high", Expr.toJsonOption high)]
  | .cond pos test whenTrue whenFalse =>
    taggedJson "Cond"
      [("pos", pos.toJson), ("cond", test.toJson), ("when_true", whenTrue.toJson),
        ("when_false", whenFalse.toJson)]
  | .call pos callee args =>
    taggedJson "Call"
      [("pos", pos.toJson), ("func", callee.toJson), ("args", .arr (Expr.toJsonList args))]
  | .array pos elements =>
    taggedJson "ArrayLit" [("pos", pos.toJson), ("elements", .arr (Expr.toJsonList elements))]
  | .map pos elements =>
    taggedJson "MapLit"
      [("pos", pos.toJson), ("elements", .arr (MapElement.toJsonList elements))]
  | .func pos params body =>
    taggedJson "FuncLit"
      [("pos", pos.toJson), ("params", .arr (params.map Ident.toJson)), ("body", body.toJson)]
  | .importModule pos name => taggedJson "Import" [("pos", pos.toJson), ("module", .str name)]
  | .error pos expr => taggedJson "ErrorExpr" [("pos", pos.toJson), ("expr", expr.toJson)]
  | .immutable pos expr => taggedJson "Immutable" [("pos", pos.toJson), ("expr", expr.toJson)]

def Expr.toJsonOption : Option Expr → Json
  | none => .null
  | some expr => expr.toJson

def Expr.toJsonList : List Expr → List Json
  | [] => []
  | expr :: exprs => expr.toJson :: Expr.toJsonList exprs

def MapElement.toJson : MapElement → Json
  | ⟨pos, key, value⟩ =>
    .obj [("pos", pos.toJson), ("key", .str key), ("value", value.toJson)]

def MapElement.toJsonList : List MapElement → List Json
  | [] => []
  | element :: elements => element.toJson :: MapElement.toJsonList elements

def Stmt.toJson : Stmt → Json
  | .expr pos expr => taggedJson "Expr" [("pos", pos.toJson), ("expr", expr.toJson)]
  | .incDec pos op target =>
    taggedJson "IncDec" [("pos", pos.toJson), ("op", .str op.spelling), ("expr", target.toJson)]
  | .assign pos op lhs rhs =>
    taggedJson "Assign"
      [("pos", pos.toJson), ("op", .str op.spelling), ("lhs", .arr (Expr.toJsonList lhs)),
        ("rhs", .arr (Expr.toJsonList rhs))]
  | .ret pos result =>
    taggedJson "Return" [("pos", pos.toJson), ("result", Expr.toJsonOption result)]
  | .branch pos op => taggedJson "Branch" [("pos", pos.toJson), ("op", .str op.spelling)]
  | .block block => taggedJson "Block" block.fields
  | .ifElse pos init test body rest =>
    taggedJson "If"
      [("pos", pos.toJson), ("init", Stmt.toJsonOption init), ("cond", test.toJson),
        ("body", body.toJson), ("else", Stmt.toJsonOption rest)]
  | .loop pos init test post body =>
    taggedJson "For"
      [("pos", pos.toJson), ("init", Stmt.toJsonOption init), ("cond", Expr.toJsonOption test),
        ("post", Stmt.toJsonOption post), ("body", body.toJson)]
  | .forIn pos key value iterable body =>
    taggedJson "ForIn"
      [("pos", pos.toJson), ("key", Ident.toJsonOption key), ("value", value.toJson),
        ("iterable", iterable.toJson), ("body", body.toJson)]
  | .exportValue pos result =>
    taggedJson "Export" [("pos", pos.toJson), ("result", result.toJson)]

def Stmt.toJsonOption : Option Stmt → Json
  | none => .null
  | some stmt => stmt.toJson

def Stmt.toJsonList : List Stmt → List Json
  | [] => []
  | stmt :: stmts => stmt.toJson :: Stmt.toJsonList stmts

def Block.fields : Block → List (String × Json)
  | ⟨pos, stmts⟩ => [("pos", pos.toJson), ("stmts", .arr (Stmt.toJsonList stmts))]

def Block.toJson : Block → Json
  | ⟨pos, stmts⟩ => .obj [("pos", pos.toJson), ("stmts", .arr (Stmt.toJsonList stmts))]

end

def File.toJson (file : File) : Json := .obj [("stmts", .arr (Stmt.toJsonList file.stmts))]

end LuaBackend.Script
