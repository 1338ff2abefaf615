import LuaBackend.Json.Basic
import LuaBackend.Script.Tree

/-!
# Reading a syntax tree from JSON

Records (files, blocks, identifiers, map elements, positions) and tagged records (statements
and expressions) may each be written as an object or as an array.  Fields that a record does not
have are ignored.  A tree may nest at most `maxDepth` arrays and objects.
-/

namespace LuaBackend.Script

def BinaryOp.ofJson? (json : Json) : Option BinaryOp := json.str?.bind BinaryOp.ofSpelling?

def UnaryOp.ofJson? (json : Json) : Option UnaryOp := json.str?.bind UnaryOp.ofSpelling?

def AssignOp.ofJson? (json : Json) : Option AssignOp := json.str?.bind AssignOp.ofSpelling?

def IncDecOp.ofJson? (json : Json) : Option IncDecOp := json.str?.bind IncDecOp.ofSpelling?

def BranchOp.ofJson? (json : Json) : Option BranchOp := json.str?.bind BranchOp.ofSpelling?

def Pos.ofJson? (json : Json) : Option Pos := do
  let record ← json.record? ["line", "column"]
  let line ← record.required "line" Json.uint32?
  let column ← record.required "column" Json.uint32?
  return { line, column }

/-- The position of a node, which may be left out. -/
def Pos.ofRecord? (record : Json.Record) : Option Pos :=
  record.defaulted "pos" {} Pos.ofJson?

def Ident.ofJson? (json : Json) : Option Ident := do
  let record ← json.record? ["pos", "name"]
  let pos ← Pos.ofRecord? record
  let name ← record.required "name" Json.str?
  return { pos, name }

/-- Readers for the nodes below a node. -/
structure NodeReaders where
  expr : Json → Option Expr
  stmt : Json → Option Stmt

namespace NodeReaders

variable (nodes : NodeReaders)

def block? (json : Json) : Option Block := do
  let record ← json.record? ["pos", "stmts"]
  let pos ← Pos.ofRecord? record
  let stmts ← record.defaulted "stmts" [] (Json.list? nodes.stmt)
  return { pos, stmts }

def mapElement? (json : Json) : Option MapElement := do
  let record ← json.record? ["pos", "key", "value"]
  let pos ← Pos.ofRecord? record
  let key ← record.required "key" Json.str?
  let value ← record.required "value" nodes.expr
  return { pos, key, value }

/-- An expression with the given tag, from the record beside the tag. -/
def exprOfTag? (tag : String) (json : Json) : Option Expr :=
  match tag with
  | "Ident" => return .ident (← Ident.ofJson? json)
  | "IntLit" => do
    let record ← json.record? ["pos", "literal"]
    return .int (← Pos.ofRecord? record) (← record.required "literal" Json.str?)
  | "FloatLit" => do
    let record ← json.record? ["pos", "literal"]
    return .float (← Pos.ofRecord? record) (← record.required "literal" Json.str?)
  | "BoolLit" => do
    let record ← json.record? ["pos", "value"]
    return .bool (← Pos.ofRecord? record) (← record.required "value" Json.bool?)
  | "StringLit" => do
    let record ← json.record? ["pos", "value"]
    return .str (← Pos.ofRecord? record) (← record.required "value" Json.str?)
  | "CharLit" => do
    let record ← json.record? ["pos", "value"]
    return .char (← Pos.ofRecord? record) (← record.required "value" Json.char?)
  | "UndefinedLit" => do
    let record ← json.record? ["pos"]
    return .undefined (← Pos.ofRecord? record)
  | "Paren" => do
    let record ← json.record? ["pos", "expr"]
    return .paren (← Pos.ofRecord? record) (← record.required "expr" nodes.expr)
  | "Binary" => do
    let record ← json.record? ["pos", "op", "lhs", "rhs"]
    return .binary (← Pos.ofRecord? record) (← record.required "op" BinaryOp.ofJson?)
      (← record.required "lhs" nodes.expr) (← record.required "rhs" nodes.expr)
  | "Unary" => do
    let record ← json.record? ["pos", "op", "expr"]
    return .unary (← Pos.ofRecord? record) (← record.required "op" UnaryOp.ofJson?)
      (← record.required "expr" nodes.expr)
  | "Selector" => do
    let record ← json.record? ["pos", "expr", "sel"]
    return .selector (← Pos.ofRecord? record) (← record.required "expr" nodes.expr)
      (← record.required "sel" Json.str?)
  | "Index" => do
    let record ← json.record? ["pos", "expr", "index"]
    return .index (← Pos.ofRecord? record) (← record.required "expr" nodes.expr)
      (← record.required "index" nodes.expr)
  | "Slice" => do
    let record ← json.record? ["pos", "expr", "low", "high"]
    return .slice (← Pos.ofRecord? record) (← record.required "expr" nodes.expr)
      (← record.optional "low" nodes.expr) (← record.optional "high" nodes.expr)
  | "Cond" => do
    let record ← json.record? ["pos", "cond", "when_true", "when_false"]
    return .cond (← Pos.ofRecord? record) (← record.required "cond" nodes.expr)
      (← record.required "when_true" nodes.expr) (← record.required "when_false" nodes.expr)
  | "Call" => do
    let record ← json.record? ["pos", "func", "args"]
    return .call (← Pos.ofRecord? record) (← record.required "func" nodes.expr)
      (← record.defaulted "args" [] (Json.list? nodes.expr))
  | "ArrayLit" => do
    let record ← json.record? ["pos", "elements"]
    return .array (← Pos.ofRecord? record)
      (← record.defaulted "elements" [] (Json.list? nodes.expr))
  | "MapLit" => do
    let record ← json.record? ["pos", "elements"]
    return .map (← Pos.ofRecord? record)
      (← record.defaulted "elements" [] (Json.list? nodes.mapElement?))
  | "FuncLit" => do
    let record ← json.record? ["pos", "params", "body"]
    return .func (← Pos.ofRecord? record)
      (← record.defaulted "params" [] (Json.list? Ident.ofJson?))
      (← record.required "body" nodes.block?)
  | "Import" => do
    let record ← json.record? ["pos", "module"]
    return .importModule (← Pos.ofRecord? record) (← record.required "module" Json.str?)
  | "ErrorExpr" => do
    let record ← json.record? ["pos", "expr"]
    return .error (← Pos.ofRecord? record) (← record.required "expr" nodes.expr)
  | "Immutable" => do
    let record ← json.record? ["pos", "expr"]
    return .immutable (← Pos.ofRecord? record) (← record.required "expr" nodes.expr)
  | _ => none

/-- A statement with the given tag, from the record beside the tag. -/
def stmtOfTag? (tag : String) (json : Json) : Option Stmt :=
  match tag with
  | "Expr" => do
    let record ← json.record? ["pos", "expr"]
    return .expr (← Pos.ofRecord? record) (← record.required "expr" nodes.expr)
  | "IncDec" => do
    let record ← json.record? ["pos", "op", "expr"]
    return .incDec (← Pos.ofRecord? record) (← record.required "op" IncDecOp.ofJson?)
      (← record.required "expr" nodes.expr)
  | "Assign" => do
    let record ← json.record? ["pos", "op", "lhs", "rhs"]
    return .assign (← Pos.ofRecord? record) (← record.required "op" AssignOp.ofJson?)
      (← record.required "lhs" (Json.list? nodes.expr))
      (← record.required "rhs" (Json.list? nodes.expr))
  | "Return" => do
    let record ← json.record? ["pos", "result"]
    return .ret (← Pos.ofRecord? record) (← record.optional "result" nodes.expr)
  | "Branch" => do
    let record ← json.record? ["pos", "op"]
    return .branch (← Pos.ofRecord? record) (← record.required "op" BranchOp.ofJson?)
  | "Block" => return .block (← nodes.block? json)
  | "If" => do
    let record ← json.record? ["pos", "init", "cond", "body", "else"]
    return .ifElse (← Pos.ofRecord? record) (← record.optional "init" nodes.stmt)
      (← record.required "cond" nodes.expr) (← record.required "body" nodes.block?)
      (← record.optional "else" nodes.stmt)
  | "For" => do
    let record ← json.record? ["pos", "init", "cond", "post", "body"]
    return .loop (← Pos.ofRecord? record) (← record.optional "init" nodes.stmt)
      (← record.optional "cond" nodes.expr) (← record.optional "post" nodes.stmt)
      (← record.required "body" nodes.block?)
  | "ForIn" => do
    let record ← json.record? ["pos", "key", "value", "iterable", "body"]
    return .forIn (← Pos.ofRecord? record) (← record.optional "key" Ident.ofJson?)
      (← record.required "value" Ident.ofJson?) (← record.required "iterable" nodes.expr)
      (← record.required "body" nodes.block?)
  | "Export" => do
    let record ← json.record? ["pos", "result"]
    return .exportValue (← Pos.ofRecord? record) (← record.required "result" nodes.expr)
  | _ => none

/-- Readers for nodes that may stand one level above `nodes`. -/
def above : NodeReaders where
  expr json := json.tagged?.bind fun (tag, record) => nodes.exprOfTag? tag record
  stmt json := json.tagged?.bind fun (tag, record) => nodes.stmtOfTag? tag record

/-- Readers for nodes of at most `levels` levels. -/
def ofLevels : Nat → NodeReaders
  | 0 => ⟨fun _ => none, fun _ => none⟩
  | levels + 1 => (ofLevels levels).above

end NodeReaders

/-- How deep the arrays and objects of a tree may nest. -/
def maxDepth : Nat := 127

def Expr.ofJson? (json : Json) : Option Expr :=
  if json.depth ≤ maxDepth then (NodeReaders.ofLevels maxDepth).expr json else none

def File.ofJson? (json : Json) : Option File :=
  if json.depth ≤ maxDepth then do
    let record ← json.record? ["stmts"]
    let stmts ← record.defaulted "stmts" []
      (Json.list? (NodeReaders.ofLevels maxDepth).stmt)
    return { stmts }
  else none

end LuaBackend.Script
