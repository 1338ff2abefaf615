import LuaBackend.Lua.Code
import LuaBackend.Lua.Printer
import LuaBackend.Proofs.LuaParser

/-!
# Code that can be read

For a piece of Lua code: the tokens it is written with, the syntax tree that it stands for, and when
its text can be read as that tree.  The conditions are those that the text alone does not secure:
that names and numerals are such, that operands are bracketed, that what is indexed or called is a
prefix expression, and that nothing follows a `return` in its block.
-/

namespace LuaBackend.Lua

/-! ## Tokens -/

def UnaryOp.token : UnaryOp → Token
  | .not => .keyword .not
  | .neg => .symbol .minus
  | .plus => .symbol .plus

def BinaryOp.token : BinaryOp → Token
  | .add => .symbol .plus
  | .sub => .symbol .minus
  | .mul => .symbol .star
  | .div => .symbol .slash
  | .mod => .symbol .percent
  | .eq => .symbol .equal
  | .ne => .symbol .notEqual
  | .lt => .symbol .less
  | .gt => .symbol .greater
  | .le => .symbol .lessEqual
  | .ge => .symbol .greaterEqual
  | .and => .keyword .and
  | .or => .keyword .or

/-- The text of the expression begins with a parenthesis. -/
def Expr.opensParen : Expr → Bool
  | .paren _ => true
  | .binary _ lhs _ => lhs.opensParen
  | .index expr _ => expr.opensParen
  | .call callee _ => callee.opensParen
  | _ => false

/-- The semicolon in front of a line that begins with the expression. -/
def Expr.separator (expr : Expr) : List Token :=
  if expr.opensParen then [.symbol .semicolon] else []

/-- Names with commas between them. -/
def nameTokens : List String → List Token
  | [] => []
  | [name] => [.name name]
  | name :: names => .name name :: .symbol .comma :: nameTokens names

mutual

def Expr.tokens : Expr → List Token
  | .nil => [.keyword .nil]
  | .bool true => [.keyword .true]
  | .bool false => [.keyword .false]
  | .numeral text => [.numeral text]
  | .str value => [.str (value.toList.flatMap charBytes)]
  | .name name => [.name name]
  | .paren expr => [.symbol .leftParen] ++ expr.tokens ++ [.symbol .rightParen]
  | .unary op expr => [op.token] ++ expr.tokens
  | .binary op lhs rhs => lhs.tokens ++ [op.token] ++ rhs.tokens
  | .index expr key =>
    expr.tokens ++ [.symbol .leftBracket] ++ key.tokens ++ [.symbol .rightBracket]
  | .call callee args =>
    callee.tokens ++ [.symbol .leftParen] ++ Expr.tokensList args ++ [.symbol .rightParen]
  | .table fields => [.symbol .leftBrace] ++ Field.tokensList fields ++ [.symbol .rightBrace]
  | .func _ params body =>
    [.keyword .function, .symbol .leftParen] ++ nameTokens params ++ [.symbol .rightParen] ++
      Stmt.tokensList body ++ [.keyword .end]

def Expr.tokensList : List Expr → List Token
  | [] => []
  | [expr] => expr.tokens
  | expr :: exprs => expr.tokens ++ [.symbol .comma] ++ Expr.tokensList exprs

def Field.tokens : Field → List Token
  | .item value => value.tokens
  | .keyed key value =>
    [.symbol .leftBracket] ++ key.tokens ++ [.symbol .rightBracket, .symbol .assign] ++ value.tokens
  | .named name value => [.name name, .symbol .assign] ++ value.tokens

def Field.tokensList : List Field → List Token
  | [] => []
  | [field] => field.tokens
  | field :: fields => field.tokens ++ [.symbol .comma] ++ Field.tokensList fields

def Stmt.tokens : Stmt → List Token
  | .expr expr => expr.separator ++ expr.tokens
  | .assign target value => target.separator ++ (target.tokens ++ [.symbol .assign] ++ value.tokens)
  | .localVar name value => [.keyword .local, .name name, .symbol .assign] ++ value.tokens
  | .localRec name value =>
    [.keyword .local, .name name, .symbol .semicolon, .name name, .symbol .assign] ++ value.tokens
  | .ret none => [.keyword .return]
  | .ret (some value) => [.keyword .return] ++ value.tokens
  | .break => [.keyword .break]
  | .block _ body => [.keyword .do] ++ Stmt.tokensList body ++ [.keyword .end]
  | .cond _ test body rest =>
    [.keyword .if] ++ test.tokens ++ [.keyword .then] ++ Stmt.tokensList body ++ rest.tokens ++
      [.keyword .end]
  | .whileLoop test body =>
    [.keyword .while] ++ test.tokens ++ [.keyword .do] ++ Stmt.tokensList body ++ [.keyword .end]
  | .repeatLoop body test =>
    [.keyword .repeat] ++ Stmt.tokensList body ++ [.keyword .until] ++ test.tokens
  | .forIn names iterator body =>
    [.keyword .for] ++ nameTokens names ++ [.keyword .in] ++ iterator.tokens ++ [.keyword .do] ++
      Stmt.tokensList body ++ [.keyword .end]

def Stmt.tokensList : List Stmt → List Token
  | [] => []
  | stmt :: stmts => stmt.tokens ++ Stmt.tokensList stmts

def Else.tokens : Else → List Token
  | .absent => []
  | .otherwise body => [.keyword .else] ++ Stmt.tokensList body
  | .elseIf test body rest =>
    [.keyword .elseif] ++ test.tokens ++ [.keyword .then] ++ Stmt.tokensList body ++ rest.tokens

end

/-! ## Trees -/

/-- The operator of Lua, which has none for a leading `+`. -/
def UnaryOp.parsed? : UnaryOp → Option Parsed.UnaryOp
  | .not => some .not
  | .neg => some .neg
  | .plus => none

def BinaryOp.parsed : BinaryOp → Parsed.BinaryOp
  | .add => .add
  | .sub => .sub
  | .mul => .mul
  | .div => .div
  | .mod => .mod
  | .eq => .eq
  | .ne => .ne
  | .lt => .lt
  | .gt => .gt
  | .le => .le
  | .ge => .ge
  | .and => .and
  | .or => .or

mutual

def Expr.parsed : Expr → Parsed.Expr
  | .nil => .nil
  | .bool value => .bool value
  | .numeral text => .numeral text
  | .str value => .str (value.toList.flatMap charBytes)
  | .name name => .name name
  | .paren expr => .paren expr.parsed
  | .unary op expr =>
    match op.parsed? with
    | some op => .unary op expr.parsed
    | none => expr.parsed
  | .binary op lhs rhs => .binary op.parsed lhs.parsed rhs.parsed
  | .index expr key => .index expr.parsed key.parsed
  | .call callee args => .call callee.parsed (Expr.parsedList args)
  | .table fields => .table (Field.parsedList fields)
  | .func _ params body => .func params false (Stmt.parsedBlock body)

def Expr.parsedList : List Expr → List Parsed.Expr
  | [] => []
  | expr :: exprs => expr.parsed :: Expr.parsedList exprs

def Field.parsed : Field → Parsed.Field
  | .item value => .item value.parsed
  | .keyed key value => .keyed key.parsed value.parsed
  | .named name value => .named name value.parsed

def Field.parsedList : List Field → List Parsed.Field
  | [] => []
  | field :: fields => field.parsed :: Field.parsedList fields

/-- The block that a statement and the block behind it make; behind a `return` there is none. -/
def Stmt.parsed (next : Parsed.Block) : Stmt → Parsed.Block
  | .expr expr => next.cons (.call expr.parsed)
  | .assign target value => next.cons (.assign [target.parsed] [value.parsed])
  | .localVar name value => next.cons (.local [name] [value.parsed])
  | .localRec name value =>
    (next.cons (.assign [.name name] [value.parsed])).cons (.local [name] [])
  | .ret none => ⟨[], some []⟩
  | .ret (some value) => ⟨[], some [value.parsed]⟩
  | .break => next.cons .break
  | .block _ body => next.cons (.block (Stmt.parsedBlock body))
  | .cond _ test body rest => next.cons (.cond test.parsed (Stmt.parsedBlock body) rest.parsed)
  | .whileLoop test body => next.cons (.while test.parsed (Stmt.parsedBlock body))
  | .repeatLoop body test => next.cons (.repeat (Stmt.parsedBlock body) test.parsed)
  | .forIn names iterator body =>
    next.cons (.forIn names [iterator.parsed] (Stmt.parsedBlock body))

def Stmt.parsedBlock : List Stmt → Parsed.Block
  | [] => ⟨[], none⟩
  | stmt :: stmts => stmt.parsed (Stmt.parsedBlock stmts)

def Else.parsed : Else → Parsed.Else
  | .absent => .absent
  | .otherwise body => .otherwise (Stmt.parsedBlock body)
  | .elseIf test body rest => .elseIf test.parsed (Stmt.parsedBlock body) rest.parsed

end

/-! ## Readable code -/

/-- A prefix expression, which can be indexed and called. -/
def Expr.isPrefixExpr : Expr → Bool
  | .name _ | .paren _ | .index .. | .call .. => true
  | _ => false

/-- An expression that no operator can pull apart. -/
def Expr.isOperand : Expr → Bool
  | .unary .. | .binary .. => false
  | _ => true

def Expr.isCall : Expr → Bool
  | .call .. => true
  | _ => false

/-- An expression that can be assigned to. -/
def Expr.isTarget : Expr → Bool
  | .name _ | .index .. => true
  | _ => false

def Stmt.isRet : Stmt → Bool
  | .ret _ => true
  | _ => false

/-- Within a line nothing separates statements, so none may begin with a parenthesis. -/
def Style.Separates (style : Style) (first : Expr) : Prop :=
  style = .inline → first.opensParen = false

mutual

def Expr.Readable : Expr → Prop
  | .nil | .bool _ | .str _ => True
  | .numeral text => isNumeral text
  | .name name => isName name
  | .paren expr => expr.Readable
  | .unary op expr => op ≠ .plus ∧ expr.isOperand ∧ expr.Readable
  | .binary _ lhs rhs => lhs.isOperand ∧ lhs.Readable ∧ rhs.isOperand ∧ rhs.Readable
  | .index expr key => expr.isPrefixExpr ∧ expr.Readable ∧ key.Readable
  | .call callee args => callee.isPrefixExpr ∧ callee.Readable ∧ Expr.ListReadable args
  | .table fields => Field.ListReadable fields
  | .func style params body => (∀ name ∈ params, isName name) ∧ Stmt.ListReadable style body

def Expr.ListReadable : List Expr → Prop
  | [] => True
  | expr :: exprs => expr.Readable ∧ Expr.ListReadable exprs

def Field.Readable : Field → Prop
  -- A name could be taken for that of a field.
  | .item value => value.opensParen ∧ value.Readable
  | .keyed key value => key.Readable ∧ value.Readable
  | .named name value => isName name ∧ value.Readable

def Field.ListReadable : List Field → Prop
  | [] => True
  | field :: fields => field.Readable ∧ Field.ListReadable fields

def Stmt.Readable (style : Style) : Stmt → Prop
  | .expr expr => style.Separates expr ∧ expr.isCall ∧ expr.Readable
  | .assign target value =>
    style.Separates target ∧ target.isTarget ∧ target.Readable ∧ value.Readable
  | .localVar name value | .localRec name value => isName name ∧ value.Readable
  | .ret none | .break => True
  | .ret (some value) => value.Readable
  | .block own body => Stmt.ListReadable (style.inside own) body
  | .cond own test body rest =>
    test.Readable ∧ Stmt.ListReadable (style.inside own) body ∧ rest.Readable (style.inside own)
  | .whileLoop test body | .repeatLoop body test => test.Readable ∧ Stmt.ListReadable style body
  | .forIn names iterator body =>
    names ≠ [] ∧ (∀ name ∈ names, isName name) ∧ iterator.Readable ∧ Stmt.ListReadable style body

/-- Only the last statement of a block can be a `return`. -/
def Stmt.ListReadable (style : Style) : List Stmt → Prop
  | [] => True
  | stmt :: stmts =>
    stmt.Readable style ∧ (stmt.isRet → stmts = []) ∧ Stmt.ListReadable style stmts

def Else.Readable (style : Style) : Else → Prop
  | .absent => True
  | .otherwise body => Stmt.ListReadable style body
  | .elseIf test body rest =>
    test.Readable ∧ Stmt.ListReadable style body ∧ rest.Readable style

end

end LuaBackend.Lua
