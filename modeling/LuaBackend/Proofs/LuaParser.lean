import LuaBackend.Proofs.LuaTokens

/-!
# The grammar of Lua

A reader of whole chunks by the grammar of Lua 5.2.  It goes from left to right and decides by the
next token, as Lua does: an expression takes every suffix and every operator that can still belong
to it, wherever the line ends, and a `return` is the last statement of its block.
-/

namespace LuaBackend.Lua.Parsed

/-! ## Syntax trees -/

inductive UnaryOp where
  | not
  | neg
  | length
deriving DecidableEq, Repr

inductive BinaryOp where
  | or
  | and
  | lt
  | gt
  | le
  | ge
  | ne
  | eq
  | concat
  | add
  | sub
  | mul
  | div
  | mod
  | pow
deriving DecidableEq, Repr

mutual

inductive Expr where
  | nil
  | bool (value : Bool)
  | numeral (text : String)
  | str (bytes : List UInt8)
  | varargs
  | name (name : String)
  | paren (expr : Expr)
  | unary (op : UnaryOp) (expr : Expr)
  | binary (op : BinaryOp) (lhs rhs : Expr)
  | index (expr key : Expr)
  | call (callee : Expr) (args : List Expr)
  | method (expr : Expr) (name : String) (args : List Expr)
  | table (fields : List Field)
  | func (params : List String) (varargs : Bool) (body : Block)

inductive Field where
  | item (value : Expr)
  | keyed (key value : Expr)
  | named (name : String) (value : Expr)

inductive Stmt where
  | assign (targets values : List Expr)
  | call (expr : Expr)
  | label (name : String)
  | break
  | goto (name : String)
  | block (body : Block)
  | while (test : Expr) (body : Block)
  | repeat (body : Block) (test : Expr)
  | cond (test : Expr) (body : Block) (rest : Else)
  | count (name : String) (start stop : Expr) (step : Option Expr) (body : Block)
  | forIn (names : List String) (iterators : List Expr) (body : Block)
  | function (path : List String) (method : Option String) (body : Expr)
  | localFunction (name : String) (body : Expr)
  | local (names : List String) (values : List Expr)

/-- What follows the first branch of an `if`. -/
inductive Else where
  | absent
  | otherwise (body : Block)
  | elseIf (test : Expr) (body : Block) (rest : Else)

/-- Statements, and the values of the `return` that ends them if there is one. -/
structure Block where
  stmts : List Stmt
  result : Option (List Expr)

end

/-- A block with one more statement in front. -/
def Block.cons (block : Block) (stmt : Stmt) : Block := ⟨stmt :: block.stmts, block.result⟩

/-! ## Operators -/

def UnaryOp.ofToken? : Token → Option UnaryOp
  | .keyword .not => some .not
  | .symbol .minus => some .neg
  | .symbol .hash => some .length
  | _ => none

def BinaryOp.ofToken? : Token → Option BinaryOp
  | .keyword .or => some .or
  | .keyword .and => some .and
  | .symbol .less => some .lt
  | .symbol .greater => some .gt
  | .symbol .lessEqual => some .le
  | .symbol .greaterEqual => some .ge
  | .symbol .notEqual => some .ne
  | .symbol .equal => some .eq
  | .symbol .concat => some .concat
  | .symbol .plus => some .add
  | .symbol .minus => some .sub
  | .symbol .star => some .mul
  | .symbol .slash => some .div
  | .symbol .percent => some .mod
  | .symbol .caret => some .pow
  | _ => none

/-- How tightly an operator binds to its left and to its right. -/
def BinaryOp.priority : BinaryOp → Nat × Nat
  | .or => (1, 1)
  | .and => (2, 2)
  | .lt | .gt | .le | .ge | .ne | .eq => (3, 3)
  | .concat => (5, 4)
  | .add | .sub => (6, 6)
  | .mul | .div | .mod => (7, 7)
  | .pow => (10, 9)

/-- How tightly the operators with one operand bind. -/
def UnaryOp.priority : Nat := 8

/-! ## The reader -/

def expect (token : Token) : List Token → Option (List Token)
  | [] => none
  | first :: tokens => if first = token then some tokens else none

/-- A block ends here, and with the text. -/
def endsBlock : Token → Bool
  | .keyword .end | .keyword .else | .keyword .elseif | .keyword .until => true
  | _ => false

/-- Names with commas between them. -/
def readNames : List Token → Option (List String × List Token)
  | .name name :: .symbol .comma :: tokens =>
    (readNames tokens).map fun (names, rest) => (name :: names, rest)
  | .name name :: tokens => some ([name], tokens)
  | _ => none

/-- One or more parameters, up to the closing parenthesis. -/
def readParamList : List Token → Option ((List String × Bool) × List Token)
  | .symbol .ellipsis :: .symbol .rightParen :: tokens => some (([], true), tokens)
  | .name name :: .symbol .rightParen :: tokens => some (([name], false), tokens)
  | .name name :: .symbol .comma :: tokens =>
    (readParamList tokens).map fun ((names, varargs), rest) => ((name :: names, varargs), rest)
  | _ => none

/-- The parameters of a function behind the opening parenthesis, up to the closing one. -/
def readParams : List Token → Option ((List String × Bool) × List Token)
  | .symbol .rightParen :: tokens => some (([], false), tokens)
  | tokens => readParamList tokens

/-! The readers call each other with one unit of fuel less and give up without any. -/

mutual

/-- An expression whose operators bind more tightly than `limit`. -/
@[simp] def readOperators (fuel limit : Nat) (tokens : List Token) : Option (Expr × List Token) :=
  match fuel with
  | 0 => none
  | fuel + 1 =>
    match tokens with
    | [] => none
    | token :: rest =>
      match UnaryOp.ofToken? token with
      | some op => do
        let (expr, rest) ← readOperators fuel UnaryOp.priority rest
        readBinary fuel limit (.unary op expr) rest
      | none => do
        let (expr, rest) ← readSimple fuel tokens
        readBinary fuel limit expr rest

/-- The operators that follow an expression. -/
@[simp] def readBinary (fuel limit : Nat) (lhs : Expr) (tokens : List Token) :
    Option (Expr × List Token) :=
  match fuel with
  | 0 => none
  | fuel + 1 =>
    match tokens with
    | [] => some (lhs, [])
    | token :: rest =>
      match BinaryOp.ofToken? token with
      | none => some (lhs, tokens)
      | some op =>
        if limit < op.priority.1 then do
          let (rhs, rest) ← readOperators fuel op.priority.2 rest
          readBinary fuel limit (.binary op lhs rhs) rest
        else some (lhs, tokens)

@[simp] def readSimple (fuel : Nat) (tokens : List Token) : Option (Expr × List Token) :=
  match fuel with
  | 0 => none
  | fuel + 1 =>
    match tokens with
    | .numeral text :: rest => some (.numeral text, rest)
    | .str bytes :: rest => some (.str bytes, rest)
    | .keyword .nil :: rest => some (.nil, rest)
    | .keyword .true :: rest => some (.bool true, rest)
    | .keyword .false :: rest => some (.bool false, rest)
    | .symbol .ellipsis :: rest => some (.varargs, rest)
    | .symbol .leftBrace :: rest => do
      let (fields, rest) ← readFields fuel rest
      return (.table fields, rest)
    | .keyword .function :: rest => readFunction fuel rest
    | _ => readSuffixed fuel tokens

/-- A name or an expression in parentheses, with all its suffixes. -/
@[simp] def readSuffixed (fuel : Nat) (tokens : List Token) : Option (Expr × List Token) :=
  match fuel with
  | 0 => none
  | fuel + 1 =>
    match tokens with
    | .name name :: rest => readSuffixes fuel (.name name) rest
    | .symbol .leftParen :: rest => do
      let (expr, rest) ← readOperators fuel 0 rest
      let rest ← expect (.symbol .rightParen) rest
      readSuffixes fuel (.paren expr) rest
    | _ => none

/-- Indexes, fields and calls, as many as there are. -/
@[simp] def readSuffixes (fuel : Nat) (expr : Expr) (tokens : List Token) :
    Option (Expr × List Token) :=
  match fuel with
  | 0 => none
  | fuel + 1 =>
    match tokens with
    | .symbol .leftBracket :: rest => do
      let (key, rest) ← readOperators fuel 0 rest
      let rest ← expect (.symbol .rightBracket) rest
      readSuffixes fuel (.index expr key) rest
    | .symbol .dot :: .name name :: rest =>
      readSuffixes fuel (.index expr (.str (name.toList.flatMap charBytes))) rest
    | .symbol .dot :: _ => none
    | .symbol .colon :: .name name :: rest => do
      let (args, rest) ← readArgs fuel rest
      readSuffixes fuel (.method expr name args) rest
    | .symbol .colon :: _ => none
    | .symbol .leftParen :: _ | .symbol .leftBrace :: _ | .str _ :: _ => do
      let (args, rest) ← readArgs fuel tokens
      readSuffixes fuel (.call expr args) rest
    | _ => some (expr, tokens)

@[simp] def readArgs (fuel : Nat) (tokens : List Token) : Option (List Expr × List Token) :=
  match fuel with
  | 0 => none
  | fuel + 1 =>
    match tokens with
    | .str bytes :: rest => some ([.str bytes], rest)
    | .symbol .leftBrace :: rest => do
      let (fields, rest) ← readFields fuel rest
      return ([.table fields], rest)
    | .symbol .leftParen :: .symbol .rightParen :: rest => some ([], rest)
    | .symbol .leftParen :: rest => do
      let (args, rest) ← readList fuel rest
      let rest ← expect (.symbol .rightParen) rest
      return (args, rest)
    | _ => none

/-- Expressions with commas between them. -/
@[simp] def readList (fuel : Nat) (tokens : List Token) : Option (List Expr × List Token) :=
  match fuel with
  | 0 => none
  | fuel + 1 => do
    let (expr, rest) ← readOperators fuel 0 tokens
    match rest with
    | .symbol .comma :: rest => do
      let (exprs, rest) ← readList fuel rest
      return (expr :: exprs, rest)
    | _ => return ([expr], rest)

/-- The fields of a table behind its opening brace, up to the closing one. -/
@[simp] def readFields (fuel : Nat) (tokens : List Token) : Option (List Field × List Token) :=
  match fuel with
  | 0 => none
  | fuel + 1 =>
    match tokens with
    | .symbol .rightBrace :: rest => some ([], rest)
    | _ => do
      let (field, rest) ← readField fuel tokens
      match rest with
      | .symbol .comma :: rest | .symbol .semicolon :: rest => do
        let (fields, rest) ← readFields fuel rest
        return (field :: fields, rest)
      | .symbol .rightBrace :: rest => return ([field], rest)
      | _ => none

@[simp] def readField (fuel : Nat) (tokens : List Token) : Option (Field × List Token) :=
  match fuel with
  | 0 => none
  | fuel + 1 =>
    match tokens with
    | .symbol .leftBracket :: rest => do
      let (key, rest) ← readOperators fuel 0 rest
      let rest ← expect (.symbol .rightBracket) rest
      let rest ← expect (.symbol .assign) rest
      let (value, rest) ← readOperators fuel 0 rest
      return (.keyed key value, rest)
    | .name name :: .symbol .assign :: rest => do
      let (value, rest) ← readOperators fuel 0 rest
      return (.named name value, rest)
    | _ => do
      let (value, rest) ← readOperators fuel 0 tokens
      return (.item value, rest)

/-- A function behind its keyword. -/
@[simp] def readFunction (fuel : Nat) (tokens : List Token) : Option (Expr × List Token) :=
  match fuel with
  | 0 => none
  | fuel + 1 => do
    let rest ← expect (.symbol .leftParen) tokens
    let ((params, varargs), rest) ← readParams rest
    let (body, rest) ← readBlock fuel rest
    let rest ← expect (.keyword .end) rest
    return (.func params varargs body, rest)

/-- The statements up to the end of a block. -/
@[simp] def readBlock (fuel : Nat) (tokens : List Token) : Option (Block × List Token) :=
  match fuel with
  | 0 => none
  | fuel + 1 =>
    match tokens with
    | [] => some (⟨[], none⟩, [])
    | .keyword .return :: rest => readReturn fuel rest
    | .symbol .semicolon :: rest => readBlock fuel rest
    | token :: rest =>
      if endsBlock token then some (⟨[], none⟩, token :: rest)
      else do
        let (stmt, rest) ← readStmt fuel (token :: rest)
        let (block, rest) ← readBlock fuel rest
        return (block.cons stmt, rest)

/-- The end of a block behind `return`. -/
@[simp] def readReturn (fuel : Nat) (tokens : List Token) : Option (Block × List Token) :=
  match fuel with
  | 0 => none
  | fuel + 1 =>
    match tokens with
    | [] => some (⟨[], some []⟩, [])
    | .symbol .semicolon :: rest => some (⟨[], some []⟩, rest)
    | token :: rest =>
      if endsBlock token then some (⟨[], some []⟩, token :: rest)
      else do
        let (values, rest) ← readList fuel (token :: rest)
        match rest with
        | .symbol .semicolon :: rest => return (⟨[], some values⟩, rest)
        | _ => return (⟨[], some values⟩, rest)

@[simp] def readStmt (fuel : Nat) (tokens : List Token) : Option (Stmt × List Token) :=
  match fuel with
  | 0 => none
  | fuel + 1 =>
    match tokens with
    | .keyword .if :: rest => do
      let (test, rest) ← readOperators fuel 0 rest
      let rest ← expect (.keyword .then) rest
      let (body, rest) ← readBlock fuel rest
      let (others, rest) ← readElse fuel rest
      return (.cond test body others, rest)
    | .keyword .while :: rest => do
      let (test, rest) ← readOperators fuel 0 rest
      let rest ← expect (.keyword .do) rest
      let (body, rest) ← readBlock fuel rest
      let rest ← expect (.keyword .end) rest
      return (.while test body, rest)
    | .keyword .do :: rest => do
      let (body, rest) ← readBlock fuel rest
      let rest ← expect (.keyword .end) rest
      return (.block body, rest)
    | .keyword .for :: rest => readFor fuel rest
    | .keyword .repeat :: rest => do
      let (body, rest) ← readBlock fuel rest
      let rest ← expect (.keyword .until) rest
      let (test, rest) ← readOperators fuel 0 rest
      return (.repeat body test, rest)
    | .keyword .function :: .name name :: rest => readNamed fuel [name] rest
    | .keyword .local :: .keyword .function :: .name name :: rest => do
      let (body, rest) ← readFunction fuel rest
      return (.localFunction name body, rest)
    | .keyword .local :: rest => do
      let (names, rest) ← readNames rest
      match rest with
      | .symbol .assign :: rest => do
        let (values, rest) ← readList fuel rest
        return (.local names values, rest)
      | _ => return (.local names [], rest)
    | .symbol .doubleColon :: .name name :: .symbol .doubleColon :: rest => some (.label name, rest)
    | .keyword .break :: rest => some (.break, rest)
    | .keyword .goto :: .name name :: rest => some (.goto name, rest)
    | _ => do
      let (expr, rest) ← readSuffixed fuel tokens
      readAssign fuel [expr] rest

/-- What follows the body of an `if`. -/
@[simp] def readElse (fuel : Nat) (tokens : List Token) : Option (Else × List Token) :=
  match fuel with
  | 0 => none
  | fuel + 1 =>
    match tokens with
    | .keyword .end :: rest => some (.absent, rest)
    | .keyword .else :: rest => do
      let (body, rest) ← readBlock fuel rest
      let rest ← expect (.keyword .end) rest
      return (.otherwise body, rest)
    | .keyword .elseif :: rest => do
      let (test, rest) ← readOperators fuel 0 rest
      let rest ← expect (.keyword .then) rest
      let (body, rest) ← readBlock fuel rest
      let (others, rest) ← readElse fuel rest
      return (.elseIf test body others, rest)
    | _ => none

/-- A loop behind `for`. -/
@[simp] def readFor (fuel : Nat) (tokens : List Token) : Option (Stmt × List Token) :=
  match fuel with
  | 0 => none
  | fuel + 1 =>
    match tokens with
    | .name name :: .symbol .assign :: rest => do
      let (bounds, rest) ← readList fuel rest
      let rest ← expect (.keyword .do) rest
      let (body, rest) ← readBlock fuel rest
      let rest ← expect (.keyword .end) rest
      match bounds with
      | [start, stop] => return (.count name start stop none body, rest)
      | [start, stop, step] => return (.count name start stop (some step) body, rest)
      | _ => none
    | _ => do
      let (names, rest) ← readNames tokens
      let rest ← expect (.keyword .in) rest
      let (iterators, rest) ← readList fuel rest
      let rest ← expect (.keyword .do) rest
      let (body, rest) ← readBlock fuel rest
      let rest ← expect (.keyword .end) rest
      return (.forIn names iterators body, rest)

/-- A function with a name, of which some parts have been read. -/
@[simp] def readNamed (fuel : Nat) (path : List String) (tokens : List Token) :
    Option (Stmt × List Token) :=
  match fuel with
  | 0 => none
  | fuel + 1 =>
    match tokens with
    | .symbol .dot :: .name name :: rest => readNamed fuel (path ++ [name]) rest
    | .symbol .colon :: .name name :: rest => do
      let (body, rest) ← readFunction fuel rest
      return (.function path (some name) body, rest)
    | _ => do
      let (body, rest) ← readFunction fuel tokens
      return (.function path none body, rest)

/-- A call, or an assignment to the expressions that were read; only names and indexes can be
assigned to, and only a call is a statement. -/
@[simp] def readAssign (fuel : Nat) (targets : List Expr) (tokens : List Token) :
    Option (Stmt × List Token) :=
  match fuel with
  | 0 => none
  | fuel + 1 =>
    let isTarget := fun
      | Expr.name _ | Expr.index .. => true
      | _ => false
    match tokens with
    | .symbol .comma :: rest => do
      let (expr, rest) ← readSuffixed fuel rest
      readAssign fuel (targets ++ [expr]) rest
    | .symbol .assign :: rest =>
      if targets.all isTarget then do
        let (values, rest) ← readList fuel rest
        return (.assign targets values, rest)
      else none
    | _ =>
      match targets with
      | [.call callee args] => some (.call (.call callee args), tokens)
      | [.method expr name args] => some (.call (.method expr name args), tokens)
      | _ => none

end

end Parsed

/-- Reads a text as a chunk of Lua.  No more than a few readers in a row take no token, so the fuel
does not run out before the tokens do. -/
def parse (text : String) : Option Parsed.Block := do
  let tokens ← lex text.toList
  match Parsed.readBlock (8 * (tokens.length + 1)) tokens with
  | some (block, []) => some block
  | _ => none

end LuaBackend.Lua
