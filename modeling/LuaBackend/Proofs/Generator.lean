import LuaBackend.Proofs.PrintedText

/-!
# Conversion in one walk

A script is converted by an analysis of its tree and a printer of its code, which know nothing of
each other.  A generator does both at once: it walks the tree one time, with one state that it
changes as it goes, and stops at the first fault.  The state holds what the analysis keeps, the
indentation of the next line and the number of loops around.

Frames, indentation and loops are opened around a part of the walk and closed behind it, also when
that part ends in a fault (`Walk.between`).  Nothing but moves changes the state, and a walk keeps a
record of its moves, each with the state that it was made in.
-/

namespace LuaBackend

open Script

/-- The state of a walk. -/
structure Generator where
  analysis : Analysis.State
  /-- The indentation of the next line. -/
  level : Nat := 0
  /-- The loops around, up to the next function. -/
  loops : Nat := 0
  /-- The loops around each open function, set aside while the function is open; the innermost
  function comes first. -/
  outerLoops : List Nat := []
deriving DecidableEq, Repr, Inhabited

namespace Generator

def initial (binding : Binding) : Generator where
  analysis := .initial binding

def scope (generator : Generator) : Scope := generator.analysis.scope

def support (generator : Generator) : Support := generator.analysis.support

/-- What the text of a statement depends on besides the statement: its indentation, the loops around
it and how the names of its frame are emitted. -/
structure Setting where
  level : Nat
  loops : Nat
  binding : Binding
deriving DecidableEq, Repr, Inhabited

def setting (generator : Generator) : Setting where
  level := generator.level
  loops := generator.loops
  binding := Scope.bindingAt generator.scope.rootBinding generator.scope.outer.length

inductive Move where
  | event (event : Event)
  | indent
  | outdent
  | enterLoop
  | leaveLoop
  | enterFunction
  | leaveFunction
deriving DecidableEq, Repr, Inhabited

def step (generator : Generator) : Move → Except Fault Generator
  | .event event => (generator.analysis.step event).map fun analysis => { generator with analysis }
  | .indent => .ok { generator with level := generator.level + 1 }
  | .outdent => .ok { generator with level := generator.level - 1 }
  | .enterLoop => .ok { generator with loops := generator.loops + 1 }
  | .leaveLoop => .ok { generator with loops := generator.loops - 1 }
  | .enterFunction =>
    .ok { generator with loops := 0, outerLoops := generator.loops :: generator.outerLoops }
  | .leaveFunction =>
    match generator.outerLoops with
    | [] => .ok generator
    | loops :: outerLoops => .ok { generator with loops, outerLoops }

/-- A move and the state that it is made in. -/
structure Moment where
  move : Move
  state : Generator
deriving DecidableEq, Repr, Inhabited

/-- The end of a walk, behind all its moves. -/
structure Outcome (α : Type) where
  moments : List Moment
  state : Generator
  result : Except Fault α

end Generator

open Generator

/-! ## Walks -/

def Walk (α : Type) : Type := Generator → Outcome α

namespace Walk

variable {α : Type}

instance : Monad Walk where
  pure a := fun generator => ⟨[], generator, .ok a⟩
  bind walk next := fun generator =>
    let first := walk generator
    match first.result with
    | .ok a =>
      let second := next a first.state
      { second with moments := first.moments ++ second.moments }
    | .error fault => ⟨first.moments, first.state, .error fault⟩

def act (move : Move) : Walk Unit := fun generator =>
  match generator.step move with
  | .ok next => ⟨[⟨move, generator⟩], next, .ok ()⟩
  | .error fault => ⟨[⟨move, generator⟩], generator, .error fault⟩

def event (event : Event) : Walk Unit := act (.event event)

def refuse (fault : Fault) : Walk α := fun generator => ⟨[], generator, .error fault⟩

/-- A look at the setting. -/
def query (f : Setting → α) : Walk α := fun generator => ⟨[], generator, .ok (f generator.setting)⟩

/-- Makes a move in front of a walk and another one behind it, however the walk ends. -/
def between (opening closing : Move) (walk : Walk α) : Walk α := fun generator =>
  let opened := act opening generator
  let inner := walk opened.state
  let closed := act closing inner.state
  ⟨opened.moments ++ (inner.moments ++ closed.moments), closed.state, inner.result⟩

def inFrame (kind : FrameKind) (walk : Walk α) : Walk α :=
  between (.event (.enter kind)) (.event .leave) walk

def indented (walk : Walk α) : Walk α := between .indent .outdent walk

def inLoop (walk : Walk α) : Walk α := between .enterLoop .leaveLoop walk

def inFunction (walk : Walk α) : Walk α := between .enterFunction .leaveFunction walk

def line (indent content : String) : Walk String :=
  query fun setting => Lua.printLine indent setting.level content

def lineIf (present : Bool) (indent content : String) : Walk String :=
  if present then line indent content else pure ""

def needIf (p : Prop) [Decidable p] (snippet : Snippet) : Walk Unit :=
  if p then event (.need snippet) else pure ()

/-! ## Names -/

/-- Binds a name and says how it is emitted. -/
def declare (id : Ident) : Walk Binding := do
  event (.declare id)
  query Setting.binding

def declareAll : List Ident → Walk Unit
  | [] => pure ()
  | id :: ids => do
    event (.declare id)
    declareAll ids

/-- The name of a variable of a loop over a container; a variable that is left out or discarded is
not bound. -/
def loopVariable : Option Ident → Walk String
  | none => return Names.discard
  | some id =>
    if id.name = Names.discard then return Names.discard
    else do
      event (.declare id)
      return id.name

/-- A definition, given the walk over its value.  A function is bound before its body. -/
def define (indent : String) (pos : Pos) (target value : Expr) (walkValue : Walk String) :
    Walk String :=
  match target with
  | .ident id =>
    if value.isFunction then do
      let binding ← declare id
      let right ← walkValue
      match binding with
      | .global => line indent (id.name ++ " = " ++ right)
      | .lexical => line indent ("local " ++ id.name ++ "; " ++ id.name ++ " = " ++ right)
    else do
      event (.fresh id)
      let right ← walkValue
      let binding ← declare id
      match binding with
      | .global => line indent (id.name ++ " = " ++ right)
      | .lexical => line indent ("local " ++ id.name ++ " = " ++ right)
  | .selector .. | .index .. => refuse ⟨pos, .defineWithSelector⟩
  | _ => refuse ⟨pos, .invalidTarget⟩

/-! ## Loops -/

/-- The body of a loop, run once.  A body that can be run to its end sets the flag there. -/
def guarded (indent flag : String) (fallsThrough : Bool) (walkBody : Walk String) :
    Walk String := do
  let declared ← line indent ("local " ++ flag ++ " = " ++ "false")
  let head ← line indent "repeat"
  let inner ← indented <| inFrame .block do
    let body ← walkBody
    let done ← lineIf fallsThrough indent (flag ++ " = " ++ "true")
    return body ++ done
  let foot ← line indent ("until " ++ "true")
  return declared ++ head ++ inner ++ foot

def breakUnless (indent flag : String) : Walk String :=
  line indent ("if " ++ "not " ++ flag ++ " then " ++ "break" ++ " end")

/-- The post step of a loop, behind the test of the flag. -/
def afterRound (indent flag : String) : Option (Walk String) → Walk String
  | none => breakUnless indent flag
  | some walkPost => do
    let head ← line indent ("if " ++ flag ++ " then")
    let post ← indented walkPost
    let otherwise ← line indent "else"
    let leave ← indented (line indent "break")
    let foot ← line indent "end"
    return head ++ post ++ otherwise ++ leave ++ foot

/-- One round of a loop: its body and what is done behind it, given the flag of the loop. -/
def round (indent : String) (fallsThrough : Bool) (walkBody : Walk String)
    (walkNext : String → Walk String) : Walk String :=
  inLoop <| indented do
    let flag ← query fun setting => Names.continueFlag setting.loops
    let body ← guarded indent flag fallsThrough walkBody
    let next ← walkNext flag
    return body ++ next

/-- A head, an indented part and a last line. -/
def enclosed (indent head : String) (walk : Walk String) : Walk String := do
  let head ← line indent head
  let inner ← walk
  let foot ← line indent "end"
  return head ++ inner ++ foot

/-- Both walks in a block if there is a first one. -/
def behind (indent : String) (walkFirst : Option (Walk String)) (walk : Walk String) :
    Walk String :=
  match walkFirst with
  | none => walk
  | some walkFirst =>
    enclosed indent "do" <| indented do
      let first ← walkFirst
      let text ← walk
      return first ++ text

def whileLoop (indent : String) (fallsThrough : Bool) (walkTest walkBody : Walk String)
    (walkPost : Option (Walk String)) : Walk String := do
  let test ← walkTest
  enclosed indent ("while " ++ test ++ " do")
    (round indent fallsThrough walkBody fun flag => afterRound indent flag walkPost)

end Walk

open Walk

namespace Script

/-! ## Operators -/

def BinaryOp.luaSpelling : BinaryOp → String
  | .logicalAnd => "and"
  | .logicalOr => "or"
  | .notEqual => "~="
  | op => op.spelling

def IncDecOp.sign : IncDecOp → String
  | .inc => "+"
  | .dec => "-"

/-- The sign of a compound assignment. -/
def AssignOp.sign? : AssignOp → Option String
  | .add => some "+"
  | .sub => some "-"
  | .mul => some "*"
  | .quo => some "/"
  | .rem => some "%"
  | _ => none

def bracketed (text : String) : String := "(" ++ text ++ ")"

/-! ## Trees -/

mutual

def Expr.walk (indent : String) : Expr → Walk String
  | .ident id => do
    event (.read id)
    return id.name
  | .int _ literal | .float _ literal => return literal
  | .bool _ value => return if value then "true" else "false"
  | .str _ value => return Lua.quote value
  | .char pos _ => refuse ⟨pos, .charLiteral⟩
  | .undefined _ => return "nil"
  | .paren _ expr => do
    let inner ← expr.walk indent
    return bracketed inner
  | .binary pos op lhs rhs =>
    if op.isBitwise then refuse ⟨pos, .bitwiseOperator op⟩
    else do
      let left ← lhs.walk indent
      let right ← rhs.walk indent
      needIf (op = .add) (.helper .stringConcat)
      return bracketed (left ++ (" " ++ op.luaSpelling ++ " ") ++ right)
  | .unary pos op expr => do
    let operand ← expr.walk indent
    match op with
    | .not => return bracketed ("not " ++ bracketed operand)
    | .neg => return bracketed ("-" ++ bracketed operand)
    | .plus => return bracketed ("+" ++ bracketed operand)
    | .complement => refuse ⟨pos, .complement⟩
  | .selector _ expr field => do
    let base ← expr.walk indent
    return bracketed base ++ "[" ++ Lua.quote field ++ "]"
  | .index _ expr key => do
    let base ← expr.walk indent
    let key ← key.walk indent
    return bracketed base ++ "[" ++ key ++ "]"
  | .slice _ expr low high => do
    let base ← expr.walk indent
    let low ← Expr.walkOption indent "0" low
    let high ← Expr.walkOption indent "nil" high
    event (.need (.helper .slicing))
    return Names.slice ++ bracketed (base ++ ", " ++ low ++ ", " ++ high)
  | .cond _ test whenTrue whenFalse => do
    let test ← test.walk indent
    let whenTrue ← whenTrue.walk indent
    let whenFalse ← whenFalse.walk indent
    return bracketed ("function() if " ++ test ++ " then return " ++ bracketed whenTrue ++
      " else return " ++ bracketed whenFalse ++ " end end") ++ "()"
  | .call _ callee args => do
    let callee ← callee.walk indent
    let args ← Expr.walkList indent args
    return callee ++ bracketed (", ".intercalate args)
  | .array _ [] => return "\x7b[0]=nil, __a=true\x7d"
  | .array _ elements => do
    let items ← Expr.walkList indent elements
    return "\x7b[0]=" ++ ", ".intercalate (items.map bracketed) ++ ", __a=true\x7d"
  | .map _ elements => do
    let entries ← MapElement.walkList indent elements
    return "\x7b" ++ ", ".intercalate entries ++ "\x7d"
  | .func _ params body =>
    inFunction <| inFrame .function do
      declareAll params
      let body ← indented (body.walk indent)
      let foot ← query fun setting => String.join (List.replicate setting.level indent) ++ "end"
      return Lua.functionHead (params.map Ident.name) ++ "\n" ++ body ++ foot
  | .importModule pos _ => refuse ⟨pos, .importExpr⟩
  | .error pos _ => refuse ⟨pos, .errorExpr⟩
  | .immutable pos _ => refuse ⟨pos, .immutableExpr⟩

def Expr.walkOption (indent default : String) : Option Expr → Walk String
  | none => return default
  | some expr => expr.walk indent

def Expr.walkList (indent : String) : List Expr → Walk (List String)
  | [] => return []
  | expr :: exprs => do
    let first ← expr.walk indent
    let others ← Expr.walkList indent exprs
    return first :: others

def MapElement.walkList (indent : String) : List MapElement → Walk (List String)
  | [] => return []
  | ⟨_, key, value⟩ :: elements => do
    let first ← value.walk indent
    let others ← MapElement.walkList indent elements
    return ("[" ++ Lua.quote key ++ "]=" ++ bracketed first) :: others

def Expr.walkReturn (indent : String) : Option Expr → Walk String
  | none => return "return"
  | some expr => do
    let value ← expr.walk indent
    return "return " ++ bracketed value

def Stmt.walk (indent : String) : Stmt → Walk String
  | .expr _ expr => do
    let text ← expr.walk indent
    line indent text
  | .incDec pos op target => do
    event (.ofTarget pos target)
    let text ← target.walk indent
    line indent (text ++ " = " ++ bracketed (text ++ (" " ++ op.sign ++ " ") ++ "1"))
  | .assign pos op [target] [value] =>
    if op = .define then define indent pos target value (value.walk indent)
    else if op.isBitwise then refuse ⟨pos, .bitwiseAssignment op⟩
    else do
      event (.ofTarget pos target)
      let left ← target.walk indent
      let right ← value.walk indent
      needIf (op = .add) (.helper .stringConcat)
      line indent
        (match op.sign? with
          | none => left ++ " = " ++ right
          | some sign => left ++ " = " ++ bracketed (left ++ (" " ++ sign ++ " ") ++ right))
  | .assign pos _ _ _ => refuse ⟨pos, .tupleAssignment⟩
  | .ret _ result => do
    let text ← Expr.walkReturn indent result
    line indent text
  | .branch pos op => do
    let loops ← query Setting.loops
    if loops = 0 then refuse ⟨pos, .branchOutsideLoop op⟩
    else
      match op with
      | .break => line indent "break"
      | .continue => do
        let mark ← line indent (Names.continueFlag loops ++ " = " ++ "true")
        let leave ← line indent "break"
        return mark ++ leave
  | .block body => enclosed indent "do" (indented (inFrame .block (body.walk indent)))
  | .ifElse _ init test body rest =>
    enclosed indent "do" <| indented <| inFrame .block do
      let first ← (Stmt.walkOption indent init).getD (return "")
      let test ← test.walk indent
      let head ← line indent ("if " ++ test ++ " then")
      let body ← indented (inFrame .block (body.walk indent))
      let rest ← Stmt.walkElse indent rest
      let foot ← line indent "end"
      return first ++ head ++ body ++ rest ++ foot
  | .loop _ init test post body =>
    inFrame .block <| behind indent (Stmt.walkOption indent init) <|
      whileLoop indent body.fallsThrough (Expr.walkOption indent "true" test) (body.walk indent)
        (Stmt.walkOption indent post)
  | .forIn _ key value iterable body => do
    let iterable ← iterable.walk indent
    event (.need (.helper .iterator))
    inFrame .block do
      let key ← loopVariable key
      let value ← loopVariable (some value)
      enclosed indent
        ("for " ++ (key ++ ", " ++ value) ++ " in " ++ Names.iterate ++ bracketed iterable ++ " do")
        (round indent body.fallsThrough (body.walk indent) fun flag => breakUnless indent flag)
  | .exportValue pos _ => refuse ⟨pos, .exportStmt⟩

def Stmt.walkOption (indent : String) : Option Stmt → Option (Walk String)
  | none => none
  | some stmt => some (stmt.walk indent)

/-- What follows the first branch of an `if`. -/
def Stmt.walkElse (indent : String) : Option Stmt → Walk String
  | none => return ""
  | some (.ifElse _ none test body rest) => do
    let test ← test.walk indent
    let head ← line indent ("elseif " ++ test ++ " then")
    let body ← indented (inFrame .block (body.walk indent))
    let rest ← Stmt.walkElse indent rest
    return head ++ body ++ rest
  | some (.block body) => do
    let head ← line indent "else"
    let body ← indented (inFrame .block (body.walk indent))
    return head ++ body
  | some stmt => do
    let head ← line indent "else"
    let body ← indented (inFrame .block (stmt.walk indent))
    return head ++ body

/-- The statements of a block.  A return that is followed by more gets a block of its own. -/
def Stmt.walkList (indent : String) : List Stmt → Walk String
  | [] => return ""
  | .ret _ result :: next :: stmts => do
    let text ← Expr.walkReturn indent result
    let first ← line indent ("do " ++ text ++ " end")
    let others ← Stmt.walkList indent (next :: stmts)
    return first ++ others
  | stmt :: stmts => do
    let first ← stmt.walk indent
    let others ← Stmt.walkList indent stmts
    return first ++ others

def Block.walk (indent : String) : Block → Walk String
  | ⟨_, stmts⟩ => Stmt.walkList indent stmts

end

/-- The conversion of a script in one walk. -/
def File.generate (options : Options) (file : File) : Conversion :=
  let outcome := Stmt.walkList options.indent file.stmts (.initial options.binding)
  let log :=
    .starting file.stmts.length :: outcome.state.analysis.captures.map LogEntry.capture
  match outcome.result with
  | .error fault => ⟨log, .error fault⟩
  | .ok body =>
    let support := outcome.state.support
    let text := support.text ++ body
    let bytes := text.utf8ByteSize
    ⟨log ++
        if support.isEmpty then [.withoutSupport bytes] else [.withSupport support, .generated bytes],
      .ok text⟩

end Script

end LuaBackend
