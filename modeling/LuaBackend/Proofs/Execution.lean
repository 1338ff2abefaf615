import LuaBackend.Lowering

/-!
# Running scripts and code

Both languages are run over the same parts without control flow: conditions, plain statements,
returned values and iterators.  A `Meaning` gives each part, in its Lua form, any effect on an
unknown state.  What is fixed is the control flow: blocks, branches, loops, `break`, `continue`
and `return` of a script; `do`, `if`, `while`, `repeat`, `for`, `local`, `break` and `return` of
Lua.

The locals of the script are part of the unknown state.  The flags of the generator are not: the
code runs on a `Machine` that keeps them beside the state, in the scope of their blocks.
-/

namespace LuaBackend

/-! ## Behaviour -/

/-- How a run ends.  A failure stops the whole program. -/
inductive Ending where
  | normal
  | break
  | continue
  | return
  | failure
deriving DecidableEq, Repr, Inhabited

/-- The runs of a part that gives a value or fails. -/
abbrev Action (τ α : Type) := τ → Option α → τ → Prop

/-- The runs of a statement, from a state to an ending and a state. -/
abbrev Behaviour (τ : Type) := τ → Ending → τ → Prop

namespace Behaviour

variable {τ ι α : Type}

/-- Ends at once, and in this way. -/
def ends (ending : Ending) : Behaviour τ := fun s e s' => e = ending ∧ s' = s

def seq (first second : Behaviour τ) : Behaviour τ := fun s e s' =>
  (∃ middle, first s .normal middle ∧ second middle e s') ∨ (first s e s' ∧ e ≠ .normal)

/-- The behaviour that depends on the value of an action. -/
def after (action : Action τ α) (next : α → Behaviour τ) : Behaviour τ := fun s e s' =>
  (∃ value middle, action s (some value) middle ∧ next value middle e s') ∨
    (action s none s' ∧ e = .failure)

def choose (test : Action τ Bool) (whenTrue whenFalse : Behaviour τ) : Behaviour τ :=
  after test fun value => if value then whenTrue else whenFalse

/-- Rounds of `body`, each begun by `next` as long as it gives something to go on with. -/
inductive Loop (next : ι → Action τ (Option ι)) (body : Behaviour τ) : ι → Behaviour τ where
  | done {i s s'} (hnext : next i s (some none) s') : Loop next body i s .normal s'
  | failed {i s s'} (hnext : next i s none s') : Loop next body i s .failure s'
  | again {i j s m m' e s'} (hnext : next i s (some (some j)) m) (hbody : body m .normal m')
      (hloop : Loop next body j m' e s') : Loop next body i s e s'
  | broken {i j s m s'} (hnext : next i s (some (some j)) m) (hbody : body m .break s') :
      Loop next body i s .normal s'
  | left {i j s m e s'} (hnext : next i s (some (some j)) m) (hbody : body m e s')
      (hleaves : e = .return ∨ e = .failure) : Loop next body i s e s'

/-- Rounds as long as the test holds. -/
def whileLoop (test : Action τ Bool) (body : Behaviour τ) : Behaviour τ :=
  Loop (fun _ s result s' => test s (result.map Option.isSome) s') body ()

/-- A test that holds without looking at the state. -/
def always : Action τ Bool := fun s result s' => result = some true ∧ s' = s

/-- A loop over a container. -/
def overItems (start : Action τ ι) (next : ι → Action τ (Option ι)) (body : Behaviour τ) :
    Behaviour τ :=
  after start fun i => Loop next body i

/-- Where `continue` leads to the end of the body. -/
def catchContinue (body : Behaviour τ) : Behaviour τ := fun s e s' =>
  (body s e s' ∧ e ≠ .continue) ∨ (e = .normal ∧ body s .continue s')

end Behaviour

open Behaviour

/-! ## Lua -/

namespace Lua

/-- What the parts without control flow do; `ι` is where an iterator stands. -/
structure Meaning (σ ι : Type) where
  perform : Stmt → Action σ Unit
  test : Expr → Action σ Bool
  give : Option Expr → Action σ Unit
  start : Expr → Action σ ι
  /-- Binds the variables of the loop to the next item, if there is one. -/
  next : List String → ι → Action σ (Option ι)

/-- The statement makes the name a local from here on. -/
def Stmt.declares (name : String) : Stmt → Bool
  | .localVar own _ | .localRec own _ => own == name
  | _ => false

mutual

/-- The name occurs free in the expression. -/
def Expr.uses (name : String) : Expr → Bool
  | .nil | .bool _ | .numeral _ | .str _ => false
  | .name other => other == name
  | .paren expr | .unary _ expr => expr.uses name
  | .binary _ lhs rhs => lhs.uses name || rhs.uses name
  | .index expr key => expr.uses name || key.uses name
  | .call callee args => callee.uses name || Expr.listUses name args
  | .table fields => Field.listUses name fields
  | .func _ params body => !params.contains name && Stmt.listUses name body false

def Expr.listUses (name : String) : List Expr → Bool
  | [] => false
  | expr :: exprs => expr.uses name || Expr.listUses name exprs

def Field.uses (name : String) : Field → Bool
  | .item value | .named _ value => value.uses name
  | .keyed key value => key.uses name || value.uses name

def Field.listUses (name : String) : List Field → Bool
  | [] => false
  | field :: fields => field.uses name || Field.listUses name fields

def Stmt.uses (name : String) : Stmt → Bool
  | .expr expr => expr.uses name
  | .assign target value => target.uses name || value.uses name
  | .localVar _ value => value.uses name
  | .localRec own value => own != name && value.uses name
  | .ret none | .break => false
  | .ret (some value) => value.uses name
  | .block _ body => Stmt.listUses name body false
  | .cond _ test body rest => test.uses name || Stmt.listUses name body false || rest.uses name
  | .whileLoop test body => test.uses name || Stmt.listUses name body false
  | .repeatLoop body test => Stmt.listUses name body (test.uses name)
  | .forIn names iterator body =>
    iterator.uses name || (!names.contains name && Stmt.listUses name body false)

/-- The statements up to the end of a block; `last` tells whether the name occurs in what still
sees the locals of the block. -/
def Stmt.listUses (name : String) : List Stmt → Bool → Bool
  | [], last => last
  | stmt :: stmts, last =>
    stmt.uses name || (!stmt.declares name && Stmt.listUses name stmts last)

def Else.uses (name : String) : Else → Bool
  | .absent => false
  | .otherwise body => Stmt.listUses name body false
  | .elseIf test body rest => test.uses name || Stmt.listUses name body false || rest.uses name

end

/-- The statement refers to the name or declares it. -/
def Stmt.touches (name : String) (stmt : Stmt) : Bool := stmt.uses name || stmt.declares name

/-- The state of the script and the flags in scope, innermost first. -/
structure Machine (σ : Type) where
  state : σ
  flags : List (String × Bool)

namespace Machine

variable {σ : Type}

def declare (machine : Machine σ) (flag : String) (value : Bool) : Machine σ :=
  { machine with flags := (flag, value) :: machine.flags }

/-- Changes the innermost flag of this name. -/
def setFlag (flag : String) (value : Bool) : List (String × Bool) → List (String × Bool)
  | [] => []
  | (name, old) :: outer =>
    if name = flag then (name, value) :: outer else (name, old) :: setFlag flag value outer

def set (machine : Machine σ) (flag : String) (value : Bool) : Machine σ :=
  { machine with flags := setFlag flag value machine.flags }

/-- The flags of an inner block go out of scope. -/
def leave (outer inner : Machine σ) : Machine σ :=
  { inner with flags := inner.flags.drop (inner.flags.length - outer.flags.length) }

end Machine

/-- What an expression over flags says, if it is one. -/
def Expr.truth? (flags : List (String × Bool)) : Expr → Option Bool
  | .bool value => some value
  | .name flag => flags.lookup flag
  | .paren expr => expr.truth? flags
  | .unary .not expr => (expr.truth? flags).map not
  | _ => none

section

variable {σ ι α : Type} (meaning : Meaning σ ι)

/-- An action on the state alone.  Code that refers to a flag in some other way than to set or test
it may do anything. -/
def onState (refers : String → Bool) (action : Action σ α) : Action (Machine σ) α :=
  fun machine result machine' =>
    (∀ flag ∈ machine.flags, refers flag.1 = false) →
      action machine.state result machine'.state ∧ machine'.flags = machine.flags

/-- A truth value is known, and so is a flag. -/
def Expr.Tests (expr : Expr) : Action (Machine σ) Bool := fun machine result machine' =>
  match expr.truth? machine.flags with
  | some value => result = some value ∧ machine' = machine
  | none => onState (fun name => expr.uses name) (meaning.test expr) machine result machine'

/-- A statement without control flow. -/
def Stmt.Performs (stmt : Stmt) : Behaviour (Machine σ) :=
  after (onState (fun name => stmt.touches name) (meaning.perform stmt)) fun _ => ends .normal

/-- The body of a block. -/
def inBlock (body : Behaviour (Machine σ)) : Behaviour (Machine σ) := fun machine e machine' =>
  ∃ inner, body machine e inner ∧ machine' = machine.leave inner

mutual

def Stmt.Runs : Stmt → Behaviour (Machine σ)
  | .expr expr => (Stmt.expr expr).Performs meaning
  | .assign target value => fun machine e machine' =>
    match target, value with
    | .name flag, .bool value =>
      if (machine.flags.lookup flag).isSome then e = .normal ∧ machine' = machine.set flag value
      else (Stmt.assign (.name flag) (.bool value)).Performs meaning machine e machine'
    | _, _ => (Stmt.assign target value).Performs meaning machine e machine'
  | .localVar name value => fun machine e machine' =>
    match value with
    | .bool value =>
      if Names.isReserved name then e = .normal ∧ machine' = machine.declare name value
      else (Stmt.localVar name (.bool value)).Performs meaning machine e machine'
    | _ => (Stmt.localVar name value).Performs meaning machine e machine'
  | .localRec name value => (Stmt.localRec name value).Performs meaning
  | .ret value =>
    after (onState (fun name => (Stmt.ret value).uses name) (meaning.give value)) fun _ =>
      ends .return
  | .break => ends .break
  | .block _ body => inBlock (Stmt.ListRuns body)
  | .cond _ test body rest =>
    choose (test.Tests meaning) (inBlock (Stmt.ListRuns body)) rest.Runs
  | .whileLoop test body => whileLoop (test.Tests meaning) (inBlock (Stmt.ListRuns body))
  | .repeatLoop body test =>
    -- The test stands in the scope of the body.
    whileLoop always (inBlock (seq (Stmt.ListRuns body)
      (choose (test.Tests meaning) (ends .break) (ends .normal))))
  | .forIn names iterator body =>
    overItems (onState (fun name => iterator.uses name) (meaning.start iterator))
      (fun i => onState (fun name => names.contains name) (meaning.next names i))
      (inBlock (Stmt.ListRuns body))

def Stmt.ListRuns : List Stmt → Behaviour (Machine σ)
  | [] => ends .normal
  | stmt :: stmts => seq stmt.Runs (Stmt.ListRuns stmts)

def Else.Runs : Else → Behaviour (Machine σ)
  | .absent => ends .normal
  | .otherwise body => inBlock (Stmt.ListRuns body)
  | .elseIf test body rest =>
    choose (test.Tests meaning) (inBlock (Stmt.ListRuns body)) rest.Runs

end

end

end Lua

/-! ## Scripts -/

namespace Script

section

variable {σ ι : Type} (meaning : Lua.Meaning σ ι)

/-- A condition means what its code does where there is no flag. -/
def Expr.Tests (expr : Expr) : Action σ Bool := fun s result s' =>
  match expr.lower.truth? [] with
  | some value => result = some value ∧ s' = s
  | none => meaning.test expr.lower s result s'

def Expr.OptionTests : Option Expr → Action σ Bool
  | none => always
  | some expr => expr.Tests meaning

/-- A statement without control flow, too, means what its code does. -/
def Stmt.Performs (stmt : Stmt) : Behaviour σ :=
  (stmt.lower .lexical 0).foldr
    (fun code rest => seq (after (meaning.perform code) fun _ => ends .normal) rest) (ends .normal)

mutual

def Stmt.Runs : Stmt → Behaviour σ
  | .expr pos expr => (Stmt.expr pos expr).Performs meaning
  | .incDec pos op target => (Stmt.incDec pos op target).Performs meaning
  | .assign pos op lhs rhs => (Stmt.assign pos op lhs rhs).Performs meaning
  | .exportValue pos result => (Stmt.exportValue pos result).Performs meaning
  | .ret _ result =>
    after (meaning.give (result.map fun result => .paren result.lower)) fun _ => ends .return
  | .branch _ .break => ends .break
  | .branch _ .continue => ends .continue
  | .block body => body.Runs
  | .ifElse _ init test body rest =>
    seq (Stmt.OptionRuns init) (choose (test.Tests meaning) body.Runs (Stmt.OptionRuns rest))
  | .loop _ init test post body =>
    -- `continue` and the end of the body lead to the post step, `break` does not.
    seq (Stmt.OptionRuns init)
      (whileLoop (Expr.OptionTests meaning test)
        (seq (catchContinue body.Runs) (Stmt.OptionRuns post)))
  | .forIn _ key value iterable body =>
    overItems (meaning.start (.call (.name Names.iterate) [iterable.lower]))
      (meaning.next [(key.map Ident.name).getD Names.discard, value.name])
      (catchContinue body.Runs)

/-- A statement that may be absent. -/
def Stmt.OptionRuns : Option Stmt → Behaviour σ
  | none => ends .normal
  | some stmt => stmt.Runs

def Stmt.ListRuns : List Stmt → Behaviour σ
  | [] => ends .normal
  | stmt :: stmts => seq stmt.Runs (Stmt.ListRuns stmts)

def Block.Runs : Block → Behaviour σ
  | ⟨_, stmts⟩ => Stmt.ListRuns stmts

end

end

end Script

end LuaBackend
