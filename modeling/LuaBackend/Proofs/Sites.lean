import LuaBackend.Conversion

/-!
# The nodes of a tree and where they stand

Every node of a tree stands at a place: under some frames, each with the names that were bound in
it further up, and inside some loops of its own function.  `File.sites` lists all nodes with their
places.  It only reads the tree; nothing is checked and nothing is looked up.  `File.binders` and
`File.occurrences` are the identifiers among them.
-/

namespace LuaBackend

open Script

/-- The open frames, innermost first, and the number of loops around in the same function. -/
structure Place where
  frames : List Frame
  loops : Nat := 0
deriving DecidableEq, Repr, Inhabited

namespace Place

/-- The top of a file. -/
def root : Place := { frames := [{ kind := .function }] }

def enter (place : Place) : Place := { place with frames := { kind := .block } :: place.frames }

/-- Loops do not reach into a function. -/
def enterFunction (place : Place) : Place := { frames := { kind := .function } :: place.frames }

def enterLoop (place : Place) : Place := { place with loops := place.loops + 1 }

def bind (place : Place) (id : Ident) : Place :=
  match place.frames with
  | [] => place
  | frame :: outer =>
    { place with frames := { frame with names := id.name :: frame.names } :: outer }

def bindAll (place : Place) (ids : List Ident) : Place := ids.foldl bind place

/-- A frame around the place has the name. -/
def Binds (place : Place) (name : String) : Prop := ∃ frame ∈ place.frames, name ∈ frame.names

/-- The innermost frame has the name. -/
def BindsHere (place : Place) (name : String) : Prop :=
  ∃ frame, place.frames.head? = some frame ∧ name ∈ frame.names

end Place

inductive Node where
  | expr (expr : Expr)
  | stmt (stmt : Stmt)
  /-- An identifier that is bound here: on the left of `:=`, as a parameter or by a loop. -/
  | binder (id : Ident)

structure Site where
  place : Place
  node : Node

namespace Script

/-- The identifiers that a loop over a container binds. -/
def loopBinders (key : Option Ident) (value : Ident) : List Ident :=
  (key.toList ++ [value]).filter fun id => id.name ≠ Names.discard

/-- The identifier that a statement adds to the frame around it. -/
def Stmt.binder? : Stmt → Option Ident
  | .assign _ .define [.ident id] [_] => some id
  | _ => none

end Script

namespace Place

/-- The place behind a statement. -/
def after (place : Place) (stmt : Stmt) : Place :=
  match stmt.binder? with
  | some id => place.bind id
  | none => place

def afterOption (place : Place) : Option Stmt → Place
  | none => place
  | some stmt => place.after stmt

def afterList (place : Place) (stmts : List Stmt) : Place := stmts.foldl after place

/-- Each identifier is bound behind the ones before it. -/
def binders (place : Place) : List Ident → List Site
  | [] => []
  | id :: ids => ⟨place, .binder id⟩ :: (place.bind id).binders ids

end Place

namespace Script

mutual

def Expr.sites (place : Place) : Expr → List Site
  | .ident id => [⟨place, .expr (.ident id)⟩]
  | .int pos literal => [⟨place, .expr (.int pos literal)⟩]
  | .float pos literal => [⟨place, .expr (.float pos literal)⟩]
  | .bool pos value => [⟨place, .expr (.bool pos value)⟩]
  | .str pos value => [⟨place, .expr (.str pos value)⟩]
  | .char pos value => [⟨place, .expr (.char pos value)⟩]
  | .undefined pos => [⟨place, .expr (.undefined pos)⟩]
  | .paren pos expr => ⟨place, .expr (.paren pos expr)⟩ :: expr.sites place
  | .binary pos op lhs rhs =>
    ⟨place, .expr (.binary pos op lhs rhs)⟩ :: (lhs.sites place ++ rhs.sites place)
  | .unary pos op expr => ⟨place, .expr (.unary pos op expr)⟩ :: expr.sites place
  | .selector pos expr field => ⟨place, .expr (.selector pos expr field)⟩ :: expr.sites place
  | .index pos expr key =>
    ⟨place, .expr (.index pos expr key)⟩ :: (expr.sites place ++ key.sites place)
  | .slice pos expr low high =>
    ⟨place, .expr (.slice pos expr low high)⟩ ::
      (expr.sites place ++ Expr.sitesOfOption place low ++ Expr.sitesOfOption place high)
  | .cond pos test whenTrue whenFalse =>
    ⟨place, .expr (.cond pos test whenTrue whenFalse)⟩ ::
      (test.sites place ++ whenTrue.sites place ++ whenFalse.sites place)
  | .call pos callee args =>
    ⟨place, .expr (.call pos callee args)⟩ :: (callee.sites place ++ Expr.sitesOfList place args)
  | .array pos elements => ⟨place, .expr (.array pos elements)⟩ :: Expr.sitesOfList place elements
  | .map pos elements => ⟨place, .expr (.map pos elements)⟩ :: MapElement.sitesOfList place elements
  | .func pos params body =>
    -- Parameters and body share the frame of the function.
    ⟨place, .expr (.func pos params body)⟩ ::
      (place.enterFunction.binders params ++ body.sites (place.enterFunction.bindAll params))
  | .importModule pos name => [⟨place, .expr (.importModule pos name)⟩]
  | .error pos expr => ⟨place, .expr (.error pos expr)⟩ :: expr.sites place
  | .immutable pos expr => ⟨place, .expr (.immutable pos expr)⟩ :: expr.sites place

def Expr.sitesOfOption (place : Place) : Option Expr → List Site
  | none => []
  | some expr => expr.sites place

def Expr.sitesOfList (place : Place) : List Expr → List Site
  | [] => []
  | expr :: exprs => expr.sites place ++ Expr.sitesOfList place exprs

/-- The left side of a definition. -/
def Expr.sitesOfDefined (place : Place) : List Expr → List Site
  | [] => []
  | .ident id :: exprs => ⟨place, .binder id⟩ :: Expr.sitesOfDefined place exprs
  | expr :: exprs => expr.sites place ++ Expr.sitesOfDefined place exprs

def MapElement.sitesOfList (place : Place) : List MapElement → List Site
  | [] => []
  | ⟨_, _, value⟩ :: elements => value.sites place ++ MapElement.sitesOfList place elements

def Stmt.sites (place : Place) : Stmt → List Site
  | .expr pos expr => ⟨place, .stmt (.expr pos expr)⟩ :: expr.sites place
  | .incDec pos op target => ⟨place, .stmt (.incDec pos op target)⟩ :: target.sites place
  | .assign pos op lhs rhs =>
    -- A function sees the name it is bound to, any other value does not.
    let inner := if rhs.any Expr.isFunction then place.after (.assign pos op lhs rhs) else place
    ⟨place, .stmt (.assign pos op lhs rhs)⟩ ::
      ((if op = .define then Expr.sitesOfDefined place lhs else Expr.sitesOfList place lhs) ++
        Expr.sitesOfList inner rhs)
  | .ret pos result => ⟨place, .stmt (.ret pos result)⟩ :: Expr.sitesOfOption place result
  | .branch pos op => [⟨place, .stmt (.branch pos op)⟩]
  | .block body => ⟨place, .stmt (.block body)⟩ :: body.sites place.enter
  | .ifElse pos init test body rest =>
    let inner := place.enter.afterOption init
    ⟨place, .stmt (.ifElse pos init test body rest)⟩ ::
      (Stmt.sitesOfOption place.enter init ++ test.sites inner ++ body.sites inner.enter ++
        Stmt.sitesOfElse inner rest)
  | .loop pos init test post body =>
    let inner := place.enter.afterOption init
    ⟨place, .stmt (.loop pos init test post body)⟩ ::
      (Stmt.sitesOfOption place.enter init ++ Expr.sitesOfOption inner test ++
        body.sites inner.enterLoop.enter ++ Stmt.sitesOfOption inner.enterLoop post)
  | .forIn pos key value iterable body =>
    ⟨place, .stmt (.forIn pos key value iterable body)⟩ ::
      (iterable.sites place ++ place.enter.binders (loopBinders key value) ++
        body.sites (place.enter.bindAll (loopBinders key value)).enterLoop.enter)
  | .exportValue pos result => ⟨place, .stmt (.exportValue pos result)⟩ :: result.sites place

def Stmt.sitesOfOption (place : Place) : Option Stmt → List Site
  | none => []
  | some stmt => stmt.sites place

/-- A further `if` without an initial statement is a branch of the same chain and binds nothing of
its own, so it stands in the frame of the first. -/
def Stmt.sitesOfElse (place : Place) : Option Stmt → List Site
  | none => []
  | some (.ifElse pos none test body rest) =>
    ⟨place, .stmt (.ifElse pos none test body rest)⟩ ::
      (test.sites place ++ body.sites place.enter ++ Stmt.sitesOfElse place rest)
  | some (.block body) => ⟨place, .stmt (.block body)⟩ :: body.sites place.enter
  | some stmt => stmt.sites place.enter

def Stmt.sitesOfList (place : Place) : List Stmt → List Site
  | [] => []
  | stmt :: stmts => stmt.sites place ++ Stmt.sitesOfList (place.after stmt) stmts

def Block.sites (place : Place) : Block → List Site
  | ⟨_, stmts⟩ => Stmt.sitesOfList place stmts

end

def File.sites (file : File) : List Site := Stmt.sitesOfList .root file.stmts

/-- All identifiers that the script binds. -/
def File.binders (file : File) : List Ident :=
  file.sites.filterMap fun site =>
    match site.node with
    | .binder id => some id
    | _ => none

end Script

/-! ## Occurrences -/

/-- An occurrence of an identifier, with the frames that are open there, innermost first. -/
structure Occurrence where
  frames : List Frame
  id : Ident
deriving DecidableEq, Repr, Inhabited

def Site.occurrence? (site : Site) : Option Occurrence :=
  match site.node with
  | .expr (.ident id) => some ⟨site.place.frames, id⟩
  | _ => none

/-- The identifiers among some nodes. -/
def occurrencesOf (sites : List Site) : List Occurrence := sites.filterMap Site.occurrence?

/-- Every occurrence of an identifier that is not bound there, from left to right. -/
def Script.File.occurrences (file : File) : List Occurrence := occurrencesOf file.sites

@[simp] theorem occurrencesOf_append (first second : List Site) :
    occurrencesOf (first ++ second) = occurrencesOf first ++ occurrencesOf second :=
  List.filterMap_append

theorem occurrencesOf_cons_of_none {site : Site} (hnone : site.occurrence? = none)
    (sites : List Site) : occurrencesOf (site :: sites) = occurrencesOf sites :=
  List.filterMap_cons_none hnone

@[simp] theorem occurrencesOf_stmt_cons (place : Place) (stmt : Stmt) (sites : List Site) :
    occurrencesOf (⟨place, .stmt stmt⟩ :: sites) = occurrencesOf sites := rfl

@[simp] theorem occurrencesOf_binder_cons (place : Place) (id : Ident) (sites : List Site) :
    occurrencesOf (⟨place, .binder id⟩ :: sites) = occurrencesOf sites := rfl

@[simp] theorem occurrencesOf_binders (place : Place) (ids : List Ident) :
    occurrencesOf (place.binders ids) = [] := by
  induction ids generalizing place with
  | nil => rfl
  | cons id ids ih => simp [Place.binders, ih]

/-! ## Forms with more than one shape of code -/

namespace Script

/-- As an else branch the statement is neither the body itself nor a further test of the chain. -/
def Stmt.standsAlone : Stmt → Bool
  | .block _ | .ifElse _ none _ _ _ => false
  | _ => true

theorem Stmt.sitesOfElse_of_standsAlone (place : Place) {stmt : Stmt} (halone : stmt.standsAlone) :
    Stmt.sitesOfElse place (some stmt) = stmt.sites place.enter := by
  cases stmt with
  | block => simp [standsAlone] at halone
  | ifElse _ init =>
      cases init with
      | none => simp [standsAlone] at halone
      | some => rfl
  | _ => rfl

theorem Stmt.eventsOfElse_of_standsAlone (inLoop : Bool) {stmt : Stmt} (halone : stmt.standsAlone) :
    Stmt.eventsOfElse inLoop (some stmt) = Event.within .block (stmt.events inLoop) := by
  cases stmt with
  | block => simp [standsAlone] at halone
  | ifElse _ init =>
      cases init with
      | none => simp [standsAlone] at halone
      | some => rfl
  | _ => rfl

theorem Stmt.lowerElse_of_standsAlone (depth : Nat) {stmt : Stmt} (halone : stmt.standsAlone) :
    Stmt.lowerElse depth (some stmt) = .otherwise (stmt.lower .lexical depth) := by
  cases stmt with
  | block => simp [standsAlone] at halone
  | ifElse _ init =>
      cases init with
      | none => simp [standsAlone] at halone
      | some => rfl
  | _ => rfl

/-- A loop is put into a block if it begins with a statement. -/
theorem Stmt.lower_loop (binding : Binding) (depth : Nat) (pos : Pos) (init : Option Stmt)
    (test : Option Expr) (post : Option Stmt) (body : Block) :
    Stmt.lower binding depth (.loop pos init test post body) =
      let flag := Names.continueFlag (depth + 1)
      let loop := Lua.Stmt.whileLoop (Expr.lowerOption (.bool true) test)
        (Lua.Stmt.guarded flag (body.lower .lexical (depth + 1)) body.fallsThrough ++
          [Lua.Stmt.afterRound flag (post.map (Stmt.lower .lexical (depth + 1)))])
      if init.isSome then [.block .lines (Stmt.lowerOption depth init ++ [loop])] else [loop] := by
  cases init <;> cases post <;> rfl

/-- Only a return that is followed by more needs a block. -/
theorem Stmt.lowerList_cons (binding : Binding) (depth : Nat) (stmt : Stmt) (stmts : List Stmt) :
    Stmt.lowerList binding depth (stmt :: stmts) =
      (if stmt.isReturn && !stmts.isEmpty then [.block .inline (stmt.lower binding depth)]
        else stmt.lower binding depth) ++ Stmt.lowerList binding depth stmts := by
  cases stmts with
  | nil => simp [Stmt.lowerList]
  | cons next stmts => simp [Stmt.lowerList]

end Script

end LuaBackend
