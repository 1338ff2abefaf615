import LuaBackend.Proofs.Acceptance

/-!
# Definitions and the locals of the code

The code of a script that binds its names as locals has one `local` statement for each definition of
the script, wherever the definition stands, and besides them only those of the loop flags.  Both
sides are lists in the order of the text, so no definition is lost, doubled or turned into an
assignment.
-/

namespace LuaBackend

open Script

/-! ## Locals of Lua code -/

namespace Lua

mutual

/-- The `local` statements inside an expression, those of loop flags left out. -/
def Expr.locals : Expr → List Stmt
  | .nil | .bool _ | .numeral _ | .str _ | .name _ => []
  | .paren expr | .unary _ expr => expr.locals
  | .binary _ first second | .index first second => first.locals ++ second.locals
  | .call callee args => callee.locals ++ Expr.localsOfList args
  | .table fields => Field.localsOfList fields
  | .func _ _ body => Stmt.localsOfList body

def Expr.localsOfList : List Expr → List Stmt
  | [] => []
  | expr :: exprs => expr.locals ++ Expr.localsOfList exprs

def Field.locals : Field → List Stmt
  | .item value | .named _ value => value.locals
  | .keyed key value => key.locals ++ value.locals

def Field.localsOfList : List Field → List Stmt
  | [] => []
  | field :: fields => field.locals ++ Field.localsOfList fields

def Stmt.locals : Stmt → List Stmt
  | .expr expr => expr.locals
  | .assign target value => target.locals ++ value.locals
  | .localVar name value =>
    (if Names.isReserved name then [] else [.localVar name value]) ++ value.locals
  | .localRec name value =>
    (if Names.isReserved name then [] else [.localRec name value]) ++ value.locals
  | .ret none | .break => []
  | .ret (some value) => value.locals
  | .block _ body => Stmt.localsOfList body
  | .cond _ test body rest => test.locals ++ Stmt.localsOfList body ++ rest.locals
  | .whileLoop test body => test.locals ++ Stmt.localsOfList body
  | .repeatLoop body test => Stmt.localsOfList body ++ test.locals
  | .forIn _ iterator body => iterator.locals ++ Stmt.localsOfList body

def Stmt.localsOfList : List Stmt → List Stmt
  | [] => []
  | stmt :: stmts => stmt.locals ++ Stmt.localsOfList stmts

def Else.locals : Else → List Stmt
  | .absent => []
  | .otherwise body => Stmt.localsOfList body
  | .elseIf test body rest => test.locals ++ Stmt.localsOfList body ++ rest.locals

end

theorem Stmt.localsOfList_append (first second : List Stmt) :
    Stmt.localsOfList (first ++ second) = Stmt.localsOfList first ++ Stmt.localsOfList second := by
  induction first with
  | nil => rfl
  | cons stmt stmts ih => rw [List.cons_append, localsOfList, localsOfList, ih, List.append_assoc]

theorem Field.localsOfList_append (first second : List Field) :
    Field.localsOfList (first ++ second) =
      Field.localsOfList first ++ Field.localsOfList second := by
  induction first with
  | nil => rfl
  | cons field fields ih =>
      rw [List.cons_append, localsOfList, localsOfList, ih, List.append_assoc]

theorem Stmt.localsOfList_single (stmt : Stmt) : Stmt.localsOfList [stmt] = stmt.locals := by
  rw [localsOfList, localsOfList, List.append_nil]

/-! ### Code that lowering puts together -/

theorem Expr.locals_operate (op : BinaryOp) (lhs rhs : Expr) :
    (Expr.operate op lhs rhs).locals = lhs.locals ++ rhs.locals := by
  rw [operate, locals, locals]

/-- The target of an update is written twice. -/
theorem Stmt.locals_update (op : BinaryOp) (target value : Expr) :
    (Stmt.update op target value).locals =
      target.locals ++ (target.locals ++ value.locals) := by
  rw [update, locals, Expr.locals_operate]

theorem Expr.locals_choose (test whenTrue whenFalse : Expr) :
    (Expr.choose test whenTrue whenFalse).locals =
      test.locals ++ whenTrue.locals ++ whenFalse.locals := by
  simp [choose, locals, localsOfList, Stmt.localsOfList, Stmt.locals, Else.locals]

theorem Expr.locals_array (elements : List Expr) :
    (Expr.array elements).locals = Expr.localsOfList elements := by
  have hitems (values : List Expr) :
      Field.localsOfList (values.map fun value => .item (.paren value)) =
        Expr.localsOfList values := by
    induction values with
    | nil => rfl
    | cons value values ih =>
        rw [List.map_cons, Field.localsOfList, Expr.localsOfList, ih, Field.locals, Expr.locals]
  cases elements with
  | nil => rfl
  | cons first others =>
      simp [array, locals, localsOfList, Field.localsOfList_append, Field.localsOfList,
        Field.locals, hitems]

theorem Stmt.locals_bind_lexical {name : String} (hname : Names.isReserved name = false)
    (isFunction : Bool) (value : Expr) :
    (Stmt.bind .lexical isFunction name value).locals =
      Stmt.bind .lexical isFunction name value :: value.locals := by
  cases isFunction <;> simp [bind, locals, hname]

theorem Stmt.locals_bind_global (isFunction : Bool) (name : String) (value : Expr) :
    (Stmt.bind .global isFunction name value).locals = value.locals := by
  simp [bind, locals, Expr.locals]

/-- The flag of a loop is reserved, and what is done with it declares nothing. -/
theorem Stmt.localsOfList_round (depth : Nat) (body : List Stmt) (fallsThrough : Bool)
    (next : Stmt) :
    Stmt.localsOfList (Stmt.guarded (Names.continueFlag depth) body fallsThrough ++ [next]) =
      Stmt.localsOfList body ++ next.locals := by
  have hdone : Stmt.localsOfList
      (if fallsThrough then [.assign (.name (Names.continueFlag depth)) (.bool true)] else []) =
        [] := by
    cases fallsThrough <;> rfl
  simp [guarded, localsOfList_append, localsOfList, locals, Expr.locals,
    Names.isReserved_continueFlag, hdone]

theorem Stmt.locals_breakUnless (flag : String) : (Stmt.breakUnless flag).locals = [] := rfl

theorem Stmt.locals_afterRound (flag : String) (post : List Stmt) :
    (Stmt.afterRound flag (some post)).locals = Stmt.localsOfList post := by
  simp [afterRound, locals, Expr.locals, Else.locals, localsOfList]

end Lua

/-! ## Definitions of a script -/

/-- A name and the value that `:=` binds it to. -/
structure Definition where
  id : Ident
  value : Expr

/-- The code of a definition whose name is a local. -/
def Definition.code (definition : Definition) : Lua.Stmt :=
  .bind .lexical definition.value.isFunction definition.id.name definition.value.lower

/-- What an assignment defines itself. -/
def Definition.ofAssignment : AssignOp → List Expr → List Expr → List Definition
  | .define, [.ident id], [value] => [⟨id, value⟩]
  | _, _, _ => []

namespace Script

mutual

/-- The definitions inside an expression, in the order in which they are written. -/
def Expr.definitions : Expr → List Definition
  | .ident _ | .int .. | .float .. | .bool .. | .str .. | .char .. | .undefined _
  | .importModule .. => []
  | .paren _ expr | .unary _ _ expr | .selector _ expr _ | .error _ expr | .immutable _ expr =>
    expr.definitions
  | .binary _ _ first second | .index _ first second => first.definitions ++ second.definitions
  | .slice _ expr low high =>
    expr.definitions ++ Expr.definitionsOfOption low ++ Expr.definitionsOfOption high
  | .cond _ test whenTrue whenFalse =>
    test.definitions ++ whenTrue.definitions ++ whenFalse.definitions
  | .call _ callee args => callee.definitions ++ Expr.definitionsOfList args
  | .array _ elements => Expr.definitionsOfList elements
  | .map _ elements => MapElement.definitionsOfList elements
  | .func _ _ body => body.definitions

def Expr.definitionsOfOption : Option Expr → List Definition
  | none => []
  | some expr => expr.definitions

def Expr.definitionsOfList : List Expr → List Definition
  | [] => []
  | expr :: exprs => expr.definitions ++ Expr.definitionsOfList exprs

def MapElement.definitionsOfList : List MapElement → List Definition
  | [] => []
  | ⟨_, _, value⟩ :: elements => value.definitions ++ MapElement.definitionsOfList elements

/-- The definitions in a statement, its own included. -/
def Stmt.definitions : Stmt → List Definition
  | .expr _ expr | .exportValue _ expr => expr.definitions
  -- What is updated is written twice: as the target, and in the value.
  | .incDec _ _ target => target.definitions ++ target.definitions
  | .assign _ op lhs rhs =>
    Definition.ofAssignment op lhs rhs ++
      (if op.operator?.isSome then Expr.definitionsOfList lhs else []) ++
      (Expr.definitionsOfList lhs ++ Expr.definitionsOfList rhs)
  | .ret _ result => Expr.definitionsOfOption result
  | .branch .. => []
  | .block body => body.definitions
  | .ifElse _ init test body rest =>
    Stmt.definitionsOfOption init ++ test.definitions ++ body.definitions ++
      Stmt.definitionsOfOption rest
  | .loop _ init test post body =>
    Stmt.definitionsOfOption init ++ Expr.definitionsOfOption test ++ body.definitions ++
      Stmt.definitionsOfOption post
  | .forIn _ _ _ iterable body => iterable.definitions ++ body.definitions

def Stmt.definitionsOfOption : Option Stmt → List Definition
  | none => []
  | some stmt => stmt.definitions

def Stmt.definitionsOfList : List Stmt → List Definition
  | [] => []
  | stmt :: stmts => stmt.definitions ++ Stmt.definitionsOfList stmts

def Block.definitions : Block → List Definition
  | ⟨_, stmts⟩ => Stmt.definitionsOfList stmts

end

theorem Stmt.definitionsOfList_eq_flatMap (stmts : List Stmt) :
    Stmt.definitionsOfList stmts = stmts.flatMap Stmt.definitions := by
  induction stmts with
  | nil => rfl
  | cons stmt stmts ih => rw [definitionsOfList, ih, List.flatMap_cons]

/-- The definitions inside a statement, its own left out. -/
def Stmt.innerDefinitions : Stmt → List Definition
  | .assign _ .define lhs rhs => Expr.definitionsOfList lhs ++ Expr.definitionsOfList rhs
  | stmt => stmt.definitions

/-! ## Every tree -/

theorem locals_lowerElse_single {depth : Nat} {stmt : Stmt} (halone : stmt.standsAlone)
    (hstmt : Lua.Stmt.localsOfList (stmt.lower .lexical depth) =
      stmt.definitions.map Definition.code) :
    (Stmt.lowerElse depth (some stmt)).locals =
      (Stmt.definitionsOfOption (some stmt)).map Definition.code := by
  rw [Stmt.lowerElse_of_standsAlone _ halone, Lua.Else.locals, Stmt.definitionsOfOption, hstmt]

mutual

theorem Expr.locals_lower {place : Place} : (expr : Expr) → AllFit (expr.sites place) →
    expr.lower.locals = expr.definitions.map Definition.code
  | .ident _, _ | .int .., _ | .float .., _ | .bool .., _ | .str .., _ | .undefined _, _ => rfl
  | .char .., hfit | .importModule .., hfit | .error .., hfit | .immutable .., hfit => by
    simp [Expr.sites, Node.Fits] at hfit
  | .paren _ expr, hfit => by
    simp only [Expr.sites, allFit_cons] at hfit
    rw [Expr.lower, Lua.Expr.locals, Expr.definitions, expr.locals_lower hfit.2]
  | .binary _ op lhs rhs, hfit => by
    simp only [Expr.sites, allFit_cons, allFit_append, Node.Fits] at hfit
    obtain ⟨luaOp, hop⟩ : ∃ luaOp, op.lower? = some luaOp := by
      cases op <;> first | exact ⟨_, rfl⟩ | exact absurd hfit.1 (by decide)
    simp only [Expr.lower, hop, Lua.Expr.locals_operate, Expr.definitions, List.map_append,
      lhs.locals_lower hfit.2.1, rhs.locals_lower hfit.2.2]
  | .unary _ op expr, hfit => by
    simp only [Expr.sites, allFit_cons, Node.Fits] at hfit
    obtain ⟨luaOp, hop⟩ : ∃ luaOp, op.lower? = some luaOp := by
      cases op <;> first | exact ⟨_, rfl⟩ | exact absurd rfl hfit.1
    simp only [Expr.lower, hop, Lua.Expr.locals, Expr.definitions, expr.locals_lower hfit.2]
  | .selector _ expr _, hfit => by
    simp only [Expr.sites, allFit_cons] at hfit
    simp only [Expr.lower, Lua.Expr.locals, Expr.definitions, expr.locals_lower hfit.2,
      List.append_nil]
  | .index _ expr key, hfit => by
    simp only [Expr.sites, allFit_cons, allFit_append] at hfit
    simp only [Expr.lower, Lua.Expr.locals, Expr.definitions, List.map_append,
      expr.locals_lower hfit.2.1, key.locals_lower hfit.2.2]
  | .slice _ expr low high, hfit => by
    simp only [Expr.sites, allFit_cons, allFit_append] at hfit
    simp only [Expr.lower, Lua.Expr.locals, Lua.Expr.localsOfList, Expr.definitions,
      List.map_append, List.nil_append, List.append_nil, List.append_assoc,
      expr.locals_lower hfit.2.1.1,
      Expr.locals_lowerOption (.numeral "0") rfl low hfit.2.1.2,
      Expr.locals_lowerOption .nil rfl high hfit.2.2]
  | .cond _ test whenTrue whenFalse, hfit => by
    simp only [Expr.sites, allFit_cons, allFit_append] at hfit
    simp only [Expr.lower, Lua.Expr.locals_choose, Expr.definitions, List.map_append,
      test.locals_lower hfit.2.1.1, whenTrue.locals_lower hfit.2.1.2,
      whenFalse.locals_lower hfit.2.2]
  | .call _ callee args, hfit => by
    simp only [Expr.sites, allFit_cons, allFit_append] at hfit
    simp only [Expr.lower, Lua.Expr.locals, Expr.definitions, List.map_append,
      callee.locals_lower hfit.2.1, Expr.locals_lowerList args hfit.2.2]
  | .array _ elements, hfit => by
    simp only [Expr.sites, allFit_cons] at hfit
    rw [Expr.lower, Lua.Expr.locals_array, Expr.definitions, Expr.locals_lowerList elements hfit.2]
  | .map _ elements, hfit => by
    simp only [Expr.sites, allFit_cons] at hfit
    rw [Expr.lower, Lua.Expr.locals, Expr.definitions, MapElement.locals_lowerList elements hfit.2]
  | .func _ params body, hfit => by
    simp only [Expr.sites, allFit_cons, allFit_append] at hfit
    rw [Expr.lower, Lua.Expr.locals, Expr.definitions, body.locals_lower 0 hfit.2.2]

theorem Expr.locals_lowerOption {place : Place} (default : Lua.Expr)
    (hdefault : default.locals = []) :
    (expr : Option Expr) → AllFit (Expr.sitesOfOption place expr) →
      (Expr.lowerOption default expr).locals =
        (Expr.definitionsOfOption expr).map Definition.code
  | none, _ => hdefault
  | some expr, hfit => expr.locals_lower hfit

theorem Expr.locals_lowerList {place : Place} : (exprs : List Expr) →
    AllFit (Expr.sitesOfList place exprs) →
      Lua.Expr.localsOfList (Expr.lowerList exprs) =
        (Expr.definitionsOfList exprs).map Definition.code
  | [], _ => rfl
  | expr :: exprs, hfit => by
    simp only [Expr.sitesOfList, allFit_append] at hfit
    rw [Expr.lowerList, Lua.Expr.localsOfList, Expr.definitionsOfList, List.map_append,
      expr.locals_lower hfit.1, Expr.locals_lowerList exprs hfit.2]

theorem MapElement.locals_lowerList {place : Place} : (elements : List MapElement) →
    AllFit (MapElement.sitesOfList place elements) →
      Lua.Field.localsOfList (MapElement.lowerList elements) =
        (MapElement.definitionsOfList elements).map Definition.code
  | [], _ => rfl
  | ⟨_, _, value⟩ :: elements, hfit => by
    simp only [MapElement.sitesOfList, allFit_append] at hfit
    simp only [MapElement.lowerList, Lua.Field.localsOfList, Lua.Field.locals, Lua.Expr.locals,
      MapElement.definitionsOfList, List.map_append, List.nil_append,
      value.locals_lower hfit.1, MapElement.locals_lowerList elements hfit.2]

theorem Stmt.locals_lower {place : Place} (depth : Nat) : (stmt : Stmt) →
    AllFit (stmt.sites place) →
      Lua.Stmt.localsOfList (stmt.lower .lexical depth) = stmt.definitions.map Definition.code
  | .expr _ expr, hfit => by
    simp only [Stmt.sites, allFit_cons] at hfit
    rw [Stmt.lower, Lua.Stmt.localsOfList_single, Lua.Stmt.locals, Stmt.definitions,
      expr.locals_lower hfit.2]
  | .incDec _ op target, hfit => by
    simp only [Stmt.sites, allFit_cons] at hfit
    simp only [Stmt.lower, Lua.Stmt.localsOfList_single, Lua.Stmt.locals_update, Lua.Expr.locals,
      Stmt.definitions, List.map_append, List.append_nil, target.locals_lower hfit.2]
  | .assign pos op [target] [value], hfit => by
    simp only [Stmt.sites, Expr.sitesOfList, List.append_nil, List.any_cons, List.any_nil,
      Bool.or_false, allFit_cons, allFit_append] at hfit
    obtain ⟨⟨_, _, htarget, -, hshape⟩, hlhs, hrhs⟩ := hfit
    have hvalue := value.locals_lower hrhs
    by_cases hop : op = .define
    · subst hop
      obtain rfl := List.singleton_inj.1 htarget
      obtain ⟨id, rfl⟩ := hshape
      simp only [if_true, Expr.sitesOfDefined, allFit_cons] at hlhs
      simp only [Stmt.lower, Lua.Stmt.localsOfList_single, Lua.Stmt.locals_bind_lexical hlhs.1.1,
        hvalue, Stmt.definitions, Definition.ofAssignment, AssignOp.operator?, Option.isSome_none,
        Bool.false_eq_true, if_false, Expr.definitionsOfList, Expr.definitions, List.append_nil,
        List.nil_append, List.cons_append, List.map_cons, Definition.code]
    · simp only [hop, if_false] at hlhs hshape
      have htarget := target.locals_lower hlhs
      cases op with
      | define => exact absurd rfl hop
      | assign =>
          simp only [Stmt.lower, Lua.Stmt.localsOfList_single, Lua.Stmt.locals, htarget, hvalue,
            Stmt.definitions, Definition.ofAssignment, AssignOp.operator?, Option.isSome_none,
            Bool.false_eq_true, if_false, Expr.definitionsOfList, List.append_nil, List.nil_append,
            List.map_append]
      | add | sub | mul | quo | rem =>
          simp only [Stmt.lower, AssignOp.operator?, Option.bind_some, BinaryOp.lower?,
            Lua.Stmt.localsOfList_single, Lua.Stmt.locals_update, htarget, hvalue,
            Stmt.definitions, Definition.ofAssignment, Option.isSome_some, if_true,
            Expr.definitionsOfList, List.append_nil, List.nil_append, List.map_append]
      | _ => exact absurd hshape.1 (by decide)
  | .assign _ _ [] _, hfit | .assign _ _ (_ :: _ :: _) _, hfit | .assign _ _ [_] [], hfit
  | .assign _ _ [_] (_ :: _ :: _), hfit => by
    simp [Stmt.sites, Node.Fits] at hfit
  | .ret _ none, _ => rfl
  | .ret _ (some result), hfit => by
    simp only [Stmt.sites, Expr.sitesOfOption, allFit_cons] at hfit
    rw [Stmt.lower, Lua.Stmt.localsOfList_single, Lua.Stmt.locals, Lua.Expr.locals,
      Stmt.definitions, Expr.definitionsOfOption, result.locals_lower hfit.2]
  | .branch _ .break, _ | .branch _ .continue, _ => rfl
  | .block body, hfit => by
    simp only [Stmt.sites, allFit_cons] at hfit
    rw [Stmt.lower, Lua.Stmt.localsOfList_single, Lua.Stmt.locals, Stmt.definitions,
      body.locals_lower depth hfit.2]
  | .ifElse _ init test body rest, hfit => by
    simp only [Stmt.sites, allFit_cons, allFit_append] at hfit
    obtain ⟨-, ⟨⟨hinit, htest⟩, hbody⟩, hrest⟩ := hfit
    simp only [Stmt.lower, Lua.Stmt.localsOfList_single, Lua.Stmt.localsOfList_append,
      Lua.Stmt.locals, Stmt.definitions, List.map_append, List.append_assoc,
      Stmt.locals_lowerOption depth init hinit, test.locals_lower htest,
      body.locals_lower depth hbody, Stmt.locals_lowerElse depth rest hrest]
  | .loop _ init test post body, hfit => by
    simp only [Stmt.sites, allFit_cons, allFit_append] at hfit
    obtain ⟨-, ⟨⟨hinit, htest⟩, hbody⟩, hpost⟩ := hfit
    have hafter : (Lua.Stmt.afterRound (Names.continueFlag (depth + 1))
        (post.map (Stmt.lower .lexical (depth + 1)))).locals =
          (Stmt.definitionsOfOption post).map Definition.code := by
      have hcode := Stmt.locals_lowerOption (depth + 1) post hpost
      cases post with
      | none => rfl
      | some post => rw [Option.map_some, Lua.Stmt.locals_afterRound, ← hcode, Stmt.lowerOption]
    have hloop : (Lua.Stmt.whileLoop (Expr.lowerOption (.bool true) test)
        (Lua.Stmt.guarded (Names.continueFlag (depth + 1)) (body.lower .lexical (depth + 1))
          body.fallsThrough ++
          [Lua.Stmt.afterRound (Names.continueFlag (depth + 1))
            (post.map (Stmt.lower .lexical (depth + 1)))])).locals =
          (Expr.definitionsOfOption test ++
            (body.definitions ++ Stmt.definitionsOfOption post)).map Definition.code := by
      rw [Lua.Stmt.locals, Lua.Stmt.localsOfList_round, hafter,
        Expr.locals_lowerOption (.bool true) rfl test htest,
        body.locals_lower (depth + 1) hbody, List.map_append, List.map_append]
    have hcode := Stmt.locals_lowerOption depth init hinit
    rw [Stmt.lower_loop, Stmt.definitions, List.append_assoc, List.append_assoc]
    dsimp only
    split
    · rw [Lua.Stmt.localsOfList_single, Lua.Stmt.locals, Lua.Stmt.localsOfList_append,
        Lua.Stmt.localsOfList_single, hcode, hloop, ← List.map_append]
    · next hnone =>
        obtain rfl : init = none := by simpa using hnone
        exact (Lua.Stmt.localsOfList_single _).trans hloop
  | .forIn _ key value iterable body, hfit => by
    simp only [Stmt.sites, allFit_cons, allFit_append] at hfit
    obtain ⟨-, ⟨hiterable, -⟩, hbody⟩ := hfit
    simp only [Stmt.lower, Lua.Stmt.localsOfList_single, Lua.Stmt.locals, Lua.Expr.locals,
      Lua.Expr.localsOfList, Lua.Stmt.localsOfList_round, Lua.Stmt.locals_breakUnless,
      Stmt.definitions, List.map_append, List.nil_append, List.append_nil,
      iterable.locals_lower hiterable, body.locals_lower (depth + 1) hbody]
  | .exportValue .., hfit => by simp [Stmt.sites, Node.Fits] at hfit

theorem Stmt.locals_lowerOption {place : Place} (depth : Nat) : (stmt : Option Stmt) →
    AllFit (Stmt.sitesOfOption place stmt) →
      Lua.Stmt.localsOfList (Stmt.lowerOption depth stmt) =
        (Stmt.definitionsOfOption stmt).map Definition.code
  | none, _ => rfl
  | some stmt, hfit => stmt.locals_lower depth hfit

theorem Stmt.locals_lowerElse {place : Place} (depth : Nat) : (rest : Option Stmt) →
    AllFit (Stmt.sitesOfElse place rest) →
      (Stmt.lowerElse depth rest).locals =
        (Stmt.definitionsOfOption rest).map Definition.code
  | none, _ => rfl
  | some stmt, hfit => by
    cases stmt with
    | block body =>
        simp only [Stmt.sitesOfElse, allFit_cons] at hfit
        rw [Stmt.lowerElse, Lua.Else.locals, Stmt.definitionsOfOption, Stmt.definitions,
          body.locals_lower depth hfit.2]
    | ifElse pos init test body rest =>
        cases init with
        | none =>
            simp only [Stmt.sitesOfElse, allFit_cons, allFit_append] at hfit
            simp only [Stmt.lowerElse, Lua.Else.locals, Stmt.definitionsOfOption,
              Stmt.definitions, List.map_append, List.nil_append, test.locals_lower hfit.2.1.1,
              body.locals_lower depth hfit.2.1.2, Stmt.locals_lowerElse depth rest hfit.2.2]
        | some init => exact locals_lowerElse_single rfl (Stmt.locals_lower depth _ hfit)
    | _ => exact locals_lowerElse_single rfl (Stmt.locals_lower depth _ hfit)

theorem Stmt.locals_lowerList {place : Place} (depth : Nat) : (stmts : List Stmt) →
    AllFit (Stmt.sitesOfList place stmts) →
      Lua.Stmt.localsOfList (Stmt.lowerList .lexical depth stmts) =
        (Stmt.definitionsOfList stmts).map Definition.code
  | [], _ => rfl
  | stmt :: stmts, hfit => by
    simp only [Stmt.sitesOfList, allFit_append] at hfit
    rw [Stmt.lowerList_cons, Lua.Stmt.localsOfList_append, Stmt.definitionsOfList, List.map_append,
      ← stmt.locals_lower depth hfit.1, Stmt.locals_lowerList depth stmts hfit.2]
    split
    · rw [Lua.Stmt.localsOfList_single, Lua.Stmt.locals]
    · rfl

theorem Block.locals_lower {place : Place} (depth : Nat) : (block : Block) →
    AllFit (block.sites place) →
      Lua.Stmt.localsOfList (block.lower .lexical depth) = block.definitions.map Definition.code
  | ⟨_, stmts⟩, hfit => Stmt.locals_lowerList depth stmts hfit

end

end Script

end LuaBackend
