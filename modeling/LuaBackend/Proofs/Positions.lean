import LuaBackend.Proofs.Acceptance

/-!
# Positions

Every node of a script carries the position it was written at.  Two scripts that differ in their
positions alone are converted alike: they get the same text and the same log, or they are refused
after the same log for the same cause.  A position shows in nothing but the place that a fault
names.

The proof goes through the script without positions.  Erasing them from a tree erases them from its
events (`Stmt.events_erasePos`) and leaves its code alone (`Stmt.lower_erasePos`), and a run of
events without positions takes the same steps (`Analysis.run_erasePos`).
-/

namespace LuaBackend

open Script

/-! ## Trees without positions -/

namespace Script

def Ident.erasePos (id : Ident) : Ident := { id with pos := {} }

mutual

def Expr.erasePos : Expr → Expr
  | .ident id => .ident id.erasePos
  | .int _ literal => .int {} literal
  | .float _ literal => .float {} literal
  | .bool _ value => .bool {} value
  | .str _ value => .str {} value
  | .char _ value => .char {} value
  | .undefined _ => .undefined {}
  | .paren _ expr => .paren {} expr.erasePos
  | .binary _ op lhs rhs => .binary {} op lhs.erasePos rhs.erasePos
  | .unary _ op expr => .unary {} op expr.erasePos
  | .selector _ expr field => .selector {} expr.erasePos field
  | .index _ expr key => .index {} expr.erasePos key.erasePos
  | .slice _ expr low high =>
    .slice {} expr.erasePos (Expr.erasePosOption low) (Expr.erasePosOption high)
  | .cond _ test whenTrue whenFalse =>
    .cond {} test.erasePos whenTrue.erasePos whenFalse.erasePos
  | .call _ callee args => .call {} callee.erasePos (Expr.erasePosList args)
  | .array _ elements => .array {} (Expr.erasePosList elements)
  | .map _ elements => .map {} (MapElement.erasePosList elements)
  | .func _ params body => .func {} (params.map Ident.erasePos) body.erasePos
  | .importModule _ name => .importModule {} name
  | .error _ expr => .error {} expr.erasePos
  | .immutable _ expr => .immutable {} expr.erasePos

def Expr.erasePosOption : Option Expr → Option Expr
  | none => none
  | some expr => some expr.erasePos

def Expr.erasePosList : List Expr → List Expr
  | [] => []
  | expr :: exprs => expr.erasePos :: Expr.erasePosList exprs

def MapElement.erasePosList : List MapElement → List MapElement
  | [] => []
  | ⟨_, key, value⟩ :: elements =>
    ⟨{}, key, value.erasePos⟩ :: MapElement.erasePosList elements

def Stmt.erasePos : Stmt → Stmt
  | .expr _ expr => .expr {} expr.erasePos
  | .incDec _ op target => .incDec {} op target.erasePos
  | .assign _ op lhs rhs => .assign {} op (Expr.erasePosList lhs) (Expr.erasePosList rhs)
  | .ret _ result => .ret {} (Expr.erasePosOption result)
  | .branch _ op => .branch {} op
  | .block body => .block body.erasePos
  | .ifElse _ init test body rest =>
    .ifElse {} (Stmt.erasePosOption init) test.erasePos body.erasePos (Stmt.erasePosOption rest)
  | .loop _ init test post body =>
    .loop {} (Stmt.erasePosOption init) (Expr.erasePosOption test) (Stmt.erasePosOption post)
      body.erasePos
  | .forIn _ key value iterable body =>
    .forIn {} (key.map Ident.erasePos) value.erasePos iterable.erasePos body.erasePos
  | .exportValue _ result => .exportValue {} result.erasePos

def Stmt.erasePosOption : Option Stmt → Option Stmt
  | none => none
  | some stmt => some stmt.erasePos

def Stmt.erasePosList : List Stmt → List Stmt
  | [] => []
  | stmt :: stmts => stmt.erasePos :: Stmt.erasePosList stmts

def Block.erasePos : Block → Block
  | ⟨_, stmts⟩ => ⟨{}, Stmt.erasePosList stmts⟩

end

/-- The script with every position left out. -/
def File.erasePos (file : File) : File := ⟨Stmt.erasePosList file.stmts⟩

end Script

/-! ## What is left of a fault and of an event -/

def Fault.erasePos (fault : Fault) : Fault := { fault with pos := {} }

def Event.erasePos : Event → Event
  | .enter kind => .enter kind
  | .leave => .leave
  | .fresh id => .fresh id.erasePos
  | .declare id => .declare id.erasePos
  | .assign id => .assign id.erasePos
  | .read id => .read id.erasePos
  | .need snippet => .need snippet
  | .refuse fault => .refuse fault.erasePos

namespace Analysis

/-- An event is answered by its names; a position is only handed on to the fault. -/
theorem State.step_erasePos (state : State) (event : Event) :
    state.step event.erasePos = (state.step event).mapError Fault.erasePos := by
  cases event with
  | enter | leave | need | refuse => rfl
  | fresh id =>
      simp only [Event.erasePos, State.step, Ident.erasePos]
      cases state.scope.isDefinedHere id.name <;> rfl
  | declare id =>
      simp only [Event.erasePos, State.step, State.declare, Ident.erasePos]
      cases Names.isReserved id.name with
      | true => rfl
      | false => cases state.scope.define? id.name <;> rfl
  | assign id =>
      simp only [Event.erasePos, State.step, Ident.erasePos]
      cases (state.scope.resolve? id.name).isSome <;> rfl
  | read id =>
      simp only [Event.erasePos, State.step, State.read, Ident.erasePos]
      cases state.scope.resolve? id.name with
      | some found => rfl
      | none => cases Builtin.ofName? id.name <;> rfl

theorem run_erasePos (state : State) (events : List Event) :
    run state (events.map Event.erasePos) =
      ⟨(run state events).state, (run state events).fault?.map Fault.erasePos⟩ := by
  induction events generalizing state with
  | nil => rfl
  | cons event events ih =>
      rw [List.map_cons, run, run, State.step_erasePos]
      cases state.step event with
      | ok next => exact ih next
      | error fault => rfl

end Analysis

/-! ## Events -/

namespace Script

@[simp] theorem Ident.name_erasePos (id : Ident) : id.erasePos.name = id.name := rfl

@[simp] theorem Expr.isFunction_erasePos (expr : Expr) :
    expr.erasePos.isFunction = expr.isFunction := by
  cases expr <;> rfl

theorem Expr.root?_erasePos (target : Expr) :
    target.erasePos.root? = target.root?.map Ident.erasePos := by
  fun_induction Expr.root? target with
  | case1 id => rfl
  | case2 _ expr _ ih => exact ih
  | case3 _ expr _ ih => exact ih
  | case4 _ expr ih => exact ih
  | case5 target hident hselector hindex hparen =>
      cases target <;> simp_all [Expr.erasePos, Expr.root?]

theorem Stmt.standsAlone_erasePos (stmt : Stmt) :
    stmt.erasePos.standsAlone = stmt.standsAlone := by
  cases stmt with
  | ifElse _ init => cases init <;> rfl
  | _ => rfl

theorem map_erasePos_within (kind : FrameKind) (events : List Event) :
    (Event.within kind events).map Event.erasePos =
      Event.within kind (events.map Event.erasePos) := by
  simp [Event.within, Event.erasePos]

theorem map_erasePos_declare (params : List Ident) :
    (params.map Event.declare).map Event.erasePos =
      (params.map Ident.erasePos).map Event.declare := by
  rw [List.map_map, List.map_map]
  rfl

theorem ofLoopVariable_erasePos (id : Ident) :
    Event.ofLoopVariable id.erasePos = (Event.ofLoopVariable id).map Event.erasePos := by
  by_cases hdiscard : id.name = Names.discard
  · simp [Event.ofLoopVariable, hdiscard]
  · simp [Event.ofLoopVariable, hdiscard, Event.erasePos]

theorem ofLoopKey_erasePos (key : Option Ident) :
    (key.map Ident.erasePos).toList.flatMap Event.ofLoopVariable =
      (key.toList.flatMap Event.ofLoopVariable).map Event.erasePos := by
  cases key with
  | none => rfl
  | some id => simp [ofLoopVariable_erasePos]

theorem Expr.pos_erasePos (expr : Expr) : expr.erasePos.pos = {} := by
  cases expr <;> rfl

/-- A target without a root is blamed at one of two positions, depending on what is known; without
positions it makes no difference which. -/
theorem ofTarget_erasePos (pos : Pos) (target : Expr) :
    Event.ofTarget {} target.erasePos = (Event.ofTarget pos target).erasePos := by
  simp only [Event.ofTarget, Expr.root?_erasePos, Expr.pos_erasePos, ite_self]
  cases target.root? <;> rfl

theorem ofDefinition_erasePos (pos : Pos) (target value : Expr) (events : List Event) :
    Event.ofDefinition {} target.erasePos value.erasePos (events.map Event.erasePos) =
      (Event.ofDefinition pos target value events).map Event.erasePos := by
  cases target with
  | ident id =>
      simp only [Expr.erasePos, Event.ofDefinition, Expr.isFunction_erasePos]
      split <;> simp [Event.erasePos]
  | _ => rfl

theorem ofAssignment_erasePos (pos : Pos) (op : AssignOp) (target : Expr) (events : List Event) :
    Event.ofAssignment {} op target.erasePos (events.map Event.erasePos) =
      (Event.ofAssignment pos op target events).map Event.erasePos := by
  simp only [Event.ofAssignment, ofTarget_erasePos pos]
  split
  · rfl
  · rw [List.map_append, List.map_cons]
    split <;> rfl

theorem eventsOfElse_erasePos_single (inLoop : Bool) {stmt : Stmt} (halone : stmt.standsAlone)
    (hstmt : stmt.erasePos.events inLoop = (stmt.events inLoop).map Event.erasePos) :
    Stmt.eventsOfElse inLoop (some stmt.erasePos) =
      (Stmt.eventsOfElse inLoop (some stmt)).map Event.erasePos := by
  have halone' : stmt.erasePos.standsAlone := by rwa [Stmt.standsAlone_erasePos]
  rw [Stmt.eventsOfElse_of_standsAlone inLoop halone,
    Stmt.eventsOfElse_of_standsAlone inLoop halone', hstmt, map_erasePos_within]

mutual

theorem Expr.events_erasePos : (expr : Expr) →
    expr.erasePos.events = expr.events.map Event.erasePos
  | .ident _ | .int .. | .float .. | .bool .. | .str .. | .char .. | .undefined _
  | .importModule .. | .error .. | .immutable .. => rfl
  | .paren _ expr | .selector _ expr _ => expr.events_erasePos
  | .binary _ op lhs rhs => by
    simp only [Expr.erasePos, Expr.events, lhs.events_erasePos, rhs.events_erasePos]
    cases op.isBitwise with
    | true => rfl
    | false =>
        simp only [Bool.false_eq_true, if_false, List.map_append]
        split <;> rfl
  | .unary _ op expr => by
    simp only [Expr.erasePos, Expr.events, expr.events_erasePos, List.map_append]
    split <;> rfl
  | .index _ expr key => by
    simp only [Expr.erasePos, Expr.events, expr.events_erasePos, key.events_erasePos,
      List.map_append]
  | .slice _ expr low high => by
    simp only [Expr.erasePos, Expr.events, expr.events_erasePos, Expr.eventsOfOption_erasePos low,
      Expr.eventsOfOption_erasePos high, List.map_append]
    rfl
  | .cond _ test whenTrue whenFalse => by
    simp only [Expr.erasePos, Expr.events, test.events_erasePos, whenTrue.events_erasePos,
      whenFalse.events_erasePos, List.map_append]
  | .call _ callee args => by
    simp only [Expr.erasePos, Expr.events, callee.events_erasePos,
      Expr.eventsOfList_erasePos args, List.map_append]
  | .array _ elements => Expr.eventsOfList_erasePos elements
  | .map _ elements => MapElement.eventsOfList_erasePos elements
  | .func _ params body => by
    simp only [Expr.erasePos, Expr.events, body.events_erasePos false, map_erasePos_within,
      List.map_append, map_erasePos_declare]

theorem Expr.eventsOfOption_erasePos : (expr : Option Expr) →
    Expr.eventsOfOption (Expr.erasePosOption expr) =
      (Expr.eventsOfOption expr).map Event.erasePos
  | none => rfl
  | some expr => expr.events_erasePos

theorem Expr.eventsOfList_erasePos : (exprs : List Expr) →
    Expr.eventsOfList (Expr.erasePosList exprs) = (Expr.eventsOfList exprs).map Event.erasePos
  | [] => rfl
  | expr :: exprs => by
    simp only [Expr.erasePosList, Expr.eventsOfList, expr.events_erasePos,
      Expr.eventsOfList_erasePos exprs, List.map_append]

theorem MapElement.eventsOfList_erasePos : (elements : List MapElement) →
    MapElement.eventsOfList (MapElement.erasePosList elements) =
      (MapElement.eventsOfList elements).map Event.erasePos
  | [] => rfl
  | ⟨_, _, value⟩ :: elements => by
    simp only [MapElement.erasePosList, MapElement.eventsOfList, value.events_erasePos,
      MapElement.eventsOfList_erasePos elements, List.map_append]

theorem Stmt.events_erasePos (inLoop : Bool) : (stmt : Stmt) →
    stmt.erasePos.events inLoop = (stmt.events inLoop).map Event.erasePos
  | .expr _ expr => expr.events_erasePos
  | .incDec pos _ target => by
    simp only [Stmt.erasePos, Stmt.events, ofTarget_erasePos pos, target.events_erasePos,
      List.map_cons]
  | .assign pos op [target] [value] => by
    simp only [Stmt.erasePos, Expr.erasePosList, Stmt.events, target.events_erasePos,
      value.events_erasePos, ← List.map_append]
    split
    · exact ofDefinition_erasePos ..
    · exact ofAssignment_erasePos ..
  | .assign _ _ [] _ | .assign _ _ (_ :: _ :: _) _ | .assign _ _ [_] []
  | .assign _ _ [_] (_ :: _ :: _) => rfl
  | .ret _ result => Expr.eventsOfOption_erasePos result
  | .branch _ op => by
    simp only [Stmt.erasePos, Stmt.events]
    split <;> rfl
  | .block body => by
    simp only [Stmt.erasePos, Stmt.events, body.events_erasePos inLoop, map_erasePos_within]
  | .ifElse _ init test body rest => by
    simp only [Stmt.erasePos, Stmt.events, Stmt.eventsOfOption_erasePos inLoop init,
      test.events_erasePos, body.events_erasePos inLoop, Stmt.eventsOfElse_erasePos inLoop rest,
      map_erasePos_within, List.map_append]
  | .loop _ init test post body => by
    simp only [Stmt.erasePos, Stmt.events, Stmt.eventsOfOption_erasePos inLoop init,
      Expr.eventsOfOption_erasePos test, body.events_erasePos true,
      Stmt.eventsOfOption_erasePos true post, map_erasePos_within, List.map_append]
  | .forIn _ key value iterable body => by
    simp only [Stmt.erasePos, Stmt.events, iterable.events_erasePos, ofLoopKey_erasePos,
      ofLoopVariable_erasePos, body.events_erasePos true, map_erasePos_within, List.map_append]
    rfl
  | .exportValue .. => rfl

theorem Stmt.eventsOfOption_erasePos (inLoop : Bool) : (stmt : Option Stmt) →
    Stmt.eventsOfOption inLoop (Stmt.erasePosOption stmt) =
      (Stmt.eventsOfOption inLoop stmt).map Event.erasePos
  | none => rfl
  | some stmt => stmt.events_erasePos inLoop

theorem Stmt.eventsOfElse_erasePos (inLoop : Bool) : (rest : Option Stmt) →
    Stmt.eventsOfElse inLoop (Stmt.erasePosOption rest) =
      (Stmt.eventsOfElse inLoop rest).map Event.erasePos
  | none => rfl
  | some stmt => by
    cases stmt with
    | block body =>
        simp only [Stmt.erasePosOption, Stmt.erasePos, Stmt.eventsOfElse,
          body.events_erasePos inLoop, map_erasePos_within]
    | ifElse pos init test body rest =>
        cases init with
        | none =>
            simp only [Stmt.erasePosOption, Stmt.erasePos, Stmt.eventsOfElse,
              test.events_erasePos, body.events_erasePos inLoop,
              Stmt.eventsOfElse_erasePos inLoop rest, map_erasePos_within, List.map_append]
        | some init => exact eventsOfElse_erasePos_single inLoop rfl (Stmt.events_erasePos inLoop _)
    | _ => exact eventsOfElse_erasePos_single inLoop rfl (Stmt.events_erasePos inLoop _)

theorem Stmt.eventsOfList_erasePos (inLoop : Bool) : (stmts : List Stmt) →
    Stmt.eventsOfList inLoop (Stmt.erasePosList stmts) =
      (Stmt.eventsOfList inLoop stmts).map Event.erasePos
  | [] => rfl
  | stmt :: stmts => by
    simp only [Stmt.erasePosList, Stmt.eventsOfList, stmt.events_erasePos inLoop,
      Stmt.eventsOfList_erasePos inLoop stmts, List.map_append]

theorem Block.events_erasePos (inLoop : Bool) : (block : Block) →
    block.erasePos.events inLoop = (block.events inLoop).map Event.erasePos
  | ⟨_, stmts⟩ => Stmt.eventsOfList_erasePos inLoop stmts

end

/-! ## Code -/

@[simp] theorem Stmt.isReturn_erasePos (stmt : Stmt) : stmt.erasePos.isReturn = stmt.isReturn := by
  cases stmt <;> rfl

theorem Stmt.getLast?_erasePosList (stmts : List Stmt) :
    (Stmt.erasePosList stmts).getLast? = stmts.getLast?.map Stmt.erasePos := by
  induction stmts with
  | nil => rfl
  | cons stmt stmts ih =>
      rw [Stmt.erasePosList, List.getLast?_cons, List.getLast?_cons, ih]
      cases stmts.getLast? <;> rfl

theorem Block.fallsThrough_erasePos (block : Block) :
    block.erasePos.fallsThrough = block.fallsThrough := by
  obtain ⟨pos, stmts⟩ := block
  simp only [Block.erasePos, Block.fallsThrough, Stmt.getLast?_erasePosList]
  cases stmts.getLast? with
  | none => rfl
  | some stmt => simp

theorem Stmt.length_erasePosList (stmts : List Stmt) :
    (Stmt.erasePosList stmts).length = stmts.length := by
  induction stmts with
  | nil => rfl
  | cons stmt stmts ih => simp [Stmt.erasePosList, ih]

theorem Stmt.isEmpty_erasePosList (stmts : List Stmt) :
    (Stmt.erasePosList stmts).isEmpty = stmts.isEmpty := by
  cases stmts <;> rfl

theorem map_name_erasePos (ids : List Ident) :
    (ids.map Ident.erasePos).map Ident.name = ids.map Ident.name := by
  rw [List.map_map]
  rfl

theorem Stmt.lower_tuple (binding : Binding) (depth : Nat) (pos : Pos) (op : AssignOp)
    {lhs rhs : List Expr} (htuple : lhs.length ≠ 1 ∨ rhs.length ≠ 1) :
    Stmt.lower binding depth (.assign pos op lhs rhs) = [] := by
  have hpair : ∀ target value, lhs = [target] → rhs = [value] → False := by
    rintro target value rfl rfl
    simp at htuple
  rw [Stmt.lower]
  · exact fun id value _ => hpair (.ident id) value
  · exact fun target value _ => hpair target value
  · exact hpair

theorem Stmt.lower_erasePos_assign (binding : Binding) (depth : Nat) (pos : Pos) (op : AssignOp)
    {target value : Expr} (htarget : target.erasePos.lower = target.lower)
    (hvalue : value.erasePos.lower = value.lower) :
    (Stmt.assign pos op [target] [value]).erasePos.lower binding depth =
      (Stmt.assign pos op [target] [value]).lower binding depth := by
  cases op with
  | define =>
      cases target with
      | ident id =>
          simp only [Stmt.erasePos, Expr.erasePosList, Expr.erasePos, Stmt.lower,
            Ident.name_erasePos, Expr.isFunction_erasePos, hvalue]
      | _ => rfl
  | _ => simp only [Stmt.erasePos, Expr.erasePosList, Stmt.lower, htarget, hvalue]

theorem lowerElse_erasePos_single (depth : Nat) {stmt : Stmt} (halone : stmt.standsAlone)
    (hstmt : stmt.erasePos.lower .lexical depth = stmt.lower .lexical depth) :
    Stmt.lowerElse depth (some stmt.erasePos) = Stmt.lowerElse depth (some stmt) := by
  have halone' : stmt.erasePos.standsAlone := by rwa [Stmt.standsAlone_erasePos]
  rw [Stmt.lowerElse_of_standsAlone depth halone, Stmt.lowerElse_of_standsAlone depth halone',
    hstmt]

mutual

theorem Expr.lower_erasePos : (expr : Expr) → expr.erasePos.lower = expr.lower
  | .ident _ | .int .. | .float .. | .bool .. | .str .. | .char .. | .undefined _
  | .importModule .. | .error .. | .immutable .. => rfl
  | .paren _ expr | .selector _ expr _ => by
    simp only [Expr.erasePos, Expr.lower, expr.lower_erasePos]
  | .unary _ op expr => by
    simp only [Expr.erasePos, Expr.lower, expr.lower_erasePos]
  | .binary _ op lhs rhs => by
    simp only [Expr.erasePos, Expr.lower, lhs.lower_erasePos, rhs.lower_erasePos]
  | .index _ expr key => by
    simp only [Expr.erasePos, Expr.lower, expr.lower_erasePos, key.lower_erasePos]
  | .slice _ expr low high => by
    simp only [Expr.erasePos, Expr.lower, expr.lower_erasePos, Expr.lowerOption_erasePos _ low,
      Expr.lowerOption_erasePos _ high]
  | .cond _ test whenTrue whenFalse => by
    simp only [Expr.erasePos, Expr.lower, test.lower_erasePos, whenTrue.lower_erasePos,
      whenFalse.lower_erasePos]
  | .call _ callee args => by
    simp only [Expr.erasePos, Expr.lower, callee.lower_erasePos, Expr.lowerList_erasePos args]
  | .array _ elements => by
    simp only [Expr.erasePos, Expr.lower, Expr.lowerList_erasePos elements]
  | .map _ elements => by
    simp only [Expr.erasePos, Expr.lower, MapElement.lowerList_erasePos elements]
  | .func _ params body => by
    simp only [Expr.erasePos, Expr.lower, map_name_erasePos, body.lower_erasePos]

theorem Expr.lowerOption_erasePos (default : Lua.Expr) : (expr : Option Expr) →
    Expr.lowerOption default (Expr.erasePosOption expr) = Expr.lowerOption default expr
  | none => rfl
  | some expr => expr.lower_erasePos

theorem Expr.lowerList_erasePos : (exprs : List Expr) →
    Expr.lowerList (Expr.erasePosList exprs) = Expr.lowerList exprs
  | [] => rfl
  | expr :: exprs => by
    simp only [Expr.erasePosList, Expr.lowerList, expr.lower_erasePos,
      Expr.lowerList_erasePos exprs]

theorem MapElement.lowerList_erasePos : (elements : List MapElement) →
    MapElement.lowerList (MapElement.erasePosList elements) = MapElement.lowerList elements
  | [] => rfl
  | ⟨_, _, value⟩ :: elements => by
    simp only [MapElement.erasePosList, MapElement.lowerList, value.lower_erasePos,
      MapElement.lowerList_erasePos elements]

theorem Stmt.lower_erasePos (binding : Binding) (depth : Nat) : (stmt : Stmt) →
    stmt.erasePos.lower binding depth = stmt.lower binding depth
  | .expr _ expr => by
    simp only [Stmt.erasePos, Stmt.lower, expr.lower_erasePos]
  | .incDec _ op target => by
    simp only [Stmt.erasePos, Stmt.lower, target.lower_erasePos]
  | .assign pos op [target] [value] =>
    Stmt.lower_erasePos_assign binding depth pos op target.lower_erasePos value.lower_erasePos
  | .assign _ _ [] _ | .assign _ _ (_ :: _ :: _) _ | .assign _ _ [_] []
  | .assign _ _ [_] (_ :: _ :: _) => by
    simp only [Stmt.erasePos, Expr.erasePosList]
    rw [Stmt.lower_tuple, Stmt.lower_tuple] <;> simp
  | .ret _ none => rfl
  | .ret _ (some result) => by
    simp only [Stmt.erasePos, Expr.erasePosOption, Stmt.lower, result.lower_erasePos]
  | .branch _ .break | .branch _ .continue => rfl
  | .block body => by
    simp only [Stmt.erasePos, Stmt.lower, body.lower_erasePos]
  | .ifElse _ init test body rest => by
    simp only [Stmt.erasePos, Stmt.lower, Stmt.lowerOption_erasePos depth init,
      test.lower_erasePos, body.lower_erasePos, Stmt.lowerElse_erasePos depth rest]
  | .loop _ init test post body => by
    have hpost : (Stmt.erasePosOption post).map (Stmt.lower .lexical (depth + 1)) =
        post.map (Stmt.lower .lexical (depth + 1)) := by
      cases post with
      | none => rfl
      | some post => exact congrArg some (post.lower_erasePos .lexical (depth + 1))
    have hinit : (Stmt.erasePosOption init).isSome = init.isSome := by cases init <;> rfl
    simp only [Stmt.erasePos, Stmt.lower_loop, Stmt.lowerOption_erasePos depth init,
      Expr.lowerOption_erasePos _ test, body.lower_erasePos, body.fallsThrough_erasePos, hpost,
      hinit]
  | .forIn _ key value iterable body => by
    simp only [Stmt.erasePos, Stmt.lower, Option.map_map, iterable.lower_erasePos,
      body.lower_erasePos, body.fallsThrough_erasePos]
    rfl
  | .exportValue .. => rfl

theorem Stmt.lowerOption_erasePos (depth : Nat) : (stmt : Option Stmt) →
    Stmt.lowerOption depth (Stmt.erasePosOption stmt) = Stmt.lowerOption depth stmt
  | none => rfl
  | some stmt => stmt.lower_erasePos .lexical depth

theorem Stmt.lowerElse_erasePos (depth : Nat) : (rest : Option Stmt) →
    Stmt.lowerElse depth (Stmt.erasePosOption rest) = Stmt.lowerElse depth rest
  | none => rfl
  | some stmt => by
    cases stmt with
    | block body =>
        simp only [Stmt.erasePosOption, Stmt.erasePos, Stmt.lowerElse, body.lower_erasePos]
    | ifElse pos init test body rest =>
        cases init with
        | none =>
            simp only [Stmt.erasePosOption, Stmt.erasePos, Stmt.lowerElse, test.lower_erasePos,
              body.lower_erasePos, Stmt.lowerElse_erasePos depth rest]
        | some init =>
            exact lowerElse_erasePos_single depth rfl (Stmt.lower_erasePos .lexical depth _)
    | _ => exact lowerElse_erasePos_single depth rfl (Stmt.lower_erasePos .lexical depth _)

theorem Stmt.lowerList_erasePos (binding : Binding) (depth : Nat) : (stmts : List Stmt) →
    Stmt.lowerList binding depth (Stmt.erasePosList stmts) = Stmt.lowerList binding depth stmts
  | [] => rfl
  | stmt :: stmts => by
    rw [Stmt.erasePosList, Stmt.lowerList_cons, Stmt.lowerList_cons, Stmt.isReturn_erasePos,
      Stmt.isEmpty_erasePosList, stmt.lower_erasePos, Stmt.lowerList_erasePos binding depth stmts]

theorem Block.lower_erasePos (binding : Binding) (depth : Nat) : (block : Block) →
    block.erasePos.lower binding depth = block.lower binding depth
  | ⟨_, stmts⟩ => Stmt.lowerList_erasePos binding depth stmts

end

end Script

/-! ## Conversion -/

/-- What a conversion tells without positions. -/
def Conversion.erasePos (conversion : Conversion) : Conversion :=
  { conversion with result := conversion.result.mapError Fault.erasePos }

theorem Script.File.analyse_erasePos (binding : Binding) (file : File) :
    file.erasePos.analyse binding =
      ⟨(file.analyse binding).state, (file.analyse binding).fault?.map Fault.erasePos⟩ := by
  have hevents : file.erasePos.events = file.events.map Event.erasePos :=
    Stmt.eventsOfList_erasePos false file.stmts
  rw [File.analyse, hevents, Analysis.run_erasePos]
  rfl

theorem Script.File.layout_erasePos (binding : Binding) (support : Support) (file : File) :
    file.erasePos.layout binding support = file.layout binding support := by
  have hlower : file.erasePos.lower binding = file.lower binding :=
    Stmt.lowerList_erasePos binding 0 file.stmts
  simp only [File.layout, File.body, hlower]

/-- Converting a script without positions gives what is left of its conversion without them. -/
theorem Script.File.convert_erasePos (options : Options) (file : File) :
    file.erasePos.convert options = (file.convert options).erasePos := by
  have hlength : file.erasePos.stmts.length = file.stmts.length :=
    Stmt.length_erasePosList file.stmts
  simp only [File.convert, File.analyse_erasePos, File.layout_erasePos, hlength]
  cases (file.analyse options.binding).fault? <;> rfl

theorem exists_eq_of_mapError_erasePos_eq {first second : Except Fault String}
    (hsame : first.mapError Fault.erasePos = second.mapError Fault.erasePos) :
    (∃ text, first = .ok text ∧ second = .ok text) ∨
      ∃ cause pos pos', first = .error ⟨pos, cause⟩ ∧ second = .error ⟨pos', cause⟩ := by
  cases first with
  | ok text =>
      cases second with
      | ok text' =>
          obtain rfl : text = text' := Except.ok.inj hsame
          exact .inl ⟨text, rfl, rfl⟩
      | error fault => cases hsame
  | error fault =>
      cases second with
      | ok text => cases hsame
      | error fault' =>
          obtain ⟨pos, cause⟩ := fault
          obtain ⟨pos', cause'⟩ := fault'
          obtain rfl : cause = cause' := congrArg Fault.cause (Except.error.inj hsame)
          exact .inr ⟨cause, pos, pos', rfl, rfl⟩

/-- Scripts that are the same but for their positions are converted to the same text with the same
log, or refused after the same log for the same cause; only the positions of the two faults may
differ. -/
theorem convert_of_erasePos_eq {file other : File} (hsame : file.erasePos = other.erasePos)
    (options : Options) :
    ∃ log,
      (∃ text, file.convert options = ⟨log, .ok text⟩ ∧ other.convert options = ⟨log, .ok text⟩) ∨
      ∃ cause pos pos', file.convert options = ⟨log, .error ⟨pos, cause⟩⟩ ∧
        other.convert options = ⟨log, .error ⟨pos', cause⟩⟩ := by
  have herased : (file.convert options).erasePos = (other.convert options).erasePos := by
    rw [← file.convert_erasePos, ← other.convert_erasePos, hsame]
  generalize file.convert options = conversion, other.convert options = conversion' at herased ⊢
  obtain ⟨log, result⟩ := conversion
  obtain ⟨log', result'⟩ := conversion'
  obtain rfl : log = log' := congrArg Conversion.log herased
  refine ⟨log, ?_⟩
  have hresult : result.mapError Fault.erasePos = result'.mapError Fault.erasePos :=
    congrArg Conversion.result herased
  rcases exists_eq_of_mapError_erasePos_eq hresult with
    ⟨text, rfl, rfl⟩ | ⟨cause, pos, pos', rfl, rfl⟩
  · exact .inl ⟨text, rfl, rfl⟩
  · exact .inr ⟨cause, pos, pos', rfl, rfl⟩

/-- An assignment to a call, which is refused at the position of the call where that is known and
at that of the statement otherwise. -/
def assignedCall (stmtPos callPos : Pos) : File where
  stmts :=
    [.assign {} .define [.ident { name := "f" }]
        [.func {} [] { stmts := [.expr {} (.ident { name := "f" })] }],
      .assign stmtPos .assign [.call callPos (.ident { name := "f" }) []] [.int {} "1"]]

theorem convert_assignedCall :
    let placed := assignedCall ⟨2, 1⟩ ⟨2, 4⟩
    let unplaced := assignedCall ⟨7, 1⟩ {}
    placed ≠ unplaced ∧ placed.erasePos = unplaced.erasePos ∧
      (placed.convert {}).log = (unplaced.convert {}).log ∧
      (placed.convert {}).result = .error ⟨⟨2, 4⟩, .invalidTarget⟩ ∧
      (unplaced.convert {}).result = .error ⟨⟨7, 1⟩, .invalidTarget⟩ := by
  intro placed unplaced
  have hne : placed ≠ unplaced := by
    simp [placed, unplaced, assignedCall]
  have hsame : placed.erasePos = unplaced.erasePos := rfl
  refine ⟨hne, hsame, ?_, rfl, rfl⟩
  obtain ⟨log, ⟨text, hplaced, hunplaced⟩ | ⟨cause, pos, pos', hplaced, hunplaced⟩⟩ :=
    convert_of_erasePos_eq hsame {}
  · rw [hplaced, hunplaced]
  · rw [hplaced, hunplaced]

end LuaBackend
