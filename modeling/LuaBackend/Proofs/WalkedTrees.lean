import LuaBackend.Proofs.Walks

/-!
# Walks over trees

The walk over a tree runs the events of the tree and gives the text of its code
(`Walk.Does.ofStmt`), for every tree and every setting.  So the conversion of a script in one walk is its conversion by
analysis and printer (`File.generate_eq_convert`).
-/

namespace LuaBackend

open Script Generator

/-! ## Text -/

namespace Lua

variable (indent : String) (level : Nat)

theorem Expr.printList_eq_intercalate (exprs : List Expr) :
    Expr.printList indent level exprs = ", ".intercalate (exprs.map (Expr.print indent level)) := by
  induction exprs with
  | nil => rfl
  | cons expr exprs ih =>
      cases exprs with
      | nil => exact (String.intercalate_singleton ..).symm
      | cons next exprs =>
          rw [List.map_cons, List.map_cons, String.intercalate_cons_cons, ← List.map_cons, ← ih]
          rfl

theorem Field.printList_eq_intercalate (fields : List Field) :
    Field.printList indent level fields =
      ", ".intercalate (fields.map (Field.print indent level)) := by
  induction fields with
  | nil => rfl
  | cons field fields ih =>
      cases fields with
      | nil => exact (String.intercalate_singleton ..).symm
      | cons next fields =>
          rw [List.map_cons, List.map_cons, String.intercalate_cons_cons, ← List.map_cons, ← ih]
          rfl

theorem Expr.print_array {elements : List Expr} (helements : elements ≠ []) :
    (Expr.array elements).print indent level =
      "\x7b[0]=" ++
        ", ".intercalate ((elements.map (Expr.print indent level)).map bracketed) ++
        ", __a=true\x7d" := by
  cases elements with
  | nil => exact absurd rfl helements
  | cons first others =>
      have hitems : ((others.map fun value => Field.item (.paren value)).map
          (Field.print indent level)) = (others.map (Expr.print indent level)).map bracketed := by
        simp only [List.map_map]
        rfl
      have hfirst : Field.print indent level (.keyed (.numeral "0") (.paren first)) =
          "[0]=" ++ bracketed (first.print indent level) := rfl
      rw [Expr.array, Expr.print, Field.printList_eq_intercalate, List.map_append, List.map_cons,
        hitems, hfirst, List.map_singleton,
        String.intercalate_append_of_ne_nil (List.cons_ne_nil _ _) (List.cons_ne_nil _ _),
        String.intercalate_cons_append, String.intercalate_singleton]
      have hmark : Field.print indent level (.named Names.arrayMark (.bool true)) = "__a=true" := rfl
      rw [hmark]
      have hopen : ("\x7b[0]=" : String) = "\x7b" ++ "[0]=" := rfl
      have hclose : (", __a=true\x7d" : String) = ", " ++ "__a=true" ++ "\x7d" := rfl
      rw [hopen, hclose]
      simp only [String.append_assoc, List.map_cons]

theorem Expr.print_choose (test whenTrue whenFalse : Expr) :
    (Expr.choose test whenTrue whenFalse).print indent level =
      bracketed ("function() if " ++ test.print indent level ++ " then return " ++
        bracketed (whenTrue.print indent level) ++ " else return " ++
        bracketed (whenFalse.print indent level) ++ " end end") ++ "()" := by
  simp only [Expr.choose, Expr.print, Expr.printList, Stmt.printList, Stmt.print, Style.inside,
    Style.print, Else.print, bracketed]
  apply String.toList_inj.1
  simp [functionHead]

end Lua

/-! ## Names -/

namespace Walk.Does

variable {setting : Setting} {indent : String}

theorem needIf (p : Prop) [Decidable p] (snippet : Snippet) :
    Does setting (Walk.needIf p snippet) (if p then [.need snippet] else []) () := by
  unfold Walk.needIf
  split
  · exact event rfl
  · exact pure ()

/-- The target of an assignment is looked up or refused. -/
theorem target (pos : Pos) (target : Expr) :
    Does setting (Walk.event (.ofTarget pos target)) [.ofTarget pos target] () := by
  apply event
  unfold Event.ofTarget
  split <;> rfl

theorem declare (id : Ident) : Does setting (Walk.declare id) [.declare id] setting.binding :=
  (event rfl).bind (query _)

theorem declareAll (ids : List Ident) :
    Does setting (Walk.declareAll ids) (ids.map .declare) () := by
  induction ids with
  | nil => exact pure ()
  | cons id ids ih => exact (event rfl).bind ih

theorem loopVariable (key : Option Ident) :
    Does setting (Walk.loopVariable key) (key.toList.flatMap Event.ofLoopVariable)
      ((key.map Ident.name).getD Names.discard) := by
  cases key with
  | none => exact pure _
  | some id =>
      simp only [Walk.loopVariable, Option.toList_some, List.flatMap_singleton,
        Event.ofLoopVariable, Option.map_some, Option.getD_some]
      by_cases hname : id.name = Names.discard
      · rw [if_pos hname, if_pos hname, hname]
        exact pure _
      · rw [if_neg hname, if_neg hname]
        exact bind (event rfl) (pure _)

/-- Only an identifier is defined; its value is walked behind the declaration if it is a
function. -/
theorem define (pos : Pos) (target value : Expr) {walkValue : Walk String} {events : List Event}
    {code : Lua.Expr} (hvalue : Does setting walkValue events (code.print indent setting.level))
    {text : String} (htext : ∀ id, target = .ident id → text = Lua.Stmt.print indent .lines
      setting.level (.bind setting.binding value.isFunction id.name code)) :
    Does setting (Walk.define indent pos target value walkValue)
      (Event.ofDefinition pos target value events) text := by
  cases target with
  | ident id =>
      rw [htext id rfl, Walk.define, Event.ofDefinition]
      cases value.isFunction with
      | true =>
          simp only [if_true]
          refine ((declare id).bind (hvalue.bind ?_)).congr (congrArg _ (List.append_nil _)) rfl
          cases setting.binding <;> exact line _ _
      | false =>
          simp only [Bool.false_eq_true, if_false]
          refine ((event rfl).bind (hvalue.bind ((declare id).bind ?_))).congr rfl rfl
          cases setting.binding <;> exact line _ _
  | selector | index => exact refuse _ _
  | _ => exact refuse _ _

/-! ## Loops -/

theorem enclosed {walk : Walk String} {events : List Event} {text : String} (head : String)
    (hwalk : Does setting walk events text) :
    Does setting (Walk.enclosed indent head walk) events
      (Lua.printLine indent setting.level head ++ text ++
        Lua.printLine indent setting.level "end") := by
  unfold Walk.enclosed
  exact congr (bind (line _ _) (bind hwalk (bind (line _ _) (pure _)))) (List.append_nil _) rfl

theorem guarded {walkBody : Walk String} {events : List Event} {body : List Lua.Stmt}
    (flag : String) (fallsThrough : Bool)
    (hbody : Does { setting with level := setting.level + 1, binding := .lexical } walkBody events
      (Lua.Stmt.printList indent .lines (setting.level + 1) body)) :
    Does setting (Walk.guarded indent flag fallsThrough walkBody) (Event.within .block events)
      (Lua.Stmt.printList indent .lines setting.level
        (Lua.Stmt.guarded flag body fallsThrough)) := by
  let done := if fallsThrough then [Lua.Stmt.assign (.name flag) (.bool true)] else []
  have hdone : Does { setting with level := setting.level + 1, binding := .lexical }
      (Walk.lineIf fallsThrough indent (flag ++ " = " ++ "true")) []
      (Lua.Stmt.printList indent .lines (setting.level + 1) done) := by
    cases fallsThrough with
    | true => exact line _ _
    | false => exact pure _
  unfold Walk.guarded
  refine congr (bind (line _ _) (bind (line _ _) (bind
    (indented (inFrame .block (bind hbody (bind hdone (pure _)))))
    (bind (line _ _) (pure _))))) ?_ ?_
  · simp
  · rw [Lua.Stmt.guarded, Lua.Stmt.printList_lines_cons, Lua.Stmt.printList, Lua.Stmt.print,
      Lua.Stmt.print, Lua.Stmt.printList_lines_append]
    simp only [Lua.Expr.print, Lua.Style.print, done, String.append_assoc]

theorem breakUnless (flag : String) :
    Does setting (Walk.breakUnless indent flag) []
      ((Lua.Stmt.breakUnless flag).print indent .lines setting.level) := by
  refine congr (line _ _) rfl ?_
  rw [Lua.Stmt.breakUnless, Lua.Stmt.print]
  simp only [Lua.Style.inside, Lua.Style.print, Lua.Expr.print, Lua.UnaryOp.lead,
    Lua.Stmt.printList, Lua.Stmt.print, Lua.Else.print, String.append_assoc, String.empty_append]

theorem afterRound {walkPost : Walk String} {events : List Event} {post : List Lua.Stmt}
    (flag : String)
    (hpost : Does { setting with level := setting.level + 1 } walkPost events
      (Lua.Stmt.printList indent .lines (setting.level + 1) post)) :
    Does setting (Walk.afterRound indent flag (some walkPost)) events
      ((Lua.Stmt.afterRound flag (some post)).print indent .lines setting.level) := by
  unfold Walk.afterRound
  refine congr (bind (line _ _) (bind (indented hpost) (bind (line _ _) (bind (indented (line _ _))
    (bind (line _ _) (pure _)))))) ?_ ?_
  · simp
  · rw [Lua.Stmt.afterRound, Lua.Stmt.print]
    simp only [Lua.Style.inside, Lua.Style.print, Lua.Expr.print, Lua.Stmt.printList,
      Lua.Stmt.print, Lua.Else.print, String.append_assoc]

theorem round {walkBody : Walk String} {walkNext : String → Walk String}
    {bodyEvents nextEvents : List Event} {body : List Lua.Stmt} {next : Lua.Stmt}
    (fallsThrough : Bool)
    (hbody : Does ⟨setting.level + 1 + 1, setting.loops + 1, .lexical⟩ walkBody bodyEvents
      (Lua.Stmt.printList indent .lines (setting.level + 1 + 1) body))
    (hnext : Does ⟨setting.level + 1, setting.loops + 1, setting.binding⟩
      (walkNext (Names.continueFlag (setting.loops + 1))) nextEvents
      (next.print indent .lines (setting.level + 1))) :
    Does setting (Walk.round indent fallsThrough walkBody walkNext)
      (Event.within .block bodyEvents ++ nextEvents)
      (Lua.Stmt.printList indent .lines (setting.level + 1)
        (Lua.Stmt.guarded (Names.continueFlag (setting.loops + 1)) body fallsThrough ++ [next])) := by
  unfold Walk.round
  refine congr (inLoop (indented (bind (query _) (bind (guarded _ fallsThrough hbody)
    (bind hnext (pure _)))))) ?_ ?_
  · simp
  · rw [Lua.Stmt.printList_lines_append]
    rfl

theorem whileLoop {walkTest walkBody : Walk String} {walkPost : Option (Walk String)}
    {testEvents bodyEvents postEvents : List Event} {test : Lua.Expr} {body : List Lua.Stmt}
    {post : Option (List Lua.Stmt)} (fallsThrough : Bool)
    (htest : Does setting walkTest testEvents (test.print indent setting.level))
    (hbody : Does ⟨setting.level + 1 + 1, setting.loops + 1, .lexical⟩ walkBody bodyEvents
      (Lua.Stmt.printList indent .lines (setting.level + 1 + 1) body))
    (hpost : Does ⟨setting.level + 1, setting.loops + 1, setting.binding⟩
      (Walk.afterRound indent (Names.continueFlag (setting.loops + 1)) walkPost) postEvents
      ((Lua.Stmt.afterRound (Names.continueFlag (setting.loops + 1)) post).print indent .lines
        (setting.level + 1))) :
    Does setting (Walk.whileLoop indent fallsThrough walkTest walkBody walkPost)
      (testEvents ++ Event.within .block bodyEvents ++ postEvents)
      ((Lua.Stmt.whileLoop test
        (Lua.Stmt.guarded (Names.continueFlag (setting.loops + 1)) body fallsThrough ++
          [.afterRound (Names.continueFlag (setting.loops + 1)) post])).print indent .lines
        setting.level) := by
  unfold Walk.whileLoop
  refine congr (bind htest (enclosed _ (round fallsThrough hbody hpost))) ?_ ?_
  · simp
  · rw [Lua.Stmt.print]

end Walk.Does

/-! ## Every tree -/

namespace Script

/-- Every operator that is not refused has its spelling in Lua. -/
theorem BinaryOp.exists_lower?_eq_some {op : BinaryOp} (hop : op.isBitwise = false) :
    ∃ lowered, op.lower? = some lowered ∧ lowered.spelling = op.luaSpelling := by
  cases op with
  | bitAnd | bitOr | bitXor | bitAndNot | shiftLeft | shiftRight => cases hop
  | _ => exact ⟨_, rfl, rfl⟩

theorem Stmt.walkElse_of_standsAlone (indent : String) {stmt : Stmt} (halone : stmt.standsAlone) :
    Stmt.walkElse indent (some stmt) = (do
      let head ← Walk.line indent "else"
      let body ← Walk.indented (Walk.inFrame .block (stmt.walk indent))
      return head ++ body) := by
  cases stmt with
  | block => simp [standsAlone] at halone
  | ifElse _ init =>
      cases init with
      | none => simp [standsAlone] at halone
      | some => rfl
  | _ => rfl

theorem Stmt.walkList_cons (indent : String) {stmt : Stmt} {stmts : List Stmt}
    (hfree : (stmt.isReturn && !stmts.isEmpty) = false) :
    Stmt.walkList indent (stmt :: stmts) = (do
      let first ← stmt.walk indent
      let others ← Stmt.walkList indent stmts
      return first ++ others) := by
  cases stmt with
  | ret =>
      cases stmts with
      | nil => rfl
      | cons => simp [isReturn] at hfree
  | _ => rfl

/-- The text of an assignment that is neither a definition nor refused. -/
theorem Stmt.print_lower_assign (indent : String) (setting : Setting) (pos : Pos) {op : AssignOp}
    (target value : Expr) (hdefine : op ≠ .define) (hbitwise : op.isBitwise = false) :
    Lua.Stmt.printList indent .lines setting.level
        ((Stmt.assign pos op [target] [value]).lower setting.binding setting.loops) =
      Lua.printLine indent setting.level
        (let left := target.lower.print indent setting.level
        let right := value.lower.print indent setting.level
        match op.sign? with
        | none => left ++ " = " ++ right
        | some sign => left ++ " = " ++ bracketed (left ++ (" " ++ sign ++ " ") ++ right)) := by
  cases op with
  | define => exact absurd rfl hdefine
  | assign | add | sub | mul | quo | rem => rfl
  | _ => cases hbitwise

/-- A return on a line of its own is the line of its inline text. -/
theorem Stmt.print_lines_lower_ret (indent : String) (setting : Setting) (pos : Pos)
    (result : Option Expr) :
    Lua.Stmt.printList indent .lines setting.level
        ((Stmt.ret pos result).lower setting.binding setting.loops) =
      Lua.printLine indent setting.level
        (Lua.Stmt.printList indent .inline setting.level
          ((Stmt.ret pos result).lower setting.binding setting.loops)) := by
  cases result with
  | none | some =>
      rw [Stmt.lower, Lua.Stmt.printList, Lua.Stmt.printList, Lua.Stmt.print, Lua.Stmt.print]
      rfl

/-- Inside a loop a branch finds a loop around it. -/
theorem decide_inside_loop (loops : Nat) : decide (0 < loops + 1) = true :=
  decide_eq_true (Nat.succ_pos loops)

end Script

namespace Walk.Does

variable {indent : String} {setting : Setting}

theorem ofElse_single {stmt : Stmt} (halone : stmt.standsAlone)
    (hwalk : Does ⟨setting.level + 1, setting.loops, .lexical⟩ (stmt.walk indent)
      (stmt.events (0 < setting.loops))
      (Lua.Stmt.printList indent .lines (setting.level + 1) (stmt.lower .lexical setting.loops))) :
    Does setting (Stmt.walkElse indent (some stmt))
      (Stmt.eventsOfElse (0 < setting.loops) (some stmt))
      ((Stmt.lowerElse setting.loops (some stmt)).print indent .lines setting.level) := by
  rw [Stmt.walkElse_of_standsAlone indent halone, Stmt.eventsOfElse_of_standsAlone _ halone,
    Stmt.lowerElse_of_standsAlone _ halone, Lua.Else.print]
  exact congr (bind (line _ _) (bind (indented (inFrame .block hwalk)) (pure _))) (by simp) rfl

variable (indent)

mutual

theorem ofExpr (setting : Setting) : (expr : Expr) →
    Does setting (expr.walk indent) expr.events (expr.lower.print indent setting.level)
  | .ident _ => bind (event rfl) (pure _)
  | .int .. | .float .. | .str .. | .undefined _ => pure _
  | .bool _ value => by
    cases value <;> exact pure _
  | .char .. | .importModule .. | .error .. | .immutable .. => refuse _ _
  | .paren _ expr => congr (bind (ofExpr setting expr) (pure _)) (List.append_nil _) rfl
  | .binary pos op lhs rhs => by
    rw [Expr.walk, Expr.events, Expr.lower]
    cases hop : op.isBitwise with
    | true => exact refuse _ _
    | false =>
        obtain ⟨lowered, hlower, hspelling⟩ := BinaryOp.exists_lower?_eq_some hop
        rw [hlower]
        refine congr (bind (ofExpr setting lhs) (bind (ofExpr setting rhs)
          (bind (needIf _ _) (pure _)))) ?_ ?_
        · simp
        · rw [← hspelling]
          rfl
  | .unary pos op expr => by
    rw [Expr.walk, Expr.events, Expr.lower]
    cases op with
    | complement => exact bind (ofExpr setting expr) (refuse _ _)
    | _ => exact bind (ofExpr setting expr) (pure _)
  | .selector _ expr _ => congr (bind (ofExpr setting expr) (pure _)) (List.append_nil _) rfl
  | .index _ expr key =>
    congr (bind (ofExpr setting expr) (bind (ofExpr setting key) (pure _)))
      (by simp [Expr.events]) rfl
  | .slice _ expr low high => by
    rw [Expr.walk, Expr.events, Expr.lower]
    refine congr (bind (ofExpr setting expr)
      (bind (ofExprOption setting (.numeral "0") low)
        (bind (ofExprOption setting .nil high) (bind (event rfl) (pure _))))) ?_ ?_
    · simp
    · simp only [Lua.Expr.print, Lua.Expr.printList, bracketed, String.append_assoc]
  | .cond _ test whenTrue whenFalse => by
    rw [Expr.walk, Expr.events, Expr.lower]
    refine congr (bind (ofExpr setting test) (bind (ofExpr setting whenTrue)
      (bind (ofExpr setting whenFalse) (pure _)))) ?_ ?_
    · simp
    · exact (Lua.Expr.print_choose ..).symm
  | .call _ callee args => by
    rw [Expr.walk, Expr.events, Expr.lower]
    refine congr (bind (ofExpr setting callee)
      (bind (ofExprs setting args) (pure _))) ?_ ?_
    · simp
    · rw [← Lua.Expr.printList_eq_intercalate, Lua.Expr.print, bracketed]
      simp only [String.append_assoc]
  | .array _ [] => pure _
  | .array _ (first :: others) => by
    rw [Expr.walk, Expr.events, Expr.lower]
    refine congr (bind (ofExprs setting (first :: others)) (pure _)) (List.append_nil _) ?_
    · rw [Lua.Expr.print_array]
      simp [Expr.lowerList]
    · simp
  | .map _ elements => by
    rw [Expr.walk, Expr.events, Expr.lower, Lua.Expr.print]
    refine congr (bind (ofElements setting elements) (pure _)) (List.append_nil _) ?_
    rw [Lua.Field.printList_eq_intercalate]
  | .func _ params body => by
    rw [Expr.walk, Expr.events, Expr.lower, Lua.Expr.print]
    have hbody := ofBlock ⟨setting.level + 1, 0, .lexical⟩ body
    refine congr (inFunction (inFrame .function (bind (declareAll params)
      (bind (indented hbody) (bind (query _) (pure _)))))) ?_ ?_
    · simp
    · rfl

theorem ofExprOption (setting : Setting) (default : Lua.Expr) : (expr : Option Expr) →
    Does setting (Expr.walkOption indent (default.print indent setting.level) expr)
      (Expr.eventsOfOption expr) ((Expr.lowerOption default expr).print indent setting.level)
  | none => pure _
  | some expr => ofExpr setting expr

theorem ofExprs (setting : Setting) : (exprs : List Expr) →
    Does setting (Expr.walkList indent exprs) (Expr.eventsOfList exprs)
      ((Expr.lowerList exprs).map (Lua.Expr.print indent setting.level))
  | [] => pure _
  | expr :: exprs =>
    congr (bind (ofExpr setting expr) (bind (ofExprs setting exprs) (pure _)))
      (by simp [Expr.eventsOfList]) rfl

theorem ofElements (setting : Setting) : (elements : List MapElement) →
    Does setting (MapElement.walkList indent elements) (MapElement.eventsOfList elements)
      ((MapElement.lowerList elements).map (Lua.Field.print indent setting.level))
  | [] => pure _
  | ⟨_, _, value⟩ :: elements =>
    congr (bind (ofExpr setting value) (bind (ofElements setting elements) (pure _)))
      (by simp [MapElement.eventsOfList]) rfl

theorem ofReturn (setting : Setting) (pos : Pos) : (result : Option Expr) →
    Does setting (Expr.walkReturn indent result) (Expr.eventsOfOption result)
      (Lua.Stmt.printList indent .inline setting.level
        ((Stmt.ret pos result).lower setting.binding setting.loops))
  | none => pure _
  | some expr => congr (bind (ofExpr setting expr) (pure _)) (List.append_nil _) rfl

theorem ofStmt (setting : Setting) : (stmt : Stmt) →
    Does setting (stmt.walk indent) (stmt.events (0 < setting.loops))
      (Lua.Stmt.printList indent .lines setting.level (stmt.lower setting.binding setting.loops))
  | .expr _ expr => by
    rw [Stmt.walk, Stmt.events, Stmt.lower, Lua.Stmt.printList, Lua.Stmt.print]
    exact congr (bind (ofExpr setting expr) (line _ _)) (List.append_nil _) rfl
  | .incDec pos op tgt => by
    rw [Stmt.walk, Stmt.events, Stmt.lower, Lua.Stmt.printList, Lua.Stmt.update, Lua.Stmt.print]
    refine congr (bind (target pos tgt) (bind (ofExpr setting tgt) (line _ _))) ?_ ?_
    · simp
    · cases op <;> rfl
  | .assign pos op [tgt] [value] => by
    rw [Stmt.walk, Stmt.events]
    by_cases hop : op = .define
    · subst hop
      rw [if_pos rfl, if_pos rfl]
      refine define pos tgt value (ofExpr setting value) ?_
      intro id htgt
      rw [htgt, Stmt.lower, Lua.Stmt.printList]
    · rw [if_neg hop, if_neg hop, Event.ofAssignment]
      cases hbitwise : op.isBitwise with
      | true => exact refuse _ _
      | false =>
          refine congr (bind (target pos tgt) (bind (ofExpr setting tgt)
            (bind (ofExpr setting value) (bind (needIf _ _) (line _ _))))) ?_ ?_
          · simp
          · exact (Stmt.print_lower_assign indent setting pos tgt value hop hbitwise).symm
  | .assign pos op [] _ | .assign pos op (_ :: _ :: _) _ | .assign pos op [_] []
  | .assign pos op [_] (_ :: _ :: _) => refuse _ _
  | .ret pos result => by
    rw [Stmt.walk, Stmt.events]
    refine congr (bind (ofReturn setting pos result) (line _ _)) (List.append_nil _) ?_
    exact (Stmt.print_lines_lower_ret indent setting pos result).symm
  | .branch pos op => by
    rw [Stmt.walk, Stmt.events]
    refine congr (bind (query _) ?_) (List.nil_append _) rfl
    by_cases hloops : setting.loops = 0
    · rw [if_pos hloops, if_neg (by simp [hloops])]
      exact refuse _ _
    · rw [if_neg hloops, if_pos (by simp [Nat.pos_of_ne_zero hloops])]
      cases op with
      | «break» => exact line _ _
      | «continue» =>
          refine congr (bind (line _ _) (bind (line _ _) (pure _))) rfl ?_
          rw [Stmt.lower, Lua.Stmt.printList_lines_cons, Lua.Stmt.printList]
          rfl
  | .block body => by
    rw [Stmt.walk, Stmt.events, Stmt.lower, Lua.Stmt.printList, Lua.Stmt.print]
    have hbody := ofBlock ⟨setting.level + 1, setting.loops, .lexical⟩ body
    exact enclosed _ (indented (inFrame .block hbody))
  | .ifElse _ init test body rest => by
    rw [Stmt.walk, Stmt.events, Stmt.lower, Lua.Stmt.printList, Lua.Stmt.print]
    have hinit := ofStmtOption (setting.level + 1) setting.loops init
    have htest := ofExpr ⟨setting.level + 1, setting.loops, .lexical⟩ test
    have hbody := ofBlock ⟨setting.level + 1 + 1, setting.loops, .lexical⟩ body
    have hrest := ofElse ⟨setting.level + 1, setting.loops, .lexical⟩ rest
    refine congr (enclosed _ (indented (inFrame .block (bind hinit (bind htest (bind (line _ _)
      (bind (indented (inFrame .block hbody)) (bind hrest (bind (line _ _) (pure _)))))))))) ?_ ?_
    · simp
    · rw [Lua.Stmt.printList_lines_append, Lua.Stmt.printList, Lua.Stmt.print]
      simp only [Lua.Style.inside, String.append_assoc]
  | .loop _ init test post body => by
    rw [Stmt.walk, Stmt.events]
    -- The loop stands one level further in if it is put into a block with a first statement.
    have hloop : ∀ level, Does ⟨level, setting.loops, .lexical⟩
        (Walk.whileLoop indent body.fallsThrough (Expr.walkOption indent "true" test)
          (body.walk indent) (Stmt.walkOption indent post))
        (Expr.eventsOfOption test ++ Event.within .block (body.events true) ++
          Stmt.eventsOfOption true post)
        ((Lua.Stmt.whileLoop (Expr.lowerOption (.bool true) test)
          (Lua.Stmt.guarded (Names.continueFlag (setting.loops + 1))
              (body.lower .lexical (setting.loops + 1)) body.fallsThrough ++
            [Lua.Stmt.afterRound (Names.continueFlag (setting.loops + 1))
              (post.map (Stmt.lower .lexical (setting.loops + 1)))])).print indent .lines level) := by
      intro level
      have htest := ofExprOption ⟨level, setting.loops, .lexical⟩ (.bool true) test
      have hbody := ofBlock ⟨level + 1 + 1, setting.loops + 1, .lexical⟩ body
      rw [decide_inside_loop] at hbody
      refine whileLoop body.fallsThrough htest hbody ?_
      cases post with
      | none => exact breakUnless _
      | some post =>
          have hpost := ofStmt ⟨level + 1 + 1, setting.loops + 1, .lexical⟩ post
          rw [decide_inside_loop] at hpost
          exact afterRound _ hpost
    rw [Stmt.lower_loop]
    cases init with
    | none =>
        exact congr (inFrame .block (hloop setting.level)) (by simp [Stmt.eventsOfOption]) rfl
    | some init =>
        have hinit := ofStmt ⟨setting.level + 1, setting.loops, .lexical⟩ init
        refine congr (inFrame .block (enclosed _ (indented (bind hinit
          (bind (hloop (setting.level + 1)) (pure _)))))) ?_ ?_
        · simp [Stmt.eventsOfOption]
        · simp only [Option.isSome_some, if_true]
          rw [Lua.Stmt.printList, Lua.Stmt.print, Stmt.lowerOption, Lua.Stmt.printList_lines_append,
            Lua.Stmt.printList]
          rfl
  | .forIn _ key value iterable body => by
    rw [Stmt.walk, Stmt.events, Stmt.lower, Lua.Stmt.printList, Lua.Stmt.print]
    have hbody := ofBlock ⟨setting.level + 1 + 1, setting.loops + 1, .lexical⟩ body
    rw [decide_inside_loop] at hbody
    refine congr (bind (ofExpr setting iterable) (bind (event rfl) (inFrame .block
      (bind (loopVariable key) (bind (loopVariable (some value))
        (enclosed _ (round body.fallsThrough hbody (breakUnless _)))))))) ?_ ?_
    · simp
    · simp only [Lua.Expr.print, Lua.Expr.printList, bracketed, String.intercalate_cons_cons,
        String.intercalate_singleton, Option.map_some, Option.getD_some, String.append_assoc]
  | .exportValue .. => refuse _ _

theorem ofStmtOption (level loops : Nat) : (stmt : Option Stmt) →
    Does ⟨level, loops, .lexical⟩ ((Stmt.walkOption indent stmt).getD (Pure.pure ""))
      (Stmt.eventsOfOption (0 < loops) stmt)
      (Lua.Stmt.printList indent .lines level (Stmt.lowerOption loops stmt))
  | none => pure _
  | some stmt => ofStmt ⟨level, loops, .lexical⟩ stmt

theorem ofElse (setting : Setting) : (rest : Option Stmt) →
    Does setting (Stmt.walkElse indent rest) (Stmt.eventsOfElse (0 < setting.loops) rest)
      ((Stmt.lowerElse setting.loops rest).print indent .lines setting.level)
  | none => pure _
  | some stmt => by
    cases stmt with
    | block body =>
        rw [Stmt.walkElse, Stmt.eventsOfElse, Stmt.lowerElse, Lua.Else.print]
        have hbody := ofBlock ⟨setting.level + 1, setting.loops, .lexical⟩ body
        exact congr (bind (line _ _) (bind (indented (inFrame .block hbody)) (pure _)))
          (by simp) rfl
    | ifElse pos init test body rest =>
        cases init with
        | none =>
            rw [Stmt.walkElse, Stmt.eventsOfElse, Stmt.lowerElse, Lua.Else.print]
            have hbody := ofBlock ⟨setting.level + 1, setting.loops, .lexical⟩ body
            refine congr (bind (ofExpr setting test) (bind (line _ _)
              (bind (indented (inFrame .block hbody)) (bind (ofElse setting rest)
                (pure _))))) ?_ rfl
            simp
        | some init => exact ofElse_single rfl (ofStmt _ _)
    | _ => exact ofElse_single rfl (ofStmt _ _)

theorem ofStmts (setting : Setting) : (stmts : List Stmt) →
    Does setting (Stmt.walkList indent stmts) (Stmt.eventsOfList (0 < setting.loops) stmts)
      (Lua.Stmt.printList indent .lines setting.level
        (Stmt.lowerList setting.binding setting.loops stmts))
  | [] => pure _
  | stmt :: stmts => by
    have hothers := ofStmts setting stmts
    rw [Stmt.lowerList_cons, Stmt.eventsOfList, Lua.Stmt.printList_lines_append]
    cases hfree : stmt.isReturn && !stmts.isEmpty with
    | false =>
        rw [Stmt.walkList_cons indent hfree]
        exact congr (bind (ofStmt setting stmt) (bind hothers (pure _))) (by simp) rfl
    | true =>
        -- Only a return that is followed by more is not walked as a statement.
        cases stmt with
        | ret pos result =>
            cases stmts with
            | nil => cases hfree
            | cons next stmts =>
                refine congr (bind (ofReturn setting pos result) (bind (line _ _)
                  (bind hothers (pure _)))) (by simp [Stmt.events]) ?_
                rw [if_pos rfl, Lua.Stmt.printList, Lua.Stmt.print]
                rfl
        | _ => cases hfree

theorem ofBlock (setting : Setting) : (block : Block) →
    Does setting (block.walk indent) (block.events (0 < setting.loops))
      (Lua.Stmt.printList indent .lines setting.level
        (block.lower setting.binding setting.loops))
  | ⟨_, stmts⟩ => ofStmts setting stmts

end

end Walk.Does

/-- The walk of a script ends as its analysis does, and its value is the text of the body. -/
theorem Script.File.agrees_walkList (options : Options) (file : File) :
    (Stmt.walkList options.indent file.stmts (.initial options.binding)).Agrees
      (file.analyse options.binding)
      (Lua.Stmt.printList options.indent .lines 0 (file.lower options.binding)) :=
  (Walk.Does.ofStmts options.indent ⟨0, 0, options.binding⟩ file.stmts).agrees
    (.initial options.binding) rfl

theorem Script.File.result_walkList {options : Options} (file : File)
    (hfault : (file.analyse options.binding).fault? = none) :
    (Stmt.walkList options.indent file.stmts (.initial options.binding)).result =
      .ok ((file.body options.binding).render options.indent) := by
  have hagrees := file.agrees_walkList options
  unfold Generator.Outcome.Agrees at hagrees
  simp only [hfault] at hagrees
  rw [hagrees.1, File.body, Lua.Stmt.render_layoutList]

/-- Walking a script and converting it give the same log and the same result. -/
theorem Script.File.generate_eq_convert (options : Options) (file : File) :
    file.generate options = file.convert options := by
  have hagrees := file.agrees_walkList options
  unfold File.generate File.convert
  unfold Generator.Outcome.Agrees at hagrees
  cases hfault : (file.analyse options.binding).fault? with
  | none =>
      simp only [hfault] at hagrees
      have htext := file.render_layout_eq_print options.indent options.binding
        (file.analyse options.binding).state.support
      simp only [hagrees.1, Generator.support, hagrees.2, htext, hfault]
  | some fault =>
      simp only [hfault] at hagrees
      simp only [hagrees.1, hagrees.2.2, hfault]

end LuaBackend
