import LuaBackend.Proofs.AlikeTexts
import LuaBackend.Proofs.NestedBranches
import LuaBackend.Proofs.Positions
import Mathlib.Data.List.Forall2

/-!
# The text of chains and of nested branches

A chain of branches is written branch by branch.  `Branch.foldedText` is the text of an `if` that
joins the chain around it, and `Branch.nestedText` that of the same `if` in a block of its own: the
same tests and bodies, two levels further in.

All other text of a script is the same for both, so the texts of the two scripts are alike: they
have the same segments, between which the one or the other text of the branch is filled in.
-/

namespace LuaBackend

open Script

/-! ## Branches -/

namespace Lua

/-- One branch of a chain; the last one may be without a test. -/
structure Arm where
  test : Option Expr
  body : List Stmt

namespace Arm

/-- A branch with a test begins with the given word. -/
def print (indent : String) (level : Nat) (word : String) (arm : Arm) : String :=
  printLine indent level
      (match arm.test with
        | some test => word ++ " " ++ test.print indent level ++ " then"
        | none => "else") ++
    Stmt.printList indent .lines (level + 1) arm.body

/-- Branches that go on with a chain. -/
def printRest (indent : String) (level : Nat) (arms : List Arm) : String :=
  String.join (arms.map (print indent level "elseif"))

/-- Branches that are a whole chain. -/
def printChain (indent : String) (level : Nat) : List Arm → String
  | [] => ""
  | first :: others => first.print indent level "if" ++ printRest indent level others

end Arm

end Lua

namespace Script

mutual

/-- The branches that a statement behind `else` adds to a chain: an `if` goes on with the chain
unless it has an initial statement, anything else is the last branch. -/
def Stmt.arms (depth : Nat) : Stmt → List Lua.Arm
  | .ifElse _ none test body rest =>
    ⟨some test.lower, body.lower .lexical depth⟩ :: Stmt.armsOfOption depth rest
  | .block body => [⟨none, body.lower .lexical depth⟩]
  | stmt => [⟨none, stmt.lower .lexical depth⟩]

def Stmt.armsOfOption (depth : Nat) : Option Stmt → List Lua.Arm
  | none => []
  | some stmt => stmt.arms depth

end

theorem Stmt.print_lowerElse_of_standsAlone {indent : String} {level depth : Nat} {stmt : Stmt}
    (halone : stmt.standsAlone) :
    (Stmt.lowerElse depth (some stmt)).print indent .lines level =
      Lua.Arm.printRest indent level (stmt.arms depth) := by
  have harms : stmt.arms depth = [⟨none, stmt.lower .lexical depth⟩] := by
    cases stmt with
    | block => simp [standsAlone] at halone
    | ifElse _ init =>
        cases init with
        | none => simp [standsAlone] at halone
        | some => rfl
    | _ => rfl
  rw [Stmt.lowerElse_of_standsAlone depth halone, harms, Lua.Arm.printRest]
  simp [Lua.Else.print, Lua.Arm.print]

mutual

theorem Stmt.print_lowerElse_some (indent : String) (level depth : Nat) : (stmt : Stmt) →
    (Stmt.lowerElse depth (some stmt)).print indent .lines level =
      Lua.Arm.printRest indent level (stmt.arms depth)
  | .block body => by
    simp [Stmt.lowerElse, Stmt.arms, Lua.Else.print, Lua.Arm.printRest, Lua.Arm.print]
  | .ifElse _ none test body rest => by
    have hword : ("elseif" ++ " " : String) = "elseif " := rfl
    rw [Stmt.lowerElse, Stmt.arms, Lua.Else.print, Stmt.print_lowerElse indent level depth rest,
      Lua.Arm.printRest, Lua.Arm.printRest, List.map_cons, String.join_cons, Lua.Arm.print, hword]
  | .ifElse _ (some _) _ _ _ | .expr .. | .incDec .. | .assign .. | .ret .. | .branch .. | .loop ..
  | .forIn .. | .exportValue .. => Stmt.print_lowerElse_of_standsAlone rfl

theorem Stmt.print_lowerElse (indent : String) (level depth : Nat) : (rest : Option Stmt) →
    (Stmt.lowerElse depth rest).print indent .lines level =
      Lua.Arm.printRest indent level (Stmt.armsOfOption depth rest)
  | none => rfl
  | some stmt => Stmt.print_lowerElse_some indent level depth stmt

end

end Script

namespace Branch

/-- The branches of the `if` itself. -/
def arms (branch : Branch) (depth : Nat) : List Lua.Arm := branch.folded.arms depth

/-- The text that goes on with the chain around. -/
def foldedText (branch : Branch) (indent : String) (level depth : Nat) : String :=
  Lua.Arm.printRest indent level (branch.arms depth)

/-- The text of a last branch that has the `if` in it. -/
def nestedText (branch : Branch) (indent : String) (level depth : Nat) : String :=
  Lua.printLine indent level "else" ++ Lua.printLine indent (level + 1) "do" ++
    Lua.Arm.printChain indent (level + 2) (branch.arms depth) ++
    Lua.printLine indent (level + 2) "end" ++ Lua.printLine indent (level + 1) "end"

theorem print_lowerElse_folded (branch : Branch) (indent : String) (level depth : Nat) :
    (Stmt.lowerElse depth (some branch.folded)).print indent .lines level =
      branch.foldedText indent level depth :=
  Stmt.print_lowerElse_some indent level depth _

theorem print_lowerElse_nested (branch : Branch) (indent : String) (level depth : Nat) :
    (Stmt.lowerElse depth (some branch.nested)).print indent .lines level =
      branch.nestedText indent level depth := by
  have hword : ("if" ++ " " : String) = "if " := rfl
  have harms : branch.arms depth = ⟨some branch.test.lower, branch.body.lower .lexical depth⟩ ::
      Stmt.armsOfOption depth branch.rest := rfl
  rw [nestedText, harms, Lua.Arm.printChain, Lua.Arm.print, ← Stmt.print_lowerElse, hword]
  simp [nested, folded, Stmt.lowerElse, Block.lower, Stmt.lowerList, Stmt.lower, Stmt.lowerOption,
    Lua.Else.print, Lua.Stmt.printList, Lua.Stmt.print, Lua.Style.inside, String.append_assoc]

end Branch

/-! ## Two ways to print -/

namespace Lua

/-- A family of two. -/
def pair {α : Type} (first second : α) : Bool → α
  | false => first
  | true => second

theorem pair_eta {α : Type} (family : Bool → α) : pair (family false) (family true) = family := by
  funext way
  cases way <;> rfl

theorem pair_cons {α : Type} (first first' : α) (rest rest' : List α) :
    pair (first :: rest) (first' :: rest') = fun way => pair first first' way :: pair rest rest' way :=
  pair_eta fun way => pair first first' way :: pair rest rest' way

/-- What holds of a family holds of it as a pair. -/
theorem forPair {α : Type} (P : (Bool → α) → Prop) {family : Bool → α} (h : P family) :
    P (pair (family false) (family true)) := by
  rwa [pair_eta]

namespace Printing

variable {H : Type} {printing : Printing Bool H}

theorem exprLists_of_forall₂ {codes codes' : List Expr}
    (h : List.Forall₂ (fun code code' => printing.Exprs (pair code code')) codes codes') :
    printing.ExprLists (pair codes codes') := by
  induction h with
  | nil => exact forPair printing.ExprLists .nil
  | cons hcode hrest ih =>
      cases hrest with
      | nil => exact forPair printing.ExprLists (.single hcode)
      | cons =>
          rw [pair_cons] at ih
          exact forPair printing.ExprLists (.cons hcode ih)

theorem fieldLists_of_forall₂ {codes codes' : List Field}
    (h : List.Forall₂ (fun code code' => printing.Fields (pair code code')) codes codes') :
    printing.FieldLists (pair codes codes') := by
  induction h with
  | nil => exact forPair printing.FieldLists .nil
  | cons hcode hrest ih =>
      cases hrest with
      | nil => exact forPair printing.FieldLists (.single hcode)
      | cons =>
          rw [pair_cons] at ih
          exact forPair printing.FieldLists (.cons hcode ih)

variable {code code' value value' : Expr}

theorem exprs_operate (op : BinaryOp) (hcode : printing.Exprs (pair code code'))
    (hvalue : printing.Exprs (pair value value')) :
    printing.Exprs (pair (.operate op code value) (.operate op code' value')) :=
  forPair printing.Exprs (hcode.binary op hvalue).paren

theorem stmts_update {style : Style} (op : BinaryOp) (hcode : printing.Exprs (pair code code'))
    (hvalue : printing.Exprs (pair value value')) :
    printing.Stmts style (pair (.update op code value) (.update op code' value')) :=
  forPair (printing.Stmts style) (.assign hcode (exprs_operate op hcode hvalue))

/-- The test is one line, in which the results stand. -/
theorem exprs_choose {test test' : Expr} (htest : printing.Exprs (pair test test'))
    (hcode : printing.Exprs (pair code code')) (hvalue : printing.Exprs (pair value value')) :
    printing.Exprs (pair (.choose test code value) (.choose test' code' value')) := by
  have hbody : printing.StmtLists .inline fun way =>
      [.cond .inline (pair test test' way) [.ret (some (.paren (pair code code' way)))]
        (.otherwise [.ret (some (.paren (pair value value' way)))])] :=
    .single (.cond .inline htest (.single (.retSome hcode.paren))
      (.otherwise (.single (.retSome hvalue.paren))))
  exact forPair printing.Exprs (.call (.paren (.func .inline [] hbody)) .nil)

theorem exprs_array {elements elements' : List Expr}
    (h : List.Forall₂ (fun code code' => printing.Exprs (pair code code')) elements elements') :
    printing.Exprs (pair (.array elements) (.array elements')) := by
  have hmark : printing.Fields
      (pair (.named Names.arrayMark (.bool true)) (.named Names.arrayMark (.bool true))) :=
    forPair printing.Fields (Field.printsAlike printing (.named Names.arrayMark (.bool true)))
  cases h with
  | nil => exact forPair printing.Exprs (Expr.printsAlike printing (.array []))
  | @cons first first' others others' hfirst hothers =>
      have hslot := Fields.keyed (Expr.printsAlike printing (.numeral "0")) hfirst.paren
      have hitems : List.Forall₂ (fun code code' => printing.Fields (pair code code'))
          (others.map fun value => .item (.paren value))
          (others'.map fun value => .item (.paren value)) := by
        rw [List.forall₂_map_left_iff, List.forall₂_map_right_iff]
        exact hothers.imp fun _ _ hother => forPair printing.Fields (.item hother.paren)
      have hfields := fieldLists_of_forall₂
        (.cons (forPair printing.Fields hslot) (List.rel_append hitems (.cons hmark .nil)))
      exact forPair printing.Exprs (.table hfields)

theorem stmts_bind {style : Style} (binding : Binding) (isFunction : Bool) (name : String)
    (h : printing.Exprs (pair code code')) :
    printing.Stmts style
      (pair (.bind binding isFunction name code) (.bind binding isFunction name code')) := by
  cases binding with
  | global => exact forPair (printing.Stmts style) (.assign (Expr.printsAlike printing (.name name)) h)
  | lexical =>
      cases isFunction with
      | true => exact forPair (printing.Stmts style) (.localRec name h)
      | false => exact forPair (printing.Stmts style) (.localVar name h)

variable {body body' : List Stmt}

theorem stmtLists_guarded (flag : String) (fallsThrough : Bool)
    (h : printing.StmtLists .lines (pair body body')) :
    printing.StmtLists .lines
      (pair (Stmt.guarded flag body fallsThrough) (Stmt.guarded flag body' fallsThrough)) := by
  let done := if fallsThrough then [Stmt.assign (.name flag) (.bool true)] else []
  have hround : printing.Stmts .lines fun way =>
      .repeatLoop (pair body body' way ++ done) (.bool true) :=
    .repeatLoop (h.append (Stmt.listPrintsAlike printing .lines done))
      (Expr.printsAlike printing (.bool true))
  exact forPair (printing.StmtLists .lines)
    (.cons (Stmt.printsAlike printing .lines (.localVar flag (.bool false))) (.single hround))

theorem stmts_afterRound (flag : String) (h : printing.StmtLists .lines (pair body body')) :
    printing.Stmts .lines
      (pair (Stmt.afterRound flag (some body)) (Stmt.afterRound flag (some body'))) :=
  forPair (printing.Stmts .lines) (.cond .lines (Expr.printsAlike printing (.name flag)) h
    (Else.printsAlike printing .lines (.otherwise [.break])))

end Printing

end Lua

/-! ## Scripts with a branch in a chain and in a block -/

/-- Two ways to print, which are alike if the one has the branch in the chain around it and the other
one has it in a block. -/
structure Branch.Printing (branch : Branch) (H : Type) extends Lua.Printing Bool H where
  alike_branch : ∀ depth, toPrinting.Elses .lines
    (Lua.pair (Stmt.lowerElse depth (some branch.folded))
      (Stmt.lowerElse depth (some branch.nested)))

/-- What is filled in is the text of the branch, at a level and inside a number of loops. -/
def Branch.printing (branch : Branch) (indent : String) : branch.Printing (Nat × Nat) where
  hole := Lua.pair (fun place => branch.foldedText indent place.1 place.2)
    fun place => branch.nestedText indent place.1 place.2
  indent _ := indent
  level _ := 0
  alike_indentation _ := .const _
  alike_branch depth offset := by
    refine ⟨[.inr (offset, depth)], fun way => ?_⟩
    cases way with
    | false =>
        have htext := branch.print_lowerElse_folded indent offset depth
        simpa [Lua.fill, Lua.pair] using htext
    | true =>
        have htext := branch.print_lowerElse_nested indent offset depth
        simpa [Lua.fill, Lua.pair] using htext

namespace Script

variable {branch : Branch}

theorem Stmt.Nests.isReturn_eq {stmt stmt' : Stmt} (h : stmt.Nests branch stmt') :
    stmt.isReturn = stmt'.isReturn := by
  cases h <;> rfl

theorem Stmt.ListNests.any_getLast? {stmts stmts' : List Stmt}
    (h : Stmt.ListNests branch stmts stmts') :
    stmts.getLast?.any Stmt.isReturn = stmts'.getLast?.any Stmt.isReturn := by
  induction stmts generalizing stmts' with
  | nil =>
      cases h
      rfl
  | cons stmt stmts ih =>
      cases h with
      | cons hstmt hstmts =>
          cases hstmts with
          | nil => exact hstmt.isReturn_eq
          | cons hnext hrest =>
              have hlast := ih (.cons hnext hrest)
              simpa only [List.getLast?_cons_cons] using hlast

theorem Stmt.ListNests.isEmpty_eq {stmts stmts' : List Stmt}
    (h : Stmt.ListNests branch stmts stmts') : stmts.isEmpty = stmts'.isEmpty := by
  cases h <;> rfl

theorem Block.Nests.fallsThrough_eq {block block' : Block} (h : block.Nests branch block') :
    block.fallsThrough = block'.fallsThrough := by
  cases h with
  | mk hstmts => exact congrArg not hstmts.any_getLast?

open Lua

variable {H : Type} {printing : branch.Printing H}

theorem Stmt.alike_ret (style : Style) (binding : Binding) (depth : Nat) (pos : Pos)
    {result result' : Option Expr} (hresult : Expr.OptionNests branch result result')
    (halike : printing.Exprs
      (pair (Expr.lowerOption .nil result) (Expr.lowerOption .nil result'))) :
    printing.StmtLists style
      (pair ((Stmt.ret pos result).lower binding depth)
        ((Stmt.ret pos result').lower binding depth)) := by
  cases hresult with
  | none => exact forPair (printing.StmtLists style) (.single .retNone)
  | some =>
      exact forPair (printing.StmtLists style) (.single (.retSome halike.paren))

theorem Expr.ListNests.length_eq {exprs exprs' : List Expr}
    (h : Expr.ListNests branch exprs exprs') : exprs.length = exprs'.length := by
  induction exprs generalizing exprs' with
  | nil =>
      cases h
      rfl
  | cons expr exprs ih =>
      cases h with
      | cons hexpr hexprs => exact congrArg (· + 1) (ih hexprs)

theorem Stmt.alike_tuple {binding : Binding} {depth : Nat} {pos : Pos} {op : AssignOp}
    {lhs rhs : List Expr} {stmt : Stmt} (hnests : (Stmt.assign pos op lhs rhs).Nests branch stmt)
    (htuple : lhs.length ≠ 1 ∨ rhs.length ≠ 1) :
    printing.StmtLists .lines
      (pair ((Stmt.assign pos op lhs rhs).lower binding depth) (stmt.lower binding depth)) := by
  cases hnests with
  | assign hlhs hrhs =>
      rw [Stmt.lower_tuple _ _ _ _ htuple, Stmt.lower_tuple]
      · exact forPair (printing.StmtLists .lines) .nil
      · rwa [← hlhs.length_eq, ← hrhs.length_eq]

theorem Stmt.alike_assign {binding : Binding} {depth : Nat} {pos : Pos} {op : AssignOp}
    {target target' value value' : Expr} (hnests : target.Nests branch target')
    (hvalues : value.Nests branch value')
    (htarget : printing.Exprs (pair target.lower target'.lower))
    (hvalue : printing.Exprs (pair value.lower value'.lower)) :
    printing.StmtLists .lines
      (pair ((Stmt.assign pos op [target] [value]).lower binding depth)
        ((Stmt.assign pos op [target'] [value']).lower binding depth)) := by
  cases op with
  | define =>
      cases hnests with
      | leaf hleaf =>
          cases target with
          | ident id =>
              rw [Stmt.lower, Stmt.lower, ← hvalues.isFunction_eq]
              exact forPair (printing.StmtLists .lines)
                (.single (Printing.stmts_bind binding value.isFunction id.name hvalue))
          | _ => exact forPair (printing.StmtLists .lines) .nil
      | _ => exact forPair (printing.StmtLists .lines) .nil
  | assign =>
      exact forPair (printing.StmtLists .lines) (.single (.assign htarget hvalue))
  | add | sub | mul | quo | rem =>
      exact forPair (printing.StmtLists .lines)
        (.single (Printing.stmts_update _ htarget hvalue))
  | bitAnd | bitOr | bitXor | bitAndNot | shiftLeft | shiftRight =>
      exact forPair (printing.StmtLists .lines) .nil

mutual

/-- Code and code with the branch in a block are printed alike but for the branch. -/
theorem Expr.alike_lower : (expr : Expr) → {expr' : Expr} → expr.Nests branch expr' →
    printing.Exprs (pair expr.lower expr'.lower)
  | .ident _, _, h | .int .., _, h | .float .., _, h | .bool .., _, h | .str .., _, h
  | .char .., _, h | .undefined _, _, h | .importModule .., _, h => by
    cases h
    exact forPair printing.Exprs (Lua.Expr.printsAlike _ _)
  | .paren _ expr, _, h => by
    cases h with
    | leaf hleaf => cases hleaf
    | paren hexpr => exact forPair printing.Exprs (expr.alike_lower hexpr).paren
  | .binary pos op lhs rhs, _, h => by
    cases h with
    | leaf hleaf => cases hleaf
    | binary hlhs hrhs =>
        rw [Expr.lower, Expr.lower]
        cases op.lower? with
        | none => exact forPair printing.Exprs (Lua.Expr.printsAlike _ .nil)
        | some op => exact Printing.exprs_operate op (lhs.alike_lower hlhs) (rhs.alike_lower hrhs)
  | .unary _ op expr, _, h => by
    cases h with
    | leaf hleaf => cases hleaf
    | unary hexpr =>
        rw [Expr.lower, Expr.lower]
        cases op.lower? with
        | none => exact forPair printing.Exprs (Lua.Expr.printsAlike _ .nil)
        | some op =>
            exact forPair printing.Exprs
              ((expr.alike_lower hexpr).paren.unary op).paren
  | .selector _ expr field, _, h => by
    cases h with
    | leaf hleaf => cases hleaf
    | selector hexpr =>
        exact forPair printing.Exprs
          ((expr.alike_lower hexpr).paren.index (Lua.Expr.printsAlike _ (.str field)))
  | .index _ expr key, _, h => by
    cases h with
    | leaf hleaf => cases hleaf
    | index hexpr hkey =>
        exact forPair printing.Exprs
          ((expr.alike_lower hexpr).paren.index (key.alike_lower hkey))
  | .slice _ expr low high, _, h => by
    cases h with
    | leaf hleaf => cases hleaf
    | slice hexpr hlow hhigh =>
        have hargs := Printing.exprLists_of_forall₂ (.cons (expr.alike_lower hexpr)
          (.cons (Expr.alike_lowerOption (.numeral "0") low hlow)
            (.cons (Expr.alike_lowerOption .nil high hhigh) .nil)))
        exact forPair printing.Exprs
          ((Lua.Expr.printsAlike _ (.name Names.slice)).call hargs)
  | .cond _ test whenTrue whenFalse, _, h => by
    cases h with
    | leaf hleaf => cases hleaf
    | cond htest hwhenTrue hwhenFalse =>
        exact Printing.exprs_choose (test.alike_lower htest) (whenTrue.alike_lower hwhenTrue)
          (whenFalse.alike_lower hwhenFalse)
  | .call _ callee args, _, h => by
    cases h with
    | leaf hleaf => cases hleaf
    | call hcallee hargs =>
        exact forPair printing.Exprs ((callee.alike_lower hcallee).call
          (Printing.exprLists_of_forall₂ (Expr.alike_lowerList args hargs)))
  | .array _ elements, _, h => by
    cases h with
    | leaf hleaf => cases hleaf
    | array helements => exact Printing.exprs_array (Expr.alike_lowerList elements helements)
  | .map _ elements, _, h => by
    cases h with
    | leaf hleaf => cases hleaf
    | map helements =>
        exact forPair printing.Exprs (.table
          (Printing.fieldLists_of_forall₂ (MapElement.alike_lowerList elements helements)))
  | .func _ params body, _, h => by
    cases h with
    | leaf hleaf => cases hleaf
    | func hbody =>
        exact forPair printing.Exprs
          (.func .lines (params.map Ident.name) (body.alike_lower .lexical 0 hbody))
  | .error .., _, h => by
    cases h with
    | leaf hleaf => cases hleaf
    | error => exact forPair printing.Exprs (Lua.Expr.printsAlike _ .nil)
  | .immutable .., _, h => by
    cases h with
    | leaf hleaf => cases hleaf
    | immutable => exact forPair printing.Exprs (Lua.Expr.printsAlike _ .nil)
termination_by structural tree => tree

theorem Expr.alike_lowerOption (default : Lua.Expr) : (expr : Option Expr) →
    {expr' : Option Expr} → Expr.OptionNests branch expr expr' →
      printing.Exprs
        (pair (Expr.lowerOption default expr) (Expr.lowerOption default expr'))
  | none, _, h => by
    cases h
    exact forPair printing.Exprs (Lua.Expr.printsAlike _ default)
  | some expr, _, h => by
    cases h with
    | some hexpr => exact expr.alike_lower hexpr
termination_by structural tree => tree

theorem Expr.alike_lowerList : (exprs : List Expr) → {exprs' : List Expr} →
    Expr.ListNests branch exprs exprs' →
      List.Forall₂ (fun code code' => printing.Exprs (pair code code'))
        (Expr.lowerList exprs) (Expr.lowerList exprs')
  | [], _, h => by
    cases h
    exact .nil
  | expr :: exprs, _, h => by
    cases h with
    | cons hexpr hexprs =>
        exact .cons (expr.alike_lower hexpr) (Expr.alike_lowerList exprs hexprs)
termination_by structural tree => tree

theorem MapElement.alike_lowerList : (elements : List MapElement) →
    {elements' : List MapElement} → MapElement.ListNests branch elements elements' →
      List.Forall₂ (fun code code' => printing.Fields (pair code code'))
        (MapElement.lowerList elements) (MapElement.lowerList elements')
  | [], _, h => by
    cases h
    exact .nil
  | ⟨_, key, value⟩ :: elements, _, h => by
    cases h with
    | cons hvalue helements =>
        have hfield := Printing.Fields.keyed (Lua.Expr.printsAlike _ (.str key))
          (value.alike_lower hvalue).paren
        exact .cons (forPair printing.Fields hfield)
          (MapElement.alike_lowerList elements helements)
termination_by structural tree => tree

theorem Stmt.alike_lower (binding : Binding) (depth : Nat) : (stmt : Stmt) → {stmt' : Stmt} →
    stmt.Nests branch stmt' → printing.StmtLists .lines
      (pair (stmt.lower binding depth) (stmt'.lower binding depth))
  | .expr _ expr, _, h => by
    cases h with
    | expr hexpr =>
        exact forPair (printing.StmtLists .lines)
          (.single (.expr (expr.alike_lower hexpr)))
  | .incDec _ op target, _, h => by
    cases h with
    | incDec htarget =>
        have hone : printing.Exprs (pair (.numeral "1") (.numeral "1")) :=
          forPair printing.Exprs (Lua.Expr.printsAlike _ (.numeral "1"))
        exact forPair (printing.StmtLists .lines)
          (.single (Printing.stmts_update op.lower (target.alike_lower htarget) hone))
  | .assign pos op [target] [value], _, h => by
    cases h with
    | assign hlhs hrhs =>
        obtain ⟨target', rfl, htarget⟩ := hlhs.exists_eq_singleton
        obtain ⟨value', rfl, hvalue⟩ := hrhs.exists_eq_singleton
        exact Stmt.alike_assign htarget hvalue (target.alike_lower htarget)
          (value.alike_lower hvalue)
  | .assign _ _ [] _, _, h | .assign _ _ (_ :: _ :: _) _, _, h => by
    exact Stmt.alike_tuple h (.inl (by simp))
  | .assign _ _ [_] [], _, h | .assign _ _ [_] (_ :: _ :: _), _, h => by
    exact Stmt.alike_tuple h (.inr (by simp))
  | .ret _ result, _, h => by
    cases h with
    | ret hresult =>
        exact Stmt.alike_ret .lines binding depth _ hresult
          (Expr.alike_lowerOption .nil result hresult)
  | .branch .., _, h => by
    cases h
    exact forPair (printing.StmtLists .lines) (Lua.Stmt.listPrintsAlike _ .lines _)
  | .block body, _, h => by
    cases h with
    | block hbody =>
        exact forPair (printing.StmtLists .lines)
          (.single (.block .lines (body.alike_lower .lexical depth hbody)))
  | .ifElse _ init test body rest, _, h => by
    cases h with
    | ifElse hinit htest hbody hrest =>
        have hcond : printing.Stmts .lines _ := .cond .lines (test.alike_lower htest)
          (body.alike_lower .lexical depth hbody) (Stmt.alike_lowerElse depth rest hrest)
        exact forPair (printing.StmtLists .lines) (.single (.block .lines
          ((Stmt.alike_lowerOption depth init hinit).append (.single hcond))))
  | .loop _ init test post body, _, h => by
    cases h with
    | @loop _ _ init' _ test' _ post' _ body' hinit htest hpost hbody =>
        have hround := Printing.stmtLists_guarded (Names.continueFlag (depth + 1)) body.fallsThrough
          (body.alike_lower .lexical (depth + 1) hbody)
        have hnext : printing.Stmts .lines (pair
            (Stmt.afterRound (Names.continueFlag (depth + 1))
              (post.map (Stmt.lower .lexical (depth + 1))))
            (Stmt.afterRound (Names.continueFlag (depth + 1))
              (post'.map (Stmt.lower .lexical (depth + 1))))) := by
          have halike := Stmt.alike_lowerOption (depth + 1) post hpost
          cases hpost with
          | none => exact forPair (printing.Stmts .lines) (Lua.Stmt.printsAlike _ .lines _)
          | some => exact Printing.stmts_afterRound _ halike
        have hloop : printing.Stmts .lines _ :=
          .whileLoop (Expr.alike_lowerOption (.bool true) test htest) (hround.append (.single hnext))
        have halike := Stmt.alike_lowerOption depth init hinit
        rw [Stmt.lower_loop, Stmt.lower_loop, ← hbody.fallsThrough_eq]
        cases hinit with
        | none => exact forPair (printing.StmtLists .lines) (.single hloop)
        | some =>
            exact forPair (printing.StmtLists .lines)
              (.single (.block .lines (halike.append (.single hloop))))
  | .forIn _ key value iterable body, _, h => by
    cases h with
    | forIn hiterable hbody =>
        have hround := Printing.stmtLists_guarded (Names.continueFlag (depth + 1)) body.fallsThrough
          (body.alike_lower .lexical (depth + 1) hbody)
        have hiterator := (Lua.Expr.printsAlike printing.toPrinting (.name Names.iterate)).call
          (.single (iterable.alike_lower hiterable))
        rw [Stmt.lower, Stmt.lower, ← hbody.fallsThrough_eq]
        exact forPair (printing.StmtLists .lines) (.single (.forIn _ hiterator
          (hround.append (Lua.Stmt.listPrintsAlike _ .lines [.breakUnless _]))))
  | .exportValue .., _, h => by
    cases h
    exact forPair (printing.StmtLists .lines) .nil
termination_by structural tree => tree

theorem Stmt.alike_lowerOption (depth : Nat) : (stmt : Option Stmt) → {stmt' : Option Stmt} →
    Stmt.OptionNests branch stmt stmt' → printing.StmtLists .lines
      (pair (Stmt.lowerOption depth stmt) (Stmt.lowerOption depth stmt'))
  | none, _, h => by
    cases h
    exact forPair (printing.StmtLists .lines) .nil
  | some stmt, _, h => by
    cases h with
    | some hstmt => exact stmt.alike_lower .lexical depth hstmt
termination_by structural tree => tree

theorem Stmt.alike_lowerElse (depth : Nat) : (rest : Option Stmt) → {rest' : Option Stmt} →
    Stmt.ElseNests branch rest rest' → printing.Elses .lines
      (pair (Stmt.lowerElse depth rest) (Stmt.lowerElse depth rest'))
  | none, _, h => by
    cases h
    exact forPair (printing.Elses .lines) .absent
  | some stmt, _, h => by
    by_cases halone : stmt.standsAlone
    · cases h with
      | some hstmt =>
          rw [Stmt.lowerElse_of_standsAlone depth halone,
            Stmt.lowerElse_of_standsAlone depth (hstmt.standsAlone_eq ▸ halone)]
          exact forPair (printing.Elses .lines) (.otherwise (stmt.alike_lower .lexical depth hstmt))
      | nest => cases halone
    · cases stmt with
      | block body =>
          cases h with
          | some hstmt =>
              cases hstmt with
              | block hbody =>
                  exact forPair (printing.Elses .lines)
                    (.otherwise (body.alike_lower .lexical depth hbody))
      | ifElse pos init test body rest =>
          cases init with
          | some init => exact absurd rfl halone
          | none =>
              generalize hstmt : some (Stmt.ifElse pos none test body rest) = stmt at h
              cases h with
              | none => cases hstmt
              | some hnests =>
                  obtain rfl := Option.some.inj hstmt
                  cases hnests with
                  | ifElse hinit htest hbody hrest =>
                      cases hinit
                      exact forPair (printing.Elses .lines) (.elseIf (test.alike_lower htest)
                        (body.alike_lower .lexical depth hbody)
                        (Stmt.alike_lowerElse depth rest hrest))
              | nest => exact printing.alike_branch depth
      | _ => exact absurd rfl halone
termination_by structural tree => tree

theorem Stmt.alike_lowerList (binding : Binding) (depth : Nat) : (stmts : List Stmt) →
    {stmts' : List Stmt} → Stmt.ListNests branch stmts stmts' →
      printing.StmtLists .lines
        (pair (Stmt.lowerList binding depth stmts) (Stmt.lowerList binding depth stmts'))
  | [], _, h => by
    cases h
    exact forPair (printing.StmtLists .lines) .nil
  | stmt :: stmts, _, h => by
    cases h with
    | cons hstmt hstmts =>
        have hrest := Stmt.alike_lowerList binding depth stmts hstmts
        rw [Stmt.lowerList_cons, Stmt.lowerList_cons, ← hstmt.isReturn_eq, ← hstmts.isEmpty_eq]
        split
        · next hblock =>
            -- The return stands within one line, so what it returns is needed, not its own lines.
            cases stmt with
            | ret pos result =>
                cases hstmt with
                | ret hresult =>
                    have hret := Stmt.alike_ret .inline binding depth pos hresult
                      (Expr.alike_lowerOption .nil result hresult)
                    exact forPair (printing.StmtLists .lines)
                      (.append (.single (.block .inline hret)) hrest)
            | _ => cases hblock
        · exact forPair (printing.StmtLists .lines)
            ((stmt.alike_lower binding depth hstmt).append hrest)
termination_by structural tree => tree

theorem Block.alike_lower (binding : Binding) (depth : Nat) : (block : Block) → {block' : Block} →
    block.Nests branch block' → printing.StmtLists .lines
      (pair (block.lower binding depth) (block'.lower binding depth))
  | ⟨_, stmts⟩, _, h => by
    cases h with
    | mk hstmts => exact Stmt.alike_lowerList binding depth stmts hstmts
termination_by structural tree => tree

end

/-- The second script is the first one with the branch put into a block. -/
def File.Nests (branch : Branch) (file file' : File) : Prop :=
  Stmt.ListNests branch file.stmts file'.stmts

end Script

end LuaBackend
