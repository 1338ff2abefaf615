import LuaBackend.Proofs.LexedCode
import LuaBackend.Proofs.ParsedCode
import LuaBackend.Proofs.WalkedTrees

/-!
# Reading generated text back

The text generated for a script is read, by the grammar of Lua, as the very code that the script was
lowered to.  This holds of every accepted script in which names, numerals and operators are ones
that Lua has, and in which statements, callees and targets are of forms that Lua has.

The text is the one that the generator writes on its walk, with spellings of its own and without
any code in between.
-/

namespace LuaBackend

open Script

/-! ## Scripts that Lua can follow -/

namespace Script

/-- An expression that can be written as the callee of a call. -/
def Expr.isCallable : Expr → Bool
  | .int .. | .float .. | .bool .. | .str .. | .undefined .. | .array .. |
    .map .. | .func .. => false
  | _ => true

/-- An expression that is lowered to a call. -/
def Expr.isCallLike : Expr → Bool
  | .call .. | .cond .. | .slice .. => true
  | _ => false

/-- An identifier, a field or an element. -/
def Expr.isPlace : Expr → Bool
  | .ident _ | .selector .. | .index .. => true
  | _ => false

end Script

/-- The node is one that Lua has, or is written in a way that Lua has. -/
def Node.isPortable : Node → Bool
  | .expr (.ident id) | .binder id => Lua.isName id.name
  | .expr (.int _ literal) | .expr (.float _ literal) => Lua.isNumeral literal
  | .expr (.unary _ op _) => op != .plus
  | .expr (.call _ callee _) => callee.isCallable
  | .stmt (.expr _ content) => content.isCallLike
  | .stmt (.assign _ _ lhs _) => lhs.all Expr.isPlace
  | .stmt (.incDec _ _ target) => target.isPlace
  | .stmt (.ifElse _ init _ _ _) | .stmt (.loop _ init _ _ _) => !init.any Stmt.isReturn
  | _ => true

def Script.File.isPortable (file : File) : Bool := file.sites.all fun site => site.node.isPortable

/-- Every node is accepted and portable. -/
def AllPortable (sites : List Site) : Prop :=
  ∀ site ∈ sites, site.node.Fits site.place ∧ site.node.isPortable

@[simp] theorem allPortable_cons {site : Site} {sites : List Site} :
    AllPortable (site :: sites) ↔
      (site.node.Fits site.place ∧ site.node.isPortable) ∧ AllPortable sites :=
  List.forall_mem_cons

@[simp] theorem allPortable_append {first second : List Site} :
    AllPortable (first ++ second) ↔ AllPortable first ∧ AllPortable second :=
  List.forall_mem_append

/-- An expression is the first of its own nodes. -/
theorem fits_of_allPortable {place : Place} {expr : Expr} (h : AllPortable (expr.sites place)) :
    (Node.expr expr).Fits place := by
  cases expr <;> simp only [Expr.sites, allPortable_cons] at h <;> exact h.1.1

theorem stmt_fits_of_allPortable {place : Place} {stmt : Stmt}
    (h : AllPortable (stmt.sites place)) :
    (Node.stmt stmt).Fits place := by
  cases stmt <;> simp only [Stmt.sites, allPortable_cons] at h <;> exact h.1.1

theorem AllPortable.isName_of_mem_binders {place : Place} {ids : List Ident}
    (h : AllPortable (place.binders ids)) : ∀ id ∈ ids, Lua.isName id.name := by
  induction ids generalizing place with
  | nil => simp
  | cons id ids ih =>
    obtain ⟨⟨-, hid⟩, hids⟩ := allPortable_cons.1 h
    exact List.forall_mem_cons.2 ⟨hid, ih hids⟩

/-! ## Names of the generator -/

namespace Lua

theorem ofSpelling?_eq_none {text : String} {cs : List Char} (htext : text.toList = '_' :: cs) :
    Keyword.ofSpelling? text = none := by
  rw [Keyword.ofSpelling?, List.find?_eq_none]
  intro keyword _ hspelling
  rw [beq_iff_eq] at hspelling
  subst hspelling
  cases keyword <;> cases htext

theorem isName_continueFlag (depth : Nat) : isName (Names.continueFlag depth) := by
  have hdigits : (Nat.toDigits 10 depth).all isNameChar := by
    rw [List.all_eq_true]
    intro c hc
    have hdigit := Nat.isDigit_of_mem_toDigits (by decide) (by decide) hc
    simp [isNameChar, Char.isAlphanum, hdigit]
  have htext := Names.toList_continueFlag depth
  rw [isName, htext]
  simp [ofSpelling?_eq_none htext, hdigits]
  decide

/-! ## Readable pieces -/

namespace Stmt

variable {style : Style}

/-- Statements none of which is a `return` can be followed by others. -/
theorem listReadable_append {first second : List Stmt} (hfirst : Stmt.ListReadable style first)
    (hsecond : Stmt.ListReadable style second)
    (hret : second ≠ [] → ∀ stmt ∈ first, stmt.isRet = false) :
    Stmt.ListReadable style (first ++ second) := by
  induction first with
  | nil => exact hsecond
  | cons stmt stmts ih =>
    obtain ⟨hstmt, hlast, hstmts⟩ := hfirst
    refine ⟨hstmt, fun hisRet => ?_, ih hstmts fun hne other hother =>
      hret hne other (List.mem_cons_of_mem _ hother)⟩
    by_cases hne : second = []
    · rw [hlast hisRet, hne]
      rfl
    · rw [hret hne stmt List.mem_cons_self] at hisRet
      cases hisRet

theorem listReadable_singleton {stmt : Stmt} (h : stmt.Readable style) :
    Stmt.ListReadable style [stmt] :=
  ⟨h, fun _ => rfl, trivial⟩

theorem separates_lines (expr : Expr) : Style.lines.Separates expr := nofun

theorem readable_update {op : BinaryOp} {target value : Expr} (htarget : target.isTarget)
    (hreadable : target.Readable) (hvalue : value.Readable) (hoperand : value.isOperand) :
    (Stmt.update op target value).Readable .lines :=
  ⟨separates_lines target, htarget, hreadable,
    Expr.isOperand_of_isPrefixExpr (Expr.isPrefixExpr_of_isTarget htarget), hreadable, hoperand,
    hvalue⟩

theorem readable_bind {binding : Binding} {isFunction : Bool} {name : String} {value : Expr}
    (hname : isName name) (hvalue : value.Readable) :
    (Stmt.bind binding isFunction name value).Readable .lines := by
  cases binding with
  | global => exact ⟨separates_lines _, rfl, hname, hvalue⟩
  | lexical => cases isFunction <;> exact ⟨hname, hvalue⟩

/-- The flag is set behind the body only if the body can be run to its end. -/
theorem listReadable_guarded {flag : String} {body : List Stmt} {fallsThrough : Bool}
    (hflag : isName flag) (hbody : Stmt.ListReadable .lines body)
    (hret : fallsThrough → ∀ stmt ∈ body, stmt.isRet = false) :
    Stmt.ListReadable .lines (Stmt.guarded flag body fallsThrough) := by
  have hdone : Stmt.ListReadable .lines
      (body ++ if fallsThrough then [.assign (.name flag) (.bool true)] else []) := by
    cases fallsThrough with
    | false => exact listReadable_append hbody trivial (absurd rfl)
    | true =>
      exact listReadable_append hbody
        (listReadable_singleton ⟨separates_lines _, rfl, hflag, trivial⟩) fun _ => hret rfl
  exact ⟨⟨hflag, trivial⟩, nofun, ⟨trivial, hdone⟩, nofun, trivial⟩

theorem readable_breakUnless {flag : String} (hflag : isName flag) :
    (Stmt.breakUnless flag).Readable .lines :=
  ⟨⟨nofun, rfl, hflag⟩, listReadable_singleton trivial, trivial⟩

theorem readable_afterRound {flag : String} {post : Option (List Stmt)} (hflag : isName flag)
    (hpost : ∀ code ∈ post, Stmt.ListReadable .lines code) :
    (Stmt.afterRound flag post).Readable .lines := by
  cases post with
  | none => exact readable_breakUnless hflag
  | some code => exact ⟨hflag, hpost code rfl, listReadable_singleton trivial⟩

/-- The body of a loop and what follows it in every round. -/
theorem listReadable_round {flag : String} {body : List Stmt} {fallsThrough : Bool} {next : Stmt}
    (hflag : isName flag) (hbody : Stmt.ListReadable .lines body)
    (hret : fallsThrough → ∀ stmt ∈ body, stmt.isRet = false) (hnext : next.Readable .lines) :
    Stmt.ListReadable .lines (Stmt.guarded flag body fallsThrough ++ [next]) := by
  refine listReadable_append (listReadable_guarded hflag hbody hret)
    (listReadable_singleton hnext) fun _ stmt hstmt => ?_
  simp only [Stmt.guarded, List.mem_cons, List.not_mem_nil, or_false] at hstmt
  obtain rfl | rfl := hstmt <;> rfl

end Stmt

theorem Expr.readable_choose {test whenTrue whenFalse : Expr} (htest : test.Readable)
    (hwhenTrue : whenTrue.Readable) (hwhenFalse : whenFalse.Readable) :
    (Expr.choose test whenTrue whenFalse).Readable := by
  have hbranches : (Stmt.cond .inline test [.ret (some (.paren whenTrue))]
      (.otherwise [.ret (some (.paren whenFalse))])).Readable .inline :=
    ⟨htest, Stmt.listReadable_singleton hwhenTrue, Stmt.listReadable_singleton hwhenFalse⟩
  exact ⟨rfl, ⟨nofun, Stmt.listReadable_singleton hbranches⟩, trivial⟩

theorem Field.listReadable_append {first second : List Field} (hfirst : Field.ListReadable first)
    (hsecond : Field.ListReadable second) : Field.ListReadable (first ++ second) := by
  induction first with
  | nil => exact hsecond
  | cons field fields ih => exact ⟨hfirst.1, ih hfirst.2⟩

theorem Field.listReadable_items {elements : List Expr} (h : Expr.ListReadable elements) :
    Field.ListReadable (elements.map fun value => .item (.paren value)) := by
  induction elements with
  | nil => trivial
  | cons element elements ih => exact ⟨⟨rfl, h.1⟩, ih h.2⟩

theorem Expr.readable_array {elements : List Expr} (h : Expr.ListReadable elements) :
    (Expr.array elements).Readable := by
  have hzero : isNumeral "0" := by decide
  have hmark : Field.ListReadable [.named Names.arrayMark (.bool true)] :=
    ⟨⟨by decide, trivial⟩, trivial⟩
  cases elements with
  | nil => exact Field.listReadable_append ⟨⟨hzero, trivial⟩, trivial⟩ hmark
  | cons first others =>
    exact Field.listReadable_append ⟨⟨hzero, h.1⟩, Field.listReadable_items h.2⟩ hmark

end Lua

/-! ## Lowered code -/

namespace Script

theorem Expr.isOperand_lower (expr : Expr) : expr.lower.isOperand := by
  cases expr with
  | binary pos op lhs rhs =>
    rw [Expr.lower]
    split <;> rfl
  | unary pos op expr =>
    rw [Expr.lower]
    split <;> rfl
  | _ => rfl

theorem Expr.isPrefixExpr_lower {place : Place} {expr : Expr} (hfits : (Node.expr expr).Fits place)
    (hcallable : expr.isCallable) : expr.lower.isPrefixExpr := by
  cases expr with
  | ident | paren | selector | index | slice | cond | call => rfl
  | binary pos op lhs rhs => cases op <;> first | rfl | cases hfits
  | unary pos op expr => cases op <;> first | rfl | exact absurd rfl hfits
  | char | importModule | error | immutable => cases hfits
  | _ => cases hcallable

theorem Expr.isTarget_lower {expr : Expr} (h : expr.isPlace) : expr.lower.isTarget := by
  cases expr <;> first | rfl | cases h

theorem Expr.isCall_lower {expr : Expr} (h : expr.isCallLike) : expr.lower.isCall := by
  cases expr <;> first | rfl | cases h

/-- Only a `return` is lowered to one. -/
theorem Stmt.isRet_lower {place : Place} {binding : Binding} {depth : Nat} {stmt : Stmt}
    (hfits : (Node.stmt stmt).Fits place) (hstmt : stmt.isReturn = false) :
    ∀ code ∈ stmt.lower binding depth, code.isRet = false := by
  cases stmt with
  | assign pos op lhs rhs =>
    obtain ⟨target, value, rfl, rfl, ⟨-, id, rfl, hlower⟩ | ⟨-, -, hlower | ⟨luaOp, hlower⟩⟩⟩ :=
      Stmt.lower_assign hfits
    · rw [hlower]
      cases binding with
      | global => simp [Lua.Stmt.bind, Lua.Stmt.isRet]
      | lexical => cases hfunction : value.isFunction <;> simp [Lua.Stmt.bind, Lua.Stmt.isRet]
    · simp [hlower, Lua.Stmt.isRet]
    · simp [hlower, Lua.Stmt.update, Lua.Stmt.isRet]
  | ret pos result => cases hstmt
  | branch pos op => cases op <;> simp [Stmt.lower, Lua.Stmt.isRet]
  | loop pos init test post body =>
    rw [Stmt.lower_loop]
    dsimp only
    split <;> simp [Lua.Stmt.isRet]
  | _ => simp [Stmt.lower, Lua.Stmt.update, Lua.Stmt.isRet]

theorem Stmt.isRet_lowerList {binding : Binding} {depth : Nat} :
    ∀ {place : Place} {stmts : List Stmt},
    AllPortable (Stmt.sitesOfList place stmts) → stmts.getLast?.any Stmt.isReturn = false →
      ∀ code ∈ Stmt.lowerList binding depth stmts, code.isRet = false
  | _, [], _, _ => by simp [Stmt.lowerList]
  | place, stmt :: stmts, h, hlast => by
    simp only [Stmt.sitesOfList, allPortable_append] at h
    have hstmts : stmts.getLast?.any Stmt.isReturn = false := by
      cases stmts with
      | nil => rfl
      | cons next stmts => simpa [List.getLast?_cons_cons] using hlast
    rw [Stmt.lowerList_cons, List.forall_mem_append]
    refine ⟨?_, Stmt.isRet_lowerList h.2 hstmts⟩
    split
    · simp [Lua.Stmt.isRet]
    · next hblock =>
      have hreturn : stmt.isReturn = false := by
        cases stmts with
        | nil => simpa using hlast
        | cons next stmts => simpa using hblock
      exact Stmt.isRet_lower (stmt_fits_of_allPortable h.1) hreturn

theorem Block.isRet_lower {place : Place} {depth : Nat} {block : Block}
    (h : AllPortable (block.sites place)) (hfalls : block.fallsThrough) :
    ∀ code ∈ block.lower .lexical depth, code.isRet = false := by
  cases block with
  | mk pos stmts => exact Stmt.isRet_lowerList h (by simpa [Block.fallsThrough] using hfalls)

theorem Stmt.isRet_lowerOption {place : Place} {depth : Nat} {stmt : Option Stmt}
    (h : AllPortable (Stmt.sitesOfOption place stmt)) (hstmt : (!stmt.any Stmt.isReturn) = true) :
    ∀ code ∈ Stmt.lowerOption depth stmt, code.isRet = false := by
  cases stmt with
  | none => nofun
  | some stmt => exact Stmt.isRet_lower (stmt_fits_of_allPortable h) (by simpa using hstmt)

/-- A `return` takes one line in every style. -/
theorem Stmt.listReadable_inline {binding : Binding} {depth : Nat} {stmt : Stmt}
    (hreturn : stmt.isReturn)
    (h : Lua.Stmt.ListReadable .lines (stmt.lower binding depth)) :
    Lua.Stmt.ListReadable .inline (stmt.lower binding depth) := by
  cases stmt with
  | ret pos result => cases result <;> exact h
  | _ => cases hreturn

theorem isName_of_loopBinders {key : Option Ident} {value : Ident}
    (h : ∀ id ∈ loopBinders key value, Lua.isName id.name) :
    ∀ name ∈ [(key.map Ident.name).getD Names.discard, value.name], Lua.isName name := by
  have hdiscard : Lua.isName Names.discard := by decide
  have hid : ∀ id ∈ key.toList ++ [value], Lua.isName id.name := by
    intro id hmem
    by_cases hname : id.name = Names.discard
    · rw [hname]
      exact hdiscard
    · exact h id (List.mem_filter.2 ⟨hmem, by simpa using hname⟩)
  cases key with
  | none => simpa [hdiscard] using hid
  | some key => simpa using hid

mutual

theorem Expr.readable_lower {place : Place} : (expr : Expr) → AllPortable (expr.sites place) →
    expr.lower.Readable
  | .ident id, h => by
    simp only [Expr.sites, allPortable_cons] at h
    exact h.1.2
  | .int _ literal, h | .float _ literal, h => by
    simp only [Expr.sites, allPortable_cons] at h
    exact h.1.2
  | .bool .., _ | .str .., _ | .undefined .., _ | .char .., _ | .importModule .., _ | .error .., _
  | .immutable .., _ => trivial
  | .paren _ expr, h => by
    simp only [Expr.sites, allPortable_cons] at h
    exact expr.readable_lower h.2
  | .binary _ op lhs rhs, h => by
    simp only [Expr.sites, allPortable_cons, allPortable_append] at h
    rw [Expr.lower]
    split
    · exact ⟨lhs.isOperand_lower, lhs.readable_lower h.2.1, rhs.isOperand_lower,
        rhs.readable_lower h.2.2⟩
    · trivial
  | .unary _ op expr, h => by
    simp only [Expr.sites, allPortable_cons] at h
    have hexpr := expr.readable_lower h.2
    cases op with
    | not | neg => exact ⟨nofun, rfl, hexpr⟩
    | plus => cases h.1.2
    | complement => trivial
  | .selector _ expr field, h => by
    simp only [Expr.sites, allPortable_cons] at h
    exact ⟨rfl, expr.readable_lower h.2, trivial⟩
  | .index _ expr key, h => by
    simp only [Expr.sites, allPortable_cons, allPortable_append] at h
    exact ⟨rfl, expr.readable_lower h.2.1, key.readable_lower h.2.2⟩
  | .slice _ expr low high, h => by
    simp only [Expr.sites, allPortable_cons, allPortable_append] at h
    obtain ⟨-, ⟨hexpr, hlow⟩, hhigh⟩ := h
    have hslice : Lua.isName Names.slice := by decide
    have hzero : Lua.isNumeral "0" := by decide
    exact ⟨rfl, hslice, expr.readable_lower hexpr,
      Expr.readable_lowerOption (.numeral "0") hzero low hlow,
      Expr.readable_lowerOption .nil trivial high hhigh, trivial⟩
  | .cond _ test whenTrue whenFalse, h => by
    simp only [Expr.sites, allPortable_cons, allPortable_append] at h
    exact Lua.Expr.readable_choose (test.readable_lower h.2.1.1) (whenTrue.readable_lower h.2.1.2)
      (whenFalse.readable_lower h.2.2)
  | .call _ callee args, h => by
    simp only [Expr.sites, allPortable_cons, allPortable_append] at h
    obtain ⟨⟨-, hcallable⟩, hcallee, hargs⟩ := h
    have hfits := fits_of_allPortable hcallee
    exact ⟨Expr.isPrefixExpr_lower hfits hcallable, callee.readable_lower hcallee,
      Expr.listReadable_lowerList args hargs⟩
  | .array _ elements, h => by
    simp only [Expr.sites, allPortable_cons] at h
    exact Lua.Expr.readable_array (Expr.listReadable_lowerList elements h.2)
  | .map _ elements, h => by
    simp only [Expr.sites, allPortable_cons] at h
    exact MapElement.listReadable_lowerList elements h.2
  | .func _ params body, h => by
    simp only [Expr.sites, allPortable_cons, allPortable_append] at h
    have hparams := h.2.1.isName_of_mem_binders
    refine ⟨?_, body.listReadable_lower .lexical 0 h.2.2⟩
    simpa using hparams

theorem Expr.readable_lowerOption {place : Place} (default : Lua.Expr)
    (hdefault : default.Readable) :
    (expr : Option Expr) → AllPortable (Expr.sitesOfOption place expr) →
      (Expr.lowerOption default expr).Readable
  | none, _ => hdefault
  | some expr, h => expr.readable_lower h

theorem Expr.listReadable_lowerList {place : Place} : (exprs : List Expr) →
    AllPortable (Expr.sitesOfList place exprs) → Lua.Expr.ListReadable (Expr.lowerList exprs)
  | [], _ => trivial
  | expr :: exprs, h => by
    simp only [Expr.sitesOfList, allPortable_append] at h
    exact ⟨expr.readable_lower h.1, Expr.listReadable_lowerList exprs h.2⟩

theorem MapElement.listReadable_lowerList {place : Place} : (elements : List MapElement) →
    AllPortable (MapElement.sitesOfList place elements) →
      Lua.Field.ListReadable (MapElement.lowerList elements)
  | [], _ => trivial
  | ⟨_, key, value⟩ :: elements, h => by
    simp only [MapElement.sitesOfList, allPortable_append] at h
    exact ⟨⟨trivial, value.readable_lower h.1⟩, MapElement.listReadable_lowerList elements h.2⟩

theorem Stmt.listReadable_lower {place : Place} (binding : Binding) (depth : Nat) :
    (stmt : Stmt) → AllPortable (stmt.sites place) →
      Lua.Stmt.ListReadable .lines (stmt.lower binding depth)
  | .expr _ expr, h => by
    simp only [Stmt.sites, allPortable_cons] at h
    exact Lua.Stmt.listReadable_singleton
      ⟨Lua.Stmt.separates_lines _, Expr.isCall_lower h.1.2, expr.readable_lower h.2⟩
  | .incDec _ op target, h => by
    simp only [Stmt.sites, allPortable_cons] at h
    have hone : Lua.isNumeral "1" := by decide
    exact Lua.Stmt.listReadable_singleton
      (Lua.Stmt.readable_update (Expr.isTarget_lower h.1.2) (target.readable_lower h.2) hone rfl)
  | .assign pos op [target] [value], h => by
    simp only [Stmt.sites, Expr.sitesOfList, List.append_nil, List.any_cons, List.any_nil,
      Bool.or_false, allPortable_cons, allPortable_append] at h
    obtain ⟨⟨hfits, hplaces⟩, hlhs, hrhs⟩ := h
    have hplace : target.isPlace := List.all_eq_true.1 hplaces target List.mem_cons_self
    have hvalue : value.lower.Readable := by
      split at hrhs
      · exact value.readable_lower hrhs
      · exact value.readable_lower hrhs
    have htarget : op ≠ .define → target.lower.Readable := fun hop => by
      rw [if_neg hop] at hlhs
      exact target.readable_lower hlhs
    obtain ⟨_, _, hleft, hright, hcases⟩ := Stmt.lower_assign hfits
    obtain rfl := List.singleton_inj.1 hleft
    obtain rfl := List.singleton_inj.1 hright
    obtain ⟨rfl, id, rfl, hlower⟩ | ⟨hop, -, hlower | ⟨luaOp, hlower⟩⟩ := hcases
    · simp only [if_true, Expr.sitesOfDefined, allPortable_cons] at hlhs
      rw [hlower]
      exact Lua.Stmt.listReadable_singleton (Lua.Stmt.readable_bind hlhs.1.2 hvalue)
    · rw [hlower]
      exact Lua.Stmt.listReadable_singleton
        ⟨Lua.Stmt.separates_lines _, Expr.isTarget_lower hplace, htarget hop, hvalue⟩
    · rw [hlower]
      exact Lua.Stmt.listReadable_singleton (Lua.Stmt.readable_update (Expr.isTarget_lower hplace)
        (htarget hop) hvalue value.isOperand_lower)
  | .assign _ _ [] _, h | .assign _ _ (_ :: _ :: _) _, h | .assign _ _ [_] [], h
  | .assign _ _ [_] (_ :: _ :: _), h => by
    simp [Stmt.sites, Node.Fits] at h
  | .ret _ none, _ => Lua.Stmt.listReadable_singleton trivial
  | .ret _ (some result), h => by
    simp only [Stmt.sites, Expr.sitesOfOption, allPortable_cons] at h
    exact Lua.Stmt.listReadable_singleton (result.readable_lower h.2)
  | .branch _ .break, _ => Lua.Stmt.listReadable_singleton trivial
  | .branch _ .continue, _ =>
    ⟨⟨Lua.Stmt.separates_lines _, rfl, Lua.isName_continueFlag depth, trivial⟩, nofun,
      Lua.Stmt.listReadable_singleton trivial⟩
  | .block body, h => by
    simp only [Stmt.sites, allPortable_cons] at h
    exact Lua.Stmt.listReadable_singleton (body.listReadable_lower .lexical depth h.2)
  | .ifElse _ init test body rest, h => by
    simp only [Stmt.sites, allPortable_cons, allPortable_append] at h
    obtain ⟨⟨-, hreturn⟩, ⟨⟨hinit, htest⟩, hbody⟩, hrest⟩ := h
    have hcode := Stmt.listReadable_lowerOption depth init hinit
    have hcond : (Lua.Stmt.cond .lines test.lower (body.lower .lexical depth)
        (Stmt.lowerElse depth rest)).Readable .lines :=
      ⟨test.readable_lower htest, body.listReadable_lower .lexical depth hbody,
        Stmt.readable_lowerElse depth rest hrest⟩
    exact Lua.Stmt.listReadable_singleton (Lua.Stmt.listReadable_append hcode
      (Lua.Stmt.listReadable_singleton hcond) fun _ => Stmt.isRet_lowerOption hinit hreturn)
  | .loop _ init test post body, h => by
    simp only [Stmt.sites, allPortable_cons, allPortable_append] at h
    obtain ⟨⟨-, hreturn⟩, ⟨⟨hinit, htest⟩, hbody⟩, hpost⟩ := h
    have hflag := Lua.isName_continueFlag (depth + 1)
    have hcode := Stmt.listReadable_lowerOption depth init hinit
    have htest := Expr.readable_lowerOption (.bool true) trivial test htest
    have hnext := Lua.Stmt.readable_afterRound hflag
      (Stmt.listReadable_mapLower (depth + 1) post hpost)
    have hround := Lua.Stmt.listReadable_round hflag
      (body.listReadable_lower .lexical (depth + 1) hbody) (Block.isRet_lower hbody) hnext
    have hloop := Lua.Stmt.listReadable_singleton
      (show (Lua.Stmt.whileLoop _ _).Readable .lines from ⟨htest, hround⟩)
    rw [Stmt.lower_loop]
    dsimp only
    split
    · exact Lua.Stmt.listReadable_singleton (Lua.Stmt.listReadable_append hcode hloop fun _ =>
        Stmt.isRet_lowerOption hinit hreturn)
    · exact hloop
  | .forIn _ key value iterable body, h => by
    simp only [Stmt.sites, allPortable_cons, allPortable_append] at h
    obtain ⟨-, ⟨hiterable, hbinders⟩, hbody⟩ := h
    have hflag := Lua.isName_continueFlag (depth + 1)
    have hiterate : Lua.isName Names.iterate := by decide
    have hround := Lua.Stmt.listReadable_round hflag
      (body.listReadable_lower .lexical (depth + 1) hbody) (Block.isRet_lower hbody)
      (Lua.Stmt.readable_breakUnless hflag)
    exact Lua.Stmt.listReadable_singleton
      ⟨by simp, isName_of_loopBinders hbinders.isName_of_mem_binders,
        ⟨rfl, hiterate, iterable.readable_lower hiterable, trivial⟩, hround⟩
  | .exportValue .., _ => trivial

theorem Stmt.listReadable_mapLower {place : Place} (depth : Nat) :
    (stmt : Option Stmt) → AllPortable (Stmt.sitesOfOption place stmt) →
      ∀ code ∈ stmt.map (Stmt.lower .lexical depth), Lua.Stmt.ListReadable .lines code
  | none, _ => nofun
  | some stmt, h => by
    rintro _ ⟨⟩
    exact stmt.listReadable_lower .lexical depth h

theorem Stmt.listReadable_lowerOption {place : Place} (depth : Nat) :
    (stmt : Option Stmt) → AllPortable (Stmt.sitesOfOption place stmt) →
      Lua.Stmt.ListReadable .lines (Stmt.lowerOption depth stmt)
  | none, _ => trivial
  | some stmt, h => stmt.listReadable_lower .lexical depth h

theorem Stmt.readable_lowerElse {place : Place} (depth : Nat) :
    (rest : Option Stmt) → AllPortable (Stmt.sitesOfElse place rest) →
      (Stmt.lowerElse depth rest).Readable .lines
  | none, _ => trivial
  | some stmt, h => by
    cases stmt with
    | block body =>
      simp only [Stmt.sitesOfElse, allPortable_cons] at h
      exact body.listReadable_lower .lexical depth h.2
    | ifElse pos init test body rest =>
      cases init with
      | none =>
        simp only [Stmt.sitesOfElse, allPortable_cons, allPortable_append] at h
        exact ⟨test.readable_lower h.2.1.1, body.listReadable_lower .lexical depth h.2.1.2,
          Stmt.readable_lowerElse depth rest h.2.2⟩
      | some init => exact Stmt.listReadable_lower .lexical depth _ h
    | _ => exact Stmt.listReadable_lower .lexical depth _ h

theorem Stmt.listReadable_lowerList {place : Place} (binding : Binding) (depth : Nat) :
    (stmts : List Stmt) → AllPortable (Stmt.sitesOfList place stmts) →
      Lua.Stmt.ListReadable .lines (Stmt.lowerList binding depth stmts)
  | [], _ => trivial
  | stmt :: stmts, h => by
    simp only [Stmt.sitesOfList, allPortable_append] at h
    have hstmt := stmt.listReadable_lower binding depth h.1
    have hstmts := Stmt.listReadable_lowerList binding depth stmts h.2
    rw [Stmt.lowerList_cons]
    split
    · next hreturn =>
      rw [Bool.and_eq_true] at hreturn
      exact Lua.Stmt.listReadable_append (Lua.Stmt.listReadable_singleton
        (Stmt.listReadable_inline hreturn.1 hstmt)) hstmts fun _ => by simp [Lua.Stmt.isRet]
    · next hreturn =>
      refine Lua.Stmt.listReadable_append hstmt hstmts fun hne => ?_
      have hmore : stmts ≠ [] := by
        rintro rfl
        exact hne rfl
      exact Stmt.isRet_lower (stmt_fits_of_allPortable h.1) (by simpa [hmore] using hreturn)

theorem Block.listReadable_lower {place : Place} (binding : Binding) (depth : Nat) :
    (block : Block) → AllPortable (block.sites place) →
      Lua.Stmt.ListReadable .lines (block.lower binding depth)
  | ⟨_, stmts⟩, h => Stmt.listReadable_lowerList binding depth stmts h

end

end Script

theorem listReadable_lower {file : File} (hfile : file.WellFormed) (hportable : file.isPortable)
    (binding : Binding) : Lua.Stmt.ListReadable .lines (file.lower binding) := by
  have hall : AllPortable file.sites := fun site hsite =>
    ⟨hfile site hsite, List.all_eq_true.1 hportable site hsite⟩
  exact Stmt.listReadable_lowerList binding 0 file.stmts hall

/-! ## The generated text -/

theorem Lua.parse_render {indent : String} (hindent : ∀ c ∈ indent.toList, Lua.isBlank c)
    {stmts : List Lua.Stmt} (hstmts : Lua.Stmt.ListReadable .lines stmts) :
    Lua.parse (Lua.Layout.render indent (Lua.Stmt.layoutList .lines 0 stmts)) =
      some (Lua.Stmt.parsedBlock stmts) := by
  have hlex := Lua.lex_layoutList ⟨indent.toList, hindent⟩ hstmts
  have hread := Lua.Stmt.readBlock_tokensList stmts hstmts [] nofun
    (8 * ((Lua.Stmt.tokensList stmts).length + 1)) (by omega)
  rw [List.append_nil] at hread
  rw [Lua.parse, Lua.Layout.toList_render, hlex]
  simp [hread]

/-- The text of a converted script is its support code, if it has any, and a body that Lua reads as
the code the script was lowered to.  Text and body are those that the generator writes straight from
the tree. -/
theorem parse_body_of_toLua_eq_ok (options : Options) (file : File) {text : String}
    (htext : file.toLua options = .ok text)
    (hindent : ∀ c ∈ options.indent.toList, c = ' ' ∨ c = '\t') (hportable : file.isPortable) :
    let support := (file.analyse options.binding).state.support
    let body := (file.body options.binding).render options.indent
    text = (if support.isEmpty then "" else support.prologue ++ "\n") ++ body ∧
      (file.generate options).result = .ok text ∧
      (Stmt.walkList options.indent file.stmts (.initial options.binding)).result = .ok body ∧
      Lua.parse body = some (Lua.Stmt.parsedBlock (file.lower options.binding)) := by
  have hfault := (exists_toLua_eq_ok_iff options file).1 ⟨text, htext⟩
  have hfile := (fault?_analyse_eq_none_iff options.binding file).1 hfault
  have hblank : ∀ c ∈ options.indent.toList, Lua.isBlank c := by
    intro c hc
    obtain rfl | rfl := hindent c hc <;> rfl
  refine ⟨?_, ?_, file.result_walkList hfault,
    Lua.parse_render hblank (listReadable_lower hfile hportable options.binding)⟩
  · rw [File.toLua_of_fault?_eq_none hfault, File.render_layout] at htext
    exact (Except.ok.inj htext).symm
  · rw [File.generate_eq_convert]
    exact htext

/-- Returns that end a block and one that does not, and lines that begin with a parenthesis. -/
def earlyReturns : File where
  stmts :=
    [.assign {} .define [.ident { name := "f" }]
        [.func {} [{ name := "n" }]
          { stmts := [.ret {} (some (.unary {} .neg (.ident { name := "n" }))), .ret {} none] }],
      .expr {} (.call {} (.paren {} (.ident { name := "f" })) [.float {} "2.5"]),
      .loop {} none none none
        { stmts :=
            [.assign {} .assign [.selector {} (.ident { name := "f" }) "n"] [.str {} "\n"],
              .ret {} none] }]

theorem parse_earlyReturns :
    (∃ text, earlyReturns.toLua {} = .ok text) ∧
      (∀ c ∈ "  ".toList, c = ' ' ∨ c = '\t') ∧ earlyReturns.isPortable ∧
      (earlyReturns.generate {}).result = earlyReturns.toLua {} ∧
      (Stmt.walkList "  " earlyReturns.stmts (.initial .lexical)).result =
        .ok ((earlyReturns.body .lexical).render "  ") ∧
      Lua.parse ((earlyReturns.body .lexical).render "  ") =
        some ⟨[.local ["f"] [],
          .assign [.name "f"] [.func ["n"] false
            ⟨[.block ⟨[], some [.paren (.paren (.unary .neg (.paren (.name "n"))))]⟩], some []⟩],
          .call (.call (.paren (.name "f")) [.numeral "2.5"]),
          .while (.bool true)
            ⟨[.local ["__cont_1__"] [.bool false],
              .repeat ⟨[.assign [.index (.paren (.name "f")) (.str [110])] [.str [10]]], some []⟩
                (.bool true),
              .cond (.unary .not (.name "__cont_1__")) ⟨[.break], none⟩ .absent], none⟩],
          none⟩ := by
  have hok : ∃ text, earlyReturns.toLua {} = .ok text := ⟨_, rfl⟩
  have hindent : ∀ c ∈ "  ".toList, c = ' ' ∨ c = '\t' := by simp
  have hportable : earlyReturns.isPortable := by decide
  obtain ⟨text, htext⟩ := hok
  obtain ⟨-, hgenerated, hbody, hparsed⟩ :=
    parse_body_of_toLua_eq_ok {} earlyReturns htext hindent hportable
  exact ⟨⟨text, htext⟩, hindent, hportable, hgenerated.trans htext.symm, hbody, hparsed⟩

end LuaBackend
