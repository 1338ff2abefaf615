import LuaBackend.Proofs.PaddedScopes

/-!
# Chains of branches and nested branches

An `if` behind an `else` joins the chain of the first one if it has no initial statement.  The same
`if` can be written in a block of its own, where it begins a new chain.  Both scripts have the same
fault or the same support code, and their texts differ only where the branches of this `if` stand:
as `elseif` branches of the chain around, or two levels further in as a statement of their own.
-/

namespace LuaBackend

open Script

/-- An `if` without an initial statement, and the position of a block around it. -/
structure Branch where
  pos : Pos
  test : Expr
  body : Block
  rest : Option Stmt
  blockPos : Pos

namespace Branch

/-- As an else branch, a part of the chain. -/
def folded (branch : Branch) : Stmt :=
  .ifElse branch.pos none branch.test branch.body branch.rest

/-- As an else branch, a block that holds just the `if`. -/
def nested (branch : Branch) : Stmt := .block ⟨branch.blockPos, [branch.folded]⟩

/-- The block and the new chain open a frame each. -/
theorem eventsOfElse_nested (branch : Branch) (inLoop : Bool) :
    Stmt.eventsOfElse inLoop (some branch.nested) =
      Event.within .block
        (Event.within .block (Stmt.eventsOfElse inLoop (some branch.folded))) := by
  simp [Branch.nested, Branch.folded, Stmt.eventsOfElse, Block.events, Stmt.eventsOfList,
    Stmt.events, Stmt.eventsOfOption]

end Branch

namespace Script

def Expr.isLeaf : Expr → Bool
  | .ident _ | .int .. | .float .. | .bool .. | .str .. | .char .. | .undefined _
  | .importModule .. => true
  | _ => false

/-! ## Nesting a branch -/

variable (branch : Branch)

mutual

/-- The second tree is the first one with the branch put into a block in some of the places where it
is an else branch. -/
inductive Expr.Nests : Expr → Expr → Prop where
  | leaf {expr : Expr} (hleaf : expr.isLeaf) : Expr.Nests expr expr
  | paren {pos : Pos} {expr expr' : Expr} (hexpr : expr.Nests expr') :
      Expr.Nests (.paren pos expr) (.paren pos expr')
  | binary {pos : Pos} {op : BinaryOp} {lhs lhs' rhs rhs' : Expr} (hlhs : lhs.Nests lhs')
      (hrhs : rhs.Nests rhs') : Expr.Nests (.binary pos op lhs rhs) (.binary pos op lhs' rhs')
  | unary {pos : Pos} {op : UnaryOp} {expr expr' : Expr} (hexpr : expr.Nests expr') :
      Expr.Nests (.unary pos op expr) (.unary pos op expr')
  | selector {pos : Pos} {expr expr' : Expr} {field : String} (hexpr : expr.Nests expr') :
      Expr.Nests (.selector pos expr field) (.selector pos expr' field)
  | index {pos : Pos} {expr expr' key key' : Expr} (hexpr : expr.Nests expr')
      (hkey : key.Nests key') : Expr.Nests (.index pos expr key) (.index pos expr' key')
  | slice {pos : Pos} {expr expr' : Expr} {low low' high high' : Option Expr}
      (hexpr : expr.Nests expr') (hlow : Expr.OptionNests low low')
      (hhigh : Expr.OptionNests high high') :
      Expr.Nests (.slice pos expr low high) (.slice pos expr' low' high')
  | cond {pos : Pos} {test test' whenTrue whenTrue' whenFalse whenFalse' : Expr}
      (htest : test.Nests test') (hwhenTrue : whenTrue.Nests whenTrue')
      (hwhenFalse : whenFalse.Nests whenFalse') :
      Expr.Nests (.cond pos test whenTrue whenFalse) (.cond pos test' whenTrue' whenFalse')
  | call {pos : Pos} {callee callee' : Expr} {args args' : List Expr}
      (hcallee : callee.Nests callee') (hargs : Expr.ListNests args args') :
      Expr.Nests (.call pos callee args) (.call pos callee' args')
  | array {pos : Pos} {elements elements' : List Expr}
      (helements : Expr.ListNests elements elements') :
      Expr.Nests (.array pos elements) (.array pos elements')
  | map {pos : Pos} {elements elements' : List MapElement}
      (helements : MapElement.ListNests elements elements') :
      Expr.Nests (.map pos elements) (.map pos elements')
  | func {pos : Pos} {params : List Ident} {body body' : Block} (hbody : body.Nests body') :
      Expr.Nests (.func pos params body) (.func pos params body')
  | error {pos : Pos} {expr expr' : Expr} (hexpr : expr.Nests expr') :
      Expr.Nests (.error pos expr) (.error pos expr')
  | immutable {pos : Pos} {expr expr' : Expr} (hexpr : expr.Nests expr') :
      Expr.Nests (.immutable pos expr) (.immutable pos expr')

inductive Expr.OptionNests : Option Expr → Option Expr → Prop where
  | none : Expr.OptionNests none none
  | some {expr expr' : Expr} (hexpr : expr.Nests expr') : Expr.OptionNests (some expr) (some expr')

inductive Expr.ListNests : List Expr → List Expr → Prop where
  | nil : Expr.ListNests [] []
  | cons {expr expr' : Expr} {exprs exprs' : List Expr} (hexpr : expr.Nests expr')
      (hexprs : Expr.ListNests exprs exprs') : Expr.ListNests (expr :: exprs) (expr' :: exprs')

inductive MapElement.ListNests : List MapElement → List MapElement → Prop where
  | nil : MapElement.ListNests [] []
  | cons {pos : Pos} {key : String} {value value' : Expr} {elements elements' : List MapElement}
      (hvalue : value.Nests value') (helements : MapElement.ListNests elements elements') :
      MapElement.ListNests (⟨pos, key, value⟩ :: elements) (⟨pos, key, value'⟩ :: elements')

inductive Stmt.Nests : Stmt → Stmt → Prop where
  | expr {pos : Pos} {expr expr' : Expr} (hexpr : expr.Nests expr') :
      Stmt.Nests (.expr pos expr) (.expr pos expr')
  | incDec {pos : Pos} {op : IncDecOp} {target target' : Expr} (htarget : target.Nests target') :
      Stmt.Nests (.incDec pos op target) (.incDec pos op target')
  | assign {pos : Pos} {op : AssignOp} {lhs lhs' rhs rhs' : List Expr}
      (hlhs : Expr.ListNests lhs lhs') (hrhs : Expr.ListNests rhs rhs') :
      Stmt.Nests (.assign pos op lhs rhs) (.assign pos op lhs' rhs')
  | ret {pos : Pos} {result result' : Option Expr} (hresult : Expr.OptionNests result result') :
      Stmt.Nests (.ret pos result) (.ret pos result')
  | branch {pos : Pos} {op : BranchOp} : Stmt.Nests (.branch pos op) (.branch pos op)
  | block {body body' : Block} (hbody : body.Nests body') :
      Stmt.Nests (.block body) (.block body')
  | ifElse {pos : Pos} {init init' : Option Stmt} {test test' : Expr} {body body' : Block}
      {rest rest' : Option Stmt} (hinit : Stmt.OptionNests init init') (htest : test.Nests test')
      (hbody : body.Nests body') (hrest : Stmt.ElseNests rest rest') :
      Stmt.Nests (.ifElse pos init test body rest) (.ifElse pos init' test' body' rest')
  | loop {pos : Pos} {init init' : Option Stmt} {test test' : Option Expr}
      {post post' : Option Stmt} {body body' : Block} (hinit : Stmt.OptionNests init init')
      (htest : Expr.OptionNests test test') (hpost : Stmt.OptionNests post post')
      (hbody : body.Nests body') :
      Stmt.Nests (.loop pos init test post body) (.loop pos init' test' post' body')
  | forIn {pos : Pos} {key : Option Ident} {value : Ident} {iterable iterable' : Expr}
      {body body' : Block} (hiterable : iterable.Nests iterable') (hbody : body.Nests body') :
      Stmt.Nests (.forIn pos key value iterable body) (.forIn pos key value iterable' body')
  | exportValue {pos : Pos} {result result' : Expr} (hresult : result.Nests result') :
      Stmt.Nests (.exportValue pos result) (.exportValue pos result')

inductive Stmt.OptionNests : Option Stmt → Option Stmt → Prop where
  | none : Stmt.OptionNests none none
  | some {stmt stmt' : Stmt} (hstmt : stmt.Nests stmt') : Stmt.OptionNests (some stmt) (some stmt')

inductive Stmt.ElseNests : Option Stmt → Option Stmt → Prop where
  | none : Stmt.ElseNests none none
  | some {stmt stmt' : Stmt} (hstmt : stmt.Nests stmt') : Stmt.ElseNests (some stmt) (some stmt')
  | nest : Stmt.ElseNests (some branch.folded) (some branch.nested)

inductive Stmt.ListNests : List Stmt → List Stmt → Prop where
  | nil : Stmt.ListNests [] []
  | cons {stmt stmt' : Stmt} {stmts stmts' : List Stmt} (hstmt : stmt.Nests stmt')
      (hstmts : Stmt.ListNests stmts stmts') : Stmt.ListNests (stmt :: stmts) (stmt' :: stmts')

inductive Block.Nests : Block → Block → Prop where
  | mk {pos : Pos} {stmts stmts' : List Stmt} (hstmts : Stmt.ListNests stmts stmts') :
      Block.Nests ⟨pos, stmts⟩ ⟨pos, stmts'⟩

end

mutual

theorem Expr.Nests.refl : (expr : Expr) → expr.Nests branch expr
  | .ident _ | .int .. | .float .. | .bool .. | .str .. | .char .. | .undefined _
  | .importModule .. => .leaf rfl
  | .paren _ expr => .paren (.refl expr)
  | .binary _ _ lhs rhs => .binary (.refl lhs) (.refl rhs)
  | .unary _ _ expr => .unary (.refl expr)
  | .selector _ expr _ => .selector (.refl expr)
  | .index _ expr key => .index (.refl expr) (.refl key)
  | .slice _ expr low high => .slice (.refl expr) (.refl low) (.refl high)
  | .cond _ test whenTrue whenFalse => .cond (.refl test) (.refl whenTrue) (.refl whenFalse)
  | .call _ callee args => .call (.refl callee) (.refl args)
  | .array _ elements => .array (.refl elements)
  | .map _ elements => .map (.refl elements)
  | .func _ _ body => .func (.refl body)
  | .error _ expr => .error (.refl expr)
  | .immutable _ expr => .immutable (.refl expr)

theorem Expr.OptionNests.refl : (expr : Option Expr) → Expr.OptionNests branch expr expr
  | none => .none
  | some expr => .some (.refl expr)

theorem Expr.ListNests.refl : (exprs : List Expr) → Expr.ListNests branch exprs exprs
  | [] => .nil
  | expr :: exprs => .cons (.refl expr) (.refl exprs)

theorem MapElement.ListNests.refl : (elements : List MapElement) →
    MapElement.ListNests branch elements elements
  | [] => .nil
  | ⟨_, _, value⟩ :: elements => .cons (.refl value) (.refl elements)

theorem Stmt.Nests.refl : (stmt : Stmt) → stmt.Nests branch stmt
  | .expr _ expr => .expr (.refl expr)
  | .incDec _ _ target => .incDec (.refl target)
  | .assign _ _ lhs rhs => .assign (.refl lhs) (.refl rhs)
  | .ret _ result => .ret (.refl result)
  | .branch .. => .branch
  | .block body => .block (.refl body)
  | .ifElse _ init test body rest => .ifElse (.refl init) (.refl test) (.refl body) (.refl rest)
  | .loop _ init test post body => .loop (.refl init) (.refl test) (.refl post) (.refl body)
  | .forIn _ _ _ iterable body => .forIn (.refl iterable) (.refl body)
  | .exportValue _ result => .exportValue (.refl result)

theorem Stmt.OptionNests.refl : (stmt : Option Stmt) → Stmt.OptionNests branch stmt stmt
  | none => .none
  | some stmt => .some (.refl stmt)

theorem Stmt.ElseNests.refl : (rest : Option Stmt) → Stmt.ElseNests branch rest rest
  | none => .none
  | some stmt => .some (.refl stmt)

theorem Stmt.ListNests.refl : (stmts : List Stmt) → Stmt.ListNests branch stmts stmts
  | [] => .nil
  | stmt :: stmts => .cons (.refl stmt) (.refl stmts)

theorem Block.Nests.refl : (block : Block) → block.Nests branch block
  | ⟨_, stmts⟩ => .mk (.refl stmts)

end

/-! ## The analysis -/

variable {branch}

theorem Expr.Nests.pos_eq {expr expr' : Expr} (h : expr.Nests branch expr') :
    expr.pos = expr'.pos := by
  cases h <;> rfl

theorem Expr.Nests.isFunction_eq {expr expr' : Expr} (h : expr.Nests branch expr') :
    expr.isFunction = expr'.isFunction := by
  cases h <;> rfl

theorem Expr.Nests.root?_eq : {expr expr' : Expr} → expr.Nests branch expr' →
    expr.root? = expr'.root?
  | .paren _ expr, _, h => by
    cases h with
    | leaf hleaf => rfl
    | paren hexpr => exact hexpr.root?_eq
  | .selector _ expr _, _, h => by
    cases h with
    | leaf hleaf => rfl
    | selector hexpr => exact hexpr.root?_eq
  | .index _ expr _, _, h => by
    cases h with
    | leaf hleaf => rfl
    | index hexpr => exact hexpr.root?_eq
  | .ident _, _, h | .int .., _, h | .float .., _, h | .bool .., _, h | .str .., _, h
  | .char .., _, h | .undefined _, _, h | .binary .., _, h | .unary .., _, h | .slice .., _, h
  | .cond .., _, h | .call .., _, h | .array .., _, h | .map .., _, h | .func .., _, h
  | .importModule .., _, h | .error .., _, h | .immutable .., _, h => by cases h <;> rfl

theorem Expr.ListNests.exists_eq_singleton {expr : Expr} {exprs : List Expr}
    (h : Expr.ListNests branch [expr] exprs) : ∃ expr', exprs = [expr'] ∧ expr.Nests branch expr' := by
  cases h with
  | cons hexpr hrest =>
      cases hrest
      exact ⟨_, rfl, hexpr⟩

theorem Expr.Nests.ofTarget_eq {expr expr' : Expr} (h : expr.Nests branch expr') (pos : Pos) :
    Event.ofTarget pos expr = Event.ofTarget pos expr' := by
  rw [Event.ofTarget, Event.ofTarget, h.root?_eq, h.pos_eq]

open Analysis

theorem Stmt.Nests.standsAlone_eq {stmt stmt' : Stmt} (h : stmt.Nests branch stmt') :
    stmt.standsAlone = stmt'.standsAlone := by
  cases h with
  | ifElse hinit => cases hinit <;> rfl
  | _ => rfl

theorem Expr.Nests.pads_ofDefinition {target target' value value' : Expr}
    {events padded : List Event} (htarget : target.Nests branch target')
    (hvalue : value.isFunction = value'.isFunction) (hevents : Pads true events padded)
    (pos : Pos) :
    Pads true (Event.ofDefinition pos target value events)
      (Event.ofDefinition pos target' value' padded) := by
  cases htarget with
  | leaf hleaf =>
      cases target with
      | ident id =>
          rw [Event.ofDefinition, Event.ofDefinition, ← hvalue]
          split
          · exact .append .declare hevents
          · exact .append (.append .fresh hevents) .declare
      | _ => exact .keep rfl
  | _ => exact .keep rfl

mutual

theorem Expr.pads_events {inStep : Bool} : (expr : Expr) → {expr' : Expr} →
    expr.Nests branch expr' → Pads inStep expr.events expr'.events
  | .ident _, _, h | .char .., _, h | .importModule .., _, h => by
    cases h
    exact .keep rfl
  | .int .., _, h | .float .., _, h | .bool .., _, h | .str .., _, h | .undefined _, _, h => by
    cases h
    exact .nil
  | .paren _ expr, _, h => by
    cases h with
    | leaf hleaf => cases hleaf
    | paren hexpr =>
        rw [Expr.events, Expr.events]
        exact expr.pads_events hexpr
  | .binary pos op lhs rhs, _, h => by
    cases h with
    | leaf hleaf => cases hleaf
    | binary hlhs hrhs =>
        rw [Expr.events, Expr.events]
        split
        · exact .keep rfl
        · exact .append (.append (lhs.pads_events hlhs) (rhs.pads_events hrhs)) (.keepIf rfl _)
  | .unary _ _ expr, _, h => by
    cases h with
    | leaf hleaf => cases hleaf
    | unary hexpr => exact .append (expr.pads_events hexpr) (.keepIf rfl _)
  | .selector _ expr _, _, h => by
    cases h with
    | leaf hleaf => cases hleaf
    | selector hexpr =>
        rw [Expr.events, Expr.events]
        exact expr.pads_events hexpr
  | .index _ expr key, _, h => by
    cases h with
    | leaf hleaf => cases hleaf
    | index hexpr hkey => exact .append (expr.pads_events hexpr) (key.pads_events hkey)
  | .slice _ expr low high, _, h => by
    cases h with
    | leaf hleaf => cases hleaf
    | slice hexpr hlow hhigh =>
        exact .append (.append (.append (expr.pads_events hexpr)
          (Expr.pads_eventsOfOption low hlow)) (Expr.pads_eventsOfOption high hhigh)) (.keep rfl)
  | .cond _ test whenTrue whenFalse, _, h => by
    cases h with
    | leaf hleaf => cases hleaf
    | cond htest hwhenTrue hwhenFalse =>
        exact .append (.append (test.pads_events htest) (whenTrue.pads_events hwhenTrue))
          (whenFalse.pads_events hwhenFalse)
  | .call _ callee args, _, h => by
    cases h with
    | leaf hleaf => cases hleaf
    | call hcallee hargs =>
        exact .append (callee.pads_events hcallee) (Expr.pads_eventsOfList args hargs)
  | .array _ elements, _, h => by
    cases h with
    | leaf hleaf => cases hleaf
    | array helements => exact Expr.pads_eventsOfList elements helements
  | .map _ elements, _, h => by
    cases h with
    | leaf hleaf => cases hleaf
    | map helements => exact MapElement.pads_eventsOfList elements helements
  | .func _ params body, _, h => by
    cases h with
    | leaf hleaf => cases hleaf
    | func hbody => exact .within (.append (.declareAll params) (body.pads_events false hbody))
  | .error .., _, h => by
    cases h with
    | leaf hleaf => cases hleaf
    | error => exact .keep rfl
  | .immutable .., _, h => by
    cases h with
    | leaf hleaf => cases hleaf
    | immutable => exact .keep rfl
termination_by structural tree => tree

theorem Expr.pads_eventsOfOption {inStep : Bool} : (expr : Option Expr) → {expr' : Option Expr} →
    Expr.OptionNests branch expr expr' →
      Pads inStep (Expr.eventsOfOption expr) (Expr.eventsOfOption expr')
  | none, _, h => by
    cases h
    exact .nil
  | some expr, _, h => by
    cases h with
    | some hexpr => exact expr.pads_events hexpr
termination_by structural tree => tree

theorem Expr.pads_eventsOfList {inStep : Bool} : (exprs : List Expr) → {exprs' : List Expr} →
    Expr.ListNests branch exprs exprs' →
      Pads inStep (Expr.eventsOfList exprs) (Expr.eventsOfList exprs')
  | [], _, h => by
    cases h
    exact .nil
  | expr :: exprs, _, h => by
    cases h with
    | cons hexpr hexprs =>
        exact .append (expr.pads_events hexpr) (Expr.pads_eventsOfList exprs hexprs)
termination_by structural tree => tree

theorem MapElement.pads_eventsOfList {inStep : Bool} : (elements : List MapElement) →
    {elements' : List MapElement} → MapElement.ListNests branch elements elements' →
      Pads inStep (MapElement.eventsOfList elements) (MapElement.eventsOfList elements')
  | [], _, h => by
    cases h
    exact .nil
  | ⟨_, _, value⟩ :: elements, _, h => by
    cases h with
    | cons hvalue helements =>
        exact .append (value.pads_events hvalue) (MapElement.pads_eventsOfList elements helements)
termination_by structural tree => tree

theorem Stmt.pads_events (inLoop : Bool) : (stmt : Stmt) → {stmt' : Stmt} →
    stmt.Nests branch stmt' → Pads true (stmt.events inLoop) (stmt'.events inLoop)
  | .expr _ expr, _, h => by
    cases h with
    | expr hexpr => exact expr.pads_events hexpr
  | .incDec pos _ target, _, h => by
    cases h with
    | incDec htarget =>
        rw [Stmt.events, Stmt.events, htarget.ofTarget_eq]
        exact .append (.target ..) (target.pads_events htarget)
  | .assign pos op [target] [value], _, h => by
    cases h with
    | assign hlhs hrhs =>
        obtain ⟨target', rfl, htarget⟩ := hlhs.exists_eq_singleton
        obtain ⟨value', rfl, hvalue⟩ := hrhs.exists_eq_singleton
        rw [Stmt.events, Stmt.events]
        split
        · exact htarget.pads_ofDefinition hvalue.isFunction_eq (value.pads_events hvalue) pos
        · rw [Event.ofAssignment, Event.ofAssignment, htarget.ofTarget_eq]
          split
          · exact .keep rfl
          · exact .append (.append (.target ..) (.append (target.pads_events htarget)
              (value.pads_events hvalue))) (.keepIf rfl _)
  | .assign pos op [] rhs, _, h => by
    cases h with
    | assign hlhs hrhs =>
        cases hlhs
        exact .keep rfl
  | .assign pos op (_ :: _ :: _) rhs, _, h => by
    cases h with
    | assign hlhs hrhs =>
        cases hlhs with
        | cons _ hlhs =>
            cases hlhs
            exact .keep rfl
  | .assign pos op [_] [], _, h => by
    cases h with
    | assign hlhs hrhs =>
        cases hrhs
        obtain ⟨target', rfl, -⟩ := hlhs.exists_eq_singleton
        exact .keep rfl
  | .assign pos op [_] (_ :: _ :: _), _, h => by
    cases h with
    | assign hlhs hrhs =>
        obtain ⟨target', rfl, -⟩ := hlhs.exists_eq_singleton
        cases hrhs with
        | cons _ hrhs =>
            cases hrhs
            exact .keep rfl
  | .ret _ result, _, h => by
    cases h with
    | ret hresult => exact Expr.pads_eventsOfOption result hresult
  | .branch .., _, h => by
    cases h
    rw [Stmt.events]
    split
    · exact .nil
    · exact .keep rfl
  | .block body, _, h => by
    cases h with
    | block hbody => exact .within (body.pads_events inLoop hbody)
  | .ifElse _ init test body rest, _, h => by
    cases h with
    | ifElse hinit htest hbody hrest =>
        exact .within (.append (.append (.append (Stmt.pads_eventsOfOption inLoop init hinit)
          (test.pads_events htest)) (.within (body.pads_events inLoop hbody)))
          (Stmt.pads_eventsOfElse inLoop rest hrest))
  | .loop _ init test post body, _, h => by
    cases h with
    | loop hinit htest hpost hbody =>
        exact .within (.append (.append (.append (Stmt.pads_eventsOfOption inLoop init hinit)
          (Expr.pads_eventsOfOption test htest)) (.within (body.pads_events true hbody)))
          (Stmt.pads_eventsOfOption true post hpost))
  | .forIn _ key value iterable body, _, h => by
    cases h with
    | forIn hiterable hbody =>
        rw [Stmt.events, Stmt.events, map_declare_loopBinders]
        exact .append (.append (iterable.pads_events hiterable) (.keep rfl))
          (.within (.append (.declareAll _) (.within (body.pads_events true hbody))))
  | .exportValue .., _, h => by
    cases h
    exact .keep rfl
termination_by structural tree => tree

theorem Stmt.pads_eventsOfOption (inLoop : Bool) : (stmt : Option Stmt) → {stmt' : Option Stmt} →
    Stmt.OptionNests branch stmt stmt' →
      Pads true (Stmt.eventsOfOption inLoop stmt) (Stmt.eventsOfOption inLoop stmt')
  | none, _, h => by
    cases h
    exact .nil
  | some stmt, _, h => by
    cases h with
    | some hstmt => exact stmt.pads_events inLoop hstmt
termination_by structural tree => tree

theorem Stmt.pads_eventsOfElse {inStep : Bool} (inLoop : Bool) : (rest : Option Stmt) →
    {rest' : Option Stmt} → Stmt.ElseNests branch rest rest' →
      Pads inStep (Stmt.eventsOfElse inLoop rest) (Stmt.eventsOfElse inLoop rest')
  | none, _, h => by
    cases h
    exact .nil
  | some stmt, _, h => by
    by_cases halone : stmt.standsAlone
    · cases h with
      | some hstmt =>
          rw [Stmt.eventsOfElse_of_standsAlone _ halone,
            Stmt.eventsOfElse_of_standsAlone _ (hstmt.standsAlone_eq ▸ halone)]
          exact .within (stmt.pads_events inLoop hstmt)
      | nest => cases halone
    · cases stmt with
      | block body =>
          cases h with
          | some hstmt =>
              cases hstmt with
              | block hbody => exact .within (body.pads_events inLoop hbody)
      | ifElse pos init test body rest =>
          cases init with
          | some init => exact absurd rfl halone
          | none =>
              -- The branch itself binds nothing in the frame around it.
              have hchain : Pads false (Stmt.eventsOfElse inLoop (some (.ifElse pos none test body
                  rest))) (Stmt.eventsOfElse inLoop (some (.ifElse pos none test body rest))) :=
                .append (.append (test.pads_events (.refl branch test))
                  (.within (body.pads_events inLoop (.refl branch body))))
                  (Stmt.pads_eventsOfElse inLoop rest (.refl branch rest))
              generalize hstmt : some (Stmt.ifElse pos none test body rest) = stmt at h
              cases h with
              | none => cases hstmt
              | some hnests =>
                  obtain rfl := Option.some.inj hstmt
                  cases hnests with
                  | ifElse hinit htest hbody hrest =>
                      cases hinit
                      exact .append (.append (test.pads_events htest)
                        (.within (body.pads_events inLoop hbody)))
                        (Stmt.pads_eventsOfElse inLoop rest hrest)
              | nest =>
                  rw [hstmt] at hchain
                  rw [branch.eventsOfElse_nested]
                  exact .block (.block hchain)
      | _ => exact absurd rfl halone
termination_by structural tree => tree

theorem Stmt.pads_eventsOfList (inLoop : Bool) : (stmts : List Stmt) → {stmts' : List Stmt} →
    Stmt.ListNests branch stmts stmts' →
      Pads true (Stmt.eventsOfList inLoop stmts) (Stmt.eventsOfList inLoop stmts')
  | [], _, h => by
    cases h
    exact .nil
  | stmt :: stmts, _, h => by
    cases h with
    | cons hstmt hstmts =>
        exact .append (stmt.pads_events inLoop hstmt) (Stmt.pads_eventsOfList inLoop stmts hstmts)
termination_by structural tree => tree

theorem Block.pads_events (inLoop : Bool) : (block : Block) → {block' : Block} →
    block.Nests branch block' → Pads true (block.events inLoop) (block'.events inLoop)
  | ⟨_, stmts⟩, _, h => by
    cases h with
    | mk hstmts => exact Stmt.pads_eventsOfList inLoop stmts hstmts
termination_by structural tree => tree

end

end Script

end LuaBackend
