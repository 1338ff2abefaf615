import LuaBackend.Proofs.AnalysisSteps

/-!
# What a fault blames

A script that is not converted gets one fault, a cause with a position.  `Node.Offends` says of a
node at its place which faults it deserves, cause by cause and with the position to blame; the
fault that is reported is always deserved by some node of the script.

`Analysis.Blames` carries the proof along the tree.  It adds to `Analysis.Runs` which faults a run
that stops can end with.
-/

namespace LuaBackend

open Script

/-! ## What a node deserves -/

/-- Selectors, indexes and parentheses around the identifier. -/
inductive Script.Expr.Root (id : Ident) : Expr → Prop where
  | ident : Root id (.ident id)
  | selector {pos : Pos} {expr : Expr} {field : String} (hexpr : Root id expr) :
      Root id (.selector pos expr field)
  | index {pos : Pos} {expr key : Expr} (hexpr : Root id expr) : Root id (.index pos expr key)
  | paren {pos : Pos} {expr : Expr} (hexpr : Root id expr) : Root id (.paren pos expr)

theorem Script.Expr.root?_eq_some_iff {target : Expr} {id : Ident} :
    target.root? = some id ↔ target.Root id := by
  constructor
  · intro hroot
    fun_induction Expr.root? target with
    | case1 root =>
        obtain rfl : root = id := Option.some.inj hroot
        exact .ident
    | case2 _ expr _ ih => exact .selector (ih hroot)
    | case3 _ expr _ ih => exact .index (ih hroot)
    | case4 _ expr ih => exact .paren (ih hroot)
    | case5 => simp at hroot
  · intro hroot
    induction hroot with
    | ident => rfl
    | selector _ ih | index _ ih | paren _ ih => exact ih

/-- The statement at this position changes what the target holds. -/
inductive Script.Stmt.Updates (pos : Pos) (target : Expr) : Stmt → Prop where
  | incDec (op : IncDecOp) : Updates pos target (.incDec pos op target)
  | assign {op : AssignOp} (hop : op ≠ .define) (value : Expr) :
      Updates pos target (.assign pos op [target] [value])

/-- The node, at this place, is a reason for the fault. -/
inductive Node.Offends (place : Place) : Node → Fault → Prop where
  | unresolvedRead {id : Ident} (hunbound : ¬ place.Binds id.name) (hlen : id.name ≠ "len") :
      Offends place (.expr (.ident id)) ⟨id.pos, .unresolved id.name⟩
  | unresolvedTarget {stmt : Stmt} {pos : Pos} {target : Expr} {id : Ident}
      (hupdates : stmt.Updates pos target) (hroot : target.Root id)
      (hunbound : ¬ place.Binds id.name) :
      Offends place (.stmt stmt) ⟨id.pos, .unresolved id.name⟩
  /-- A target is blamed itself if its position is known. -/
  | invalidTarget {stmt : Stmt} {pos : Pos} {target : Expr} (hupdates : stmt.Updates pos target)
      (hroot : ∀ id, ¬ target.Root id) :
      Offends place (.stmt stmt)
        ⟨if target.pos.isKnown then target.pos else pos, .invalidTarget⟩
  | redeclared {id : Ident} (hhere : place.BindsHere id.name) :
      Offends place (.binder id) ⟨id.pos, .redeclared id.name⟩
  | reservedName {id : Ident} (hreserved : Names.isReserved id.name = true) :
      Offends place (.binder id) ⟨id.pos, .reservedName id.name⟩
  | defineSelector {pos selectorPos : Pos} {expr value : Expr} {field : String} :
      Offends place (.stmt (.assign pos .define [.selector selectorPos expr field] [value]))
        ⟨pos, .defineWithSelector⟩
  | defineIndex {pos indexPos : Pos} {expr key value : Expr} :
      Offends place (.stmt (.assign pos .define [.index indexPos expr key] [value]))
        ⟨pos, .defineWithSelector⟩
  | invalidDefinition {pos : Pos} {target value : Expr} (hident : ∀ id, target ≠ .ident id)
      (hselector : ∀ pos expr field, target ≠ .selector pos expr field)
      (hindex : ∀ pos expr key, target ≠ .index pos expr key) :
      Offends place (.stmt (.assign pos .define [target] [value])) ⟨pos, .invalidTarget⟩
  | tupleAssignment {pos : Pos} {op : AssignOp} {lhs rhs : List Expr}
      (hlength : lhs.length ≠ 1 ∨ rhs.length ≠ 1) :
      Offends place (.stmt (.assign pos op lhs rhs)) ⟨pos, .tupleAssignment⟩
  | bitwiseAssignment {pos : Pos} {op : AssignOp} {lhs rhs : List Expr}
      (hop : op.isBitwise = true) :
      Offends place (.stmt (.assign pos op lhs rhs)) ⟨pos, .bitwiseAssignment op⟩
  | bitwiseOperator {pos : Pos} {op : BinaryOp} {lhs rhs : Expr} (hop : op.isBitwise = true) :
      Offends place (.expr (.binary pos op lhs rhs)) ⟨pos, .bitwiseOperator op⟩
  | complement {pos : Pos} {expr : Expr} :
      Offends place (.expr (.unary pos .complement expr)) ⟨pos, .complement⟩
  | charLiteral {pos : Pos} {value : Char} :
      Offends place (.expr (.char pos value)) ⟨pos, .charLiteral⟩
  | importExpr {pos : Pos} {name : String} :
      Offends place (.expr (.importModule pos name)) ⟨pos, .importExpr⟩
  | errorExpr {pos : Pos} {expr : Expr} :
      Offends place (.expr (.error pos expr)) ⟨pos, .errorExpr⟩
  | immutableExpr {pos : Pos} {expr : Expr} :
      Offends place (.expr (.immutable pos expr)) ⟨pos, .immutableExpr⟩
  | exportStmt {pos : Pos} {result : Expr} :
      Offends place (.stmt (.exportValue pos result)) ⟨pos, .exportStmt⟩
  /-- Neither a loop body nor the step behind it is around in the same function. -/
  | branchOutsideLoop {pos : Pos} {op : BranchOp} (houtside : place.loops = 0) :
      Offends place (.stmt (.branch pos op)) ⟨pos, .branchOutsideLoop op⟩

theorem Script.Stmt.Updates.assignable_of_fits {place : Place} {stmt : Stmt} {pos : Pos}
    {target : Expr} (hupdates : stmt.Updates pos target) (hfits : (Node.stmt stmt).Fits place) :
    ∃ id, target.Root id ∧ place.Binds id.name := by
  simp only [← Expr.root?_eq_some_iff, ← Place.assignable_iff]
  cases hupdates with
  | incDec => exact hfits
  | assign hop =>
      obtain ⟨_, _, htarget, -, hshape⟩ := hfits
      obtain rfl := List.cons.inj htarget |>.1
      rw [if_neg hop] at hshape
      exact hshape.2

/-- A node that is a reason for a fault does not fit its place. -/
theorem Node.Offends.not_fits {place : Place} {node : Node} {fault : Fault}
    (hoffends : node.Offends place fault) : ¬ node.Fits place := by
  intro hfits
  cases hoffends with
  | unresolvedRead hunbound hlen => exact hfits.elim hunbound hlen
  | unresolvedTarget hupdates hroot hunbound =>
      obtain ⟨id, hid, hbound⟩ := hupdates.assignable_of_fits hfits
      rw [← Expr.root?_eq_some_iff] at hroot hid
      obtain rfl := Option.some.inj (hid.symm.trans hroot)
      exact hunbound hbound
  | invalidTarget hupdates hroot =>
      obtain ⟨id, hid, -⟩ := hupdates.assignable_of_fits hfits
      exact hroot id hid
  | redeclared hhere => exact hfits.2 hhere
  | reservedName hreserved => simp [hfits.1] at hreserved
  | bitwiseOperator hop => simp [Node.Fits, hop] at hfits
  | complement => exact hfits rfl
  | branchOutsideLoop houtside => exact absurd houtside (Nat.ne_of_gt hfits)
  | charLiteral | importExpr | errorExpr | immutableExpr | exportStmt => exact hfits
  | tupleAssignment hlength =>
      obtain ⟨_, _, rfl, rfl, -⟩ := hfits
      simp at hlength
  | bitwiseAssignment hop =>
      obtain ⟨_, _, -, -, hshape⟩ := hfits
      split at hshape
      · next hdefine => exact absurd (hdefine ▸ hop) (by decide)
      · simp [hshape.1] at hop
  | defineSelector | defineIndex => simp [Node.Fits] at hfits
  | invalidDefinition hident => simp [Node.Fits, hident] at hfits

/-- Some node is a reason for the fault. -/
def Offended (fault : Fault) (sites : List Site) : Prop :=
  ∃ site ∈ sites, site.node.Offends site.place fault

section Offended

variable {fault : Fault}

@[simp] theorem not_offended_nil : ¬ Offended fault [] := by simp [Offended]

@[simp] theorem offended_cons {site : Site} {sites : List Site} :
    Offended fault (site :: sites) ↔
      site.node.Offends site.place fault ∨ Offended fault sites := by
  simp [Offended]

@[simp] theorem offended_append {first second : List Site} :
    Offended fault (first ++ second) ↔ Offended fault first ∨ Offended fault second := by
  simp [Offended, or_and_right, exists_or]

theorem Offended.head {place : Place} {node : Node} {sites : List Site}
    (hoffends : node.Offends place fault) : Offended fault (⟨place, node⟩ :: sites) :=
  offended_cons.2 (.inl hoffends)

end Offended

/-! ## Blame along a run -/

namespace Analysis

/-- The events run from `before` to `after`, and a run that stops does so with a fault that
`blamed` has. -/
structure Blames (before : Place) (events : List Event) (blamed : Fault → Prop)
    (after : Place) : Prop where
  runs : ∃ ok, Runs before events ok after
  faults : ∀ state : State, state.scope.frames = before.frames → ∀ fault,
    (run state events).fault? = some fault → blamed fault

namespace Blames

variable {before middle after : Place} {events first second : List Event}
  {blamed blamed' : Fault → Prop} {ok : Prop}

theorem mono (hevents : Blames before events blamed after)
    (hblamed : ∀ fault, blamed fault → blamed' fault) : Blames before events blamed' after where
  runs := hevents.runs
  faults state hstate fault hfault := hblamed fault (hevents.faults state hstate fault hfault)

theorem frames_congr (hevents : Blames middle events blamed after)
    (hframes : before.frames = middle.frames) : Blames before events blamed after where
  runs := hevents.runs.imp fun _ hruns => hruns.frames_congr hframes
  faults state hstate := hevents.faults state (hstate.trans hframes)

theorem nil : Blames before [] blamed before where
  runs := ⟨True, Runs.nil⟩
  faults state _ fault hfault := by simp [run] at hfault

/-- One event, by the ways to refuse it. -/
theorem single {event : Event} (hruns : Runs before [event] ok after)
    (hrefuses : ∀ state fault, state.scope.frames = before.frames → Refuses state event fault →
      blamed fault) :
    Blames before [event] blamed after := by
  refine ⟨⟨ok, hruns⟩, fun state hframes fault hfault => ?_⟩
  simp only [run] at hfault
  cases hstep : state.step event with
  | ok next => simp [hstep] at hfault
  | error first =>
      rw [hstep] at hfault
      obtain rfl := Option.some.inj hfault
      exact hrefuses state first hframes (refuses_of_step_eq_error hstep)

theorem append (hfirst : Blames before first blamed middle)
    (hsecond : Blames middle second blamed' after) :
    Blames before (first ++ second) (fun fault => blamed fault ∨ blamed' fault) after := by
  obtain ⟨ok, hruns⟩ := hfirst.runs
  obtain ⟨ok', hruns'⟩ := hsecond.runs
  refine ⟨⟨_, hruns.append hruns'⟩, fun state hframes fault hfault => ?_⟩
  rw [run_append] at hfault
  split_ifs at hfault with hnone
  · exact .inr (hsecond.faults _ ((hruns state hframes).2 hnone) fault hfault)
  · exact .inl (hfirst.faults state hframes fault hfault)

theorem cons {event : Event} (hevent : Blames before [event] blamed middle)
    (hevents : Blames middle events blamed' after) :
    Blames before (event :: events) (fun fault => blamed fault ∨ blamed' fault) after :=
  hevent.append hevents

theorem refuse {fault : Fault} (hblamed : blamed fault) :
    Blames before [.refuse fault] blamed after := by
  refine single (Runs.refuse fault) fun state other _ hrefuses => ?_
  cases hrefuses
  exact hblamed

theorem need (snippet : Snippet) : Blames before [.need snippet] (fun _ => False) before := by
  refine single (Runs.need snippet) fun state fault _ hrefuses => ?_
  cases hrefuses

theorem needIf (p : Prop) [Decidable p] (snippet : Snippet) :
    Blames before (if p then [.need snippet] else []) (fun _ => False) before := by
  split
  · exact need snippet
  · exact nil

theorem not_binds {state : State} (hframes : state.scope.frames = before.frames) {name : String}
    (hunbound : state.scope.resolve? name = none) : ¬ before.Binds name := by
  have hbinds : (state.scope.resolve? name).isSome ↔ before.Binds name := by
    rw [Scope.resolve?, hframes]
    exact Scope.isSome_resolveIn_iff ..
  simp [← hbinds, hunbound]

theorem read (id : Ident) : Blames before [.read id] ((Node.expr (.ident id)).Offends before)
    before := by
  refine single (Runs.read id) fun state fault hframes hrefuses => ?_
  cases hrefuses with
  | read hunbound hlen => exact .unresolvedRead (not_binds hframes hunbound) hlen

theorem fresh (id : Ident) : Blames before [.fresh id] ((Node.binder id).Offends before)
    before := by
  refine single (Runs.fresh id) fun state fault hframes hrefuses => ?_
  cases hrefuses with
  | fresh hhere => exact .redeclared ((Runs.isDefinedHere_iff hframes id.name).1 hhere)

theorem declare (id : Ident) : Blames before [.declare id] ((Node.binder id).Offends before)
    (before.bind id) := by
  refine single (Runs.declare id) fun state fault hframes hrefuses => ?_
  cases hrefuses with
  | reserved hreserved => exact .reservedName hreserved
  | declare hhere => exact .redeclared ((Runs.isDefinedHere_iff hframes id.name).1 hhere)

theorem declareAll (before : Place) (ids : List Ident) :
    Blames before (ids.map .declare) (Offended · (before.binders ids)) (before.bindAll ids) := by
  induction ids generalizing before with
  | nil => exact nil
  | cons id ids ih => exact ((declare id).cons (ih _)).mono (by simp [Place.binders])

theorem target {stmt : Stmt} {pos : Pos} {target : Expr} (hupdates : stmt.Updates pos target) :
    Blames before [Event.ofTarget pos target] ((Node.stmt stmt).Offends before) before := by
  refine single (Runs.target pos target) fun state fault hframes hrefuses => ?_
  unfold Event.ofTarget at hrefuses
  split at hrefuses
  · next id hroot =>
      cases hrefuses with
      | assign hunbound =>
          exact .unresolvedTarget hupdates (Expr.root?_eq_some_iff.1 hroot)
            (not_binds hframes hunbound)
  · next hroot =>
      cases hrefuses
      refine .invalidTarget hupdates fun id hid => ?_
      rw [← Expr.root?_eq_some_iff, hroot] at hid
      cases hid

/-- A frame is opened and closed without a fault. -/
theorem within (before : Place) {kind : FrameKind} {inner : Place}
    (hevents : Blames inner events blamed after)
    (hinner : inner.frames = { kind } :: before.frames)
    (hafter : after.frames.tail = inner.frames.tail) :
    Blames before (Event.within kind events) blamed before := by
  obtain ⟨ok, hruns⟩ := hevents.runs
  refine ⟨⟨ok, hruns.within before hinner hafter⟩, fun state hframes fault hfault => ?_⟩
  have hopen : ({ state with scope := state.scope.fork kind } : State).scope.frames =
      inner.frames := by
    simp [Scope.fork, Scope.frames, hinner, ← hframes]
  simp only [Event.within, List.cons_append, run, State.step, run_append] at hfault
  split_ifs at hfault with hnone
  · exact hevents.faults _ hopen fault hfault

end Blames

end Analysis

/-! ## Every tree -/

namespace Script

open Analysis

theorem Stmt.sites_define (place : Place) (pos : Pos) (id : Ident) (value : Expr) :
    Stmt.sites place (.assign pos .define [.ident id] [value]) =
      ⟨place, .stmt (.assign pos .define [.ident id] [value])⟩ :: ⟨place, .binder id⟩ ::
        value.sites (if value.isFunction then place.bind id else place) := by
  simp [Stmt.sites, Expr.sitesOfDefined, Expr.sitesOfList, Place.after, Stmt.binder?]

theorem Stmt.sites_update (place : Place) {op : AssignOp} (hop : op ≠ .define) (pos : Pos)
    (target value : Expr) :
    Stmt.sites place (.assign pos op [target] [value]) =
      ⟨place, .stmt (.assign pos op [target] [value])⟩ ::
        (target.sites place ++ value.sites place) := by
  simp [Stmt.sites, Expr.sitesOfList, Place.after, Stmt.binder?, hop]

theorem blames_eventsOfElse_single {place : Place} {stmt : Stmt} (halone : stmt.standsAlone)
    (hstmt : Blames place.enter (stmt.events (0 < place.loops))
      (Offended · (stmt.sites place.enter)) (place.enter.after stmt)) :
    Blames place (Stmt.eventsOfElse (0 < place.loops) (some stmt))
      (Offended · (Stmt.sitesOfElse place (some stmt))) place := by
  rw [Stmt.eventsOfElse_of_standsAlone _ halone, Stmt.sitesOfElse_of_standsAlone _ halone]
  exact hstmt.within place rfl (by simp)

mutual

theorem Expr.blames_events (place : Place) : (expr : Expr) →
    Blames place expr.events (Offended · (expr.sites place)) place
  | .ident id => (Blames.read id).mono (by simp [Expr.sites])
  | .int .. | .float .. | .bool .. | .str .. | .undefined _ => .nil
  | .char .. => .refuse (.head .charLiteral)
  | .importModule .. => .refuse (.head .importExpr)
  | .error .. => .refuse (.head .errorExpr)
  | .immutable .. => .refuse (.head .immutableExpr)
  | .paren _ expr | .selector _ expr _ =>
    (expr.blames_events place).mono (by simp +contextual [Expr.sites])
  | .binary pos op lhs rhs => by
    rw [Expr.events]
    split
    · next hop => exact .refuse (.head (.bitwiseOperator hop))
    · refine (((lhs.blames_events place).append (rhs.blames_events place)).append
        (.needIf _ _)).mono fun fault => ?_
      simp only [Expr.sites, offended_cons, offended_append]
      tauto
  | .unary pos op expr => by
    rw [Expr.events]
    by_cases hop : op = .complement
    · subst hop
      have hrefuse : Blames place [.refuse ⟨pos, .complement⟩]
          ((Node.expr (.unary pos .complement expr)).Offends place) place :=
        .refuse .complement
      exact ((expr.blames_events place).append hrefuse).mono
        (by simp +contextual [Expr.sites, or_imp])
    · rw [if_neg hop, List.append_nil]
      exact (expr.blames_events place).mono (by simp +contextual [Expr.sites])
  | .index _ expr key =>
    ((expr.blames_events place).append (key.blames_events place)).mono
      (by simp +contextual [Expr.sites])
  | .slice _ expr low high => by
    refine ((((expr.blames_events place).append (Expr.blames_eventsOfOption place low)).append
      (Expr.blames_eventsOfOption place high)).append
      (.need _)).mono fun fault => ?_
    simp only [Expr.sites, offended_cons, offended_append]
    tauto
  | .cond _ test whenTrue whenFalse =>
    (((test.blames_events place).append (whenTrue.blames_events place)).append
      (whenFalse.blames_events place)).mono (by simp +contextual [Expr.sites, or_imp])
  | .call _ callee args =>
    ((callee.blames_events place).append (Expr.blames_eventsOfList place args)).mono
      (by simp +contextual [Expr.sites])
  | .array _ elements =>
    (Expr.blames_eventsOfList place elements).mono (by simp +contextual [Expr.sites])
  | .map _ elements =>
    (MapElement.blames_eventsOfList place elements).mono (by simp +contextual [Expr.sites])
  | .func _ params body => by
    have hbody := body.blames_events (place.enterFunction.bindAll params)
    simp only [Place.loops_bindAll, Place.loops_enterFunction, Nat.lt_irrefl, decide_false] at hbody
    exact (((Blames.declareAll place.enterFunction params).append hbody).within place
      rfl (by simp)).mono (by simp +contextual [Expr.sites])

theorem Expr.blames_eventsOfOption (place : Place) : (expr : Option Expr) →
    Blames place (Expr.eventsOfOption expr) (Offended · (Expr.sitesOfOption place expr)) place
  | none => .nil
  | some expr => expr.blames_events place

theorem Expr.blames_eventsOfList (place : Place) : (exprs : List Expr) →
    Blames place (Expr.eventsOfList exprs) (Offended · (Expr.sitesOfList place exprs)) place
  | [] => .nil
  | expr :: exprs =>
    ((expr.blames_events place).append (Expr.blames_eventsOfList place exprs)).mono
      (by simp [Expr.sitesOfList])

theorem MapElement.blames_eventsOfList (place : Place) : (elements : List MapElement) →
    Blames place (MapElement.eventsOfList elements)
      (Offended · (MapElement.sitesOfList place elements)) place
  | [] => .nil
  | ⟨_, _, value⟩ :: elements =>
    ((value.blames_events place).append (MapElement.blames_eventsOfList place elements)).mono
      (by simp [MapElement.sitesOfList])

theorem Stmt.blames_events (place : Place) : (stmt : Stmt) →
    Blames place (stmt.events (0 < place.loops)) (Offended · (stmt.sites place)) (place.after stmt)
  | .expr _ expr => (expr.blames_events place).mono (by simp +contextual [Stmt.sites])
  | .incDec pos op target =>
    (Blames.cons (.target (.incDec op)) (target.blames_events place)).mono (by simp [Stmt.sites])
  | .assign pos op [target] [value] => by
    rw [Stmt.events]
    by_cases hop : op = .define
    · subst hop
      rw [if_pos rfl]
      cases target with
      | ident id =>
        rw [Event.ofDefinition]
        cases hvalue : value.isFunction with
        | true =>
            refine (Blames.cons (.declare id) (value.blames_events (place.bind id))).mono
              fun fault => ?_
            simp only [Stmt.sites_define, hvalue, if_true, offended_cons]
            exact .inr
        | false =>
            refine ((Blames.cons (.fresh id) (value.blames_events place)).append
              (.declare id)).mono fun fault => ?_
            simp only [Stmt.sites_define, hvalue, Bool.false_eq_true, if_false, offended_cons]
            tauto
      | selector => exact .refuse (.head .defineSelector)
      | index => exact .refuse (.head .defineIndex)
      | _ =>
          exact .refuse (.head (.invalidDefinition (by simp) (by simp) (by simp)))
    · have hafter : place.after (.assign pos op [target] [value]) = place := by
        simp [Place.after, Stmt.binder?, hop]
      rw [if_neg hop, Event.ofAssignment, hafter]
      split
      · next hbitwise => exact .refuse (.head (.bitwiseAssignment hbitwise))
      · refine ((Blames.cons (.target (.assign hop value)) ((target.blames_events place).append
          (value.blames_events place))).append
          (.needIf _ _)).mono fun fault => ?_
        simp only [Stmt.sites_update place hop, offended_cons, offended_append]
        tauto
  | .assign pos op [] _ | .assign pos op (_ :: _ :: _) _ | .assign pos op [_] []
  | .assign pos op [_] (_ :: _ :: _) =>
    .refuse (.head (.tupleAssignment (by simp)))
  | .ret _ result =>
    (Expr.blames_eventsOfOption place result).mono (by simp +contextual [Stmt.sites])
  | .branch pos op => by
    rw [Stmt.events]
    split
    · exact .nil
    · next hloop =>
        refine .refuse (.head (.branchOutsideLoop ?_))
        simpa using hloop
  | .block body =>
    ((body.blames_events place.enter).within place rfl (by simp)).mono
      (by simp +contextual [Stmt.sites])
  | .ifElse _ init test body rest => by
    let inner := place.enter.afterOption init
    have hinit := Stmt.blames_eventsOfOption place.enter init
    have hbody := (body.blames_events inner.enter).within inner rfl (by simp)
    have hrest := Stmt.blames_eventsOfElse inner rest
    simp only [inner, Place.loops_enter, Place.loops_afterOption] at hinit hbody hrest
    refine ((((hinit.append (test.blames_events inner)).append hbody).append hrest).within place
      rfl (by simp)).mono fun fault => ?_
    simp only [Stmt.sites, inner, offended_cons, offended_append]
    exact .inr
  | .loop _ init test post body => by
    let inner := place.enter.afterOption init
    have hinit := Stmt.blames_eventsOfOption place.enter init
    have htest := Expr.blames_eventsOfOption inner test
    have hbody := (body.blames_events inner.enterLoop.enter).within inner rfl (by simp)
    have hpost := Stmt.blames_eventsOfOption inner.enterLoop post
    simp only [inner, Place.loops_enter, Place.loops_afterOption, Place.loops_enterLoop,
      Nat.succ_pos, decide_true] at hinit hbody hpost
    refine ((((hinit.append htest).append hbody).append (hpost.frames_congr rfl)).within
      place rfl (by simp)).mono fun fault => ?_
    simp only [Stmt.sites, inner, offended_cons, offended_append]
    exact .inr
  | .forIn _ key value iterable body => by
    let inner := place.enter.bindAll (loopBinders key value)
    have hvariables := Blames.declareAll place.enter (loopBinders key value)
    have hbody := (body.blames_events inner.enterLoop.enter).within inner rfl (by simp)
    simp only [inner, Place.loops_enter, Place.loops_bindAll, Place.loops_enterLoop,
      Nat.succ_pos, decide_true] at hbody
    rw [Stmt.events, map_declare_loopBinders]
    refine (((iterable.blames_events place).append
      (.need _)).append
      ((hvariables.append hbody).within place rfl (by simp))).mono fun fault => ?_
    simp only [Stmt.sites, offended_cons, offended_append]
    tauto
  | .exportValue .. => .refuse (.head .exportStmt)

theorem Stmt.blames_eventsOfOption (place : Place) : (stmt : Option Stmt) →
    Blames place (Stmt.eventsOfOption (0 < place.loops) stmt)
      (Offended · (Stmt.sitesOfOption place stmt)) (place.afterOption stmt)
  | none => .nil
  | some stmt => stmt.blames_events place

theorem Stmt.blames_eventsOfElse (place : Place) : (rest : Option Stmt) →
    Blames place (Stmt.eventsOfElse (0 < place.loops) rest)
      (Offended · (Stmt.sitesOfElse place rest)) place
  | none => .nil
  | some stmt => by
    cases stmt with
    | block body =>
        have hbody := (body.blames_events place.enter).within place rfl (by simp)
        exact hbody.mono (by simp +contextual [Stmt.sitesOfElse])
    | ifElse pos init test body rest =>
        cases init with
        | none =>
            have hbody := (body.blames_events place.enter).within place rfl (by simp)
            have hrest := Stmt.blames_eventsOfElse place rest
            refine (((test.blames_events place).append hbody).append hrest).mono
              fun fault => ?_
            simp only [Stmt.sitesOfElse, offended_cons, offended_append]
            exact .inr
        | some init => exact blames_eventsOfElse_single rfl (Stmt.blames_events place.enter _)
    | _ => exact blames_eventsOfElse_single rfl (Stmt.blames_events place.enter _)

theorem Stmt.blames_eventsOfList (place : Place) : (stmts : List Stmt) →
    Blames place (Stmt.eventsOfList (0 < place.loops) stmts)
      (Offended · (Stmt.sitesOfList place stmts)) (place.afterList stmts)
  | [] => .nil
  | stmt :: stmts => by
    have hstmts := Stmt.blames_eventsOfList (place.after stmt) stmts
    rw [Place.loops_after] at hstmts
    exact ((stmt.blames_events place).append hstmts).mono (by simp [Stmt.sitesOfList])

theorem Block.blames_events (place : Place) : (block : Block) →
    Blames place (block.events (0 < place.loops)) (Offended · (block.sites place))
      (place.afterList block.stmts)
  | ⟨_, stmts⟩ => Stmt.blames_eventsOfList place stmts

end

end Script

theorem fault?_analyse_of_toLua_eq_error {options : Options} {file : File} {fault : Fault}
    (herror : file.toLua options = .error fault) :
    (file.analyse options.binding).fault? = some fault := by
  simp only [File.toLua, File.convert] at herror
  split at herror
  · next first hfirst =>
      obtain rfl := Except.error.inj herror
      exact hfirst
  · simp at herror

/-- A script that is not converted has a node that the fault is about, in kind, name and position;
and a script with a node that deserves a fault is not converted. -/
theorem toLua_blames_offending_node (options : Options) (file : File) :
    (∀ fault, file.toLua options = .error fault →
      ∃ site ∈ file.sites, site.node.Offends site.place fault) ∧
    (∀ site ∈ file.sites, ∀ fault, site.node.Offends site.place fault →
      ∃ first, file.toLua options = .error first) := by
  refine ⟨fun fault herror => ?_, fun site hsite fault hoffends => ?_⟩
  · have hroot : (Analysis.State.initial options.binding).scope.frames = Place.root.frames := rfl
    exact (Stmt.blames_eventsOfList .root file.stmts).faults _ hroot fault
      (fault?_analyse_of_toLua_eq_error herror)
  · cases hresult : file.toLua options with
    | error first => exact ⟨first, rfl⟩
    | ok text =>
        have hnone := (exists_toLua_eq_ok_iff options file).1 ⟨text, hresult⟩
        have hwell := (fault?_analyse_eq_none_iff options.binding file).1 hnone
        exact absurd (hwell site hsite) hoffends.not_fits

/-- The second branch stands in a function, and the loop around the function is not its own. -/
def strayBreak : File where
  stmts :=
    [.loop ⟨1, 1⟩ none none none
      { stmts :=
          [.branch ⟨2, 3⟩ .break,
            .expr ⟨3, 3⟩ (.func ⟨3, 3⟩ [] { stmts := [.branch ⟨4, 5⟩ .break] })] }]

theorem toLua_strayBreak :
    strayBreak.toLua {} = .error ⟨⟨4, 5⟩, .branchOutsideLoop .break⟩ ∧
      ∃ site ∈ strayBreak.sites,
        site.node.Offends site.place ⟨⟨4, 5⟩, .branchOutsideLoop .break⟩ :=
  have herror : strayBreak.toLua {} = .error ⟨⟨4, 5⟩, .branchOutsideLoop .break⟩ := rfl
  ⟨herror, (toLua_blames_offending_node {} strayBreak).1 _ herror⟩

end LuaBackend
