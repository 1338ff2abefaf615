import LuaBackend.Proofs.Sites
import Mathlib.Tactic.Common

/-!
# Which scripts are accepted

A script is converted exactly if each of its nodes fits the place it stands at.  Both sides speak
about the same tree in different ways: the analysis runs events on one scope that changes as it
goes, `File.WellFormed` looks at every node on its own.

`Analysis.Runs` carries the proof.  It says of a list of events which frames it starts from, under
which condition it passes and which frames it leaves, and it is composed along the tree.
-/

namespace LuaBackend

open Script

/-! ## The judgement -/

/-- Selectors, indexes and parentheses that end in a bound identifier. -/
inductive Place.Assignable (place : Place) : Expr → Prop where
  | ident {id : Ident} (hbound : place.Binds id.name) : Assignable place (.ident id)
  | selector {pos : Pos} {expr : Expr} {field : String} (hexpr : Assignable place expr) :
      Assignable place (.selector pos expr field)
  | index {pos : Pos} {expr key : Expr} (hexpr : Assignable place expr) :
      Assignable place (.index pos expr key)
  | paren {pos : Pos} {expr : Expr} (hexpr : Assignable place expr) :
      Assignable place (.paren pos expr)

/-- What must hold of a node at its place. -/
def Node.Fits (place : Place) : Node → Prop
  | .expr (.ident id) => place.Binds id.name ∨ id.name = "len"
  | .expr (.binary _ op _ _) => op.isBitwise = false
  | .expr (.unary _ op _) => op ≠ .complement
  | .expr (.char ..) | .expr (.importModule ..) | .expr (.error ..) | .expr (.immutable ..) => False
  | .expr _ => True
  | .stmt (.assign _ op lhs rhs) =>
    ∃ target value, lhs = [target] ∧ rhs = [value] ∧
      if op = .define then ∃ id, target = .ident id
      else op.isBitwise = false ∧ place.Assignable target
  | .stmt (.incDec _ _ target) => place.Assignable target
  | .stmt (.branch ..) => 0 < place.loops
  | .stmt (.exportValue ..) => False
  | .stmt _ => True
  | .binder id => Names.isReserved id.name = false ∧ ¬ place.BindsHere id.name

/-- Every node fits the place it stands at. -/
def AllFit (sites : List Site) : Prop := ∀ site ∈ sites, site.node.Fits site.place

def Script.File.WellFormed (file : File) : Prop := AllFit file.sites

@[simp] theorem allFit_nil : AllFit [] := by simp [AllFit]

@[simp] theorem allFit_cons {site : Site} {sites : List Site} :
    AllFit (site :: sites) ↔ site.node.Fits site.place ∧ AllFit sites :=
  List.forall_mem_cons

@[simp] theorem allFit_append {first second : List Site} :
    AllFit (first ++ second) ↔ AllFit first ∧ AllFit second :=
  List.forall_mem_append

/-- The operator of the code does not depend on the operands. -/
theorem Script.Expr.lower_binary {place : Place} {pos : Pos} {op : BinaryOp} {lhs rhs : Expr}
    (hfits : (Node.expr (.binary pos op lhs rhs)).Fits place) :
    ∃ luaOp, ∀ pos lhs rhs,
      (Expr.binary pos op lhs rhs).lower = .operate luaOp lhs.lower rhs.lower := by
  cases op <;> first | exact ⟨_, fun _ _ _ => rfl⟩ | cases hfits

theorem Script.Expr.lower_unary {place : Place} {pos : Pos} {op : UnaryOp} {expr : Expr}
    (hfits : (Node.expr (.unary pos op expr)).Fits place) :
    ∃ luaOp, ∀ pos expr,
      (Expr.unary pos op expr).lower = .paren (.unary luaOp (.paren expr.lower)) := by
  cases op <;> first | exact ⟨_, fun _ _ => rfl⟩ | exact absurd rfl hfits

/-- The code of an assignment is a definition, an assignment or an update. -/
theorem Script.Stmt.lower_assign {place : Place} {pos : Pos} {op : AssignOp} {lhs rhs : List Expr}
    (hfits : (Node.stmt (.assign pos op lhs rhs)).Fits place) :
    ∃ target value, lhs = [target] ∧ rhs = [value] ∧
      ((op = .define ∧ ∃ id, target = .ident id ∧ ∀ binding depth,
          Stmt.lower binding depth (.assign pos op lhs rhs) =
            [.bind binding value.isFunction id.name value.lower]) ∨
        (op ≠ .define ∧ place.Assignable target ∧
          ((∀ binding depth, Stmt.lower binding depth (.assign pos op lhs rhs) =
              [.assign target.lower value.lower]) ∨
            ∃ luaOp, ∀ binding depth, Stmt.lower binding depth (.assign pos op lhs rhs) =
              [.update luaOp target.lower value.lower]))) := by
  obtain ⟨target, value, rfl, rfl, hshape⟩ := hfits
  refine ⟨target, value, rfl, rfl, ?_⟩
  by_cases hop : op = .define
  · subst hop
    obtain ⟨id, rfl⟩ := hshape
    exact .inl ⟨rfl, id, rfl, fun _ _ => rfl⟩
  · simp only [hop, if_false] at hshape
    refine .inr ⟨hop, hshape.2, ?_⟩
    cases op with
    | define => exact absurd rfl hop
    | assign => exact .inl fun _ _ => rfl
    | add | sub | mul | quo | rem => exact .inr ⟨_, fun _ _ => rfl⟩
    | _ => exact absurd hshape.1 (by decide)

/-! ## Places -/

namespace Place

@[simp] theorem loops_enter (place : Place) : place.enter.loops = place.loops := rfl

@[simp] theorem loops_enterFunction (place : Place) : place.enterFunction.loops = 0 := rfl

@[simp] theorem loops_enterLoop (place : Place) : place.enterLoop.loops = place.loops + 1 := rfl

@[simp] theorem frames_enterLoop (place : Place) : place.enterLoop.frames = place.frames := rfl

@[simp] theorem frames_enter (place : Place) :
    place.enter.frames = { kind := .block } :: place.frames := rfl

@[simp] theorem frames_enterFunction (place : Place) :
    place.enterFunction.frames = { kind := .function } :: place.frames := rfl

@[simp] theorem loops_bind (place : Place) (id : Ident) : (place.bind id).loops = place.loops := by
  unfold bind
  split <;> rfl

@[simp] theorem tail_frames_bind (place : Place) (id : Ident) :
    (place.bind id).frames.tail = place.frames.tail := by
  unfold bind
  split <;> simp_all

@[simp] theorem loops_bindAll (place : Place) (ids : List Ident) :
    (place.bindAll ids).loops = place.loops := by
  induction ids generalizing place with
  | nil => rfl
  | cons id ids ih =>
      change ((place.bind id).bindAll ids).loops = place.loops
      rw [ih, loops_bind]

@[simp] theorem tail_frames_bindAll (place : Place) (ids : List Ident) :
    (place.bindAll ids).frames.tail = place.frames.tail := by
  induction ids generalizing place with
  | nil => rfl
  | cons id ids ih =>
      change ((place.bind id).bindAll ids).frames.tail = place.frames.tail
      rw [ih, tail_frames_bind]

@[simp] theorem loops_after (place : Place) (stmt : Stmt) :
    (place.after stmt).loops = place.loops := by
  unfold after
  split <;> simp

@[simp] theorem tail_frames_after (place : Place) (stmt : Stmt) :
    (place.after stmt).frames.tail = place.frames.tail := by
  unfold after
  split <;> simp

@[simp] theorem loops_afterOption (place : Place) (stmt : Option Stmt) :
    (place.afterOption stmt).loops = place.loops := by
  cases stmt <;> simp [afterOption]

@[simp] theorem tail_frames_afterOption (place : Place) (stmt : Option Stmt) :
    (place.afterOption stmt).frames.tail = place.frames.tail := by
  cases stmt <;> simp [afterOption]

@[simp] theorem tail_frames_afterList (place : Place) (stmts : List Stmt) :
    (place.afterList stmts).frames.tail = place.frames.tail := by
  induction stmts generalizing place with
  | nil => rfl
  | cons stmt stmts ih =>
      change ((place.after stmt).afterList stmts).frames.tail = place.frames.tail
      rw [ih, tail_frames_after]

theorem binds_bind {place : Place} {id : Ident} {name : String}
    (hbinds : (place.bind id).Binds name) :
    name = id.name ∨ place.Binds name := by
  unfold bind at hbinds
  split at hbinds
  · exact .inr hbinds
  · next frame outer hframes =>
      simp only [Binds, List.mem_cons, exists_eq_or_imp] at hbinds
      simp only [Binds, hframes, List.mem_cons, exists_eq_or_imp]
      tauto

theorem binds_enter_iff {place : Place} {name : String} :
    place.enter.Binds name ↔ place.Binds name := by
  simp [Binds]

theorem binds_enterFunction_iff {place : Place} {name : String} :
    place.enterFunction.Binds name ↔ place.Binds name := by
  simp [Binds]

theorem assignable_iff {place : Place} {target : Expr} :
    place.Assignable target ↔ ∃ id, target.root? = some id ∧ place.Binds id.name := by
  constructor
  · intro htarget
    induction htarget with
    | ident hbound => exact ⟨_, rfl, hbound⟩
    | selector _ ih => exact ih
    | index _ ih => exact ih
    | paren _ ih => exact ih
  · rintro ⟨id, hroot, hbound⟩
    fun_induction Expr.root? target with
    | case1 root =>
        obtain rfl : root = id := by simpa using hroot
        exact .ident hbound
    | case2 _ expr _ ih => exact .selector (ih hroot)
    | case3 _ expr _ ih => exact .index (ih hroot)
    | case4 _ expr ih => exact .paren (ih hroot)
    | case5 => simp at hroot

end Place

/-! ## Names of the generator -/

namespace Names

theorem toList_continueFlag (depth : Nat) :
    (continueFlag depth).toList =
      '_' :: '_' :: ("cont_".toList ++ Nat.toDigits 10 depth ++ ['_', '_']) := by
  simp [continueFlag, Nat.repr]

theorem isReserved_continueFlag (depth : Nat) : isReserved (continueFlag depth) = true := by
  have hdigits : '\n' ∉ Nat.toDigits 10 depth := by
    intro hmem
    have hdigit := Nat.isDigit_of_mem_toDigits (by decide) (by decide) hmem
    simp at hdigit
  simp [isReserved, toList_continueFlag, hdigits]

end Names

/-! ## Looking a name up -/

theorem Scope.isSome_resolveIn_iff (rootBinding : Binding) (name : String) (frames : List Frame) :
    (resolveIn rootBinding name frames).isSome ↔ ∃ frame ∈ frames, name ∈ frame.names := by
  induction frames with
  | nil => simp [resolveIn]
  | cons frame outer ih =>
      unfold resolveIn
      by_cases hname : name ∈ frame.names
      · simp [hname]
      · simp [hname, ih]

theorem Builtin.ofName?_eq_none_iff (name : String) :
    Builtin.ofName? name = none ↔ name ≠ "len" := by
  simp only [ofName?, all, Builtin.name, List.find?_cons, List.find?_nil]
  by_cases hname : name = "len"
  · simp [hname]
  · simp [hname, beq_false_of_ne (Ne.symm hname)]

/-! ## Running events from a place -/

namespace Analysis

/-- From every state whose open frames are those of `before`, the events pass exactly if `ok`
holds, and then leave the frames of `after`. -/
def Runs (before : Place) (events : List Event) (ok : Prop) (after : Place) : Prop :=
  ∀ state : State, state.scope.frames = before.frames →
    ((run state events).fault? = none ↔ ok) ∧
      ((run state events).fault? = none →
        (run state events).state.scope.frames = after.frames)

theorem run_append (state : State) (first second : List Event) :
    run state (first ++ second) =
      if (run state first).fault? = none then run (run state first).state second
      else run state first := by
  induction first generalizing state with
  | nil => simp [run]
  | cons event first ih =>
      rw [List.cons_append, run, run]
      cases hstep : state.step event with
      | ok next => simpa [hstep] using ih next
      | error fault => simp

/-- One event that is answered by a state with the frames of `after`, or refused. -/
theorem Runs.single {before after : Place} {event : Event} {ok : Prop}
    (hstep : ∀ state : State, state.scope.frames = before.frames →
      (ok ∧ ∃ next, state.step event = .ok next ∧ next.scope.frames = after.frames) ∨
        (¬ ok ∧ ∃ fault, state.step event = .error fault)) :
    Runs before [event] ok after := by
  intro state hframes
  rcases hstep state hframes with ⟨hok, next, hnext, hafter⟩ | ⟨hok, fault, hfault⟩
  · simp [run, hnext, hok, hafter]
  · simp [run, hfault, hok]

namespace Runs

variable {before middle after : Place} {events first second : List Event} {ok ok' : Prop}

theorem congr (hruns : Runs before events ok after) (hok : ok ↔ ok') :
    Runs before events ok' after := by
  obtain rfl : ok = ok' := propext hok
  exact hruns

theorem frames_congr (hruns : Runs middle events ok after)
    (hframes : before.frames = middle.frames) :
    Runs before events ok after :=
  fun state hstate => hruns state (hstate.trans hframes)

theorem nil : Runs before [] True before := by
  intro state hframes
  simp [run, hframes]

theorem append (hfirst : Runs before first ok middle) (hsecond : Runs middle second ok' after) :
    Runs before (first ++ second) (ok ∧ ok') after := by
  intro state hframes
  obtain ⟨hpass, hmiddle⟩ := hfirst state hframes
  rw [run_append]
  split_ifs with hnone
  · obtain ⟨hpass', hafter⟩ := hsecond _ (hmiddle hnone)
    have hok : ok := hpass.1 hnone
    simpa [hok] using ⟨hpass', hafter⟩
  · have hok : ¬ ok := fun hok => hnone (hpass.2 hok)
    simp [hnone, hok]

theorem cons {event : Event} (hevent : Runs before [event] ok middle)
    (hevents : Runs middle events ok' after) :
    Runs before (event :: events) (ok ∧ ok') after :=
  hevent.append hevents

theorem refuse (fault : Fault) : Runs before [.refuse fault] False after :=
  Runs.single fun _ _ => .inr ⟨not_false, _, rfl⟩

theorem need (snippet : Snippet) : Runs before [.need snippet] True before :=
  Runs.single fun _ hframes => .inl ⟨trivial, _, rfl, hframes⟩

theorem needIf (p : Prop) [Decidable p] (snippet : Snippet) :
    Runs before (if p then [.need snippet] else []) True before := by
  split
  · exact need snippet
  · exact nil

theorem read (id : Ident) :
    Runs before [.read id] (before.Binds id.name ∨ id.name = "len") before := by
  refine Runs.single fun state hframes => ?_
  have hbinds : (state.scope.resolve? id.name).isSome ↔ before.Binds id.name := by
    rw [Scope.resolve?, hframes]
    exact Scope.isSome_resolveIn_iff ..
  simp only [State.step, State.read]
  cases hfound : state.scope.resolve? id.name with
  | some found =>
      refine .inl ⟨.inl (hbinds.1 (by simp [hfound])), _, rfl, ?_⟩
      rw [← hframes, State.note]
      split <;> rfl
  | none =>
      have hunbound : ¬ before.Binds id.name := by simp [← hbinds, hfound]
      cases hbuiltin : Builtin.ofName? id.name with
      | some builtin =>
          have hlen : id.name = "len" := by
            by_contra hlen
            simp [(Builtin.ofName?_eq_none_iff _).2 hlen] at hbuiltin
          exact .inl ⟨.inr hlen, _, rfl, hframes⟩
      | none =>
          have hlen := (Builtin.ofName?_eq_none_iff _).1 hbuiltin
          exact .inr ⟨by simp [hunbound, hlen], _, rfl⟩

theorem assign (id : Ident) : Runs before [.assign id] (before.Binds id.name) before := by
  refine Runs.single fun state hframes => ?_
  have hbinds : (state.scope.resolve? id.name).isSome ↔ before.Binds id.name := by
    rw [Scope.resolve?, hframes]
    exact Scope.isSome_resolveIn_iff ..
  simp only [State.step]
  by_cases hsome : (state.scope.resolve? id.name).isSome
  · exact .inl ⟨hbinds.1 hsome, state, by simp [hsome], hframes⟩
  · exact .inr ⟨fun hbound => hsome (hbinds.2 hbound), _, by simp [hsome]; rfl⟩

theorem isDefinedHere_iff {state : State} (hframes : state.scope.frames = before.frames)
    (name : String) : state.scope.isDefinedHere name ↔ before.BindsHere name := by
  simp [Scope.isDefinedHere, Place.BindsHere, ← hframes, Scope.frames]

theorem fresh (id : Ident) : Runs before [.fresh id] (¬ before.BindsHere id.name) before := by
  refine Runs.single fun state hframes => ?_
  have hhere := isDefinedHere_iff hframes id.name
  simp only [State.step]
  by_cases hdefined : state.scope.isDefinedHere id.name
  · exact .inr ⟨by simp [← hhere, hdefined], _, by simp [hdefined]; rfl⟩
  · exact .inl ⟨by simp [← hhere, hdefined], state, by simp [hdefined], hframes⟩

theorem declare (id : Ident) :
    Runs before [.declare id] ((Node.binder id).Fits before) (before.bind id) := by
  refine Runs.single fun state hframes => ?_
  have hhere := isDefinedHere_iff hframes id.name
  simp only [State.step, State.declare, Scope.define?, Node.Fits, ← hhere]
  cases hreserved : Names.isReserved id.name with
  | true => exact .inr ⟨by simp, _, rfl⟩
  | false =>
      cases hdefined : state.scope.isDefinedHere id.name with
      | true => exact .inr ⟨by simp, _, rfl⟩
      | false =>
          refine .inl ⟨by simp, _, rfl, ?_⟩
          simp [Place.bind, ← hframes, Scope.frames]

/-- A frame that is opened is closed again, whatever was bound in it. -/
theorem within (before : Place) {kind : FrameKind} {inner : Place}
    (hruns : Runs inner events ok after)
    (hinner : inner.frames = { kind } :: before.frames)
    (hafter : after.frames.tail = inner.frames.tail) :
    Runs before (Event.within kind events) ok before := by
  intro state hframes
  have henter : Runs before [.enter kind] True inner :=
    Runs.single fun state hframes =>
      .inl ⟨trivial, _, rfl, by simp [Scope.fork, Scope.frames, hinner, ← hframes]⟩
  have hleave : Runs after [.leave] True before := by
    refine Runs.single fun last hlast => .inl ⟨trivial, _, rfl, ?_⟩
    -- The frames under the innermost one are never empty: they began with the state's own.
    have houter : last.scope.outer = state.scope.current :: state.scope.outer := by
      rw [hinner, ← hlast, List.tail_cons, ← hframes] at hafter
      exact hafter
    simp [Scope.leave, Scope.frames, houter, ← hframes]
  exact ((henter.append hruns).append hleave).congr (by simp) state hframes

theorem declareAll (before : Place) (ids : List Ident) :
    Runs before (ids.map .declare) (AllFit (before.binders ids))
      (before.bindAll ids) := by
  induction ids generalizing before with
  | nil => exact nil.congr (by simp [Place.binders])
  | cons id ids ih =>
      refine (Runs.cons (declare id) (ih _)).congr ?_
      simp [Place.binders]

theorem target (pos : Pos) (target : Expr) :
    Runs before [Event.ofTarget pos target] (before.Assignable target) before := by
  rw [Event.ofTarget]
  cases hroot : target.root? with
  | some id => exact (assign id).congr (by simp [Place.assignable_iff, hroot])
  | none => exact (refuse _).congr (by simp [Place.assignable_iff, hroot])

end Runs

theorem map_declare_loopBinders (key : Option Ident) (value : Ident) :
    key.toList.flatMap Event.ofLoopVariable ++ Event.ofLoopVariable value =
      (loopBinders key value).map .declare := by
  have hof : Event.ofLoopVariable = fun id =>
      ([id].filter fun id => id.name ≠ Names.discard).map Event.declare := by
    funext id
    by_cases hname : id.name = Names.discard <;> simp [Event.ofLoopVariable, hname]
  cases key with
  | none => simp [hof, loopBinders]
  | some key =>
      simp only [hof, loopBinders, Option.toList_some, List.flatMap_singleton, ← List.map_append,
        ← List.filter_append]

/-- Only an identifier can be defined. -/
theorem ofDefinition_eq_refuse {target : Expr} (htarget : ∀ id, target ≠ .ident id) (pos : Pos)
    (value : Expr) (events : List Event) :
    ∃ fault, Event.ofDefinition pos target value events = [.refuse fault] := by
  cases target with
  | ident id => exact absurd rfl (htarget id)
  | selector | index => exact ⟨_, rfl⟩
  | _ => exact ⟨_, rfl⟩

end Analysis

/-! ## Every tree -/

namespace Script

open Analysis

theorem runs_eventsOfElse_single {place : Place} {stmt : Stmt} (halone : stmt.standsAlone)
    (hruns : Runs place.enter (stmt.events (0 < place.loops)) (AllFit (stmt.sites place.enter))
      (place.enter.after stmt)) :
    Runs place (Stmt.eventsOfElse (0 < place.loops) (some stmt))
      (AllFit (Stmt.sitesOfElse place (some stmt))) place := by
  rw [Stmt.eventsOfElse_of_standsAlone _ halone, Stmt.sitesOfElse_of_standsAlone _ halone]
  exact hruns.within place rfl (by simp)

mutual

theorem Expr.runs_events (place : Place) : (expr : Expr) →
    Runs place expr.events (AllFit (expr.sites place)) place
  | .ident id => (Runs.read id).congr (by simp [Expr.sites, Node.Fits])
  | .int .. | .float .. | .bool .. | .str .. | .undefined _ =>
    Runs.nil.congr (by simp [Expr.sites, Node.Fits])
  | .char .. | .importModule .. | .error .. | .immutable .. =>
    (Runs.refuse _).congr (by simp [Expr.sites, Node.Fits])
  | .paren _ expr => (expr.runs_events place).congr (by simp [Expr.sites, Node.Fits])
  | .binary pos op lhs rhs => by
    rw [Expr.events]
    cases hop : op.isBitwise with
    | true => exact (Runs.refuse _).congr (by simp [Expr.sites, Node.Fits, hop])
    | false =>
        refine (((lhs.runs_events place).append (rhs.runs_events place)).append
          (.needIf _ _)).congr ?_
        simp [Expr.sites, Node.Fits, hop]
  | .unary pos op expr => by
    rw [Expr.events]
    by_cases hop : op = .complement
    · simp only [hop, if_true]
      refine ((expr.runs_events place).append (.refuse _)).congr ?_
      simp [Expr.sites, Node.Fits]
    · simp only [hop, if_false]
      refine ((expr.runs_events place).append .nil).congr ?_
      simp [Expr.sites, Node.Fits, hop]
  | .selector _ expr _ => (expr.runs_events place).congr (by simp [Expr.sites, Node.Fits])
  | .index _ expr key =>
    ((expr.runs_events place).append (key.runs_events place)).congr
      (by simp [Expr.sites, Node.Fits])
  | .slice _ expr low high =>
    ((((expr.runs_events place).append (Expr.runs_eventsOfOption place low)).append
      (Expr.runs_eventsOfOption place high)).append (.need _)).congr
      (by simp [Expr.sites, Node.Fits, and_assoc])
  | .cond _ test whenTrue whenFalse =>
    (((test.runs_events place).append (whenTrue.runs_events place)).append
      (whenFalse.runs_events place)).congr (by simp [Expr.sites, Node.Fits, and_assoc])
  | .call _ callee args =>
    ((callee.runs_events place).append (Expr.runs_eventsOfList place args)).congr
      (by simp [Expr.sites, Node.Fits])
  | .array _ elements =>
    (Expr.runs_eventsOfList place elements).congr (by simp [Expr.sites, Node.Fits])
  | .map _ elements =>
    (MapElement.runs_eventsOfList place elements).congr (by simp [Expr.sites, Node.Fits])
  | .func _ params body => by
    have hbody := body.runs_events (place.enterFunction.bindAll params)
    simp only [Place.loops_bindAll, Place.loops_enterFunction, Nat.lt_irrefl, decide_false] at hbody
    refine (((Runs.declareAll place.enterFunction params).append hbody).within place
      rfl ?_).congr ?_
    · simp
    · simp [Expr.sites, Node.Fits]

theorem Expr.runs_eventsOfOption (place : Place) : (expr : Option Expr) →
    Runs place (Expr.eventsOfOption expr) (AllFit (Expr.sitesOfOption place expr)) place
  | none => Runs.nil.congr (by simp [Expr.sitesOfOption])
  | some expr => expr.runs_events place

theorem Expr.runs_eventsOfList (place : Place) : (exprs : List Expr) →
    Runs place (Expr.eventsOfList exprs) (AllFit (Expr.sitesOfList place exprs)) place
  | [] => Runs.nil.congr (by simp [Expr.sitesOfList])
  | expr :: exprs =>
    ((expr.runs_events place).append (Expr.runs_eventsOfList place exprs)).congr
      (by simp [Expr.sitesOfList])

theorem MapElement.runs_eventsOfList (place : Place) : (elements : List MapElement) →
    Runs place (MapElement.eventsOfList elements)
      (AllFit (MapElement.sitesOfList place elements)) place
  | [] => Runs.nil.congr (by simp [MapElement.sitesOfList])
  | ⟨_, _, value⟩ :: elements =>
    ((value.runs_events place).append (MapElement.runs_eventsOfList place elements)).congr
      (by simp [MapElement.sitesOfList])

theorem Stmt.runs_events (place : Place) : (stmt : Stmt) →
    Runs place (stmt.events (0 < place.loops)) (AllFit (stmt.sites place)) (place.after stmt)
  | .expr _ expr => (expr.runs_events place).congr (by simp [Stmt.sites, Node.Fits])
  | .incDec pos _ target =>
    (Runs.cons (.target pos target) (target.runs_events place)).congr
      (by simp [Stmt.sites, Node.Fits])
  | .assign pos op [target] [value] => by
    rw [Stmt.events]
    by_cases hop : op = .define
    · subst hop
      rw [if_pos rfl]
      by_cases htarget : ∃ id, target = .ident id
      · obtain ⟨id, rfl⟩ := htarget
        rw [Event.ofDefinition]
        cases hvalue : value.isFunction with
        | true =>
            refine (Runs.cons (.declare id) (value.runs_events (place.bind id))).congr ?_
            simp [Stmt.sites, Expr.sitesOfDefined, Expr.sitesOfList, Node.Fits, Place.after,
              Stmt.binder?, hvalue]
        | false =>
            refine ((Runs.cons (.fresh id) (value.runs_events place)).append (.declare id)).congr ?_
            simp [Stmt.sites, Expr.sitesOfDefined, Expr.sitesOfList, Node.Fits, hvalue]
            tauto
      · obtain ⟨fault, hrefuse⟩ := ofDefinition_eq_refuse (not_exists.1 htarget)
          pos value value.events
        rw [hrefuse]
        exact (Runs.refuse fault).congr (by simp [Stmt.sites, Node.Fits, htarget])
    · have hafter : place.after (.assign pos op [target] [value]) = place := by
        simp [Place.after, Stmt.binder?, hop]
      rw [if_neg hop, Event.ofAssignment, hafter]
      cases hbitwise : op.isBitwise with
      | true => exact (Runs.refuse _).congr (by simp [Stmt.sites, Node.Fits, hop, hbitwise])
      | false =>
          refine ((Runs.cons (.target pos target) ((target.runs_events place).append
            (value.runs_events place))).append (.needIf _ _)).congr ?_
          simp [Stmt.sites, Expr.sitesOfList, Node.Fits, hop, hbitwise, hafter]
  | .assign pos op [] _ | .assign pos op (_ :: _ :: _) _ | .assign pos op [_] []
  | .assign pos op [_] (_ :: _ :: _) =>
    (Runs.refuse _).congr (by simp [Stmt.sites, Node.Fits])
  | .ret _ result =>
    (Expr.runs_eventsOfOption place result).congr (by simp [Stmt.sites, Node.Fits])
  | .branch pos op => by
    rw [Stmt.events]
    by_cases hloop : 0 < place.loops
    · simp only [hloop, decide_true, if_true]
      exact Runs.nil.congr (by simp [Stmt.sites, Node.Fits, hloop])
    · simp only [hloop, decide_false, Bool.false_eq_true, if_false]
      exact (Runs.refuse _).congr (by simp [Stmt.sites, Node.Fits, hloop])
  | .block body =>
    ((body.runs_events place.enter).within place rfl (by simp)).congr
      (by simp [Stmt.sites, Node.Fits])
  | .ifElse _ init test body rest => by
    let inner := place.enter.afterOption init
    have hinit := Stmt.runs_eventsOfOption place.enter init
    have hbody := (body.runs_events inner.enter).within inner rfl (by simp)
    have hrest := Stmt.runs_eventsOfElse inner rest
    simp only [inner, Place.loops_enter, Place.loops_afterOption] at hinit hbody hrest
    refine ((((hinit.append (test.runs_events inner)).append hbody).append hrest).within place
      rfl ?_).congr ?_
    · simp
    · simp [Stmt.sites, Node.Fits, inner, and_assoc]
  | .loop _ init test post body => by
    let inner := place.enter.afterOption init
    have hinit := Stmt.runs_eventsOfOption place.enter init
    have htest := Expr.runs_eventsOfOption inner test
    have hbody := (body.runs_events inner.enterLoop.enter).within inner rfl (by simp)
    have hpost := Stmt.runs_eventsOfOption inner.enterLoop post
    simp only [inner, Place.loops_enter, Place.loops_afterOption, Place.loops_enterLoop,
      Nat.succ_pos, decide_true] at hinit hbody hpost
    refine ((((hinit.append htest).append hbody).append (hpost.frames_congr rfl)).within
      place rfl ?_).congr ?_
    · simp
    · simp [Stmt.sites, Node.Fits, inner, and_assoc]
  | .forIn _ key value iterable body => by
    let inner := place.enter.bindAll (loopBinders key value)
    have hvariables := Runs.declareAll place.enter (loopBinders key value)
    have hbody := (body.runs_events inner.enterLoop.enter).within inner rfl (by simp)
    simp only [inner, Place.loops_enter, Place.loops_bindAll, Place.loops_enterLoop,
      Nat.succ_pos, decide_true] at hbody
    rw [Stmt.events, map_declare_loopBinders]
    refine (((iterable.runs_events place).append (.need _)).append
      ((hvariables.append hbody).within place rfl ?_)).congr ?_
    · simp
    · simp [Stmt.sites, Node.Fits]
  | .exportValue .. => (Runs.refuse _).congr (by simp [Stmt.sites, Node.Fits])

theorem Stmt.runs_eventsOfOption (place : Place) : (stmt : Option Stmt) →
    Runs place (Stmt.eventsOfOption (0 < place.loops) stmt) (AllFit (Stmt.sitesOfOption place stmt))
      (place.afterOption stmt)
  | none => Runs.nil.congr (by simp [Stmt.sitesOfOption])
  | some stmt => stmt.runs_events place

theorem Stmt.runs_eventsOfElse (place : Place) : (rest : Option Stmt) →
    Runs place (Stmt.eventsOfElse (0 < place.loops) rest)
      (AllFit (Stmt.sitesOfElse place rest)) place
  | none => Runs.nil.congr (by simp [Stmt.sitesOfElse])
  | some stmt => by
    cases stmt with
    | block body =>
        have hbody := (body.runs_events place.enter).within place rfl (by simp)
        exact hbody.congr (by simp [Stmt.sitesOfElse, Node.Fits])
    | ifElse pos init test body rest =>
        cases init with
        | none =>
            have hbody := (body.runs_events place.enter).within place rfl (by simp)
            have hrest := Stmt.runs_eventsOfElse place rest
            refine (((test.runs_events place).append hbody).append hrest).congr ?_
            simp [Stmt.sitesOfElse, Node.Fits, and_assoc]
        | some init => exact runs_eventsOfElse_single rfl (Stmt.runs_events place.enter _)
    | _ => exact runs_eventsOfElse_single rfl (Stmt.runs_events place.enter _)

theorem Stmt.runs_eventsOfList (place : Place) : (stmts : List Stmt) →
    Runs place (Stmt.eventsOfList (0 < place.loops) stmts) (AllFit (Stmt.sitesOfList place stmts))
      (place.afterList stmts)
  | [] => Runs.nil.congr (by simp [Stmt.sitesOfList])
  | stmt :: stmts => by
    have hstmts := Stmt.runs_eventsOfList (place.after stmt) stmts
    rw [Place.loops_after] at hstmts
    exact ((stmt.runs_events place).append hstmts).congr (by simp [Stmt.sitesOfList])

theorem Block.runs_events (place : Place) : (block : Block) →
    Runs place (block.events (0 < place.loops)) (AllFit (block.sites place))
      (place.afterList block.stmts)
  | ⟨_, stmts⟩ => Stmt.runs_eventsOfList place stmts

end

end Script

/-- The analysis of a script finds no fault just if every node fits its place. -/
theorem fault?_analyse_eq_none_iff (binding : Binding) (file : File) :
    (file.analyse binding).fault? = none ↔ file.WellFormed := by
  have hroot : (Analysis.State.initial binding).scope.frames = Place.root.frames := rfl
  obtain ⟨hpass, -⟩ := Stmt.runs_eventsOfList .root file.stmts _ hroot
  exact hpass

theorem exists_toLua_eq_ok_iff (options : Options) (file : File) :
    (∃ text, file.toLua options = .ok text) ↔ (file.analyse options.binding).fault? = none := by
  simp only [File.toLua, File.convert]
  cases (file.analyse options.binding).fault? <;> simp

/-- Whether a script is converted depends on the places of its nodes alone, and not on the
options. -/
theorem toLua_isOk_iff_wellFormed (options : Options) (file : File) :
    (∃ text, file.toLua options = .ok text) ↔ file.WellFormed := by
  rw [exists_toLua_eq_ok_iff, fault?_analyse_eq_none_iff]

end LuaBackend
