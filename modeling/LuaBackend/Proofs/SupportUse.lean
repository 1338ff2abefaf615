import LuaBackend.Proofs.AnalysisSteps
import LuaBackend.Proofs.PrintedText

/-!
# Which support code a script gets

The support code in front of a converted script consists of the snippets that some node of the
script needs.  The analysis notes them one by one on its way through the tree;
`Node.Needs` says of each node on its own, at the place it stands at, which snippet it needs.

`Analysis.Gathers` carries the proof along the tree.  It adds to `Analysis.Runs` what a run that
passes leaves in the support.
-/

namespace LuaBackend

open Script

/-! ## What a node needs -/

/-- A sum may join strings, as may an assignment with `+=`.  The built-in `len` is needed only
where the script has not bound the name itself. -/
def Node.Needs (place : Place) (snippet : Snippet) : Node → Prop
  | .expr (.ident id) => snippet = .builtin .len ∧ id.name = "len" ∧ ¬ place.Binds id.name
  | .expr (.binary _ op _ _) => snippet = .helper .stringConcat ∧ op = .add
  | .expr (.slice ..) => snippet = .helper .slicing
  | .stmt (.assign _ op _ _) => snippet = .helper .stringConcat ∧ op = .add
  | .stmt (.forIn ..) => snippet = .helper .iterator
  | _ => False

/-- Some node needs the snippet. -/
def Needed (snippet : Snippet) (sites : List Site) : Prop :=
  ∃ site ∈ sites, site.node.Needs site.place snippet

def Script.File.Needs (file : File) (snippet : Snippet) : Prop := Needed snippet file.sites

section Needed

variable {snippet : Snippet}

@[simp] theorem not_needed_nil : ¬ Needed snippet [] := by simp [Needed]

@[simp] theorem needed_cons {site : Site} {sites : List Site} :
    Needed snippet (site :: sites) ↔
      site.node.Needs site.place snippet ∨ Needed snippet sites := by
  simp [Needed]

@[simp] theorem needed_append {first second : List Site} :
    Needed snippet (first ++ second) ↔ Needed snippet first ∨ Needed snippet second := by
  simp [Needed, or_and_right, exists_or]

@[simp] theorem not_needed_binders (place : Place) (ids : List Ident) :
    ¬ Needed snippet (place.binders ids) := by
  induction ids generalizing place with
  | nil => simp [Place.binders]
  | cons id ids ih => simp [Place.binders, Node.Needs, ih]

end Needed

/-! ## Support -/

theorem Snippet.mem_all (snippet : Snippet) : snippet ∈ Snippet.all := by
  rcases snippet with (_ | _ | _) | (_ | _) <;> decide

namespace Support

@[simp] theorem uses_use {support : Support} {snippet other : Snippet} :
    (support.use snippet).uses other = true ↔ support.uses other = true ∨ other = snippet := by
  simp [use, uses, Snippet.mem_all, or_comm]

theorem uses_iff_mem {support : Support} {snippet : Snippet} :
    support.uses snippet = true ↔ snippet ∈ support.snippets := by
  simp [uses]

/-- The snippets stand in the order of a prologue, each at most once. -/
def Ordered (support : Support) : Prop := support.snippets.Sublist Snippet.all

theorem Ordered.empty : Ordered {} := List.nil_sublist _

theorem Ordered.use (support : Support) (snippet : Snippet) : (support.use snippet).Ordered :=
  List.filter_sublist

end Support

namespace Analysis

@[simp] theorem State.support_note (state : State) (found : Resolution) :
    (state.note found).support = state.support := by
  unfold note
  split <;> rfl

theorem Steps.ordered {state next : State} {event : Event} (hstep : Steps state event next)
    (hordered : state.support.Ordered) : next.support.Ordered := by
  cases hstep with
  | readLen | need => exact .use ..
  | read => rwa [State.support_note]
  | _ => exact hordered

/-! ## Gathering along a run -/

/-- The events run from `before` to `after`, and a run that passes adds to the support just what
`needed` says. -/
structure Gathers (before : Place) (events : List Event) (needed : Snippet → Prop)
    (after : Place) : Prop where
  runs : ∃ ok, Runs before events ok after
  uses : ∀ state : State, state.scope.frames = before.frames →
    (run state events).fault? = none → ∀ snippet,
      (run state events).state.support.uses snippet = true ↔
        state.support.uses snippet = true ∨ needed snippet

namespace Gathers

variable {before middle after : Place} {events first second : List Event}
  {needed needed' : Snippet → Prop} {ok : Prop}

theorem congr (hevents : Gathers before events needed after)
    (hneeded : ∀ snippet, needed snippet ↔ needed' snippet) :
    Gathers before events needed' after := by
  obtain rfl : needed = needed' := funext fun snippet => propext (hneeded snippet)
  exact hevents

theorem frames_congr (hevents : Gathers middle events needed after)
    (hframes : before.frames = middle.frames) : Gathers before events needed after where
  runs := hevents.runs.imp fun _ hruns => hruns.frames_congr hframes
  uses state hstate := hevents.uses state (hstate.trans hframes)

theorem nil : Gathers before [] (fun _ => False) before where
  runs := ⟨True, Runs.nil⟩
  uses state _ _ snippet := by simp [run]

/-- One event, by what an answer to it does to the support. -/
theorem single {event : Event} (hruns : Runs before [event] ok after)
    (huses : ∀ state next : State, state.scope.frames = before.frames → Steps state event next →
      ∀ snippet, next.support.uses snippet = true ↔
        state.support.uses snippet = true ∨ needed snippet) :
    Gathers before [event] needed after := by
  refine ⟨⟨ok, hruns⟩, fun state hframes hpass snippet => ?_⟩
  simp only [run] at hpass ⊢
  cases hstep : state.step event with
  | ok next => exact huses state next hframes (steps_of_step_eq_ok hstep) snippet
  | error fault => simp [hstep] at hpass

theorem append (hfirst : Gathers before first needed middle)
    (hsecond : Gathers middle second needed' after) :
    Gathers before (first ++ second) (fun snippet => needed snippet ∨ needed' snippet) after := by
  obtain ⟨ok, hruns⟩ := hfirst.runs
  obtain ⟨ok', hruns'⟩ := hsecond.runs
  refine ⟨⟨_, hruns.append hruns'⟩, fun state hframes hpass snippet => ?_⟩
  rw [run_append] at hpass ⊢
  split_ifs at hpass ⊢ with hnone
  · have hmiddle := (hruns state hframes).2 hnone
    rw [hsecond.uses _ hmiddle hpass, hfirst.uses state hframes hnone, or_assoc]
  · exact absurd hpass hnone

theorem cons {event : Event} (hevent : Gathers before [event] needed middle)
    (hevents : Gathers middle events needed' after) :
    Gathers before (event :: events) (fun snippet => needed snippet ∨ needed' snippet) after :=
  hevent.append hevents

/-- A run that is refused does not pass, so nothing has to be shown of its support. -/
theorem refuse (fault : Fault) : Gathers before [.refuse fault] needed after :=
  single (Runs.refuse fault) nofun

theorem refuseIf (p : Prop) [Decidable p] (fault : Fault) :
    Gathers before (if p then [.refuse fault] else []) (fun _ => False) before := by
  split
  · exact refuse fault
  · exact nil

theorem need (snippet : Snippet) : Gathers before [.need snippet] (· = snippet) before := by
  apply single (Runs.need snippet)
  intro state next _ hstep other
  cases hstep
  exact Support.uses_use

theorem needIf (p : Prop) [Decidable p] (snippet : Snippet) :
    Gathers before (if p then [.need snippet] else []) (fun other => other = snippet ∧ p)
      before := by
  split
  · next hp => exact (need snippet).congr (by simp [hp])
  · next hp => exact nil.congr (by simp [hp])

theorem read (id : Ident) :
    Gathers before [.read id] (fun snippet => (Node.expr (.ident id)).Needs before snippet)
      before := by
  apply single (Runs.read id)
  intro state next hframes hstep snippet
  have hbinds : (state.scope.resolve? id.name).isSome ↔ before.Binds id.name := by
    rw [Scope.resolve?, hframes]
    exact Scope.isSome_resolveIn_iff ..
  cases hstep with
  | read hbound =>
      have hbinds : before.Binds id.name := hbinds.1 (by rw [hbound]; rfl)
      simp [Node.Needs, hbinds]
  | readLen hunbound hlen =>
      have hfree : ¬ before.Binds id.name := by simp [← hbinds, hunbound]
      simp [Node.Needs, hlen, hlen ▸ hfree]

theorem fresh (id : Ident) : Gathers before [.fresh id] (fun _ => False) before := by
  apply single (Runs.fresh id)
  intro state next _ hstep snippet
  cases hstep
  simp

theorem declare (id : Ident) : Gathers before [.declare id] (fun _ => False) (before.bind id) := by
  apply single (Runs.declare id)
  intro state next _ hstep snippet
  cases hstep
  simp

theorem declareAll (before : Place) (ids : List Ident) :
    Gathers before (ids.map .declare) (fun _ => False) (before.bindAll ids) := by
  induction ids generalizing before with
  | nil => exact nil
  | cons id ids ih => exact ((declare id).cons (ih _)).congr (by simp)

theorem target (pos : Pos) (target : Expr) :
    Gathers before [Event.ofTarget pos target] (fun _ => False) before := by
  apply single (Runs.target pos target)
  intro state next _ hstep snippet
  unfold Event.ofTarget at hstep
  split at hstep <;> cases hstep
  simp

/-- Frames that open and close do not matter to the support. -/
theorem within (before : Place) {kind : FrameKind} {inner : Place}
    (hevents : Gathers inner events needed after)
    (hinner : inner.frames = { kind } :: before.frames)
    (hafter : after.frames.tail = inner.frames.tail) :
    Gathers before (Event.within kind events) needed before := by
  obtain ⟨ok, hruns⟩ := hevents.runs
  refine ⟨⟨ok, hruns.within before hinner hafter⟩, fun state hframes hpass snippet => ?_⟩
  have hopen : ({ state with scope := state.scope.fork kind } : State).scope.frames =
      inner.frames := by
    simp [Scope.fork, Scope.frames, hinner, ← hframes]
  simp only [Event.within, List.cons_append, run, State.step, run_append] at hpass ⊢
  split_ifs at hpass ⊢ with hnone
  · exact hevents.uses _ hopen hnone snippet
  · exact absurd hpass hnone

end Gathers

end Analysis

/-! ## Every tree -/

namespace Script

open Analysis

theorem gathers_eventsOfElse_single {place : Place} {stmt : Stmt} (halone : stmt.standsAlone)
    (hstmt : Gathers place.enter (stmt.events (0 < place.loops))
      (Needed · (stmt.sites place.enter)) (place.enter.after stmt)) :
    Gathers place (Stmt.eventsOfElse (0 < place.loops) (some stmt))
      (Needed · (Stmt.sitesOfElse place (some stmt))) place := by
  rw [Stmt.eventsOfElse_of_standsAlone _ halone, Stmt.sitesOfElse_of_standsAlone _ halone]
  exact hstmt.within place rfl (by simp)

mutual

theorem Expr.gathers_events (place : Place) : (expr : Expr) →
    Gathers place expr.events (Needed · (expr.sites place)) place
  | .ident id => (Gathers.read id).congr (by simp [Expr.sites])
  | .int .. | .float .. | .bool .. | .str .. | .undefined _ =>
    Gathers.nil.congr (by simp [Expr.sites, Node.Needs])
  | .char .. | .importModule .. | .error .. | .immutable .. => .refuse _
  | .paren _ expr | .selector _ expr _ =>
    (expr.gathers_events place).congr (by simp [Expr.sites, Node.Needs])
  | .binary pos op lhs rhs => by
    rw [Expr.events]
    split
    · exact .refuse _
    · refine (((lhs.gathers_events place).append (rhs.gathers_events place)).append
        (.needIf _ _)).congr fun snippet => ?_
      simp [Expr.sites, Node.Needs, or_comm]
  | .unary _ _ expr =>
    ((expr.gathers_events place).append (.refuseIf _ _)).congr (by simp [Expr.sites, Node.Needs])
  | .index _ expr key =>
    ((expr.gathers_events place).append (key.gathers_events place)).congr
      (by simp [Expr.sites, Node.Needs])
  | .slice _ expr low high =>
    ((((expr.gathers_events place).append (Expr.gathers_eventsOfOption place low)).append
      (Expr.gathers_eventsOfOption place high)).append (.need _)).congr
      (by simp [Expr.sites, Node.Needs, or_assoc, or_comm])
  | .cond _ test whenTrue whenFalse =>
    (((test.gathers_events place).append (whenTrue.gathers_events place)).append
      (whenFalse.gathers_events place)).congr (by simp [Expr.sites, Node.Needs, or_assoc])
  | .call _ callee args =>
    ((callee.gathers_events place).append (Expr.gathers_eventsOfList place args)).congr
      (by simp [Expr.sites, Node.Needs])
  | .array _ elements =>
    (Expr.gathers_eventsOfList place elements).congr (by simp [Expr.sites, Node.Needs])
  | .map _ elements =>
    (MapElement.gathers_eventsOfList place elements).congr (by simp [Expr.sites, Node.Needs])
  | .func _ params body => by
    have hbody := body.gathers_events (place.enterFunction.bindAll params)
    simp only [Place.loops_bindAll, Place.loops_enterFunction, Nat.lt_irrefl, decide_false] at hbody
    refine (((Gathers.declareAll place.enterFunction params).append hbody).within place
      rfl (by simp)).congr fun snippet => ?_
    simp [Expr.sites, Node.Needs]

theorem Expr.gathers_eventsOfOption (place : Place) : (expr : Option Expr) →
    Gathers place (Expr.eventsOfOption expr) (Needed · (Expr.sitesOfOption place expr)) place
  | none => Gathers.nil.congr (by simp [Expr.sitesOfOption])
  | some expr => expr.gathers_events place

theorem Expr.gathers_eventsOfList (place : Place) : (exprs : List Expr) →
    Gathers place (Expr.eventsOfList exprs) (Needed · (Expr.sitesOfList place exprs)) place
  | [] => Gathers.nil.congr (by simp [Expr.sitesOfList])
  | expr :: exprs =>
    ((expr.gathers_events place).append (Expr.gathers_eventsOfList place exprs)).congr
      (by simp [Expr.sitesOfList])

theorem MapElement.gathers_eventsOfList (place : Place) : (elements : List MapElement) →
    Gathers place (MapElement.eventsOfList elements)
      (Needed · (MapElement.sitesOfList place elements)) place
  | [] => Gathers.nil.congr (by simp [MapElement.sitesOfList])
  | ⟨_, _, value⟩ :: elements =>
    ((value.gathers_events place).append (MapElement.gathers_eventsOfList place elements)).congr
      (by simp [MapElement.sitesOfList])

theorem Stmt.gathers_events (place : Place) : (stmt : Stmt) →
    Gathers place (stmt.events (0 < place.loops)) (Needed · (stmt.sites place)) (place.after stmt)
  | .expr _ expr => (expr.gathers_events place).congr (by simp [Stmt.sites, Node.Needs])
  | .incDec pos _ target =>
    (Gathers.cons (.target pos target) (target.gathers_events place)).congr
      (by simp [Stmt.sites, Node.Needs])
  | .assign pos op [target] [value] => by
    rw [Stmt.events]
    by_cases hop : op = .define
    · subst hop
      rw [if_pos rfl]
      by_cases htarget : ∃ id, target = .ident id
      · obtain ⟨id, rfl⟩ := htarget
        rw [Event.ofDefinition]
        cases hvalue : value.isFunction with
        | true =>
            refine (Gathers.cons (.declare id) (value.gathers_events (place.bind id))).congr
              fun snippet => ?_
            simp [Stmt.sites, Expr.sitesOfDefined, Expr.sitesOfList, Node.Needs, Place.after,
              Stmt.binder?, hvalue]
        | false =>
            refine ((Gathers.cons (.fresh id) (value.gathers_events place)).append
              (.declare id)).congr fun snippet => ?_
            simp [Stmt.sites, Expr.sitesOfDefined, Expr.sitesOfList, Node.Needs, hvalue]
      · obtain ⟨fault, hrefuse⟩ := ofDefinition_eq_refuse (not_exists.1 htarget)
          pos value value.events
        rw [hrefuse]
        exact .refuse fault
    · have hafter : place.after (.assign pos op [target] [value]) = place := by
        simp [Place.after, Stmt.binder?, hop]
      rw [if_neg hop, Event.ofAssignment, hafter]
      split
      · exact .refuse _
      · refine ((Gathers.cons (.target pos target) ((target.gathers_events place).append
          (value.gathers_events place))).append (.needIf _ _)).congr fun snippet => ?_
        simp [Stmt.sites, Expr.sitesOfList, Node.Needs, hop, hafter, or_comm]
  | .assign pos op [] _ | .assign pos op (_ :: _ :: _) _ | .assign pos op [_] []
  | .assign pos op [_] (_ :: _ :: _) => .refuse _
  | .ret _ result =>
    (Expr.gathers_eventsOfOption place result).congr (by simp [Stmt.sites, Node.Needs])
  | .branch pos op => by
    rw [Stmt.events]
    split
    · exact Gathers.nil.congr (by simp [Stmt.sites, Node.Needs])
    · exact .refuse _
  | .block body =>
    ((body.gathers_events place.enter).within place rfl (by simp)).congr
      (by simp [Stmt.sites, Node.Needs])
  | .ifElse _ init test body rest => by
    let inner := place.enter.afterOption init
    have hinit := Stmt.gathers_eventsOfOption place.enter init
    have hbody := (body.gathers_events inner.enter).within inner rfl (by simp)
    have hrest := Stmt.gathers_eventsOfElse inner rest
    simp only [inner, Place.loops_enter, Place.loops_afterOption] at hinit hbody hrest
    refine ((((hinit.append (test.gathers_events inner)).append hbody).append hrest).within place
      rfl (by simp)).congr fun snippet => ?_
    simp [Stmt.sites, Node.Needs, inner, or_assoc]
  | .loop _ init test post body => by
    let inner := place.enter.afterOption init
    have hinit := Stmt.gathers_eventsOfOption place.enter init
    have htest := Expr.gathers_eventsOfOption inner test
    have hbody := (body.gathers_events inner.enterLoop.enter).within inner rfl (by simp)
    have hpost := Stmt.gathers_eventsOfOption inner.enterLoop post
    simp only [inner, Place.loops_enter, Place.loops_afterOption, Place.loops_enterLoop,
      Nat.succ_pos, decide_true] at hinit hbody hpost
    refine ((((hinit.append htest).append hbody).append (hpost.frames_congr rfl)).within
      place rfl (by simp)).congr fun snippet => ?_
    simp [Stmt.sites, Node.Needs, inner, or_assoc]
  | .forIn _ key value iterable body => by
    let inner := place.enter.bindAll (loopBinders key value)
    have hvariables := Gathers.declareAll place.enter (loopBinders key value)
    have hbody := (body.gathers_events inner.enterLoop.enter).within inner rfl (by simp)
    simp only [inner, Place.loops_enter, Place.loops_bindAll, Place.loops_enterLoop,
      Nat.succ_pos, decide_true] at hbody
    rw [Stmt.events, map_declare_loopBinders]
    refine (((iterable.gathers_events place).append (.need _)).append
      ((hvariables.append hbody).within place rfl (by simp))).congr fun snippet => ?_
    simp only [Stmt.sites, Node.Needs, needed_cons, needed_append, not_needed_binders]
    tauto
  | .exportValue .. => .refuse _

theorem Stmt.gathers_eventsOfOption (place : Place) : (stmt : Option Stmt) →
    Gathers place (Stmt.eventsOfOption (0 < place.loops) stmt)
      (Needed · (Stmt.sitesOfOption place stmt)) (place.afterOption stmt)
  | none => Gathers.nil.congr (by simp [Stmt.sitesOfOption])
  | some stmt => stmt.gathers_events place

theorem Stmt.gathers_eventsOfElse (place : Place) : (rest : Option Stmt) →
    Gathers place (Stmt.eventsOfElse (0 < place.loops) rest)
      (Needed · (Stmt.sitesOfElse place rest)) place
  | none => Gathers.nil.congr (by simp [Stmt.sitesOfElse])
  | some stmt => by
    cases stmt with
    | block body =>
        have hbody := (body.gathers_events place.enter).within place rfl (by simp)
        exact hbody.congr (by simp [Stmt.sitesOfElse, Node.Needs])
    | ifElse pos init test body rest =>
        cases init with
        | none =>
            have hbody := (body.gathers_events place.enter).within place rfl (by simp)
            have hrest := Stmt.gathers_eventsOfElse place rest
            refine (((test.gathers_events place).append hbody).append hrest).congr
              fun snippet => ?_
            simp [Stmt.sitesOfElse, Node.Needs, or_assoc]
        | some init => exact gathers_eventsOfElse_single rfl (Stmt.gathers_events place.enter _)
    | _ => exact gathers_eventsOfElse_single rfl (Stmt.gathers_events place.enter _)

theorem Stmt.gathers_eventsOfList (place : Place) : (stmts : List Stmt) →
    Gathers place (Stmt.eventsOfList (0 < place.loops) stmts)
      (Needed · (Stmt.sitesOfList place stmts)) (place.afterList stmts)
  | [] => Gathers.nil.congr (by simp [Stmt.sitesOfList])
  | stmt :: stmts => by
    have hstmts := Stmt.gathers_eventsOfList (place.after stmt) stmts
    rw [Place.loops_after] at hstmts
    exact ((stmt.gathers_events place).append hstmts).congr (by simp [Stmt.sitesOfList])

theorem Block.gathers_events (place : Place) : (block : Block) →
    Gathers place (block.events (0 < place.loops)) (Needed · (block.sites place))
      (place.afterList block.stmts)
  | ⟨_, stmts⟩ => Stmt.gathers_eventsOfList place stmts

end

end Script

/-- The support of an accepted script has the snippets that its nodes need. -/
theorem mem_snippets_analyse_iff {binding : Binding} {file : File}
    (hfault : (file.analyse binding).fault? = none) (snippet : Snippet) :
    snippet ∈ (file.analyse binding).state.support.snippets ↔ file.Needs snippet := by
  have hroot : (Analysis.State.initial binding).scope.frames = Place.root.frames := rfl
  have huses := (Stmt.gathers_eventsOfList .root file.stmts).uses _ hroot hfault snippet
  have hempty : snippet ∉ (Analysis.State.initial binding).support.snippets := List.not_mem_nil
  rw [Support.uses_iff_mem, Support.uses_iff_mem, or_iff_right hempty] at huses
  exact huses

/-- The text of a converted script is its body, behind the sources of just those snippets that it
needs, in a fixed order. -/
theorem toLua_eq_ok_prologue_body {options : Options} {file : File} {text : String}
    (htext : file.toLua options = .ok text) :
    let body := (file.body options.binding).render options.indent
    ∃ used : List Snippet, used.Sublist Snippet.all ∧
      (∀ snippet, snippet ∈ used ↔ file.Needs snippet) ∧
      text = if used = [] then body else String.join (used.map Snippet.source) ++ "\n" ++ body := by
  have hfault := (exists_toLua_eq_ok_iff options file).1 ⟨text, htext⟩
  refine ⟨(file.analyse options.binding).state.support.snippets,
    Analysis.run_keeps Analysis.Steps.ordered .empty _, mem_snippets_analyse_iff hfault, ?_⟩
  simp only [File.toLua, File.convert, hfault] at htext
  rw [← Except.ok.inj htext, File.render_layout, Support.isEmpty, Support.prologue]
  simp only [List.isEmpty_iff]
  split
  · rw [String.empty_append]
  · rfl

/-- The built-in `len` is read beside a function that has a parameter of the same name. -/
def twoLens : File where
  stmts :=
    [.assign {} .define [.ident { name := "f" }]
        [.func {} [{ name := "len" }]
          { stmts := [.forIn {} none { name := "_" } (.ident { name := "len" }) {}] }],
      .assign {} .add [.ident { name := "f" }] [.map {} [⟨{}, "n", .ident { name := "len" }⟩]]]

theorem toLua_twoLens :
    let options : Options := {}
    let body := (twoLens.body options.binding).render options.indent
    ∃ text, twoLens.toLua options = .ok text ∧
      ∃ used : List Snippet, used.Sublist Snippet.all ∧
        (∀ snippet, snippet ∈ used ↔ twoLens.Needs snippet) ∧
        text =
          if used = [] then body
          else String.join (used.map Snippet.source) ++ "\n" ++ body := by
  intro options body
  obtain ⟨text, htext⟩ : ∃ text, twoLens.toLua options = .ok text := ⟨_, rfl⟩
  exact ⟨text, htext, toLua_eq_ok_prologue_body htext⟩

end LuaBackend
