import LuaBackend.Proofs.AnalysisSteps
import LuaBackend.Proofs.PrintedText
import Mathlib.Data.List.Forall2

/-!
# What functions capture

The log of a conversion names the identifiers that a function reads from outside of it.  Here the
same list is read off the tree: `File.occurrences` has every occurrence of an identifier with the
frames around it, and an occurrence is captured if its name is bound in none of the frames of the
innermost function around it but in a frame further out.

`Analysis.Records` carries the proof along the tree.  It adds to `Analysis.Runs` which identifiers
are visited and which captured names a run that passes leaves behind.
-/

namespace LuaBackend

open Script

/-! ## Captured occurrences -/

/-- The frames up to that of the innermost function.  The root frame ends a function too: the
script itself. -/
def functionFrames : List Frame → List Frame
  | [] => []
  | frame :: outer => frame :: if frame.kind = .function then [] else functionFrames outer

namespace Occurrence

/-- The name is bound, but not in the innermost function around. -/
def IsCaptured (occurrence : Occurrence) : Prop :=
  (∃ frame ∈ occurrence.frames, occurrence.id.name ∈ frame.names) ∧
    ∀ frame ∈ functionFrames occurrence.frames, occurrence.id.name ∉ frame.names

instance (occurrence : Occurrence) : Decidable occurrence.IsCaptured :=
  inferInstanceAs (Decidable (_ ∧ _))

end Occurrence

/-- The captured name is that of the occurrence, and the frame that is named is the innermost one
to bind it.  Frames are counted from the root frame, which is frame 0. -/
structure Capture.Describes (capture : Capture) (occurrence : Occurrence) : Prop where
  name : capture.name = occurrence.id.name
  distance : 1 ≤ capture.distance
  count : capture.frame + capture.distance + 1 = occurrence.frames.length
  bound : ∃ frame, occurrence.frames.reverse[capture.frame]? = some frame ∧
    occurrence.id.name ∈ frame.names
  innermost : ∀ frame ∈ occurrence.frames.take capture.distance, occurrence.id.name ∉ frame.names

/-- The entry is about the capture of the occurrence. -/
def LogEntry.Reports (entry : LogEntry) (occurrence : Occurrence) : Prop :=
  ∃ capture : Capture, entry = .capture capture ∧ capture.Describes occurrence

/-! ## Looking a captured name up -/

namespace Scope

/-- A look-up that leaves the innermost function is one of a captured name. -/
theorem captured_eq_true_iff {rootBinding : Binding} {name : String} {frames : List Frame}
    {found : Resolution} (hfound : resolveIn rootBinding name frames = some found) :
    found.captured = true ↔ ∀ frame ∈ functionFrames frames, name ∉ frame.names := by
  induction frames generalizing found with
  | nil => cases hfound
  | cons frame outer ih =>
      rw [resolveIn] at hfound
      rw [functionFrames, List.forall_mem_cons]
      split at hfound
      · next hhere =>
          obtain rfl := Option.some.inj hfound
          have hname : name ∈ frame.names := List.contains_iff_mem.1 hhere
          simp [hname]
      · next hhere =>
          have hname : name ∉ frame.names := fun hmem => hhere (List.contains_iff_mem.2 hmem)
          obtain ⟨further, hfurther, rfl⟩ := Option.map_eq_some_iff.1 hfound
          by_cases hkind : frame.kind = .function
          · simp [hname, hkind]
          · simp [hname, hkind, ih hfurther]

/-- A name is found in the innermost frame that binds it. -/
theorem exists_eq_append_of_resolveIn {rootBinding : Binding} {name : String} {frames : List Frame}
    {found : Resolution} (hfound : resolveIn rootBinding name frames = some found) :
    found.symbol.name = name ∧
      ∃ inner frame outer, frames = inner ++ frame :: outer ∧ name ∈ frame.names ∧
        (∀ other ∈ inner, name ∉ other.names) ∧
        found.symbol.depth = outer.length ∧ found.distance = inner.length := by
  induction frames generalizing found with
  | nil => cases hfound
  | cons frame outer ih =>
      rw [resolveIn] at hfound
      split at hfound
      · next hhere =>
          obtain rfl := Option.some.inj hfound
          exact ⟨rfl, [], frame, outer, rfl, List.contains_iff_mem.1 hhere, by simp, rfl, rfl⟩
      · next hhere =>
          obtain ⟨further, hfurther, rfl⟩ := Option.map_eq_some_iff.1 hfound
          obtain ⟨hname, inner, target, around, rfl, htarget, hinner, hdepth, hdistance⟩ :=
            ih hfurther
          refine ⟨hname, frame :: inner, target, around, rfl, htarget, ?_, hdepth,
            congrArg (· + 1) hdistance⟩
          exact List.forall_mem_cons.2
            ⟨fun hmem => hhere (List.contains_iff_mem.2 hmem), hinner⟩

theorem describes_of_captured {rootBinding : Binding} {id : Ident} {frames : List Frame}
    {found : Resolution} (hfound : resolveIn rootBinding id.name frames = some found)
    (hcaptured : found.captured = true) :
    Capture.Describes ⟨found.symbol.name, found.symbol.depth, found.distance⟩ ⟨frames, id⟩ := by
  obtain ⟨hname, inner, frame, outer, rfl, hbound, hinner, hdepth, hdistance⟩ :=
    exists_eq_append_of_resolveIn hfound
  -- A name that is bound in the innermost frame is not captured.
  have houtside : inner ≠ [] := by
    rintro rfl
    refine (captured_eq_true_iff hfound).1 hcaptured frame ?_ hbound
    rw [List.nil_append, functionFrames]
    exact List.mem_cons_self
  have hlength : 0 < inner.length := List.length_pos_iff.2 houtside
  refine ⟨hname, ?_, ?_, ⟨frame, ?_, hbound⟩, ?_⟩
  · change 1 ≤ found.distance
    omega
  · change found.symbol.depth + found.distance + 1 = (inner ++ frame :: outer).length
    rw [List.length_append, List.length_cons]
    omega
  · change (inner ++ frame :: outer).reverse[found.symbol.depth]? = some frame
    rw [hdepth]
    simp
  · change ∀ other ∈ (inner ++ frame :: outer).take found.distance, id.name ∉ other.names
    rw [hdistance, List.take_left]
    exact hinner

end Scope

/-! ## Recording along a run -/

/-- The identifier that is looked up. -/
def Event.read? : Event → Option Ident
  | .read id => some id
  | _ => none

namespace Analysis

/-- The events run from `before` to `after` and visit the identifiers of `seen`, and a run that
passes notes just the captured ones among them. -/
structure Records (before : Place) (events : List Event) (seen : List Occurrence) (after : Place) :
    Prop where
  runs : ∃ ok, Runs before events ok after
  reads : (∀ fault, .refuse fault ∉ events) →
    events.filterMap Event.read? = seen.map Occurrence.id
  captures : ∀ state : State, state.scope.frames = before.frames →
    (run state events).fault? = none →
      ∃ entries, (run state events).state.captures = state.captures ++ entries ∧
        List.Forall₂ Capture.Describes entries (seen.filter (·.IsCaptured))

namespace Records

variable {before middle after : Place} {events first second : List Event}
  {seen seen' : List Occurrence} {ok : Prop}

theorem congr (hevents : Records before events seen after) (hseen : seen = seen') :
    Records before events seen' after :=
  hseen ▸ hevents

theorem frames_congr (hevents : Records middle events seen after)
    (hframes : before.frames = middle.frames) : Records before events seen after where
  runs := hevents.runs.imp fun _ hruns => hruns.frames_congr hframes
  reads := hevents.reads
  captures state hstate := hevents.captures state (hstate.trans hframes)

theorem nil : Records before [] [] before where
  runs := ⟨True, Runs.nil⟩
  reads _ := rfl
  captures _ _ _ := ⟨[], (List.append_nil _).symm, .nil⟩

theorem append (hfirst : Records before first seen middle)
    (hsecond : Records middle second seen' after) :
    Records before (first ++ second) (seen ++ seen') after := by
  obtain ⟨ok, hruns⟩ := hfirst.runs
  obtain ⟨ok', hruns'⟩ := hsecond.runs
  refine ⟨⟨_, hruns.append hruns'⟩, fun hpasses => ?_, fun state hframes hpass => ?_⟩
  · rw [List.filterMap_append, List.map_append,
      hfirst.reads fun fault hmem => hpasses fault (List.mem_append_left _ hmem),
      hsecond.reads fun fault hmem => hpasses fault (List.mem_append_right _ hmem)]
  · rw [run_append] at hpass ⊢
    split_ifs at hpass ⊢ with hnone
    · obtain ⟨entries, hentries, hdescribe⟩ := hfirst.captures state hframes hnone
      obtain ⟨entries', hentries', hdescribe'⟩ :=
        hsecond.captures _ ((hruns state hframes).2 hnone) hpass
      refine ⟨entries ++ entries', ?_, ?_⟩
      · rw [hentries', hentries, List.append_assoc]
      · rw [List.filter_append]
        exact List.rel_append hdescribe hdescribe'
    · exact absurd hpass hnone

theorem cons {event : Event} (hevent : Records before [event] seen middle)
    (hevents : Records middle events seen' after) :
    Records before (event :: events) (seen ++ seen') after :=
  hevent.append hevents

/-- A run that is refused does not pass, so nothing has to be shown of what it visits. -/
theorem refuse (fault : Fault) : Records before [.refuse fault] seen after where
  runs := ⟨False, Runs.refuse fault⟩
  reads hpasses := absurd List.mem_cons_self (hpasses fault)
  captures _ _ hpass := by cases hpass

theorem refuseIf (p : Prop) [Decidable p] (fault : Fault) :
    Records before (if p then [.refuse fault] else []) [] before := by
  split
  · exact refuse fault
  · exact nil

/-- An event that looks nothing up leaves the captured names as they are. -/
theorem silent {event : Event} (hruns : Runs before [event] ok after)
    (hread : event.read? = none) : Records before [event] [] after := by
  refine ⟨⟨ok, hruns⟩, fun _ => List.filterMap_cons_none hread, fun state _ hpass => ?_⟩
  refine ⟨[], ?_, .nil⟩
  rw [List.append_nil]
  simp only [run] at hpass ⊢
  cases hstep : state.step event with
  | error fault => simp [hstep] at hpass
  | ok next =>
      cases steps_of_step_eq_ok hstep with
      | read | readLen => cases hread
      | _ => rfl

theorem need (snippet : Snippet) : Records before [.need snippet] [] before :=
  silent (Runs.need snippet) rfl

theorem needIf (p : Prop) [Decidable p] (snippet : Snippet) :
    Records before (if p then [.need snippet] else []) [] before := by
  split
  · exact need snippet
  · exact nil

theorem fresh (id : Ident) : Records before [.fresh id] [] before := silent (Runs.fresh id) rfl

theorem declare (id : Ident) : Records before [.declare id] [] (before.bind id) :=
  silent (Runs.declare id) rfl

theorem declareAll (before : Place) (ids : List Ident) :
    Records before (ids.map .declare) [] (before.bindAll ids) := by
  induction ids generalizing before with
  | nil => exact nil
  | cons id ids ih => exact (declare id).cons (ih _)

theorem target (pos : Pos) (target : Expr) :
    Records before [Event.ofTarget pos target] [] before := by
  apply silent (Runs.target pos target)
  unfold Event.ofTarget
  split <;> rfl

/-- An identifier is looked up once, and noted if the look-up leaves the innermost function. -/
theorem read (id : Ident) : Records before [.read id] [⟨before.frames, id⟩] before := by
  refine ⟨⟨_, Runs.read id⟩, fun _ => rfl, fun state hframes hpass => ?_⟩
  simp only [run] at hpass ⊢
  cases hstep : state.step (.read id) with
  | error fault => simp [hstep] at hpass
  | ok next =>
      dsimp only
      cases steps_of_step_eq_ok hstep with
      | @read _ found hbound =>
          have hfound : Scope.resolveIn state.scope.rootBinding id.name before.frames =
              some found := by
            rw [← hframes]
            exact hbound
          have hbinds : ∃ frame ∈ before.frames, id.name ∈ frame.names :=
            (Scope.isSome_resolveIn_iff ..).1 (Option.isSome_iff_exists.2 ⟨found, hfound⟩)
          have hcaptured : found.captured = true ↔
              (⟨before.frames, id⟩ : Occurrence).IsCaptured := by
            rw [Scope.captured_eq_true_iff hfound]
            exact (and_iff_right hbinds).symm
          unfold State.note
          split
          · next htrue =>
              refine ⟨[_], rfl, ?_⟩
              rw [List.filter_cons_of_pos (by simpa using hcaptured.1 htrue)]
              exact .cons (Scope.describes_of_captured hfound htrue) .nil
          · next hfalse =>
              refine ⟨[], (List.append_nil _).symm, ?_⟩
              rw [List.filter_cons_of_neg (by simpa [← hcaptured] using hfalse)]
              exact .nil
      | readLen hunbound hlen =>
          have hfree : ¬ (⟨before.frames, id⟩ : Occurrence).IsCaptured := fun hcaptured => by
            have hsome := (Scope.isSome_resolveIn_iff state.scope.rootBinding id.name _).2
              hcaptured.1
            rw [← hframes] at hsome
            exact absurd hunbound (Option.isSome_iff_ne_none.1 hsome)
          refine ⟨[], (List.append_nil _).symm, ?_⟩
          rw [List.filter_cons_of_neg (by simpa using hfree)]
          exact .nil

theorem within (before : Place) {kind : FrameKind} {inner : Place}
    (hevents : Records inner events seen after)
    (hinner : inner.frames = { kind } :: before.frames)
    (hafter : after.frames.tail = inner.frames.tail) :
    Records before (Event.within kind events) seen before := by
  obtain ⟨ok, hruns⟩ := hevents.runs
  refine ⟨⟨ok, hruns.within before hinner hafter⟩, fun hpasses => ?_, fun state hframes hpass => ?_⟩
  · have hreads := hevents.reads fun fault hmem =>
      hpasses fault (List.mem_append_left _ (List.mem_cons_of_mem _ hmem))
    rw [← hreads, Event.within, List.filterMap_append]
    exact List.append_nil _
  · have hopen : ({ state with scope := state.scope.fork kind } : State).scope.frames =
        inner.frames := by
      simp [Scope.fork, Scope.frames, hinner, ← hframes]
    simp only [Event.within, List.cons_append, run, State.step, run_append] at hpass ⊢
    split_ifs at hpass ⊢ with hnone
    · exact hevents.captures _ hopen hnone
    · exact absurd hpass hnone

end Records

end Analysis

/-! ## Every tree -/

namespace Script

open Analysis

theorem records_eventsOfElse_single {place : Place} {stmt : Stmt} (halone : stmt.standsAlone)
    (hstmt : Records place.enter (stmt.events (0 < place.loops))
      (occurrencesOf (stmt.sites place.enter)) (place.enter.after stmt)) :
    Records place (Stmt.eventsOfElse (0 < place.loops) (some stmt))
      (occurrencesOf (Stmt.sitesOfElse place (some stmt))) place := by
  rw [Stmt.eventsOfElse_of_standsAlone _ halone, Stmt.sitesOfElse_of_standsAlone _ halone]
  exact hstmt.within place rfl (by simp)

mutual

theorem Expr.records_events (place : Place) : (expr : Expr) →
    Records place expr.events (occurrencesOf (expr.sites place)) place
  | .ident id => .read id
  | .int .. | .float .. | .bool .. | .str .. | .undefined _ => .nil
  | .char .. | .importModule .. | .error .. | .immutable .. => .refuse _
  | .paren _ expr | .selector _ expr _ => expr.records_events place
  | .binary pos op lhs rhs => by
    rw [Expr.events]
    split
    · exact .refuse _
    · refine (((lhs.records_events place).append (rhs.records_events place)).append
        (.needIf _ _)).congr ?_
      rw [List.append_nil, ← occurrencesOf_append]
      rfl
  | .unary _ _ expr =>
    ((expr.records_events place).append (.refuseIf _ _)).congr (List.append_nil _)
  | .index _ expr key =>
    ((expr.records_events place).append (key.records_events place)).congr
      (occurrencesOf_append ..).symm
  | .slice _ expr low high => by
    refine ((((expr.records_events place).append (Expr.records_eventsOfOption place low)).append
      (Expr.records_eventsOfOption place high)).append (.need _)).congr ?_
    rw [List.append_nil, ← occurrencesOf_append, ← occurrencesOf_append]
    rfl
  | .cond _ test whenTrue whenFalse => by
    refine (((test.records_events place).append (whenTrue.records_events place)).append
      (whenFalse.records_events place)).congr ?_
    rw [← occurrencesOf_append, ← occurrencesOf_append]
    rfl
  | .call _ callee args =>
    ((callee.records_events place).append (Expr.records_eventsOfList place args)).congr
      (occurrencesOf_append ..).symm
  | .array _ elements => Expr.records_eventsOfList place elements
  | .map _ elements => MapElement.records_eventsOfList place elements
  | .func pos params body => by
    have hbody := body.records_events (place.enterFunction.bindAll params)
    simp only [Place.loops_bindAll, Place.loops_enterFunction, Nat.lt_irrefl, decide_false] at hbody
    refine (((Records.declareAll place.enterFunction params).append hbody).within place
      rfl (by simp)).congr ?_
    rw [Expr.sites, occurrencesOf_cons_of_none rfl, occurrencesOf_append, occurrencesOf_binders]

theorem Expr.records_eventsOfOption (place : Place) : (expr : Option Expr) →
    Records place (Expr.eventsOfOption expr) (occurrencesOf (Expr.sitesOfOption place expr)) place
  | none => .nil
  | some expr => expr.records_events place

theorem Expr.records_eventsOfList (place : Place) : (exprs : List Expr) →
    Records place (Expr.eventsOfList exprs) (occurrencesOf (Expr.sitesOfList place exprs)) place
  | [] => .nil
  | expr :: exprs =>
    ((expr.records_events place).append (Expr.records_eventsOfList place exprs)).congr
      (occurrencesOf_append ..).symm

theorem MapElement.records_eventsOfList (place : Place) : (elements : List MapElement) →
    Records place (MapElement.eventsOfList elements)
      (occurrencesOf (MapElement.sitesOfList place elements)) place
  | [] => .nil
  | ⟨_, _, value⟩ :: elements =>
    ((value.records_events place).append (MapElement.records_eventsOfList place elements)).congr
      (occurrencesOf_append ..).symm

theorem Stmt.records_events (place : Place) : (stmt : Stmt) →
    Records place (stmt.events (0 < place.loops)) (occurrencesOf (stmt.sites place))
      (place.after stmt)
  | .expr _ expr => expr.records_events place
  | .incDec pos _ target => (Records.target pos target).cons (target.records_events place)
  | .assign pos op [target] [value] => by
    rw [Stmt.events]
    by_cases hop : op = .define
    · subst hop
      rw [if_pos rfl]
      by_cases htarget : ∃ id, target = .ident id
      · obtain ⟨id, rfl⟩ := htarget
        rw [Event.ofDefinition]
        cases hvalue : value.isFunction with
        | true =>
            refine ((Records.declare id).cons (value.records_events (place.bind id))).congr ?_
            simp [Stmt.sites, Expr.sitesOfDefined, Expr.sitesOfList, Place.after, Stmt.binder?,
              hvalue]
        | false =>
            refine (((Records.fresh id).cons (value.records_events place)).append
              (.declare id)).congr ?_
            simp [Stmt.sites, Expr.sitesOfDefined, Expr.sitesOfList, hvalue]
      · obtain ⟨fault, hrefuse⟩ := ofDefinition_eq_refuse (not_exists.1 htarget)
          pos value value.events
        rw [hrefuse]
        exact .refuse fault
    · have hafter : place.after (.assign pos op [target] [value]) = place := by
        simp [Place.after, Stmt.binder?, hop]
      rw [if_neg hop, Event.ofAssignment, hafter]
      split
      · exact .refuse _
      · -- Also a target that is read and then written counts once.
        refine (((Records.target pos target).cons ((target.records_events place).append
          (value.records_events place))).append (.needIf _ _)).congr ?_
        simp [Stmt.sites, Expr.sitesOfList, hop, hafter]
  | .assign pos op [] _ | .assign pos op (_ :: _ :: _) _ | .assign pos op [_] []
  | .assign pos op [_] (_ :: _ :: _) => .refuse _
  | .ret _ result => Expr.records_eventsOfOption place result
  | .branch pos op => by
    rw [Stmt.events]
    split
    · exact .nil
    · exact .refuse _
  | .block body => (body.records_events place.enter).within place rfl (by simp)
  | .ifElse _ init test body rest => by
    let inner := place.enter.afterOption init
    have hinit := Stmt.records_eventsOfOption place.enter init
    have hbody := (body.records_events inner.enter).within inner rfl (by simp)
    have hrest := Stmt.records_eventsOfElse inner rest
    simp only [inner, Place.loops_enter, Place.loops_afterOption] at hinit hbody hrest
    refine ((((hinit.append (test.records_events inner)).append hbody).append hrest).within place
      rfl (by simp)).congr ?_
    simp [Stmt.sites, inner]
  | .loop _ init test post body => by
    let inner := place.enter.afterOption init
    have hinit := Stmt.records_eventsOfOption place.enter init
    have htest := Expr.records_eventsOfOption inner test
    have hbody := (body.records_events inner.enterLoop.enter).within inner rfl (by simp)
    have hpost := Stmt.records_eventsOfOption inner.enterLoop post
    simp only [inner, Place.loops_enter, Place.loops_afterOption, Place.loops_enterLoop,
      Nat.succ_pos, decide_true] at hinit hbody hpost
    refine ((((hinit.append htest).append hbody).append (hpost.frames_congr rfl)).within
      place rfl (by simp)).congr ?_
    simp [Stmt.sites, inner]
  | .forIn _ key value iterable body => by
    let inner := place.enter.bindAll (loopBinders key value)
    have hvariables := Records.declareAll place.enter (loopBinders key value)
    have hbody := (body.records_events inner.enterLoop.enter).within inner rfl (by simp)
    simp only [inner, Place.loops_enter, Place.loops_bindAll, Place.loops_enterLoop,
      Nat.succ_pos, decide_true] at hbody
    rw [Stmt.events, map_declare_loopBinders]
    refine (((iterable.records_events place).append (.need _)).append
      ((hvariables.append hbody).within place rfl (by simp))).congr ?_
    simp [Stmt.sites]
  | .exportValue .. => .refuse _

theorem Stmt.records_eventsOfOption (place : Place) : (stmt : Option Stmt) →
    Records place (Stmt.eventsOfOption (0 < place.loops) stmt)
      (occurrencesOf (Stmt.sitesOfOption place stmt)) (place.afterOption stmt)
  | none => .nil
  | some stmt => stmt.records_events place

theorem Stmt.records_eventsOfElse (place : Place) : (rest : Option Stmt) →
    Records place (Stmt.eventsOfElse (0 < place.loops) rest)
      (occurrencesOf (Stmt.sitesOfElse place rest)) place
  | none => .nil
  | some stmt => by
    cases stmt with
    | block body => exact (body.records_events place.enter).within place rfl (by simp)
    | ifElse pos init test body rest =>
        cases init with
        | none =>
            have hbody := (body.records_events place.enter).within place rfl (by simp)
            have hrest := Stmt.records_eventsOfElse place rest
            refine (((test.records_events place).append hbody).append hrest).congr ?_
            simp [Stmt.sitesOfElse]
        | some init => exact records_eventsOfElse_single rfl (Stmt.records_events place.enter _)
    | _ => exact records_eventsOfElse_single rfl (Stmt.records_events place.enter _)

theorem Stmt.records_eventsOfList (place : Place) : (stmts : List Stmt) →
    Records place (Stmt.eventsOfList (0 < place.loops) stmts)
      (occurrencesOf (Stmt.sitesOfList place stmts)) (place.afterList stmts)
  | [] => .nil
  | stmt :: stmts => by
    have hstmts := Stmt.records_eventsOfList (place.after stmt) stmts
    rw [Place.loops_after] at hstmts
    exact ((stmt.records_events place).append hstmts).congr (occurrencesOf_append ..).symm

theorem Block.records_events (place : Place) : (block : Block) →
    Records place (block.events (0 < place.loops)) (occurrencesOf (block.sites place))
      (place.afterList block.stmts)
  | ⟨_, stmts⟩ => Stmt.records_eventsOfList place stmts

end

end Script

/-! ## The log -/

/-- A run that passes has no event that stands for a fault. -/
theorem Analysis.refuse_notMem {state : State} {events : List Event}
    (hpass : (run state events).fault? = none) (fault : Fault) : .refuse fault ∉ events := by
  intro hmem
  have hkeeps : ∀ {state next : State} {event : Event}, Steps state event next → True → True :=
    fun _ _ => trivial
  obtain ⟨before, after, -, hstep⟩ := exists_steps_of_mem hkeeps trivial hpass hmem
  cases hstep

/-- Around an identifier outside all function literals, the frames are those of the script. -/
theorem functionFrames_eq_self {frames : List Frame}
    (hblocks : ∀ frame ∈ frames.dropLast, frame.kind = .block) : functionFrames frames = frames := by
  induction frames with
  | nil => rfl
  | cons frame outer ih =>
      rw [functionFrames]
      cases outer with
      | nil => simp [functionFrames]
      | cons next rest =>
          rw [List.dropLast_cons_cons, List.forall_mem_cons] at hblocks
          rw [ih hblocks.2, if_neg (by simp [hblocks.1])]

/-- The trace of a conversion has one entry for each captured identifier, in the order in which the
identifiers are looked up, and nothing else.  The last frame is the root frame, so an identifier
with only blocks before it stands outside of all function literals. -/
theorem traces_describe_captures {options : Options} {file : File} {text : String}
    (htext : file.toLua options = .ok text) :
    file.events.filterMap Event.read? = file.occurrences.map Occurrence.id ∧
      List.Forall₂ LogEntry.Reports (file.convert options).traces
        (file.occurrences.filter (·.IsCaptured)) ∧
      ∀ occurrence ∈ file.occurrences,
        ((∀ frame ∈ occurrence.frames.dropLast, frame.kind = .block) ∨
          ∀ frame ∈ occurrence.frames, occurrence.id.name ∉ frame.names) →
          ¬ occurrence.IsCaptured := by
  have hpass := (exists_toLua_eq_ok_iff options file).1 ⟨text, htext⟩
  have hrecords := Stmt.records_eventsOfList .root file.stmts
  refine ⟨hrecords.reads (Analysis.refuse_notMem hpass), ?_, ?_⟩
  · obtain ⟨entries, hentries, hdescribe⟩ :=
      hrecords.captures (.initial options.binding) rfl hpass
    have hcaptures : (file.analyse options.binding).state.captures = entries := hentries
    rw [File.traces_convert, hcaptures, List.forall₂_map_left_iff]
    exact hdescribe.imp fun capture occurrence h => ⟨capture, rfl, h⟩
  · rintro occurrence - houtside ⟨⟨frame, hframe, hname⟩, hfree⟩
    rcases houtside with hblocks | hunbound
    · rw [functionFrames_eq_self hblocks] at hfree
      exact hfree frame hframe hname
    · exact hunbound frame hframe hname

/-- `total := 0` and `adder := func(step) { total += step; return func() { step++; return
len(total) } }`. -/
def nestedAdder : File where
  stmts :=
    [.assign {} .define [.ident { name := "total" }] [.int {} "0"],
      .assign {} .define [.ident { name := "adder" }]
        [.func {} [{ name := "step" }] ⟨{},
          [.assign {} .add [.ident { name := "total" }] [.ident { name := "step" }],
            .ret {} (some (.func {} [] ⟨{},
              [.incDec {} .inc (.ident { name := "step" }),
                .ret {} (some (.call {} (.ident { name := "len" })
                  [.ident { name := "total" }]))]⟩))]⟩]]

theorem traces_nestedAdder :
    let log : List LogEntry :=
      [.capture ⟨"total", 0, 1⟩, .capture ⟨"step", 1, 1⟩, .capture ⟨"total", 0, 2⟩]
    (∃ text, nestedAdder.toLua {} = .ok text) ∧ (nestedAdder.convert {}).traces = log ∧
      List.Forall₂ LogEntry.Reports log (nestedAdder.occurrences.filter (·.IsCaptured)) := by
  intro log
  obtain ⟨text, htext⟩ : ∃ text, nestedAdder.toLua {} = .ok text := ⟨_, rfl⟩
  have htraces : (nestedAdder.convert {}).traces = log := by
    rw [File.traces_convert]
    rfl
  obtain ⟨-, hreports, -⟩ := traces_describe_captures htext
  rw [htraces] at hreports
  exact ⟨⟨text, htext⟩, htraces, hreports⟩

end LuaBackend
