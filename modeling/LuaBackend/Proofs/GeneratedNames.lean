import LuaBackend.Proofs.AnalysisSteps
import LuaBackend.Proofs.FlagScope

/-!
# Names of scripts and names of the generator

The generator keeps all names that begin and end with two underscores for itself.  A script cannot
bind such a name, and a name that is not bound cannot be read or assigned, so no identifier of an
accepted script has one.

A binding is refused at once.  For names that are only looked up it is the open frames that matter:
no frame ever has a name of the generator (`Scope.Plain`), in any state that the analysis reaches.
-/

namespace LuaBackend

open Script

/-! ## Reserved names -/

namespace Names

/-- The variables and functions that generated code has besides those of the script. -/
inductive Generated : String → Prop where
  | flag (depth : Nat) : Generated (continueFlag depth)
  | iterate : Generated iterate
  | slice : Generated slice

theorem Generated.isReserved {name : String} (hname : Generated name) :
    Names.isReserved name = true := by
  cases hname with
  | flag depth => exact isReserved_continueFlag depth
  | iterate | slice => decide

theorem isReserved_iff {name : String} :
    isReserved name = true ↔
      ∃ middle : String, middle ≠ "" ∧ '\n' ∉ middle.toList ∧ name = "__" ++ middle ++ "__" := by
  constructor
  · intro hreserved
    unfold isReserved at hreserved
    split at hreserved
    · next rest hname =>
        split at hreserved
        · next middle hrest =>
            have hrest : rest = middle.reverse ++ ['_', '_'] := by
              rw [← List.reverse_reverse rest, hrest]
              simp
            obtain ⟨hne, hline⟩ : middle ≠ [] ∧ '\n' ∉ middle := by simpa using hreserved
            refine ⟨String.ofList middle.reverse, ?_, ?_, ?_⟩
            · simpa using hne
            · simpa using hline
            · simp [← String.toList_inj, hname, hrest]
        · simp at hreserved
    · simp at hreserved
  · rintro ⟨middle, hne, hline, rfl⟩
    simp [isReserved, hne, hline]

theorem continueFlag_injective : Function.Injective continueFlag := by
  intro depth depth' heq
  have hdigits : Nat.toDigits 10 depth = Nat.toDigits 10 depth' := by
    simpa [toList_continueFlag] using congrArg String.toList heq
  calc depth = Nat.ofDigitChars 10 (Nat.toDigits 10 depth) 0 := Nat.ofDigitChars_ten_toDigits.symm
    _ = Nat.ofDigitChars 10 (Nat.toDigits 10 depth') 0 := by rw [hdigits]
    _ = depth' := Nat.ofDigitChars_ten_toDigits

end Names

/-! ## Open frames -/

/-- No open frame has a name of the generator. -/
def Scope.Plain (scope : Scope) : Prop :=
  ∀ frame ∈ scope.frames, ∀ name ∈ frame.names, Names.isReserved name = false

namespace Scope.Plain

variable {scope : Scope}

theorem fork (hplain : scope.Plain) (kind : FrameKind) : (scope.fork kind).Plain := by
  intro frame hframe
  rcases List.mem_cons.1 hframe with rfl | hframe
  · exact fun name hname => absurd hname List.not_mem_nil
  · exact hplain frame hframe

theorem leave (hplain : scope.Plain) : scope.leave.Plain := by
  unfold Scope.leave
  split
  · exact hplain
  · next frame outer houter =>
      intro other hother
      apply hplain other
      rw [Scope.frames, houter]
      exact List.mem_cons_of_mem _ hother

theorem declare (hplain : scope.Plain) {name : String} (hname : Names.isReserved name = false) :
    Plain { scope with current.names := name :: scope.current.names } := by
  intro frame hframe own hown
  rcases List.mem_cons.1 hframe with rfl | hframe
  · rcases List.mem_cons.1 hown with rfl | hown
    · exact hname
    · exact hplain scope.current List.mem_cons_self own hown
  · exact hplain frame (List.mem_cons_of_mem _ hframe) own hown

theorem isReserved_of_resolve? (hplain : scope.Plain) {name : String}
    (hbound : (scope.resolve? name).isSome) : Names.isReserved name = false := by
  obtain ⟨frame, hframe, hname⟩ := (Scope.isSome_resolveIn_iff ..).1 hbound
  exact hplain frame hframe name hname

end Scope.Plain

namespace Analysis

theorem State.plain_initial (binding : Binding) : (State.initial binding).scope.Plain := by
  simp [Scope.Plain, State.initial, Scope.frames]

theorem Steps.plain {state next : State} {event : Event} (hstep : Steps state event next)
    (hplain : state.scope.Plain) : next.scope.Plain := by
  cases hstep with
  | enter => exact hplain.fork _
  | leave => exact hplain.leave
  | declare hfree => exact hplain.declare hfree
  | read => rwa [State.scope_note]
  | fresh | assign | readLen | need => exact hplain

end Analysis

/-- The state is reached after some first part of the events of the script. -/
def Script.File.Reaches (binding : Binding) (file : File) (state : Analysis.State) : Prop :=
  ∃ events, events <+: file.events ∧ (Analysis.run (.initial binding) events).state = state

/-! ## Identifiers of a script -/

namespace Script

mutual

/-- All identifiers in an expression, bound ones and others. -/
def Expr.idents : Expr → List Ident
  | .ident id => [id]
  | .int .. | .float .. | .bool .. | .str .. | .char .. | .undefined _ | .importModule .. => []
  | .paren _ expr | .unary _ _ expr | .selector _ expr _ | .error _ expr | .immutable _ expr =>
    expr.idents
  | .binary _ _ first second | .index _ first second => first.idents ++ second.idents
  | .slice _ expr low high =>
    expr.idents ++ Expr.identsOfOption low ++ Expr.identsOfOption high
  | .cond _ test whenTrue whenFalse => test.idents ++ whenTrue.idents ++ whenFalse.idents
  | .call _ callee args => callee.idents ++ Expr.identsOfList args
  | .array _ elements => Expr.identsOfList elements
  | .map _ elements => MapElement.identsOfList elements
  | .func _ params body => params ++ body.idents

def Expr.identsOfOption : Option Expr → List Ident
  | none => []
  | some expr => expr.idents

def Expr.identsOfList : List Expr → List Ident
  | [] => []
  | expr :: exprs => expr.idents ++ Expr.identsOfList exprs

def MapElement.identsOfList : List MapElement → List Ident
  | [] => []
  | ⟨_, _, value⟩ :: elements => value.idents ++ MapElement.identsOfList elements

def Stmt.idents : Stmt → List Ident
  | .expr _ expr | .incDec _ _ expr | .exportValue _ expr => expr.idents
  | .assign _ _ lhs rhs => Expr.identsOfList lhs ++ Expr.identsOfList rhs
  | .ret _ result => Expr.identsOfOption result
  | .branch .. => []
  | .block body => body.idents
  | .ifElse _ init test body rest =>
    Stmt.identsOfOption init ++ test.idents ++ body.idents ++ Stmt.identsOfOption rest
  | .loop _ init test post body =>
    Stmt.identsOfOption init ++ Expr.identsOfOption test ++ body.idents ++
      Stmt.identsOfOption post
  | .forIn _ key value iterable body =>
    iterable.idents ++ (key.toList ++ [value] ++ body.idents)

def Stmt.identsOfOption : Option Stmt → List Ident
  | none => []
  | some stmt => stmt.idents

def Stmt.identsOfList : List Stmt → List Ident
  | [] => []
  | stmt :: stmts => stmt.idents ++ Stmt.identsOfList stmts

def Block.idents : Block → List Ident
  | ⟨_, stmts⟩ => Stmt.identsOfList stmts

end

def File.idents (file : File) : List Ident := Stmt.identsOfList file.stmts

end Script

/-! ## Every identifier is checked -/

namespace Event

/-- An answer to the event says that the identifier is none of the generator; a refusal is not
answered at all. -/
def Clears (id : Ident) : Event → Prop
  | .declare own | .assign own | .read own => own = id
  | .refuse _ => True
  | _ => False

/-- Each identifier is cleared by some event, or takes no part in the script. -/
def Cover (events : List Event) (ids : List Ident) : Prop :=
  ∀ id ∈ ids, id.name = Names.discard ∨ ∃ event ∈ events, event.Clears id

namespace Cover

variable {events events' : List Event} {ids ids' : List Ident}

theorem nil : Cover events [] := by simp [Cover]

theorem mono (hcover : Cover events ids) (hsubset : events ⊆ events') : Cover events' ids :=
  fun id hid => (hcover id hid).imp_right fun ⟨event, hmem, hclears⟩ =>
    ⟨event, hsubset hmem, hclears⟩

theorem left (hcover : Cover events ids) (more : List Event) : Cover (events ++ more) ids :=
  hcover.mono (List.subset_append_left ..)

theorem right (hcover : Cover events ids) (more : List Event) : Cover (more ++ events) ids :=
  hcover.mono (List.subset_append_right ..)

theorem both (hfirst : Cover events ids) (hsecond : Cover events ids') :
    Cover events (ids ++ ids') := by
  intro id hid
  rcases List.mem_append.1 hid with hid | hid
  · exact hfirst id hid
  · exact hsecond id hid

theorem append (hfirst : Cover events ids) (hsecond : Cover events' ids') :
    Cover (events ++ events') (ids ++ ids') :=
  (hfirst.left events').both (hsecond.right events)

theorem within (hcover : Cover events ids) (kind : FrameKind) :
    Cover (Event.within kind events) ids :=
  (hcover.right [.enter kind]).left [.leave]

theorem single {event : Event} {id : Ident} (hclears : event.Clears id) : Cover [event] [id] := by
  simp [Cover, hclears]

theorem refuse (fault : Fault) : Cover [.refuse fault] ids := by simp [Cover, Clears]

theorem declareAll (ids : List Ident) : Cover (ids.map .declare) ids := by
  intro id hid
  exact .inr ⟨.declare id, List.mem_map_of_mem hid, rfl⟩

theorem loopVariables (ids : List Ident) : Cover (ids.flatMap ofLoopVariable) ids := by
  intro id hid
  by_cases hdiscard : id.name = Names.discard
  · exact .inl hdiscard
  · refine .inr ⟨.declare id, List.mem_flatMap.2 ⟨id, hid, ?_⟩, rfl⟩
    simp [ofLoopVariable, hdiscard]

end Cover

end Event

namespace Script

open Event

theorem cover_eventsOfElse_single (inLoop : Bool) {stmt : Stmt} (halone : stmt.standsAlone)
    (hstmt : Cover (stmt.events inLoop) stmt.idents) :
    Cover (Stmt.eventsOfElse inLoop (some stmt)) (Stmt.identsOfOption (some stmt)) := by
  rw [Stmt.eventsOfElse_of_standsAlone _ halone]
  exact hstmt.within .block

mutual

theorem Expr.cover_idents : (expr : Expr) → Cover expr.events expr.idents
  | .ident _ => .single rfl
  | .int .. | .float .. | .bool .. | .str .. | .undefined _ => .nil
  | .char .. | .importModule .. | .error .. | .immutable .. => .refuse _
  | .paren _ expr | .selector _ expr _ => expr.cover_idents
  | .binary _ _ lhs rhs => by
    rw [Expr.events]
    split
    · exact .refuse _
    · exact (lhs.cover_idents.append rhs.cover_idents).left _
  | .unary _ _ expr => expr.cover_idents.left _
  | .index _ expr key => expr.cover_idents.append key.cover_idents
  | .slice _ expr low high =>
    ((expr.cover_idents.append (Expr.cover_identsOfOption low)).append
      (Expr.cover_identsOfOption high)).left _
  | .cond _ test whenTrue whenFalse =>
    (test.cover_idents.append whenTrue.cover_idents).append whenFalse.cover_idents
  | .call _ callee args => callee.cover_idents.append (Expr.cover_identsOfList args)
  | .array _ elements => Expr.cover_identsOfList elements
  | .map _ elements => MapElement.cover_identsOfList elements
  | .func _ params body => ((Cover.declareAll params).append (body.cover_idents false)).within _

theorem Expr.cover_identsOfOption : (expr : Option Expr) →
    Cover (Expr.eventsOfOption expr) (Expr.identsOfOption expr)
  | none => .nil
  | some expr => expr.cover_idents

theorem Expr.cover_identsOfList : (exprs : List Expr) →
    Cover (Expr.eventsOfList exprs) (Expr.identsOfList exprs)
  | [] => .nil
  | expr :: exprs => expr.cover_idents.append (Expr.cover_identsOfList exprs)

theorem MapElement.cover_identsOfList : (elements : List MapElement) →
    Cover (MapElement.eventsOfList elements) (MapElement.identsOfList elements)
  | [] => .nil
  | ⟨_, _, value⟩ :: elements => value.cover_idents.append (MapElement.cover_identsOfList elements)

theorem Stmt.cover_idents (inLoop : Bool) : (stmt : Stmt) → Cover (stmt.events inLoop) stmt.idents
  | .expr _ expr => expr.cover_idents
  | .incDec _ _ target => target.cover_idents.right [_]
  | .assign pos op [target] [value] => by
    have hvalue := value.cover_idents
    simp only [Stmt.events, Stmt.idents, Expr.identsOfList, List.append_nil]
    split
    · by_cases htarget : ∃ id, target = .ident id
      · obtain ⟨id, rfl⟩ := htarget
        have hid : Cover [.declare id] [id] := .single rfl
        rw [Event.ofDefinition]
        split
        · exact hid.append hvalue
        · -- The name is bound behind the value, while it stands before it in the script.
          exact (hid.right _).both ((hvalue.right [_]).left _)
      · obtain ⟨fault, hrefuse⟩ := Analysis.ofDefinition_eq_refuse (not_exists.1 htarget) pos value
          value.events
        rw [hrefuse]
        exact .refuse fault
    · rw [Event.ofAssignment]
      split
      · exact .refuse _
      · exact ((target.cover_idents.append hvalue).right [_]).left _
  | .assign _ _ [] _ | .assign _ _ (_ :: _ :: _) _ | .assign _ _ [_] []
  | .assign _ _ [_] (_ :: _ :: _) => .refuse _
  | .ret _ result => Expr.cover_identsOfOption result
  | .branch .. => .nil
  | .block body => (body.cover_idents inLoop).within _
  | .ifElse _ init test body rest =>
    ((((Stmt.cover_identsOfOption inLoop init).append test.cover_idents).append
      ((body.cover_idents inLoop).within _)).append (Stmt.cover_identsOfElse inLoop rest)).within _
  | .loop _ init test post body =>
    ((((Stmt.cover_identsOfOption inLoop init).append (Expr.cover_identsOfOption test)).append
      ((body.cover_idents true).within _)).append (Stmt.cover_identsOfOption true post)).within _
  | .forIn _ key value iterable body => by
    have hvariables := (Cover.loopVariables key.toList).append (Cover.loopVariables [value])
    have hbody := (body.cover_idents true).within .block
    rw [List.flatMap_singleton] at hvariables
    exact (iterable.cover_idents.left _).append ((hvariables.append hbody).within _)
  | .exportValue .. => .refuse _

theorem Stmt.cover_identsOfOption (inLoop : Bool) : (stmt : Option Stmt) →
    Cover (Stmt.eventsOfOption inLoop stmt) (Stmt.identsOfOption stmt)
  | none => .nil
  | some stmt => stmt.cover_idents inLoop

theorem Stmt.cover_identsOfElse (inLoop : Bool) : (rest : Option Stmt) →
    Cover (Stmt.eventsOfElse inLoop rest) (Stmt.identsOfOption rest)
  | none => .nil
  | some stmt => by
    cases stmt with
    | block body => exact (body.cover_idents inLoop).within .block
    | ifElse pos init test body rest =>
        cases init with
        | none =>
            exact (test.cover_idents.append ((body.cover_idents inLoop).within .block)).append
              (Stmt.cover_identsOfElse inLoop rest)
        | some init => exact cover_eventsOfElse_single inLoop rfl (Stmt.cover_idents inLoop _)
    | _ => exact cover_eventsOfElse_single inLoop rfl (Stmt.cover_idents inLoop _)

theorem Stmt.cover_identsOfList (inLoop : Bool) : (stmts : List Stmt) →
    Cover (Stmt.eventsOfList inLoop stmts) (Stmt.identsOfList stmts)
  | [] => .nil
  | stmt :: stmts => (stmt.cover_idents inLoop).append (Stmt.cover_identsOfList inLoop stmts)

theorem Block.cover_idents (inLoop : Bool) : (block : Block) →
    Cover (block.events inLoop) block.idents
  | ⟨_, stmts⟩ => Stmt.cover_identsOfList inLoop stmts

end

end Script

/-- Answering an event clears an identifier if the open frames are plain. -/
theorem Analysis.Steps.isReserved_eq_false {state next : State} {event : Event} {id : Ident}
    (hstep : Steps state event next) (hplain : state.scope.Plain) (hclears : event.Clears id) :
    Names.isReserved id.name = false := by
  cases hstep with
  | declare hfree =>
      obtain rfl : _ = id := hclears
      exact hfree
  | assign hbound =>
      obtain rfl : _ = id := hclears
      exact hplain.isReserved_of_resolve? hbound
  | read hbound =>
      obtain rfl : _ = id := hclears
      exact hplain.isReserved_of_resolve? (by simp [hbound])
  | readLen hunbound hlen =>
      obtain rfl : _ = id := hclears
      rw [hlen]
      decide
  | enter | leave | fresh | need => exact hclears.elim

theorem isReserved_of_mem_idents {binding : Binding} {file : File}
    (hpass : (file.analyse binding).fault? = none) {id : Ident} (hid : id ∈ file.idents) :
    Names.isReserved id.name = false := by
  rcases Stmt.cover_identsOfList false file.stmts id hid with hdiscard | ⟨event, hmem, hclears⟩
  · rw [hdiscard]
    decide
  · obtain ⟨before, after, hplain, hstep⟩ :=
      Analysis.exists_steps_of_mem Analysis.Steps.plain (Analysis.State.plain_initial binding)
        hpass hmem
    exact hstep.isReserved_eq_false hplain hclears

theorem Script.File.Reaches.plain {binding : Binding} {file : File} {state : Analysis.State}
    (hreaches : file.Reaches binding state) : state.scope.Plain := by
  obtain ⟨events, -, rfl⟩ := hreaches
  exact Analysis.run_keeps Analysis.Steps.plain (Analysis.State.plain_initial binding) events

/-- The names of the generator and those of a script keep apart.  An accepted script has no reserved
identifier, no open frame ever has one, and all names of the generator are reserved and differ. -/
theorem generated_names_apart (options : Options) (file : File) :
    (∀ text, file.toLua options = .ok text → ∀ id ∈ file.idents,
      Names.isReserved id.name = false) ∧
    (∀ state, file.Reaches options.binding state → ∀ frame ∈ state.scope.frames,
      ∀ name ∈ frame.names, Names.isReserved name = false) ∧
    (∀ name, Names.Generated name → Names.isReserved name = true) ∧
    Function.Injective Names.continueFlag ∧
    (∀ depth, Names.continueFlag depth ≠ Names.iterate ∧
      Names.continueFlag depth ≠ Names.slice) ∧
    ∀ name, Names.isReserved name = true ↔
      ∃ middle : String, middle ≠ "" ∧ '\n' ∉ middle.toList ∧ name = "__" ++ middle ++ "__" := by
  refine ⟨?_, fun state hreaches => hreaches.plain, fun name hname => hname.isReserved,
    Names.continueFlag_injective, ?_, fun name => Names.isReserved_iff⟩
  · intro text htext id hid
    exact isReserved_of_mem_idents ((exists_toLua_eq_ok_iff options file).1 ⟨text, htext⟩) hid
  · intro depth
    have hflag : Names.IsFlag (Names.continueFlag depth) := ⟨depth, rfl⟩
    exact ⟨hflag.iterate_ne.symm, hflag.slice_ne.symm⟩

/-- Names with many underscores, none of them reserved: four have nothing between them. -/
def underscores : File where
  stmts :=
    [.assign {} .define [.ident { name := "____" }] [.map {} []],
      .forIn {} (some { name := "_" }) { name := "__cont_1_" } (.ident { name := "____" })
        { stmts :=
            [.assign {} .assign [.selector {} (.ident { name := "____" }) "__iter__"]
                [.func {} [{ name := "_iter__" }]
                  { stmts := [.ret {} (some (.ident { name := "_iter__" }))] }],
              .branch {} .continue] }]

theorem generated_names_apart_underscores :
    ∃ text, underscores.toLua {} = .ok text ∧
      ∀ id ∈ underscores.idents, Names.isReserved id.name = false := by
  obtain ⟨text, htext⟩ : ∃ text, underscores.toLua {} = .ok text := ⟨_, rfl⟩
  exact ⟨text, htext, (generated_names_apart {} underscores).1 text htext⟩

end LuaBackend
