import LuaBackend.Proofs.LocalDefinitions
import LuaBackend.Proofs.PrintedText

/-!
# Local and global names at the top of a script

A script is converted with its own names as locals or as globals.  The two conversions are compared
here: the analysis takes the same steps (`Analysis.run_rebind`), so they agree about faults, support
code and captured names, and their texts differ in the definitions at the top of the script alone.
Definitions further inside are written as locals both times.
-/

namespace LuaBackend

open Script

/-! ## The analysis -/

/-- How names of the root frame are emitted shows in nothing else that a look-up tells. -/
theorem Scope.resolveIn_rebind (binding other : Binding) (name : String) (frames : List Frame) :
    resolveIn other name frames =
      (resolveIn binding name frames).map fun found =>
        { found with symbol.binding := bindingAt other found.symbol.depth } := by
  induction frames with
  | nil => rfl
  | cons frame outer ih =>
      rw [resolveIn, resolveIn]
      split
      · rfl
      · rw [ih, Option.map_map, Option.map_map]
        rfl

namespace Analysis

/-- The state with names of the root frame emitted another way. -/
def State.rebind (state : State) (binding : Binding) : State :=
  { state with scope.rootBinding := binding }

theorem State.resolve?_rebind (state : State) (binding : Binding) (name : String) :
    (state.rebind binding).scope.resolve? name =
      (state.scope.resolve? name).map fun found =>
        { found with symbol.binding := Scope.bindingAt binding found.symbol.depth } :=
  Scope.resolveIn_rebind ..

theorem State.read_rebind (state : State) (binding : Binding) (id : Ident) :
    (state.rebind binding).read id = (state.read id).map (·.rebind binding) := by
  rw [State.read, State.read, state.resolve?_rebind]
  cases state.scope.resolve? id.name with
  | some found =>
      simp only [Option.map_some, Except.map, State.note]
      cases found.captured <;> rfl
  | none =>
      rw [Option.map_none]
      cases Builtin.ofName? id.name <;> rfl

theorem State.step_rebind (state : State) (binding : Binding) (event : Event) :
    (state.rebind binding).step event = (state.step event).map (·.rebind binding) := by
  cases event with
  | enter kind => rfl
  | leave =>
      obtain ⟨⟨rootBinding, current, outer⟩, support, captures⟩ := state
      cases outer <;> rfl
  | fresh id =>
      have hhere : (state.rebind binding).scope.isDefinedHere id.name =
          state.scope.isDefinedHere id.name := rfl
      rw [State.step, State.step, hhere]
      cases state.scope.isDefinedHere id.name <;> rfl
  | declare id =>
      have hhere : (state.rebind binding).scope.isDefinedHere id.name =
          state.scope.isDefinedHere id.name := rfl
      rw [State.step, State.step, State.declare, State.declare, Scope.define?, Scope.define?, hhere]
      cases Names.isReserved id.name <;> cases state.scope.isDefinedHere id.name <;> rfl
  | assign id =>
      have hsome : ((state.rebind binding).scope.resolve? id.name).isSome =
          (state.scope.resolve? id.name).isSome := by
        rw [state.resolve?_rebind, Option.isSome_map]
      rw [State.step, State.step, hsome]
      cases (state.scope.resolve? id.name).isSome <;> rfl
  | read id => exact state.read_rebind binding id
  | need snippet => rfl
  | refuse fault => rfl

/-- A run takes the same steps however the names of the root frame are emitted. -/
theorem run_rebind (state : State) (binding : Binding) (events : List Event) :
    run (state.rebind binding) events =
      ⟨(run state events).state.rebind binding, (run state events).fault?⟩ := by
  induction events generalizing state with
  | nil => rfl
  | cons event events ih =>
      rw [run, run, State.step_rebind]
      cases state.step event with
      | ok next => exact ih next
      | error fault => rfl

end Analysis

theorem Script.File.analyse_rebind (binding other : Binding) (file : File) :
    file.analyse other =
      ⟨(file.analyse binding).state.rebind other, (file.analyse binding).fault?⟩ :=
  Analysis.run_rebind (.initial binding) other file.events

/-! ## Statements at the top of a script -/

theorem Lua.printLine_zero {content : String} (hcontent : content.toList.head? ≠ some '(')
    (indent : String) : Lua.printLine indent 0 content = content ++ "\n" := by
  simp [Lua.printLine, hcontent]

namespace Script

def Stmt.isDefinition : Stmt → Bool
  | .assign _ .define _ _ => true
  | _ => false

/-- The text of a value that is defined at the top of a script. -/
def Expr.text (indent : String) (value : Expr) : String := value.lower.print indent 0

/-- The text of a statement at the top of a script that binds its names as locals.  A return that is
not the last statement has a block of its own. -/
def Stmt.text (indent : String) (last : Bool) (stmt : Stmt) : String :=
  Lua.Stmt.printList indent .lines 0
    (if stmt.isReturn && !last then [.block .inline (stmt.lower .lexical 0)]
      else stmt.lower .lexical 0)

/-- The text of a statement with the names of the script as locals, and with them as globals. -/
inductive Stmt.Variants (indent : String) (last : Bool) : Stmt → String → String → Prop where
  | value {pos : Pos} {id : Ident} {value : Expr} (hvalue : value.isFunction = false) :
      Variants indent last (.assign pos .define [.ident id] [value])
        ("local " ++ id.name ++ " = " ++ value.text indent ++ "\n")
        (id.name ++ " = " ++ value.text indent ++ "\n")
  | function {pos : Pos} {id : Ident} {value : Expr} (hvalue : value.isFunction = true) :
      Variants indent last (.assign pos .define [.ident id] [value])
        ("local " ++ id.name ++ "; " ++ id.name ++ " = " ++ value.text indent ++ "\n")
        (id.name ++ " = " ++ value.text indent ++ "\n")
  | other {stmt : Stmt} (hother : stmt.isDefinition = false) :
      Variants indent last stmt (stmt.text indent last) (stmt.text indent last)

/-- Both texts of a list of statements, put together from those of its statements. -/
inductive Stmt.ListVariants (indent : String) : List Stmt → String → String → Prop where
  | nil : ListVariants indent [] "" ""
  | cons {stmt : Stmt} {stmts : List Stmt} {first first' rest rest' : String}
      (hstmt : Stmt.Variants indent stmts.isEmpty stmt first first')
      (hstmts : ListVariants indent stmts rest rest') :
      ListVariants indent (stmt :: stmts) (first ++ rest) (first' ++ rest')

/-- How the names of a statement are bound shows in its code only if it is a definition. -/
theorem Stmt.lower_of_isDefinition_eq_false {place : Place} {stmt : Stmt}
    (hfit : AllFit (stmt.sites place)) (hother : stmt.isDefinition = false)
    (binding other : Binding) (depth : Nat) :
    stmt.lower binding depth = stmt.lower other depth := by
  cases stmt with
  | assign pos op lhs rhs =>
      simp only [Stmt.sites, allFit_cons] at hfit
      obtain ⟨target, value, rfl, rfl, ⟨rfl, -⟩ | ⟨-, -, hcode | ⟨luaOp, hcode⟩⟩⟩ :=
        Stmt.lower_assign hfit.1
      · cases hother
      · rw [hcode, hcode]
      · rw [hcode, hcode]
  | ret pos result => cases result <;> rfl
  | branch pos op => cases op <;> rfl
  | loop => rw [Stmt.lower_loop, Stmt.lower_loop]
  | _ => rfl

/-- A definition that is accepted binds one identifier to one value. -/
theorem Stmt.exists_eq_of_isDefinition {place : Place} {stmt : Stmt}
    (hfit : AllFit (stmt.sites place)) (hdefinition : stmt.isDefinition = true) :
    ∃ pos id value, stmt = .assign pos .define [.ident id] [value] ∧
      AllFit (value.sites (if value.isFunction then place.bind id else place)) := by
  cases stmt with
  | assign pos op lhs rhs =>
      cases op with
      | define =>
          simp only [Stmt.sites, allFit_cons, allFit_append] at hfit
          obtain ⟨⟨target, value, rfl, rfl, id, rfl⟩, -, hvalue⟩ := hfit
          refine ⟨pos, id, value, rfl, ?_⟩
          simpa [Expr.sitesOfList, Place.after, Stmt.binder?] using hvalue
      | _ => cases hdefinition
  | _ => cases hdefinition

theorem Stmt.variants_definition (indent : String) (last : Bool) (pos : Pos) {id : Ident}
    (hname : id.name.toList.head? ≠ some '(') (value : Expr) :
    Stmt.Variants indent last (.assign pos .define [.ident id] [value])
      (Lua.Stmt.print indent .lines 0 (.bind .lexical value.isFunction id.name value.lower))
      (Lua.Stmt.print indent .lines 0 (.bind .global value.isFunction id.name value.lower)) := by
  have hglobal : (id.name ++ " = " ++ value.text indent).toList.head? ≠ some '(' := by
    cases hchars : id.name.toList with
    | nil => simp [hchars]
    | cons c cs => simpa [hchars] using hname
  have hassign : Lua.Stmt.print indent .lines 0 (.bind .global value.isFunction id.name value.lower)
      = id.name ++ " = " ++ value.text indent ++ "\n" := by
    exact Lua.printLine_zero hglobal indent
  rw [hassign]
  cases hvalue : value.isFunction with
  | true =>
      have hlocal : Lua.Stmt.print indent .lines 0 (.bind .lexical true id.name value.lower) =
          "local " ++ id.name ++ "; " ++ id.name ++ " = " ++ value.text indent ++ "\n" :=
        Lua.printLine_zero (by simp) indent
      rw [hlocal]
      exact .function hvalue
  | false =>
      have hlocal : Lua.Stmt.print indent .lines 0 (.bind .lexical false id.name value.lower) =
          "local " ++ id.name ++ " = " ++ value.text indent ++ "\n" :=
        Lua.printLine_zero (by simp) indent
      rw [hlocal]
      exact .value hvalue

theorem Stmt.listVariants_lowerList (indent : String) {place : Place} {stmts : List Stmt}
    (hfit : AllFit (Stmt.sitesOfList place stmts))
    (hnames : ∀ id ∈ stmts.filterMap Stmt.binder?, id.name.toList.head? ≠ some '(') :
    Stmt.ListVariants indent stmts
      (Lua.Stmt.printList indent .lines 0 (Stmt.lowerList .lexical 0 stmts))
      (Lua.Stmt.printList indent .lines 0 (Stmt.lowerList .global 0 stmts)) := by
  induction stmts generalizing place with
  | nil => exact .nil
  | cons stmt stmts ih =>
      simp only [Stmt.sitesOfList, allFit_append] at hfit
      have hrest := ih hfit.2 fun id hid =>
        hnames id (List.mem_filterMap.2 (by
          obtain ⟨next, hnext, hbinder⟩ := List.mem_filterMap.1 hid
          exact ⟨next, List.mem_cons_of_mem _ hnext, hbinder⟩))
      rw [Stmt.lowerList_cons, Stmt.lowerList_cons, Lua.Stmt.printList_lines_append,
        Lua.Stmt.printList_lines_append]
      refine .cons ?_ hrest
      cases hdefinition : stmt.isDefinition with
      | false =>
          rw [Stmt.lower_of_isDefinition_eq_false hfit.1 hdefinition .global .lexical]
          exact .other hdefinition
      | true =>
          obtain ⟨pos, id, value, rfl, -⟩ := Stmt.exists_eq_of_isDefinition hfit.1 hdefinition
          exact Stmt.variants_definition indent _ pos (hnames id (by simp [Stmt.binder?])) value

/-- A definition at the top of a script is no local of its own if names are global. -/
theorem Stmt.localsOfList_lower_global {place : Place} {stmt : Stmt}
    (hfit : AllFit (stmt.sites place)) (depth : Nat) :
    Lua.Stmt.localsOfList (stmt.lower .global depth) =
      stmt.innerDefinitions.map Definition.code := by
  cases hdefinition : stmt.isDefinition with
  | false =>
      have hinner : stmt.innerDefinitions = stmt.definitions := by
        unfold Stmt.innerDefinitions
        split
        · cases hdefinition
        · rfl
      rw [Stmt.lower_of_isDefinition_eq_false hfit hdefinition .global .lexical, hinner,
        stmt.locals_lower depth hfit]
  | true =>
      obtain ⟨pos, id, value, rfl, hvalue⟩ := Stmt.exists_eq_of_isDefinition hfit hdefinition
      rw [Stmt.lower, Lua.Stmt.localsOfList_single, Lua.Stmt.locals_bind_global,
        value.locals_lower hvalue]
      simp [Stmt.innerDefinitions, Expr.definitionsOfList, Expr.definitions]

/-- With global names only the definitions inside the statements of the script are locals. -/
theorem Stmt.locals_lowerList_global {place : Place} (depth : Nat) {stmts : List Stmt}
    (hfit : AllFit (Stmt.sitesOfList place stmts)) :
    Lua.Stmt.localsOfList (Stmt.lowerList .global depth stmts) =
      (stmts.flatMap Stmt.innerDefinitions).map Definition.code := by
  induction stmts generalizing place with
  | nil => rfl
  | cons stmt stmts ih =>
      simp only [Stmt.sitesOfList, allFit_append] at hfit
      rw [Stmt.lowerList_cons, Lua.Stmt.localsOfList_append, List.flatMap_cons, List.map_append,
        ← Stmt.localsOfList_lower_global hfit.1 depth, ih hfit.2]
      split
      · rw [Lua.Stmt.localsOfList_single, Lua.Stmt.locals]
      · rfl

end Script

/-- With its names as globals or as locals a script has the same fault, or the same support code,
and it reports the same captured names.  The two bodies differ in the definitions at the top of the
script, which lose the word `local`, and in nothing else; all definitions further inside are
`local` statements of both. -/
theorem toLua_global_and_lexical (indent : String) (file : File) :
    let asGlobals : Options := { globalScope := true, indent }
    let asLocals : Options := { globalScope := false, indent }
    let globalBody := (file.body .global).render indent
    let localBody := (file.body .lexical).render indent
    (file.convert asGlobals).traces = (file.convert asLocals).traces ∧
      ((∃ fault, file.toLua asGlobals = .error fault ∧ file.toLua asLocals = .error fault) ∨
        (∃ support : Support, file.toLua asGlobals = .ok (support.text ++ globalBody) ∧
          file.toLua asLocals = .ok (support.text ++ localBody)) ∧
        ((∀ id ∈ file.stmts.filterMap Stmt.binder?, id.name.toList.head? ≠ some '(') →
          Stmt.ListVariants indent file.stmts localBody globalBody) ∧
        Lua.Stmt.localsOfList (file.lower .global) =
          (file.stmts.flatMap Stmt.innerDefinitions).map Definition.code ∧
        Lua.Stmt.localsOfList (file.lower .lexical) =
          (file.stmts.flatMap Stmt.definitions).map Definition.code) := by
  intro asGlobals asLocals globalBody localBody
  have hanalyse := file.analyse_rebind .lexical .global
  refine ⟨?_, ?_⟩
  · rw [File.traces_convert, File.traces_convert]
    change (file.analyse .global).state.captures.map _ = _
    rw [hanalyse]
    rfl
  · cases hfault : (file.analyse .lexical).fault? with
    | some fault =>
        refine .inl ⟨fault, File.toLua_of_fault?_eq_some ?_, File.toLua_of_fault?_eq_some hfault⟩
        change (file.analyse .global).fault? = some fault
        rw [hanalyse, hfault]
    | none =>
        have hfault' : (file.analyse .global).fault? = none := by rw [hanalyse, hfault]
        have hsupport : (file.analyse .global).state.support =
            (file.analyse .lexical).state.support := by
          rw [hanalyse]
          rfl
        have hfit : AllFit file.sites := (fault?_analyse_eq_none_iff .lexical file).1 hfault
        refine .inr ⟨⟨(file.analyse .lexical).state.support, ?_, ?_⟩, ?_, ?_, ?_⟩
        · rw [← hsupport]
          exact file.toLua_eq_ok_text asGlobals hfault'
        · exact file.toLua_eq_ok_text asLocals hfault
        · intro hnames
          simp only [globalBody, localBody, File.body, Lua.Stmt.render_layoutList]
          exact Stmt.listVariants_lowerList indent hfit hnames
        · exact Stmt.locals_lowerList_global 0 hfit
        · rw [← Stmt.definitionsOfList_eq_flatMap]
          exact Stmt.locals_lowerList 0 file.stmts hfit

/-- Definitions at the top, in a function, in the heads of a loop and of a branch and in their
bodies, behind a return that does not end the script. -/
def scatteredDefinitions : File where
  stmts :=
    [.assign {} .define [.ident { name := "f" }]
        [.func {} [{ name := "n" }]
          { stmts :=
              [.loop {}
                (some (.assign {} .define [.ident { name := "i" }] [.ident { name := "n" }]))
                (some (.ident { name := "i" })) (some (.incDec {} .dec (.ident { name := "i" })))
                { stmts :=
                    [.assign {} .define [.ident { name := "k" }] [.ident { name := "f" }]] }] }],
      .assign {} .define [.ident { name := "g" }] [.call {} (.ident { name := "f" }) [.int {} "2"]],
      .ret {} none,
      .ifElse {} (some (.assign {} .define [.ident { name := "h" }] [.ident { name := "g" }]))
        (.ident { name := "h" })
        { stmts := [.assign {} .define [.ident { name := "g" }] [.func {} [] {}]] }
        (some (.assign {} .define [.ident { name := "h" }] [.bool {} true]))]

theorem listVariants_scatteredDefinitions :
    (∃ text, scatteredDefinitions.toLua {} = .ok text) ∧
      (∀ id ∈ scatteredDefinitions.stmts.filterMap Stmt.binder?,
        id.name.toList.head? ≠ some '(') ∧
      Stmt.ListVariants "  " scatteredDefinitions.stmts
        ((scatteredDefinitions.body .lexical).render "  ")
        ((scatteredDefinitions.body .global).render "  ") := by
  have hok : ∃ text, scatteredDefinitions.toLua {} = .ok text := ⟨_, rfl⟩
  have hnames : ∀ id ∈ scatteredDefinitions.stmts.filterMap Stmt.binder?,
      id.name.toList.head? ≠ some '(' := by decide
  refine ⟨hok, hnames, ?_⟩
  obtain ⟨-, ⟨fault, -, hfault⟩ | ⟨-, hvariants, -⟩⟩ :=
    toLua_global_and_lexical "  " scatteredDefinitions
  · obtain ⟨text, htext⟩ := hok
    cases htext.symm.trans hfault
  · exact hvariants hnames

end LuaBackend
