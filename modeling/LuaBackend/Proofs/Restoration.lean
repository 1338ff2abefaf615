import LuaBackend.Proofs.GlobalScope
import LuaBackend.Proofs.WalkedTrees

/-!
# Walks leave the generator as it was

A walk that succeeds gives the generator back as it found it: indentation, loops and all frames are
the same, but for the names that the statements of the walk bind in the innermost frame, and no
support code is given up.  On its way a walk never stands further outside than where it began, and
it closes only what has been opened (`Generator.Orderly`), also if it ends in a fault.
-/

namespace LuaBackend

open Script Generator

namespace Scope

/-- The scope with further names in its innermost frame; the last one comes first. -/
def extend (scope : Scope) (names : List String) : Scope :=
  { scope with current.names := names.reverse ++ scope.current.names }

theorem extend_extend (scope : Scope) (first second : List String) :
    (scope.extend first).extend second = scope.extend (first ++ second) := by
  simp [extend]

theorem eq_of_frames_eq {scope other : Scope} (hroot : scope.rootBinding = other.rootBinding)
    (hframes : scope.frames = other.frames) : scope = other := by
  cases scope
  cases other
  obtain ⟨hcurrent, houter⟩ := List.cons.inj hframes
  simp_all

end Scope

/-! ## Names that are added -/

namespace Script

/-- The names that a statement binds in the frame around it. -/
def Stmt.boundNames (stmt : Stmt) : List String := stmt.binder?.toList.map Ident.name

end Script

namespace Place

variable {place : Place} {scope : Scope}

theorem frames_after (hframes : place.frames = scope.frames) (stmt : Stmt) :
    (place.after stmt).frames = (scope.extend stmt.boundNames).frames := by
  unfold after Stmt.boundNames
  cases stmt.binder? with
  | none => exact hframes
  | some id =>
      simp only [bind, hframes, Scope.frames]
      rfl

theorem frames_afterList (hframes : place.frames = scope.frames) (stmts : List Stmt) :
    (place.afterList stmts).frames = (scope.extend (stmts.flatMap Stmt.boundNames)).frames := by
  induction stmts generalizing place scope with
  | nil => exact hframes
  | cons stmt stmts ih =>
      rw [List.flatMap_cons, ← Scope.extend_extend]
      exact ih (frames_after hframes stmt)

end Place

/-! ## Restored generators -/

namespace Generator

/-- The generator is as before but for names that are new in the innermost frame and for further
support code. -/
structure Restores (before : Generator) (names : List String) (after : Generator) : Prop where
  level : after.level = before.level
  loops : after.loops = before.loops
  outerLoops : after.outerLoops = before.outerLoops
  scope : after.scope = before.scope.extend names
  support : before.support.Within after.support

/-- The place of what is walked next. -/
def place (generator : Generator) : Place := ⟨generator.scope.frames, generator.loops⟩

variable {before : Generator} {events : List Event} {ok : Prop} {after : Place}

/-- The frames that the analysis leaves are those that the generator is left with. -/
theorem restores_of_runs {α : Type} {walk : Walk α} {value result : α} {names : List String}
    (hdoes : Walk.Does before.setting walk events value)
    (hruns : Analysis.Runs before.place events ok after)
    (hafter : after.frames = (before.scope.extend names).frames)
    (hok : (walk before).result = .ok result) :
    ok ∧ Restores before names (walk before).state := by
  have hagrees := hdoes.agrees before rfl
  have hrests := (hdoes.orderly before rfl).state
  obtain ⟨hfits, hframes⟩ := hruns before.analysis rfl
  unfold Outcome.Agrees at hagrees
  cases hfault : (Analysis.run before.analysis events).fault? with
  | some fault =>
      simp only [hfault, hok] at hagrees
      cases hagrees.1
  | none =>
      simp only [hfault] at hagrees
      refine ⟨hfits.1 hfault, hrests.level, hrests.loops, hrests.outerLoops, ?_, hrests.support⟩
      have hroot : (walk before).state.scope.rootBinding =
          (before.scope.extend names).rootBinding := hrests.rootBinding
      apply Scope.eq_of_frames_eq hroot
      rw [Generator.scope, hagrees.2, hframes hfault, hafter]

end Generator

/-- A definition that fits its place is one of a single identifier. -/
theorem Script.Stmt.isDefinition_eq_isSome_binder? {place : Place} {stmt : Stmt}
    (hfit : AllFit (stmt.sites place)) : stmt.isDefinition = stmt.binder?.isSome := by
  cases hdefinition : stmt.isDefinition with
  | true =>
      obtain ⟨pos, id, value, rfl, -⟩ := Stmt.exists_eq_of_isDefinition hfit hdefinition
      rfl
  | false =>
      unfold Stmt.binder?
      split
      · cases hdefinition
      · rfl

/-- Every walk is orderly, and one that succeeds restores the generator: an expression altogether, a
statement but for its own name if it is a definition, and the statements of a block but for the
names of their definitions.  The walk over a whole script is its conversion. -/
theorem walks_restore_generator (indent : String) (before : Generator) :
    (∀ (expr : Expr) (text : String), (expr.walk indent before).result = .ok text →
      Restores before [] (expr.walk indent before).state) ∧
    (∀ (stmt : Stmt) (text : String), (stmt.walk indent before).result = .ok text →
      stmt.isDefinition = stmt.binder?.isSome ∧
        Restores before stmt.boundNames (stmt.walk indent before).state) ∧
    (∀ (stmts : List Stmt) (text : String), (Stmt.walkList indent stmts before).result = .ok text →
      Restores before (stmts.flatMap Stmt.boundNames) (Stmt.walkList indent stmts before).state) ∧
    (∀ expr : Expr, Orderly before (expr.walk indent before)) ∧
    (∀ stmt : Stmt, Orderly before (stmt.walk indent before)) ∧
    (∀ stmts : List Stmt, Orderly before (Stmt.walkList indent stmts before)) ∧
    ∀ (options : Options) (file : File), file.generate options = file.convert options := by
  have hexpr := Walk.Does.ofExpr indent before.setting
  have hstmt := Walk.Does.ofStmt indent before.setting
  have hstmts := Walk.Does.ofStmts indent before.setting
  refine ⟨fun expr text hok => ?_, fun stmt text hok => ?_, fun stmts text hok => ?_,
    fun expr => (hexpr expr).orderly before rfl, fun stmt => (hstmt stmt).orderly before rfl,
    fun stmts => (hstmts stmts).orderly before rfl, File.generate_eq_convert⟩
  · exact (restores_of_runs (hexpr expr) (expr.runs_events before.place) rfl hok).2
  · have hplace : before.place.frames = before.scope.frames := rfl
    obtain ⟨hfit, hrestores⟩ := restores_of_runs (hstmt stmt) (stmt.runs_events before.place)
      (Place.frames_after hplace stmt) hok
    exact ⟨Stmt.isDefinition_eq_isSome_binder? hfit, hrestores⟩
  · exact (restores_of_runs (hstmts stmts) (Stmt.runs_eventsOfList before.place stmts)
      (Place.frames_afterList rfl stmts) hok).2

/-- In a loop of a function that is set in a loop itself. -/
def innerLoop : Generator where
  analysis.scope :=
    { rootBinding := .global
      current := { kind := .block, names := ["total"] }
      outer := [{ kind := .block }, { kind := .function, names := ["items"] }, { kind := .function }] }
  level := 4
  loops := 1
  outerLoops := [1]

/-- `func(step) { for _, item in items { if item { continue }; total += step } }` -/
def accumulator : Expr :=
  .func {} [{ name := "step" }] ⟨{},
    [.forIn {} none { name := "item" } (.ident { name := "items" }) ⟨{},
      [.ifElse {} none (.ident { name := "item" }) ⟨{}, [.branch {} .continue]⟩ none,
        .assign {} .add [.ident { name := "total" }] [.ident { name := "step" }]]⟩]⟩

/-- `step := 1` and a definition of the function. -/
def accumulation : List Stmt :=
  [.assign {} .define [.ident { name := "step" }] [.int {} "1"],
    .assign {} .define [.ident { name := "add" }] [accumulator]]

theorem walks_restore_innerLoop :
    (∃ text, (accumulator.walk "  " innerLoop).result = .ok text ∧
      Restores innerLoop [] (accumulator.walk "  " innerLoop).state) ∧
    (∀ stmt ∈ accumulation, ∃ text, (stmt.walk "  " innerLoop).result = .ok text ∧
      Restores innerLoop stmt.boundNames (stmt.walk "  " innerLoop).state) ∧
    ∃ text, (Stmt.walkList "  " accumulation innerLoop).result = .ok text ∧
      Restores innerLoop ["step", "add"] (Stmt.walkList "  " accumulation innerLoop).state := by
  obtain ⟨hexpr, hstmt, hstmts, -⟩ := walks_restore_generator "  " innerLoop
  refine ⟨⟨_, rfl, hexpr _ _ rfl⟩, ?_, ⟨_, rfl, hstmts accumulation _ rfl⟩⟩
  intro stmt hmem
  simp only [accumulation, List.mem_cons, List.not_mem_nil, or_false] at hmem
  rcases hmem with rfl | rfl
  · exact ⟨_, rfl, (hstmt _ _ rfl).2⟩
  · exact ⟨_, rfl, (hstmt _ _ rfl).2⟩

end LuaBackend
