import LuaBackend.Proofs.GlobalScope
import LuaBackend.Proofs.WalkedTrees
import Mathlib.Data.List.Basic

/-!
# The first statements of a script

What a conversion makes of the first statements of a script does not depend on the statements behind
them: neither a fault, nor the support code and the captured names so far, nor the text.  The one
exception is a return.  At the end of a script it stands alone, and in front of other statements it
gets a block of its own.
-/

namespace LuaBackend

open Script

/-! ## The analysis of the first statements -/

namespace Analysis

theorem Steps.captures_prefix {state next : State} {event : Event}
    (hstep : Steps state event next) : state.captures <+: next.captures := by
  cases hstep with
  | read =>
      unfold State.note
      split
      · exact List.prefix_append _ _
      · exact List.prefix_rfl
  | _ => exact List.prefix_rfl

/-- A run keeps the support code and the captured names that it begins with. -/
theorem run_extends (state : State) (events : List Event) :
    state.support.Within (run state events).state.support ∧
      state.captures <+: (run state events).state.captures := by
  refine run_keeps (P := fun later => state.support.Within later.support ∧
    state.captures <+: later.captures) ?_ ⟨fun _ huses => huses, List.prefix_rfl⟩ events
  intro before after event hstep hbefore
  refine ⟨fun snippet huses => ?_, hbefore.2.trans hstep.captures_prefix⟩
  exact hstep.support_within snippet (hbefore.1 snippet huses)

end Analysis

theorem Support.Within.snippets_subset {first second : Support} (hwithin : first.Within second) :
    first.snippets ⊆ second.snippets := by
  intro snippet hmem
  exact uses_iff_mem.1 (hwithin snippet (uses_iff_mem.2 hmem))

namespace Script

theorem Stmt.eventsOfList_append (inLoop : Bool) (first second : List Stmt) :
    Stmt.eventsOfList inLoop (first ++ second) =
      Stmt.eventsOfList inLoop first ++ Stmt.eventsOfList inLoop second := by
  induction first with
  | nil => rfl
  | cons stmt first ih =>
      rw [List.cons_append, Stmt.eventsOfList, Stmt.eventsOfList, ih, List.append_assoc]

namespace File

variable {binding : Binding} {first : List Stmt}

/-- The analysis of all statements goes on where that of the first ones passed. -/
theorem analyse_append_of_none (hpass : (analyse binding ⟨first⟩).fault? = none)
    (second : List Stmt) :
    analyse binding ⟨first ++ second⟩ =
      Analysis.run (analyse binding ⟨first⟩).state (Stmt.eventsOfList false second) := by
  unfold analyse events
  rw [Stmt.eventsOfList_append]
  exact Analysis.run_append_of_none hpass _

/-- The first fault is the fault of the script. -/
theorem analyse_append_of_some {fault : Fault}
    (hfault : (analyse binding ⟨first⟩).fault? = some fault) (second : List Stmt) :
    analyse binding ⟨first ++ second⟩ = analyse binding ⟨first⟩ := by
  unfold analyse events
  rw [Stmt.eventsOfList_append]
  exact Analysis.run_append_of_some hfault _

theorem fault?_eq_none_of_append {second : List Stmt}
    (hpass : (analyse binding ⟨first ++ second⟩).fault? = none) :
    (analyse binding ⟨first⟩).fault? = none := by
  cases hfault : (analyse binding ⟨first⟩).fault? with
  | none => rfl
  | some fault =>
      rw [analyse_append_of_some hfault, hfault] at hpass
      cases hpass

end File

/-! ## The code of the first statements -/

namespace Stmt

variable (binding : Binding) (depth : Nat)

/-- The code of statements that are followed by more. -/
def lowerFollowed (stmts : List Stmt) : List Lua.Stmt :=
  stmts.flatMap fun stmt =>
    if stmt.isReturn then [.block .inline (stmt.lower binding depth)]
    else stmt.lower binding depth

theorem lowerFollowed_cons (stmt : Stmt) (stmts : List Stmt) :
    lowerFollowed binding depth (stmt :: stmts) =
      (if stmt.isReturn then [.block .inline (stmt.lower binding depth)]
        else stmt.lower binding depth) ++ lowerFollowed binding depth stmts :=
  List.flatMap_cons

theorem lowerFollowed_append (first second : List Stmt) :
    lowerFollowed binding depth (first ++ second) =
      lowerFollowed binding depth first ++ lowerFollowed binding depth second :=
  List.flatMap_append

theorem lowerList_append {first second : List Stmt} (hsecond : second ≠ []) :
    lowerList binding depth (first ++ second) =
      lowerFollowed binding depth first ++ lowerList binding depth second := by
  induction first with
  | nil => rfl
  | cons stmt first ih =>
      have hmore : (first ++ second).isEmpty = false := by simp [hsecond]
      rw [List.cons_append, lowerList_cons, hmore, ih, lowerFollowed_cons, List.append_assoc,
        Bool.not_false, Bool.and_true]

/-- Statements that do not end in a return have the same code wherever they stand. -/
theorem lowerList_eq_lowerFollowed {stmts : List Stmt}
    (hlast : stmts.getLast?.any isReturn = false) :
    lowerList binding depth stmts = lowerFollowed binding depth stmts := by
  rcases List.eq_nil_or_concat' stmts with rfl | ⟨first, last, rfl⟩
  · rfl
  · have hreturn : last.isReturn = false := by simpa using hlast
    rw [lowerList_append _ _ (List.cons_ne_nil _ _), lowerFollowed_append, lowerFollowed_cons,
      hreturn, lowerList_cons, hreturn]
    rfl

/-- The text of a return. -/
def returnText (indent : String) : Option Expr → String
  | none => "return"
  | some value => "return (" ++ value.text indent ++ ")"

theorem head?_returnText (indent : String) (result : Option Expr) :
    (returnText indent result).toList.head? = some 'r' := by
  cases result <;> simp [returnText]

variable (indent : String) (pos : Pos) (result : Option Expr)

theorem print_inline_lower_ret :
    Lua.Stmt.printList indent .inline 0 ((Stmt.ret pos result).lower binding depth) =
      returnText indent result := by
  cases result with
  | none => rfl
  | some value =>
      have hlead : ("return (" : String) = "return " ++ "(" := rfl
      rw [returnText, hlead, Expr.text, String.append_assoc, String.append_assoc]
      rw [Stmt.lower, Lua.Stmt.printList, Lua.Stmt.print, Lua.Expr.print, Lua.Style.print,
        String.append_assoc]

theorem print_lower_ret :
    Lua.Stmt.printList indent .lines 0 ((Stmt.ret pos result).lower binding depth) =
      returnText indent result ++ "\n" := by
  have hline := print_lines_lower_ret indent ⟨0, depth, binding⟩ pos result
  rw [hline, print_inline_lower_ret]
  exact Lua.printLine_zero (by simp [head?_returnText]) indent

theorem print_block_lower_ret :
    Lua.Stmt.print indent .lines 0 (.block .inline ((Stmt.ret pos result).lower binding depth)) =
      "do " ++ returnText indent result ++ " end" ++ "\n" := by
  rw [Lua.Stmt.print, print_inline_lower_ret]
  exact Lua.printLine_zero (by simp) indent

theorem exists_print_lowerList_append {first : List Stmt}
    (hlast : first.getLast?.any isReturn = false) (second : List Stmt) :
    ∃ rest, Lua.Stmt.printList indent .lines 0 (lowerList binding depth (first ++ second)) =
      Lua.Stmt.printList indent .lines 0 (lowerList binding depth first) ++ rest := by
  by_cases hsecond : second = []
  · refine ⟨"", ?_⟩
    rw [hsecond, List.append_nil, String.append_empty]
  · rw [lowerList_append binding depth hsecond, lowerList_eq_lowerFollowed binding depth hlast,
      Lua.Stmt.printList_lines_append]
    exact ⟨_, rfl⟩

/-- A return at the end stands alone, and in front of other statements it is put into a block. -/
theorem exists_print_lowerList_ret (before : List Stmt) {second : List Stmt}
    (hsecond : second ≠ []) :
    ∃ lead rest,
      Lua.Stmt.printList indent .lines 0 (lowerList binding depth (before ++ [.ret pos result])) =
        lead ++ returnText indent result ++ "\n" ∧
      Lua.Stmt.printList indent .lines 0
          (lowerList binding depth (before ++ [.ret pos result] ++ second)) =
        lead ++ "do " ++ returnText indent result ++ " end" ++ "\n" ++ rest := by
  refine ⟨Lua.Stmt.printList indent .lines 0 (lowerFollowed binding depth before),
    Lua.Stmt.printList indent .lines 0 (lowerList binding depth second), ?_, ?_⟩
  · have hsingle : lowerList binding depth [.ret pos result] =
        (Stmt.ret pos result).lower binding depth := rfl
    rw [lowerList_append binding depth (List.cons_ne_nil _ _), hsingle,
      Lua.Stmt.printList_lines_append, print_lower_ret, String.append_assoc]
  · have hblock : lowerFollowed binding depth [.ret pos result] =
        [.block .inline ((Stmt.ret pos result).lower binding depth)] := rfl
    rw [lowerList_append binding depth hsecond, lowerFollowed_append, hblock,
      Lua.Stmt.printList_lines_append, Lua.Stmt.printList_lines_append, Lua.Stmt.printList,
      print_block_lower_ret]
    simp only [String.append_assoc]

end Stmt

end Script

/-! ## Converted scripts -/

theorem Script.File.render_body (indent : String) (binding : Binding) (file : File) :
    (file.body binding).render indent =
      Lua.Stmt.printList indent .lines 0 (Stmt.lowerList binding 0 file.stmts) :=
  Lua.Stmt.render_layoutList indent .lines 0 (file.lower binding)

/-- A fault of the first statements is the fault of the script.  If the script is converted, so are
its first statements, and their support code, their captured names and their text come first; only a
return at their end is written in another way. -/
theorem toLua_append_stable (options : Options) (xs ys : List Stmt) :
    let first : File := ⟨xs⟩
    let whole : File := ⟨xs ++ ys⟩
    let support := fun file : File => (file.analyse options.binding).state.support
    let body := fun file : File => (file.body options.binding).render options.indent
    (∀ fault, first.toLua options = .error fault → whole.toLua options = .error fault) ∧
    (∀ text, whole.toLua options = .ok text →
      text = (support whole).text ++ body whole ∧
      first.toLua options = .ok ((support first).text ++ body first) ∧
      (support first).helpers ⊆ (support whole).helpers ∧
      (support first).builtins ⊆ (support whole).builtins ∧
      (first.convert options).traces <+: (whole.convert options).traces ∧
      (xs.getLast?.any Stmt.isReturn = false → ∃ rest, body whole = body first ++ rest) ∧
      (∀ before pos result, xs = before ++ [.ret pos result] → ys ≠ [] →
        ∃ lead rest, body first = lead ++ Stmt.returnText options.indent result ++ "\n" ∧
          body whole =
            lead ++ "do " ++ Stmt.returnText options.indent result ++ " end" ++ "\n" ++ rest)) := by
  intro first whole support body
  have hbody : ∀ file, body file = Lua.Stmt.printList options.indent .lines 0
      (Stmt.lowerList options.binding 0 file.stmts) :=
    fun file => file.render_body options.indent options.binding
  refine ⟨fun fault herror => ?_, fun text htext => ?_⟩
  · cases hfault : (first.analyse options.binding).fault? with
    | none =>
        rw [File.toLua_eq_ok_text options first hfault] at herror
        cases herror
    | some earlier =>
        have hearlier : (whole.analyse options.binding).fault? = some earlier := by
          rw [File.analyse_append_of_some hfault, hfault]
        rw [File.toLua_of_fault?_eq_some hfault] at herror
        rw [File.toLua_of_fault?_eq_some hearlier, herror]
  · have hwhole : (whole.analyse options.binding).fault? = none :=
      (exists_toLua_eq_ok_iff options whole).1 ⟨text, htext⟩
    have hfirst : (first.analyse options.binding).fault? = none :=
      File.fault?_eq_none_of_append hwhole
    obtain ⟨hwithin, hcaptures⟩ := Analysis.run_extends
      (first.analyse options.binding).state (Stmt.eventsOfList false ys)
    rw [← File.analyse_append_of_none hfirst ys] at hwithin hcaptures
    refine ⟨?_, File.toLua_eq_ok_text options first hfirst, ?_, ?_, ?_, fun hlast => ?_, ?_⟩
    · rw [File.toLua_eq_ok_text options whole hwhole] at htext
      exact (Except.ok.inj htext).symm
    · exact List.filterMap_subset _ hwithin.snippets_subset
    · exact List.filterMap_subset _ hwithin.snippets_subset
    · rw [File.traces_convert, File.traces_convert]
      exact hcaptures.map _
    · rw [hbody, hbody]
      exact Stmt.exists_print_lowerList_append options.binding 0 options.indent hlast ys
    · intro before pos result hxs hys
      rw [hbody, hbody]
      change ∃ lead rest, Lua.Stmt.printList _ _ _ (Stmt.lowerList _ _ xs) = _ ∧
        Lua.Stmt.printList _ _ _ (Stmt.lowerList _ _ (xs ++ ys)) = _
      rw [hxs]
      exact Stmt.exists_print_lowerList_ret options.binding 0 options.indent pos result before hys

/-- `total := len("ab")` and a function that captures it. -/
def capturingStmts : List Stmt :=
  [.assign {} .define [.ident { name := "total" }]
      [.call {} (.ident { name := "len" }) [.str {} "ab"]],
    .assign {} .define [.ident { name := "get" }]
      [.func {} [] ⟨{}, [.ret {} (some (.ident { name := "total" }))]⟩]]

/-- `return get()` -/
def earlyReturn : Stmt := .ret {} (some (.call {} (.ident { name := "get" }) []))

/-- `total += 1` -/
def lateStmts : List Stmt := [.assign {} .add [.ident { name := "total" }] [.int {} "1"]]

theorem toLua_append_earlyReturn :
    let options : Options := {}
    let stray : List Stmt := [.branch {} .break]
    let body := fun stmts : List Stmt =>
      (File.body options.binding ⟨stmts⟩).render options.indent
    (∃ fault, File.toLua options ⟨stray⟩ = .error fault ∧
      File.toLua options ⟨stray ++ capturingStmts⟩ = .error fault) ∧
    (∃ text, File.toLua options ⟨capturingStmts ++ [earlyReturn] ++ lateStmts⟩ = .ok text) ∧
    (∃ rest, body (capturingStmts ++ [earlyReturn]) = body capturingStmts ++ rest) ∧
    ∃ lead rest, body (capturingStmts ++ [earlyReturn]) = lead ++ "return (get())" ++ "\n" ∧
      body (capturingStmts ++ [earlyReturn] ++ lateStmts) =
        lead ++ "do " ++ "return (get())" ++ " end" ++ "\n" ++ rest := by
  intro options stray body
  obtain ⟨hstray, -⟩ := toLua_append_stable options stray capturingStmts
  obtain ⟨-, hopening⟩ := toLua_append_stable options capturingStmts [earlyReturn]
  obtain ⟨-, hearly⟩ := toLua_append_stable options (capturingStmts ++ [earlyReturn]) lateStmts
  refine ⟨⟨_, rfl, hstray _ rfl⟩, ⟨_, rfl⟩, ?_, ?_⟩
  · obtain ⟨-, -, -, -, -, hprefix, -⟩ := hopening _ rfl
    exact hprefix rfl
  · obtain ⟨-, -, -, -, -, -, hreturn⟩ := hearly _ rfl
    exact hreturn capturingStmts _ _ rfl (List.cons_ne_nil _ _)

end LuaBackend
