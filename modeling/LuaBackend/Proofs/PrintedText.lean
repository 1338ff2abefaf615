import LuaBackend.Proofs.Acceptance
import LuaBackend.Proofs.LexedCode

/-!
# Text and indentation

The printer gives pieces and leaves open what a level of indentation looks like.  `Stmt.print`
writes the same code straight to text, with the indentation at hand: an expression that takes
several lines is indented before the line around it is put together, and a line looks at its own
text to see whether it begins with a parenthesis.

Both ways give the same text (`Stmt.render_layoutList`).  What could come between them is an
expression whose text begins with indentation; no expression does (`Expr.opensAlike_layout`), also
where names and numerals are empty.  So the indentation is never looked at.
-/

namespace LuaBackend

open Script

/-! ## Putting layouts together -/

theorem Lua.Layout.render_append (indent : String) (layout rest : Lua.Layout) :
    (layout ++ rest).render indent = layout.render indent ++ rest.render indent := by
  simp [Lua.Layout.render]

theorem Lua.Layout.render_text (indent content : String) :
    (Lua.Layout.text content).render indent = content := by
  simp [Lua.Layout.render, Lua.Layout.text, Lua.Piece.render]

/-- The support code stands in front of the body. -/
theorem Script.File.render_layout (indent : String) (binding : Binding) (support : Support)
    (file : File) :
    (file.layout binding support).render indent =
      (if support.isEmpty then "" else support.prologue ++ "\n") ++
        (file.body binding).render indent := by
  rw [File.layout]
  split
  · rw [String.empty_append]
  · rw [Lua.Layout.render_append, Lua.Layout.render_append, Lua.Layout.render_text,
      Lua.Layout.render_text]

namespace Lua

/-! ## Printing straight to text -/

/-- One line, with a semicolon in front of a text that begins with a parenthesis. -/
def printLine (indent : String) (level : Nat) (content : String) : String :=
  String.join (List.replicate level indent) ++
    (if content.toList.head? = some '(' then ";" else "") ++ content ++ "\n"

/-- Puts a statement that is written within one line in its place. -/
def Style.print (style : Style) (indent : String) (level : Nat) (content : String) : String :=
  match style with
  | .inline => content
  | .lines => printLine indent level content

mutual

def Expr.print (indent : String) (level : Nat) : Expr → String
  | .nil => "nil"
  | .bool true => "true"
  | .bool false => "false"
  | .numeral digits => digits
  | .str value => quote value
  | .name name => name
  | .paren expr => "(" ++ expr.print indent level ++ ")"
  | .unary op expr => op.lead ++ expr.print indent level
  | .binary op lhs rhs =>
    lhs.print indent level ++ (" " ++ op.spelling ++ " ") ++ rhs.print indent level
  | .index expr key => expr.print indent level ++ "[" ++ key.print indent level ++ "]"
  | .call callee args =>
    callee.print indent level ++ "(" ++ Expr.printList indent level args ++ ")"
  | .table fields => "\x7b" ++ Field.printList indent level fields ++ "\x7d"
  | .func .inline params body =>
    functionHead params ++ " " ++ Stmt.printList indent .inline level body ++ " end"
  | .func .lines params body =>
    functionHead params ++ "\n" ++ Stmt.printList indent .lines (level + 1) body ++
      (String.join (List.replicate level indent) ++ "end")

def Expr.printList (indent : String) (level : Nat) : List Expr → String
  | [] => ""
  | [expr] => expr.print indent level
  | expr :: exprs => expr.print indent level ++ ", " ++ Expr.printList indent level exprs

def Field.print (indent : String) (level : Nat) : Field → String
  | .item value => value.print indent level
  | .keyed key value => "[" ++ key.print indent level ++ "]=" ++ value.print indent level
  | .named name value => name ++ "=" ++ value.print indent level

def Field.printList (indent : String) (level : Nat) : List Field → String
  | [] => ""
  | [field] => field.print indent level
  | field :: fields => field.print indent level ++ ", " ++ Field.printList indent level fields

def Stmt.print (indent : String) (style : Style) (level : Nat) : Stmt → String
  | .expr expr => style.print indent level (expr.print indent level)
  | .assign target value =>
    style.print indent level (target.print indent level ++ " = " ++ value.print indent level)
  | .localVar name value =>
    style.print indent level ("local " ++ name ++ " = " ++ value.print indent level)
  | .localRec name value =>
    style.print indent level ("local " ++ name ++ "; " ++ name ++ " = " ++ value.print indent level)
  | .ret none => style.print indent level "return"
  | .ret (some value) => style.print indent level ("return " ++ value.print indent level)
  | .break => style.print indent level "break"
  | .block own body =>
    match style.inside own with
    | .inline =>
      style.print indent level ("do " ++ Stmt.printList indent .inline level body ++ " end")
    | .lines =>
      printLine indent level "do" ++ Stmt.printList indent .lines (level + 1) body ++
        printLine indent level "end"
  | .cond own test body rest =>
    match style.inside own with
    | .inline =>
      style.print indent level
        ("if " ++ test.print indent level ++ " then " ++ Stmt.printList indent .inline level body ++
          rest.print indent .inline level ++ " end")
    | .lines =>
      printLine indent level ("if " ++ test.print indent level ++ " then") ++
        Stmt.printList indent .lines (level + 1) body ++ rest.print indent .lines level ++
        printLine indent level "end"
  | .whileLoop test body =>
    match style with
    | .inline =>
      "while " ++ test.print indent level ++ " do " ++ Stmt.printList indent .inline level body ++
        " end"
    | .lines =>
      printLine indent level ("while " ++ test.print indent level ++ " do") ++
        Stmt.printList indent .lines (level + 1) body ++ printLine indent level "end"
  | .repeatLoop body test =>
    match style with
    | .inline =>
      "repeat " ++ Stmt.printList indent .inline level body ++ " until " ++ test.print indent level
    | .lines =>
      printLine indent level "repeat" ++ Stmt.printList indent .lines (level + 1) body ++
        printLine indent level ("until " ++ test.print indent level)
  | .forIn names iterator body =>
    let head := "for " ++ ", ".intercalate names ++ " in " ++ iterator.print indent level
    match style with
    | .inline => head ++ " do " ++ Stmt.printList indent .inline level body ++ " end"
    | .lines =>
      printLine indent level (head ++ " do") ++ Stmt.printList indent .lines (level + 1) body ++
        printLine indent level "end"

def Stmt.printList (indent : String) (style : Style) (level : Nat) : List Stmt → String
  | [] => ""
  | [stmt] => stmt.print indent style level
  | stmt :: stmts =>
    stmt.print indent style level ++
      (match style with
        | .inline => " "
        | .lines => "") ++
      Stmt.printList indent style level stmts

def Else.print (indent : String) (style : Style) (level : Nat) : Else → String
  | .absent => ""
  | .otherwise body =>
    match style with
    | .inline => " else " ++ Stmt.printList indent .inline level body
    | .lines => printLine indent level "else" ++ Stmt.printList indent .lines (level + 1) body
  | .elseIf test body rest =>
    match style with
    | .inline =>
      " elseif " ++ test.print indent level ++ " then " ++
        Stmt.printList indent .inline level body ++ rest.print indent .inline level
    | .lines =>
      printLine indent level ("elseif " ++ test.print indent level ++ " then") ++
        Stmt.printList indent .lines (level + 1) body ++ rest.print indent .lines level

end

/-! ## The first character -/

namespace Layout

theorem head?_append (layout rest : Layout) :
    head? (layout ++ rest) = (head? layout).or (head? rest) := by
  induction layout with
  | nil => rfl
  | cons piece pieces ih =>
      rw [List.cons_append, head?, head?]
      split
      · exact ih
      · rfl

@[simp] theorem head?_text (content : String) : (text content).head? = content.toList.head? := by
  unfold text head?
  split <;> simp_all [head?]

/-- Whatever the indentation, the text begins with the first character of the pieces. -/
def OpensAlike (layout : Layout) : Prop :=
  ∀ indent, (layout.render indent).toList.head? = layout.head?

theorem opensAlike_text (content : String) : (text content).OpensAlike := by
  intro indent
  rw [render_text, head?_text]

namespace OpensAlike

variable {layout rest : Layout}

theorem append (hlayout : layout.OpensAlike) (hrest : rest.OpensAlike) :
    OpensAlike (layout ++ rest) := by
  intro indent
  rw [render_append, String.toList_append, List.head?_append, hlayout, hrest, head?_append]

/-- Behind a character everything may follow. -/
theorem before (hlayout : layout.OpensAlike) (hsome : layout.head?.isSome) (rest : Layout) :
    OpensAlike (layout ++ rest) := by
  obtain ⟨c, hc⟩ := Option.isSome_iff_exists.1 hsome
  intro indent
  rw [render_append, String.toList_append, List.head?_append, hlayout, head?_append, hc]
  rfl

/-- Text that is not empty settles how the layout opens. -/
theorem textBefore (hlayout : layout.OpensAlike) {content : String} (hcontent : content ≠ "")
    (rest : Layout) : OpensAlike (layout ++ text content ++ rest) := by
  apply (hlayout.append (opensAlike_text content)).before
  have hsome : content.toList.head?.isSome := by simpa using hcontent
  rw [head?_append, head?_text, Option.isSome_or, hsome, Bool.or_true]

end OpensAlike

theorem Leads.opensAlike {c : Char} {layout : Layout} (hleads : layout.Leads c) :
    layout.OpensAlike := by
  intro indent
  obtain ⟨cs, hcs⟩ := hleads.exists_chars_eq indent.toList
  rw [hleads.head?_eq, toList_render, hcs, List.head?_cons]

theorem render_cons (indent : String) (piece : Piece) (rest : Layout) :
    render indent (piece :: rest) = piece.render indent ++ rest.render indent := by
  simp [render]

/-- The semicolon is found by looking at the text as well as by looking at the pieces. -/
theorem render_line {content : Layout} (hcontent : content.OpensAlike) (indent : String)
    (level : Nat) :
    (line level content).render indent = printLine indent level (content.render indent) := by
  rw [line, render_append, render_cons, render_text, Piece.render, printLine, hcontent indent]

theorem render_place {content : Layout} (hcontent : content.OpensAlike) (indent : String)
    (style : Style) (level : Nat) :
    (style.place level content).render indent =
      style.print indent level (content.render indent) := by
  cases style with
  | inline => rfl
  | lines => exact render_line hcontent indent level

end Layout

open Layout

/-- By the leftmost part of the expression. -/
theorem Expr.opensAlike_layout (level : Nat) : (expr : Expr) → (expr.layout level).OpensAlike
  | .nil | .bool true | .bool false | .numeral _ | .str _ | .name _ => by
    rw [Expr.layout]
    exact opensAlike_text _
  | .paren expr => by
    rw [Expr.layout]
    exact (((leads_text rfl).append _).append _).opensAlike
  | .unary op expr => by
    rw [Expr.layout]
    cases op <;> exact ((leads_text rfl).append _).opensAlike
  | .binary op lhs rhs => by
    rw [Expr.layout]
    exact (lhs.opensAlike_layout level).textBefore (by cases op <;> decide) _
  | .index expr key => by
    rw [Expr.layout, List.append_assoc _ (key.layout level)]
    exact (expr.opensAlike_layout level).textBefore (by decide) _
  | .call callee args => by
    rw [Expr.layout, List.append_assoc _ (Expr.layoutList level args)]
    exact (callee.opensAlike_layout level).textBefore (by decide) _
  | .table fields => by
    rw [Expr.layout]
    exact (((leads_text rfl).append _).append _).opensAlike
  | .func .inline params body => by
    rw [Expr.layout]
    have hhead : (functionHead params ++ " ").toList.head? = some 'f' := by simp [functionHead]
    exact (((leads_text hhead).append _).append _).opensAlike
  | .func .lines params body => by
    rw [Expr.layout]
    have hhead : (functionHead params ++ "\n").toList.head? = some 'f' := by simp [functionHead]
    exact (((leads_text hhead).append _).append _).opensAlike

/-! ## Both ways agree -/

variable (indent : String)

mutual

theorem Expr.render_layout (level : Nat) : (expr : Expr) →
    (expr.layout level).render indent = expr.print indent level
  | .nil | .bool true | .bool false | .numeral _ | .str _ | .name _ => by
    rw [Expr.layout, Expr.print, render_text]
  | .paren expr => by
    simp only [Expr.layout, Expr.print, render_append, render_text, expr.render_layout]
  | .unary op expr => by
    simp only [Expr.layout, Expr.print, render_append, render_text, expr.render_layout]
  | .binary op lhs rhs => by
    simp only [Expr.layout, Expr.print, render_append, render_text, lhs.render_layout,
      rhs.render_layout]
  | .index expr key => by
    simp only [Expr.layout, Expr.print, render_append, render_text, expr.render_layout,
      key.render_layout]
  | .call callee args => by
    simp only [Expr.layout, Expr.print, render_append, render_text, callee.render_layout,
      Expr.render_layoutList level args]
  | .table fields => by
    simp only [Expr.layout, Expr.print, render_append, render_text,
      Field.render_layoutList level fields]
  | .func .inline params body => by
    simp only [Expr.layout, Expr.print, render_append, render_text,
      Stmt.render_layoutList .inline level body]
  | .func .lines params body => by
    have hend : render indent [⟨level, "end"⟩] =
        String.join (List.replicate level indent) ++ "end" := by
      simp [render, Piece.render]
    simp only [Expr.layout, Expr.print, render_append, render_text, hend,
      Stmt.render_layoutList .lines (level + 1) body]

theorem Expr.render_layoutList (level : Nat) : (exprs : List Expr) →
    (Expr.layoutList level exprs).render indent = Expr.printList indent level exprs
  | [] => rfl
  | [expr] => expr.render_layout level
  | expr :: next :: exprs => by
    rw [Expr.layoutList, Expr.printList, render_append, render_append, render_text,
      expr.render_layout, Expr.render_layoutList level (next :: exprs)]
    all_goals simp

theorem Field.render_layout (level : Nat) : (field : Field) →
    (field.layout level).render indent = field.print indent level
  | .item value => value.render_layout level
  | .keyed key value => by
    simp only [Field.layout, Field.print, render_append, render_text, key.render_layout,
      value.render_layout]
  | .named name value => by
    simp only [Field.layout, Field.print, render_append, render_text, value.render_layout]

theorem Field.render_layoutList (level : Nat) : (fields : List Field) →
    (Field.layoutList level fields).render indent = Field.printList indent level fields
  | [] => rfl
  | [field] => field.render_layout level
  | field :: next :: fields => by
    rw [Field.layoutList, Field.printList, render_append, render_append, render_text,
      field.render_layout, Field.render_layoutList level (next :: fields)]
    all_goals simp

theorem Stmt.render_layout (style : Style) (level : Nat) : (stmt : Stmt) →
    (stmt.layout style level).render indent = stmt.print indent style level
  | .expr expr => by
    rw [Stmt.layout, Stmt.print, render_place (expr.opensAlike_layout level), expr.render_layout]
  | .assign target value => by
    have hopens : OpensAlike (target.layout level ++ text " = " ++ value.layout level) :=
      (target.opensAlike_layout level).textBefore (by decide) _
    rw [Stmt.layout, Stmt.print, render_place hopens]
    simp only [render_append, render_text, target.render_layout, value.render_layout]
  | .localVar name value => by
    have hhead : ("local " ++ name ++ " = ").toList.head? = some 'l' := by simp
    rw [Stmt.layout, Stmt.print, render_place ((leads_text hhead).append _).opensAlike]
    simp only [render_append, render_text, value.render_layout]
  | .localRec name value => by
    have hhead : ("local " ++ name ++ "; " ++ name ++ " = ").toList.head? = some 'l' := by simp
    rw [Stmt.layout, Stmt.print, render_place ((leads_text hhead).append _).opensAlike]
    simp only [render_append, render_text, value.render_layout]
  | .ret none => by
    rw [Stmt.layout, Stmt.print, render_place (opensAlike_text _), render_text]
  | .ret (some value) => by
    rw [Stmt.layout, Stmt.print, render_place ((leads_text rfl).append _).opensAlike]
    simp only [render_append, render_text, value.render_layout]
  | .break => by
    rw [Stmt.layout, Stmt.print, render_place (opensAlike_text _), render_text]
  | .block own body => by
    rw [Stmt.layout, Stmt.print]
    cases style.inside own with
    | inline =>
        dsimp only
        rw [render_place (((leads_text rfl).append _).append _).opensAlike]
        simp only [render_append, render_text, Stmt.render_layoutList .inline level body]
    | lines =>
        dsimp only
        simp only [render_append, render_line (opensAlike_text _), render_text,
          Stmt.render_layoutList .lines (level + 1) body]
  | .cond own test body rest => by
    rw [Stmt.layout, Stmt.print]
    cases style.inside own with
    | inline =>
        dsimp only
        rw [render_place ((((((leads_text rfl).append _).append _).append _).append _).append
          _).opensAlike]
        simp only [render_append, render_text, test.render_layout,
          Stmt.render_layoutList .inline level body, rest.render_layout .inline level]
    | lines =>
        dsimp only
        rw [render_append, render_append, render_append,
          render_line (((leads_text rfl).append _).append _).opensAlike,
          render_line (opensAlike_text _)]
        simp only [render_append, render_text, test.render_layout,
          Stmt.render_layoutList .lines (level + 1) body, rest.render_layout .lines level]
  | .whileLoop test body => by
    cases style with
    | inline =>
        rw [Stmt.layout, Stmt.print]
        simp only [render_append, render_text, test.render_layout,
          Stmt.render_layoutList .inline level body]
    | lines =>
        rw [Stmt.layout, Stmt.print, render_append, render_append,
          render_line (((leads_text rfl).append _).append _).opensAlike,
          render_line (opensAlike_text _)]
        simp only [render_append, render_text, test.render_layout,
          Stmt.render_layoutList .lines (level + 1) body]
  | .repeatLoop body test => by
    cases style with
    | inline =>
        rw [Stmt.layout, Stmt.print]
        simp only [render_append, render_text, test.render_layout,
          Stmt.render_layoutList .inline level body]
    | lines =>
        rw [Stmt.layout, Stmt.print, render_append, render_append, render_line (opensAlike_text _),
          render_line ((leads_text rfl).append _).opensAlike]
        simp only [render_append, render_text, test.render_layout,
          Stmt.render_layoutList .lines (level + 1) body]
  | .forIn names iterator body => by
    have hhead : ("for " ++ ", ".intercalate names ++ " in ").toList.head? = some 'f' := by simp
    cases style with
    | inline =>
        rw [Stmt.layout, Stmt.print]
        simp only [render_append, render_text, iterator.render_layout,
          Stmt.render_layoutList .inline level body]
    | lines =>
        rw [Stmt.layout, Stmt.print, render_append, render_append,
          render_line (((leads_text hhead).append _).append _).opensAlike,
          render_line (opensAlike_text _)]
        simp only [render_append, render_text, iterator.render_layout,
          Stmt.render_layoutList .lines (level + 1) body]

theorem Stmt.render_layoutList (style : Style) (level : Nat) : (stmts : List Stmt) →
    (Stmt.layoutList style level stmts).render indent = Stmt.printList indent style level stmts
  | [] => rfl
  | [stmt] => stmt.render_layout style level
  | stmt :: next :: stmts => by
    have hstmts := Stmt.render_layoutList style level (next :: stmts)
    cases style with
    | inline =>
        simp only [Stmt.layoutList, Stmt.printList, render_append, render_text,
          stmt.render_layout] at hstmts ⊢
        rw [hstmts]
    | lines =>
        simp only [Stmt.layoutList, Stmt.printList, render_append,
          stmt.render_layout] at hstmts ⊢
        rw [hstmts]
        rfl

theorem Else.render_layout (style : Style) (level : Nat) : (rest : Else) →
    (rest.layout style level).render indent = rest.print indent style level
  | .absent => rfl
  | .otherwise body => by
    cases style with
    | inline =>
        rw [Else.layout, Else.print]
        simp only [render_append, render_text, Stmt.render_layoutList .inline level body]
    | lines =>
        rw [Else.layout, Else.print]
        simp only [render_append, render_line (opensAlike_text _), render_text,
          Stmt.render_layoutList .lines (level + 1) body]
  | .elseIf test body rest => by
    cases style with
    | inline =>
        rw [Else.layout, Else.print]
        simp only [render_append, render_text, test.render_layout,
          Stmt.render_layoutList .inline level body, rest.render_layout .inline level]
    | lines =>
        rw [Else.layout, Else.print, render_append, render_append,
          render_line (((leads_text rfl).append _).append _).opensAlike]
        simp only [render_append, render_text, test.render_layout,
          Stmt.render_layoutList .lines (level + 1) body, rest.render_layout .lines level]

end

theorem Stmt.printList_lines_cons (level : Nat) (stmt : Stmt) (stmts : List Stmt) :
    Stmt.printList indent .lines level (stmt :: stmts) =
      stmt.print indent .lines level ++ Stmt.printList indent .lines level stmts := by
  cases stmts with
  | nil => simp [Stmt.printList]
  | cons next stmts => simp [Stmt.printList]

/-- Whole lines follow one another with nothing in between. -/
theorem Stmt.printList_lines_append (level : Nat) (first second : List Stmt) :
    Stmt.printList indent .lines level (first ++ second) =
      Stmt.printList indent .lines level first ++ Stmt.printList indent .lines level second := by
  induction first with
  | nil => simp [Stmt.printList]
  | cons stmt stmts ih =>
      rw [List.cons_append, printList_lines_cons, printList_lines_cons, ih, String.append_assoc]

end Lua

/-! ## Converted scripts -/

/-- The captured names that a conversion reports. -/
def Conversion.traces (conversion : Conversion) : List LogEntry :=
  conversion.log.filter (·.level = .trace)

/-- The text in front of the body. -/
def Support.text (support : Support) : String :=
  if support.isEmpty then "" else support.prologue ++ "\n"

theorem Script.File.traces_convert (options : Options) (file : File) :
    (file.convert options).traces =
      (file.analyse options.binding).state.captures.map LogEntry.capture := by
  simp only [Conversion.traces, File.convert]
  cases (file.analyse options.binding).fault? with
  | some fault => simp [LogEntry.level]
  | none =>
      dsimp only
      split <;> simp [LogEntry.level]

theorem Script.File.toLua_of_fault?_eq_some {options : Options} {file : File} {fault : Fault}
    (hfault : (file.analyse options.binding).fault? = some fault) :
    file.toLua options = .error fault := by
  simp [File.toLua, File.convert, hfault]

theorem Script.File.toLua_of_fault?_eq_none {options : Options} {file : File}
    (hfault : (file.analyse options.binding).fault? = none) :
    file.toLua options =
      .ok ((file.layout options.binding (file.analyse options.binding).state.support).render
        options.indent) := by
  simp [File.toLua, File.convert, hfault]

theorem Script.File.toLua_eq_ok_text (options : Options) (file : File)
    (hfault : (file.analyse options.binding).fault? = none) :
    file.toLua options =
      .ok ((file.analyse options.binding).state.support.text ++
        (file.body options.binding).render options.indent) := by
  rw [toLua_of_fault?_eq_none hfault, File.render_layout, Support.text]

/-- The text of a script is printed straight from its code, behind its support code. -/
theorem Script.File.render_layout_eq_print (indent : String) (binding : Binding)
    (support : Support) (file : File) :
    (file.layout binding support).render indent =
      support.text ++ Lua.Stmt.printList indent .lines 0 (file.lower binding) := by
  rw [File.render_layout, File.body, Lua.Stmt.render_layoutList, Support.text]

/-- The indentation changes where lines begin and nothing else.  A script has one fault whatever
the indentation, or one list of pieces that every indentation is put in front of.  The text is that
of the code printed with the indentation at hand, where each line looks at its own text. -/
theorem toLua_eq_render_pieces (globalScope : Bool) (file : File) :
    let binding : Binding := if globalScope then .global else .lexical
    (∃ traces, ∀ indent, (file.convert { globalScope, indent }).traces = traces) ∧
      ((∃ fault, ∀ indent, file.toLua { globalScope, indent } = .error fault) ∨
        ∃ (support : Support) (pieces : List Lua.Piece), ∀ indent,
          file.toLua { globalScope, indent } =
              .ok (String.join (pieces.map fun piece =>
                String.join (List.replicate piece.level indent) ++ piece.text)) ∧
            file.toLua { globalScope, indent } =
              .ok (support.text ++ Lua.Stmt.printList indent .lines 0 (file.lower binding))) := by
  intro binding
  refine ⟨⟨(file.analyse binding).state.captures.map .capture, fun indent =>
    File.traces_convert { globalScope, indent } file⟩, ?_⟩
  cases hfault : (file.analyse binding).fault? with
  | some fault => exact .inl ⟨fault, fun indent => File.toLua_of_fault?_eq_some hfault⟩
  | none =>
      let support := (file.analyse binding).state.support
      refine .inr ⟨support, file.layout binding support, fun indent => ?_⟩
      have htext : file.toLua { globalScope, indent } =
          .ok ((file.layout binding support).render indent) :=
        File.toLua_of_fault?_eq_none hfault
      rw [← File.render_layout_eq_print]
      exact ⟨htext, htext⟩

end LuaBackend
