import LuaBackend.Proofs.PrintedText

/-!
# Texts that are put together alike

Several texts are alike if they are put together from the same segments, where each of them fills in
some of the segments in its own way.  Printed code is alike if its parts are, so that it is enough
to look at the parts that differ.

What differs may be the code that is printed, or the level that it is printed at: code takes the
same text at every level but for the indentation of its lines (`Lua.Expr.indentsAlike`).
-/

namespace LuaBackend.Lua

/-! ## Families of texts -/

/-- Segments are texts, or places that are filled in. -/
def fill {H : Type} (hole : H → String) (segments : List (String ⊕ H)) : String :=
  String.join (segments.map (Sum.elim id hole))

theorem fill_append {H : Type} (hole : H → String) (first second : List (String ⊕ H)) :
    fill hole (first ++ second) = fill hole first ++ fill hole second := by
  rw [fill, fill, fill, List.map_append, String.join_append]

variable {ι H : Type}

/-- All texts of the family have the same segments; `hole i` fills in the places of the `i`-th. -/
def Alike (hole : ι → H → String) (text : ι → String) : Prop :=
  ∃ segments, ∀ i, text i = fill (hole i) segments

/-- All texts of the family begin with the same character, if any. -/
def BeginAlike (text : ι → String) : Prop := ∃ c, ∀ i, (text i).toList.head? = c

namespace Alike

variable {hole : ι → H → String} {first second : ι → String}

theorem const (text : String) : Alike hole fun _ => text := ⟨[.inl text], fun _ => by simp [fill]⟩

theorem append (hfirst : Alike hole first) (hsecond : Alike hole second) :
    Alike hole fun i => first i ++ second i := by
  obtain ⟨segments, hsegments⟩ := hfirst
  obtain ⟨segments', hsegments'⟩ := hsecond
  refine ⟨segments ++ segments', fun i => ?_⟩
  rw [fill_append, ← hsegments, ← hsegments']

end Alike

namespace BeginAlike

variable {first second : ι → String}

theorem const (text : String) : BeginAlike fun _ : ι => text := ⟨_, fun _ => rfl⟩

theorem append (hfirst : BeginAlike first) (hsecond : BeginAlike second) :
    BeginAlike fun i => first i ++ second i := by
  obtain ⟨c, hc⟩ := hfirst
  obtain ⟨c', hc'⟩ := hsecond
  refine ⟨c.or c', fun i => ?_⟩
  rw [String.toList_append, List.head?_append, hc, hc']

/-- Behind a text that is not empty, anything may follow. -/
theorem lead {text : String} {c : Char} (htext : text.toList.head? = some c) (rest : ι → String) :
    BeginAlike fun i => text ++ rest i := by
  refine ⟨some c, fun i => ?_⟩
  rw [String.toList_append, List.head?_append, htext]
  rfl

end BeginAlike

/-! ## Families of printed code -/

def indentation (indent : String) (level : Nat) : String :=
  String.join (List.replicate level indent)

/-- Several ways to print, whose lines are indented alike. -/
structure Printing (ι H : Type) where
  hole : ι → H → String
  indent : ι → String
  level : ι → Nat
  alike_indentation : ∀ offset, Alike hole fun i => indentation (indent i) (level i + offset)

namespace Printing

variable (printing : Printing ι H)

/-- The `i`-th code is printed in the `i`-th way, and this at any number of further levels. -/
structure Exprs (code : ι → Expr) : Prop where
  alike : ∀ offset, Alike printing.hole fun i =>
    (code i).print (printing.indent i) (printing.level i + offset)
  beginAlike : ∀ offset, BeginAlike fun i =>
    (code i).print (printing.indent i) (printing.level i + offset)

def ExprLists (code : ι → List Expr) : Prop :=
  ∀ offset, Alike printing.hole fun i =>
    Expr.printList (printing.indent i) (printing.level i + offset) (code i)

def Fields (code : ι → Field) : Prop :=
  ∀ offset, Alike printing.hole fun i =>
    (code i).print (printing.indent i) (printing.level i + offset)

def FieldLists (code : ι → List Field) : Prop :=
  ∀ offset, Alike printing.hole fun i =>
    Field.printList (printing.indent i) (printing.level i + offset) (code i)

def Stmts (style : Style) (code : ι → Stmt) : Prop :=
  ∀ offset, Alike printing.hole fun i =>
    (code i).print (printing.indent i) style (printing.level i + offset)

def StmtLists (style : Style) (code : ι → List Stmt) : Prop :=
  ∀ offset, Alike printing.hole fun i =>
    Stmt.printList (printing.indent i) style (printing.level i + offset) (code i)

def Elses (style : Style) (code : ι → Else) : Prop :=
  ∀ offset, Alike printing.hole fun i =>
    (code i).print (printing.indent i) style (printing.level i + offset)

variable {printing}

/-- A line looks at the first character of its content, which is always the same. -/
theorem line {content : ι → String} (halike : Alike printing.hole content)
    (hbegin : BeginAlike content) (offset : Nat) :
    Alike printing.hole fun i =>
      printLine (printing.indent i) (printing.level i + offset) (content i) := by
  obtain ⟨c, hc⟩ := hbegin
  have hmark : Alike printing.hole fun i =>
      if (content i).toList.head? = some '(' then ";" else "" := by
    simp only [hc]
    exact .const _
  exact (((printing.alike_indentation offset).append hmark).append halike).append (.const "\n")

theorem lineConst (content : String) (offset : Nat) :
    Alike printing.hole fun i =>
      printLine (printing.indent i) (printing.level i + offset) content :=
  line (.const content) (.const content) offset

theorem place (style : Style) {content : ι → String} (halike : Alike printing.hole content)
    (hbegin : BeginAlike content) (offset : Nat) :
    Alike printing.hole fun i =>
      style.print (printing.indent i) (printing.level i + offset) (content i) := by
  cases style with
  | inline => exact halike
  | lines => exact line halike hbegin offset

/-! ### Expressions -/

namespace Exprs

theorem leaf {code : Expr} {text : String} (hprint : ∀ indent level, code.print indent level = text) :
    printing.Exprs fun _ => code := by
  constructor <;> intro offset
  · simp only [hprint]
    exact .const text
  · simp only [hprint]
    exact .const text

variable {code other : ι → Expr}

theorem paren (h : printing.Exprs code) : printing.Exprs fun i => .paren (code i) where
  alike offset := ((Alike.const "(").append (h.alike offset)).append (.const ")")
  beginAlike offset := ((BeginAlike.const "(").append (h.beginAlike offset)).append (.const ")")

theorem unary (op : UnaryOp) (h : printing.Exprs code) :
    printing.Exprs fun i => .unary op (code i) where
  alike offset := (Alike.const op.lead).append (h.alike offset)
  beginAlike offset := (BeginAlike.const op.lead).append (h.beginAlike offset)

theorem binary (op : BinaryOp) (h : printing.Exprs code) (hother : printing.Exprs other) :
    printing.Exprs fun i => .binary op (code i) (other i) where
  alike offset := ((h.alike offset).append (.const _)).append (hother.alike offset)
  beginAlike offset := ((h.beginAlike offset).append (.const _)).append (hother.beginAlike offset)

theorem index (h : printing.Exprs code) (hkey : printing.Exprs other) :
    printing.Exprs fun i => .index (code i) (other i) where
  alike offset := (((h.alike offset).append (.const "[")).append (hkey.alike offset)).append
    (.const "]")
  beginAlike offset :=
    (((h.beginAlike offset).append (.const "[")).append (hkey.beginAlike offset)).append (.const "]")

theorem call {args : ι → List Expr} (h : printing.Exprs code) (hargs : printing.ExprLists args) :
    printing.Exprs fun i => .call (code i) (args i) where
  alike offset := (((h.alike offset).append (.const "(")).append (hargs offset)).append (.const ")")
  beginAlike offset := by
    simp only [Expr.print, String.append_assoc]
    exact (h.beginAlike offset).append (.lead rfl _)

theorem table {fields : ι → List Field} (h : printing.FieldLists fields) :
    printing.Exprs fun i => .table (fields i) where
  alike offset := ((Alike.const "\x7b").append (h offset)).append (.const "\x7d")
  beginAlike offset := by
    simp only [Expr.print, String.append_assoc]
    exact .lead rfl _

theorem func (style : Style) (params : List String) {body : ι → List Stmt}
    (h : printing.StmtLists style body) : printing.Exprs fun i => .func style params (body i) := by
  have hhead : (functionHead params).toList.head? = some 'f' := by
    rw [functionHead, String.toList_append, String.toList_append]
    rfl
  cases style with
  | inline =>
      refine ⟨fun offset => ((Alike.const _).append (h offset)).append (.const " end"),
        fun offset => ?_⟩
      simp only [Expr.print, String.append_assoc]
      exact .lead hhead _
  | lines =>
      refine ⟨fun offset => ((Alike.const _).append (h (offset + 1))).append
        ((printing.alike_indentation offset).append (.const "end")), fun offset => ?_⟩
      simp only [Expr.print, String.append_assoc]
      exact .lead hhead _

end Exprs

namespace ExprLists

variable {code next : ι → Expr} {rest : ι → List Expr}

theorem nil : printing.ExprLists fun _ => [] := fun _ => .const ""

theorem single (h : printing.Exprs code) : printing.ExprLists fun i => [code i] := h.alike

theorem cons (h : printing.Exprs code) (hrest : printing.ExprLists fun i => next i :: rest i) :
    printing.ExprLists fun i => code i :: next i :: rest i := fun offset =>
  ((h.alike offset).append (.const ", ")).append (hrest offset)

end ExprLists

namespace Fields

variable {code key : ι → Expr}

theorem item (h : printing.Exprs code) : printing.Fields fun i => .item (code i) := h.alike

theorem keyed (hkey : printing.Exprs key) (h : printing.Exprs code) :
    printing.Fields fun i => .keyed (key i) (code i) := fun offset =>
  (((Alike.const "[").append (hkey.alike offset)).append (.const "]=")).append (h.alike offset)

theorem named (name : String) (h : printing.Exprs code) :
    printing.Fields fun i => .named name (code i) := fun offset =>
  ((Alike.const name).append (.const "=")).append (h.alike offset)

end Fields

namespace FieldLists

variable {code next : ι → Field} {rest : ι → List Field}

theorem nil : printing.FieldLists fun _ => [] := fun _ => .const ""

theorem single (h : printing.Fields code) : printing.FieldLists fun i => [code i] := h

theorem cons (h : printing.Fields code) (hrest : printing.FieldLists fun i => next i :: rest i) :
    printing.FieldLists fun i => code i :: next i :: rest i := fun offset =>
  ((h offset).append (.const ", ")).append (hrest offset)

end FieldLists

/-! ### Statements -/

namespace Stmts

variable {style : Style} {code other : ι → Expr} {body : ι → List Stmt}

theorem expr (h : printing.Exprs code) : printing.Stmts style fun i => .expr (code i) :=
  fun offset => place style (h.alike offset) (h.beginAlike offset) offset

theorem assign (htarget : printing.Exprs code) (hvalue : printing.Exprs other) :
    printing.Stmts style fun i => .assign (code i) (other i) := fun offset =>
  place style (((htarget.alike offset).append (.const " = ")).append (hvalue.alike offset))
    (((htarget.beginAlike offset).append (.const " = ")).append (hvalue.beginAlike offset)) offset

/-- A statement that is one text and an expression behind it. -/
theorem led (text : String) (h : printing.Exprs code) (offset : Nat) :
    Alike printing.hole fun i =>
      style.print (printing.indent i) (printing.level i + offset)
        (text ++ (code i).print (printing.indent i) (printing.level i + offset)) :=
  place style ((Alike.const text).append (h.alike offset))
    ((BeginAlike.const text).append (h.beginAlike offset)) offset

theorem localVar (name : String) (h : printing.Exprs code) :
    printing.Stmts style fun i => .localVar name (code i) := led _ h

theorem localRec (name : String) (h : printing.Exprs code) :
    printing.Stmts style fun i => .localRec name (code i) := led _ h

theorem retSome (h : printing.Exprs code) : printing.Stmts style fun i => .ret (some (code i)) :=
  led _ h

theorem retNone : printing.Stmts style fun _ => .ret none := fun offset =>
  place style (.const _) (.const _) offset

theorem breakLoop : printing.Stmts style fun _ => .break := fun offset =>
  place style (.const _) (.const _) offset

theorem block (own : Style) (hbody : printing.StmtLists (style.inside own) body) :
    printing.Stmts style fun i => .block own (body i) := by
  intro offset
  simp only [Stmt.print]
  cases hstyle : style.inside own with
  | inline =>
      rw [hstyle] at hbody
      refine place style (((Alike.const "do ").append (hbody offset)).append (.const " end")) ?_
        offset
      simp only [String.append_assoc]
      exact .lead rfl _
  | lines =>
      rw [hstyle] at hbody
      exact ((lineConst "do" offset).append (hbody (offset + 1))).append (lineConst "end" offset)

theorem cond (own : Style) {rest : ι → Else} (htest : printing.Exprs code)
    (hbody : printing.StmtLists (style.inside own) body)
    (hrest : printing.Elses (style.inside own) rest) :
    printing.Stmts style fun i => .cond own (code i) (body i) (rest i) := by
  intro offset
  simp only [Stmt.print]
  cases hstyle : style.inside own with
  | inline =>
      rw [hstyle] at hbody hrest
      refine place style ((((((Alike.const "if ").append (htest.alike offset)).append
        (.const " then ")).append (hbody offset)).append (hrest offset)).append (.const " end")) ?_
        offset
      simp only [String.append_assoc]
      exact .lead rfl _
  | lines =>
      rw [hstyle] at hbody hrest
      have hline := line (((Alike.const "if ").append (htest.alike offset)).append (.const " then"))
        (((BeginAlike.const "if ").append (htest.beginAlike offset)).append (.const " then")) offset
      exact ((hline.append (hbody (offset + 1))).append (hrest offset)).append
        (lineConst "end" offset)

theorem whileLoop (htest : printing.Exprs code) (hbody : printing.StmtLists style body) :
    printing.Stmts style fun i => .whileLoop (code i) (body i) := by
  intro offset
  cases style with
  | inline =>
      exact ((((Alike.const "while ").append (htest.alike offset)).append (.const " do ")).append
        (hbody offset)).append (.const " end")
  | lines =>
      have hline := line (((Alike.const "while ").append (htest.alike offset)).append
          (.const " do"))
        (((BeginAlike.const "while ").append (htest.beginAlike offset)).append (.const " do")) offset
      exact (hline.append (hbody (offset + 1))).append (lineConst "end" offset)

theorem repeatLoop (hbody : printing.StmtLists style body) (htest : printing.Exprs code) :
    printing.Stmts style fun i => .repeatLoop (body i) (code i) := by
  intro offset
  cases style with
  | inline =>
      exact (((Alike.const "repeat ").append (hbody offset)).append (.const " until ")).append
        (htest.alike offset)
  | lines =>
      have hline := line ((Alike.const "until ").append (htest.alike offset))
        ((BeginAlike.const "until ").append (htest.beginAlike offset)) offset
      exact ((lineConst "repeat" offset).append (hbody (offset + 1))).append hline

theorem forIn (names : List String) (hiterator : printing.Exprs code)
    (hbody : printing.StmtLists style body) :
    printing.Stmts style fun i => .forIn names (code i) (body i) := by
  intro offset
  have hhead := (Alike.const ("for " ++ ", ".intercalate names ++ " in ")).append
    (hiterator.alike offset)
  cases style with
  | inline => exact ((hhead.append (.const " do ")).append (hbody offset)).append (.const " end")
  | lines =>
      have hbegin := (BeginAlike.const ("for " ++ ", ".intercalate names ++ " in ")).append
        (hiterator.beginAlike offset)
      exact ((line (hhead.append (.const " do")) (hbegin.append (.const " do")) offset).append
        (hbody (offset + 1))).append (lineConst "end" offset)

end Stmts

namespace StmtLists

variable {style : Style} {code next : ι → Stmt} {first second rest : ι → List Stmt}

theorem nil : printing.StmtLists style fun _ => [] := fun _ => .const ""

theorem single (h : printing.Stmts style code) : printing.StmtLists style fun i => [code i] := h

theorem cons (h : printing.Stmts style code)
    (hrest : printing.StmtLists style fun i => next i :: rest i) :
    printing.StmtLists style fun i => code i :: next i :: rest i := fun offset =>
  ((h offset).append (.const _)).append (hrest offset)

theorem append (hfirst : printing.StmtLists .lines first)
    (hsecond : printing.StmtLists .lines second) :
    printing.StmtLists .lines fun i => first i ++ second i := by
  intro offset
  simp only [Stmt.printList_lines_append]
  exact (hfirst offset).append (hsecond offset)

end StmtLists

namespace Elses

variable {style : Style} {code : ι → Expr} {body : ι → List Stmt} {rest : ι → Else}

theorem absent : printing.Elses style fun _ => .absent := fun _ => .const ""

theorem otherwise (hbody : printing.StmtLists style body) :
    printing.Elses style fun i => .otherwise (body i) := by
  intro offset
  cases style with
  | inline => exact (Alike.const " else ").append (hbody offset)
  | lines => exact (lineConst "else" offset).append (hbody (offset + 1))

theorem elseIf (htest : printing.Exprs code) (hbody : printing.StmtLists style body)
    (hrest : printing.Elses style rest) :
    printing.Elses style fun i => .elseIf (code i) (body i) (rest i) := by
  intro offset
  cases style with
  | inline =>
      exact ((((Alike.const " elseif ").append (htest.alike offset)).append
        (.const " then ")).append (hbody offset)).append (hrest offset)
  | lines =>
      have hline := line (((Alike.const "elseif ").append (htest.alike offset)).append
          (.const " then"))
        (((BeginAlike.const "elseif ").append (htest.beginAlike offset)).append (.const " then"))
        offset
      exact (hline.append (hbody (offset + 1))).append (hrest offset)

end Elses

end Printing

/-! ## The same code in all ways -/

variable (printing : Printing ι H)

mutual

theorem Expr.printsAlike : (code : Expr) → printing.Exprs fun _ => code
  | .nil | .bool true | .bool false | .numeral _ | .str _ | .name _ => .leaf fun _ _ => rfl
  | .paren expr => expr.printsAlike.paren
  | .unary op expr => expr.printsAlike.unary op
  | .binary op lhs rhs => lhs.printsAlike.binary op rhs.printsAlike
  | .index expr key => expr.printsAlike.index key.printsAlike
  | .call callee args => callee.printsAlike.call (Expr.listPrintsAlike args)
  | .table fields => .table (Field.listPrintsAlike fields)
  | .func style params body => .func style params (Stmt.listPrintsAlike style body)

theorem Expr.listPrintsAlike : (codes : List Expr) → printing.ExprLists fun _ => codes
  | [] => .nil
  | [expr] => .single expr.printsAlike
  | expr :: next :: exprs => .cons expr.printsAlike (Expr.listPrintsAlike (next :: exprs))

theorem Field.printsAlike : (code : Field) → printing.Fields fun _ => code
  | .item value => .item value.printsAlike
  | .keyed key value => .keyed key.printsAlike value.printsAlike
  | .named name value => .named name value.printsAlike

theorem Field.listPrintsAlike : (codes : List Field) → printing.FieldLists fun _ => codes
  | [] => .nil
  | [field] => .single field.printsAlike
  | field :: next :: fields => .cons field.printsAlike (Field.listPrintsAlike (next :: fields))

theorem Stmt.printsAlike (style : Style) : (code : Stmt) → printing.Stmts style fun _ => code
  | .expr expr => .expr expr.printsAlike
  | .assign target value => .assign target.printsAlike value.printsAlike
  | .localVar name value => .localVar name value.printsAlike
  | .localRec name value => .localRec name value.printsAlike
  | .ret none => .retNone
  | .ret (some value) => .retSome value.printsAlike
  | .break => .breakLoop
  | .block own body => .block own (Stmt.listPrintsAlike _ body)
  | .cond own test body rest =>
    .cond own test.printsAlike (Stmt.listPrintsAlike _ body) (rest.printsAlike _)
  | .whileLoop test body => .whileLoop test.printsAlike (Stmt.listPrintsAlike style body)
  | .repeatLoop body test => .repeatLoop (Stmt.listPrintsAlike style body) test.printsAlike
  | .forIn names iterator body =>
    .forIn names iterator.printsAlike (Stmt.listPrintsAlike style body)

theorem Stmt.listPrintsAlike (style : Style) : (codes : List Stmt) →
    printing.StmtLists style fun _ => codes
  | [] => .nil
  | [stmt] => .single (stmt.printsAlike style)
  | stmt :: next :: stmts =>
    .cons (stmt.printsAlike style) (Stmt.listPrintsAlike style (next :: stmts))

theorem Else.printsAlike (style : Style) : (code : Else) → printing.Elses style fun _ => code
  | .absent => .absent
  | .otherwise body => .otherwise (Stmt.listPrintsAlike style body)
  | .elseIf test body rest =>
    .elseIf test.printsAlike (Stmt.listPrintsAlike style body) (rest.printsAlike style)

end

/-! ## Levels -/

end LuaBackend.Lua
