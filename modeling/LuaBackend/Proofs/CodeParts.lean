import LuaBackend.Proofs.PrintedText

/-!
# Parts of generated code

The code of a script has the code of every expression of the script as a part, and so the text of
the script has the text of every expression in it, at some level of indentation.  The same holds of
assignments, each of which takes a line of its own.

`Lua.Stmt.partsOfList` lists the parts of code, `Prints` says that parts stand in a text, and
`Emits` that the code of some nodes is among parts.
-/

namespace LuaBackend

open Script

/-! ## Parts and their texts -/

namespace Lua

/-- A piece of code inside other code. -/
inductive Part where
  | expr (code : Expr)
  | stmt (style : Style) (code : Stmt)

def Part.print (indent : String) (level : Nat) : Part → String
  | .expr code => code.print indent level
  | .stmt style code => code.print indent style level

mutual

/-- An expression is a part of itself. -/
def Expr.parts : Expr → List Part
  | .nil => [.expr .nil]
  | .bool value => [.expr (.bool value)]
  | .numeral text => [.expr (.numeral text)]
  | .str value => [.expr (.str value)]
  | .name name => [.expr (.name name)]
  | .paren expr => .expr (.paren expr) :: expr.parts
  | .unary op expr => .expr (.unary op expr) :: expr.parts
  | .binary op lhs rhs => .expr (.binary op lhs rhs) :: (lhs.parts ++ rhs.parts)
  | .index expr key => .expr (.index expr key) :: (expr.parts ++ key.parts)
  | .call callee args => .expr (.call callee args) :: (callee.parts ++ Expr.partsOfList args)
  | .table fields => .expr (.table fields) :: Field.partsOfList fields
  | .func style params body =>
    .expr (.func style params body) :: Stmt.partsOfList style body

def Expr.partsOfList : List Expr → List Part
  | [] => []
  | expr :: exprs => expr.parts ++ Expr.partsOfList exprs

def Field.parts : Field → List Part
  | .item value | .named _ value => value.parts
  | .keyed key value => key.parts ++ value.parts

def Field.partsOfList : List Field → List Part
  | [] => []
  | field :: fields => field.parts ++ Field.partsOfList fields

/-- The style is that of the code around the statement. -/
def Stmt.parts (style : Style) : Stmt → List Part
  | .expr expr => .stmt style (.expr expr) :: expr.parts
  | .assign target value => .stmt style (.assign target value) :: (target.parts ++ value.parts)
  | .localVar name value => .stmt style (.localVar name value) :: value.parts
  | .localRec name value => .stmt style (.localRec name value) :: value.parts
  | .ret none => [.stmt style (.ret none)]
  | .ret (some value) => .stmt style (.ret (some value)) :: value.parts
  | .break => [.stmt style .break]
  | .block own body =>
    .stmt style (.block own body) :: Stmt.partsOfList (style.inside own) body
  | .cond own test body rest =>
    .stmt style (.cond own test body rest) ::
      (test.parts ++ Stmt.partsOfList (style.inside own) body ++ rest.parts (style.inside own))
  | .whileLoop test body =>
    .stmt style (.whileLoop test body) :: (test.parts ++ Stmt.partsOfList style body)
  | .repeatLoop body test =>
    .stmt style (.repeatLoop body test) :: (Stmt.partsOfList style body ++ test.parts)
  | .forIn names iterator body =>
    .stmt style (.forIn names iterator body) :: (iterator.parts ++ Stmt.partsOfList style body)

def Stmt.partsOfList (style : Style) : List Stmt → List Part
  | [] => []
  | stmt :: stmts => stmt.parts style ++ Stmt.partsOfList style stmts

def Else.parts (style : Style) : Else → List Part
  | .absent => []
  | .otherwise body => Stmt.partsOfList style body
  | .elseIf test body rest =>
    test.parts ++ Stmt.partsOfList style body ++ rest.parts style

end

/-- The text stands in another one. -/
def Occurs (text whole : String) : Prop := ∃ before after, whole = before ++ text ++ after

namespace Occurs

variable {text first second : String}

theorem refl (text : String) : Occurs text text := ⟨"", "", by simp⟩

theorem left (h : Occurs text first) : Occurs text (first ++ second) := by
  obtain ⟨before, after, rfl⟩ := h
  exact ⟨before, after ++ second, by simp only [String.append_assoc]⟩

theorem right (h : Occurs text second) : Occurs text (first ++ second) := by
  obtain ⟨before, after, rfl⟩ := h
  exact ⟨first ++ before, after, by simp only [String.append_assoc]⟩

end Occurs

/-- Each of the parts stands in the text, at some level of its own. -/
def Prints (indent : String) (parts : List Part) (text : String) : Prop :=
  ∀ part ∈ parts, ∃ level, Occurs (part.print indent level) text

namespace Prints

variable {indent first second text : String} {parts parts' : List Part} {level : Nat}

theorem nil : Prints indent [] text := fun _ hmem => absurd hmem List.not_mem_nil

theorem left (h : Prints indent parts first) : Prints indent parts (first ++ second) :=
  fun part hmem => (h part hmem).imp fun _ => .left

theorem right (h : Prints indent parts second) : Prints indent parts (first ++ second) :=
  fun part hmem => (h part hmem).imp fun _ => .right

theorem append (h : Prints indent parts first) (h' : Prints indent parts' second) :
    Prints indent (parts ++ parts') (first ++ second) :=
  List.forall_mem_append.2 ⟨h.left, h'.right⟩

/-- An expression stands in its own text. -/
theorem expr {code : Expr} (h : Prints indent parts (code.print indent level)) :
    Prints indent (.expr code :: parts) (code.print indent level) :=
  List.forall_mem_cons.2 ⟨⟨level, .refl _⟩, h⟩

theorem stmt {style : Style} {code : Stmt}
    (h : Prints indent parts (code.print indent style level)) :
    Prints indent (.stmt style code :: parts) (code.print indent style level) :=
  List.forall_mem_cons.2 ⟨⟨level, .refl _⟩, h⟩

theorem line (h : Prints indent parts text) : Prints indent parts (printLine indent level text) :=
  h.right.left

theorem place (style : Style) (h : Prints indent parts text) :
    Prints indent parts (style.print indent level text) := by
  cases style with
  | inline => exact h
  | lines => exact h.line

end Prints

variable {indent : String}

mutual

theorem Expr.prints (level : Nat) : (expr : Expr) →
    Prints indent expr.parts (expr.print indent level)
  | .nil | .bool _ | .numeral _ | .str _ | .name _ => .expr .nil
  | .paren expr => .expr (expr.prints level).right.left
  | .unary _ expr => .expr (expr.prints level).right
  | .binary _ lhs rhs => .expr ((lhs.prints level).left.append (rhs.prints level))
  | .index expr key => .expr ((expr.prints level).left.append (key.prints level)).left
  | .call callee args =>
    .expr ((callee.prints level).left.append (Expr.prints_printList level args)).left
  | .table fields => .expr (Field.prints_printList level fields).right.left
  | .func .inline _ body => .expr (Stmt.prints_printList .inline level body).right.left
  | .func .lines _ body => .expr (Stmt.prints_printList .lines (level + 1) body).right.left

theorem Expr.prints_printList (level : Nat) : (exprs : List Expr) →
    Prints indent (Expr.partsOfList exprs) (Expr.printList indent level exprs)
  | [] => .nil
  | [expr] => by
    rw [Expr.partsOfList, Expr.partsOfList, List.append_nil]
    exact expr.prints level
  | expr :: next :: exprs => (expr.prints level).left.append (Expr.prints_printList level _)

theorem Field.prints (level : Nat) : (field : Field) →
    Prints indent field.parts (field.print indent level)
  | .item value => value.prints level
  | .keyed key value => (key.prints level).right.left.append (value.prints level)
  | .named _ value => (value.prints level).right

theorem Field.prints_printList (level : Nat) : (fields : List Field) →
    Prints indent (Field.partsOfList fields) (Field.printList indent level fields)
  | [] => .nil
  | [field] => by
    rw [Field.partsOfList, Field.partsOfList, List.append_nil]
    exact field.prints level
  | field :: next :: fields => (field.prints level).left.append (Field.prints_printList level _)

theorem Stmt.prints (style : Style) (level : Nat) : (stmt : Stmt) →
    Prints indent (stmt.parts style) (stmt.print indent style level)
  | .expr expr => .stmt ((expr.prints level).place style)
  | .assign target value =>
    .stmt (((target.prints level).left.append (value.prints level)).place style)
  | .localVar name value | .localRec name value => .stmt ((value.prints level).right.place style)
  | .ret none | .break => .stmt .nil
  | .ret (some value) => .stmt ((value.prints level).right.place style)
  | .block own body => by
    refine .stmt ?_
    rw [Stmt.print]
    split
    · next hstyle =>
        rw [hstyle]
        exact (Stmt.prints_printList .inline level body).right.left.place style
    · next hstyle =>
        rw [hstyle]
        exact (Stmt.prints_printList .lines (level + 1) body).right.left
  | .cond own test body rest => by
    refine .stmt ?_
    rw [Stmt.print]
    split
    · next hstyle =>
        rw [hstyle]
        have hbody := Stmt.prints_printList .inline level body
        exact ((((test.prints level).right.left.append hbody).append
          (rest.prints .inline level)).left).place style
    · next hstyle =>
        rw [hstyle]
        have hbody := Stmt.prints_printList .lines (level + 1) body
        exact ((((test.prints level).right.left.line).append hbody).append
          (rest.prints .lines level)).left
  | .whileLoop test body => by
    refine .stmt ?_
    cases style with
    | inline =>
        exact ((test.prints level).right.left.append (Stmt.prints_printList .inline level body)).left
    | lines =>
        exact ((test.prints level).right.left.line.append
          (Stmt.prints_printList .lines (level + 1) body)).left
  | .repeatLoop body test => by
    refine .stmt ?_
    cases style with
    | inline =>
        exact (Stmt.prints_printList .inline level body).right.left.append (test.prints level)
    | lines =>
        exact (Stmt.prints_printList .lines (level + 1) body).right.append
          (test.prints level).right.line
  | .forIn names iterator body => by
    refine .stmt ?_
    cases style with
    | inline =>
        exact ((iterator.prints level).right.left.append
          (Stmt.prints_printList .inline level body)).left
    | lines =>
        exact ((iterator.prints level).right.left.line.append
          (Stmt.prints_printList .lines (level + 1) body)).left

theorem Stmt.prints_printList (style : Style) (level : Nat) : (stmts : List Stmt) →
    Prints indent (Stmt.partsOfList style stmts) (Stmt.printList indent style level stmts)
  | [] => .nil
  | [stmt] => by
    rw [Stmt.partsOfList, Stmt.partsOfList, List.append_nil]
    exact stmt.prints style level
  | stmt :: next :: stmts =>
    (stmt.prints style level).left.append (Stmt.prints_printList style level _)

theorem Else.prints (style : Style) (level : Nat) : (rest : Else) →
    Prints indent (rest.parts style) (rest.print indent style level)
  | .absent => .nil
  | .otherwise body => by
    cases style with
    | inline => exact (Stmt.prints_printList .inline level body).right
    | lines => exact (Stmt.prints_printList .lines (level + 1) body).right
  | .elseIf test body rest => by
    cases style with
    | inline =>
        have hbody := Stmt.prints_printList .inline level body
        exact ((test.prints level).right.left.append hbody).append (rest.prints .inline level)
    | lines =>
        have hbody := Stmt.prints_printList .lines (level + 1) body
        exact ((test.prints level).right.left.line.append hbody).append (rest.prints .lines level)

end

/-! ## Parts of code that is put together -/

@[simp] theorem Stmt.partsOfList_append (style : Style) (first second : List Stmt) :
    Stmt.partsOfList style (first ++ second) =
      Stmt.partsOfList style first ++ Stmt.partsOfList style second := by
  induction first with
  | nil => rfl
  | cons stmt first ih => simp [Stmt.partsOfList, ih]

/-- A statement is a part of itself. -/
theorem Stmt.map_stmt_subset_partsOfList (style : Style) (stmts : List Stmt) :
    stmts.map (.stmt style) ⊆ Stmt.partsOfList style stmts := by
  induction stmts with
  | nil => exact List.nil_subset _
  | cons stmt stmts ih =>
      have hself : Part.stmt style stmt ∈ stmt.parts style := by
        cases stmt with
        | ret value => cases value <;> exact List.mem_cons_self
        | _ => exact List.mem_cons_self
      refine List.cons_subset.2 ⟨List.mem_append_left _ hself, ?_⟩
      exact List.subset_append_of_subset_right _ ih

theorem Field.partsOfList_append (first second : List Field) :
    Field.partsOfList (first ++ second) =
      Field.partsOfList first ++ Field.partsOfList second := by
  induction first with
  | nil => rfl
  | cons field first ih => simp [Field.partsOfList, ih]

theorem Expr.partsOfList_subset_array (elements : List Expr) :
    Expr.partsOfList elements ⊆ (Expr.array elements).parts := by
  have hitems : ∀ others : List Expr, Expr.partsOfList others ⊆
      Field.partsOfList (others.map fun value => .item (.paren value)) := by
    intro others
    induction others with
    | nil => exact List.nil_subset _
    | cons value others ih =>
        exact List.append_subset.2
          ⟨List.subset_append_of_subset_left _ (List.subset_cons_self _ _),
            List.subset_append_of_subset_right _ ih⟩
  intro part hmem
  cases elements with
  | nil => cases hmem
  | cons first others =>
      simp only [Expr.partsOfList, List.mem_append] at hmem
      simp only [Expr.array, Expr.parts, Field.partsOfList_append, Field.partsOfList, Field.parts,
        List.cons_append, List.mem_cons, List.mem_append]
      rcases hmem with hfirst | hothers
      · simp [hfirst]
      · simp [hitems others hothers]

theorem Stmt.parts_subset_bind (binding : Binding) (isFunction : Bool) (name : String)
    (value : Expr) :
    value.parts ⊆ Stmt.partsOfList .lines [Stmt.bind binding isFunction name value] := by
  intro part hmem
  cases binding with
  | global => simp [Stmt.bind, Stmt.partsOfList, Stmt.parts, hmem]
  | lexical => cases isFunction <;> simp [Stmt.bind, Stmt.partsOfList, Stmt.parts, hmem]

theorem Stmt.parts_subset_afterRound (flag : String) (post : List Stmt) :
    Stmt.partsOfList .lines post ⊆ (Stmt.afterRound flag (some post)).parts .lines := by
  intro part hmem
  simp [Stmt.afterRound, Stmt.parts, Style.inside, hmem]

/-- The body of a loop and what follows it are run in every round. -/
theorem Stmt.parts_subset_round (flag : String) (body : List Stmt) (fallsThrough : Bool)
    (next : Stmt) :
    Stmt.partsOfList .lines body ++ next.parts .lines ⊆
      Stmt.partsOfList .lines (Stmt.guarded flag body fallsThrough ++ [next]) := by
  intro part
  simp only [Stmt.guarded, Stmt.partsOfList_append, Stmt.partsOfList, Stmt.parts, List.mem_append,
    List.mem_cons]
  tauto

end Lua

/-! ## The code of the nodes of a tree -/

namespace Script

/-- The statement writes to what exists already: an assignment or an increment. -/
def Stmt.isUpdate : Stmt → Bool
  | .incDec .. => true
  | .assign _ op _ _ => op != .define
  | _ => false

theorem Stmt.lower_of_isUpdate {place : Place} {stmt : Stmt} (hfits : (Node.stmt stmt).Fits place)
    (hupdate : stmt.isUpdate) (binding : Binding) (depth : Nat) :
    stmt.lower binding depth = stmt.lower .lexical 0 := by
  cases stmt with
  | incDec => rfl
  | assign pos op lhs rhs =>
      obtain ⟨target, value, rfl, rfl, ⟨rfl, -⟩ | ⟨-, -, hcode | ⟨luaOp, hcode⟩⟩⟩ :=
        Stmt.lower_assign hfits
      · cases hupdate
      · rw [hcode, hcode]
      · rw [hcode, hcode]
  | _ => cases hupdate

end Script

namespace Node

/-- The nodes of an expression or an update. -/
def sites (place : Place) : Node → List Site
  | .expr content => content.sites place
  | .stmt content => if content.isUpdate then content.sites place else []
  | .binder _ => []

/-- The code of an expression with its parts, or that of an update. -/
def parts : Node → List Lua.Part
  | .expr content => content.lower.parts
  | .stmt content =>
    if content.isUpdate then (content.lower .lexical 0).map (.stmt .lines) else []
  | .binder _ => []

end Node

/-- The nodes inside each node are among the nodes, and its code is among the parts. -/
def Emits (sites : List Site) (parts : List Lua.Part) : Prop :=
  ∀ site ∈ sites, site.node.sites site.place ⊆ sites ∧ site.node.parts ⊆ parts

namespace Emits

variable {place : Place} {sites sites' : List Site} {parts parts' : List Lua.Part}

theorem nil : Emits [] parts := fun _ hmem => absurd hmem List.not_mem_nil

theorem mono (h : Emits sites parts) (hparts : parts ⊆ parts') : Emits sites parts' :=
  fun site hmem => ⟨(h site hmem).1, List.Subset.trans (h site hmem).2 hparts⟩

theorem append (h : Emits sites parts) (h' : Emits sites' parts) : Emits (sites ++ sites') parts := by
  refine List.forall_mem_append.2 ⟨fun site hmem => ?_, fun site hmem => ?_⟩
  · exact ⟨List.subset_append_of_subset_left _ (h site hmem).1, (h site hmem).2⟩
  · exact ⟨List.subset_append_of_subset_right _ (h' site hmem).1, (h' site hmem).2⟩

theorem cons {site : Site} (h : Emits sites parts)
    (hsites : site.node.sites site.place ⊆ site :: sites) (hparts : site.node.parts ⊆ parts) :
    Emits (site :: sites) parts :=
  List.forall_mem_cons.2 ⟨⟨hsites, hparts⟩, fun site hmem =>
    ⟨List.subset_cons_of_subset _ (h site hmem).1, (h site hmem).2⟩⟩

/-- The nodes of an expression are the expression and those inside of it. -/
theorem expr {expr : Expr} (h : Emits sites expr.lower.parts)
    (hsites : expr.sites place = ⟨place, .expr expr⟩ :: sites) :
    Emits (expr.sites place) expr.lower.parts := by
  rw [hsites]
  refine h.cons ?_ (List.Subset.refl _)
  change expr.sites place ⊆ _
  rw [hsites]
  exact List.Subset.refl _

/-- A statement that is no update adds nothing to what is inside of it. -/
theorem stmt {stmt : Stmt} (h : Emits sites parts) (hother : stmt.isUpdate = false) :
    Emits (⟨place, .stmt stmt⟩ :: sites) parts := by
  refine h.cons ?_ ?_
  · rw [Node.sites, hother]
    exact List.nil_subset _
  · rw [Node.parts, hother]
    exact List.nil_subset _

/-- The code of an update is one of its parts. -/
theorem update {stmt : Stmt} (hsites : stmt.sites place = ⟨place, .stmt stmt⟩ :: sites)
    (h : Emits sites (Lua.Stmt.partsOfList .lines (stmt.lower .lexical 0))) :
    Emits (stmt.sites place) (Lua.Stmt.partsOfList .lines (stmt.lower .lexical 0)) := by
  rw [hsites]
  refine h.cons ?_ ?_
  · rw [Node.sites]
    split
    · rw [hsites]
      exact List.Subset.refl _
    · exact List.nil_subset _
  · rw [Node.parts]
    split
    · exact Lua.Stmt.map_stmt_subset_partsOfList .lines _
    · exact List.nil_subset _

theorem binders (place : Place) (ids : List Ident) : Emits (place.binders ids) parts := by
  induction ids generalizing place with
  | nil => exact nil
  | cons id ids ih => exact (ih _).cons (List.nil_subset _) (List.nil_subset _)

end Emits

namespace Script

theorem Stmt.parts_subset_loop (binding : Binding) (depth : Nat) (pos : Pos) (init : Option Stmt)
    (test : Option Expr) (post : Option Stmt) (body : Block) :
    Lua.Stmt.partsOfList .lines (Stmt.lowerOption depth init) ++
        (Expr.lowerOption (.bool true) test).parts ++
        Lua.Stmt.partsOfList .lines (body.lower .lexical (depth + 1)) ++
        (Lua.Stmt.afterRound (Names.continueFlag (depth + 1))
          (post.map (Stmt.lower .lexical (depth + 1)))).parts .lines ⊆
      Lua.Stmt.partsOfList .lines
        (Stmt.lower binding depth (.loop pos init test post body)) := by
  have hround := Lua.Stmt.parts_subset_round (Names.continueFlag (depth + 1))
    (body.lower .lexical (depth + 1)) body.fallsThrough
    (.afterRound (Names.continueFlag (depth + 1)) (post.map (Stmt.lower .lexical (depth + 1))))
  intro part hmem
  have hpart := hround (a := part)
  rw [Stmt.lower_loop]
  cases init with
  | none =>
      simp only [Stmt.lowerOption, Lua.Stmt.partsOfList, Lua.Stmt.parts, Option.isSome_none,
        Bool.false_eq_true, if_false, List.append_nil, List.nil_append, List.mem_append,
        List.mem_cons] at hmem hpart ⊢
      tauto
  | some init =>
      simp only [Stmt.lowerOption, Lua.Stmt.partsOfList_append, Lua.Stmt.partsOfList,
        Lua.Stmt.parts, Lua.Style.inside, Option.isSome_some, if_true, List.append_nil,
        List.mem_append, List.mem_cons] at hmem hpart ⊢
      tauto

mutual

theorem Expr.emits (place : Place) : (expr : Expr) → AllFit (expr.sites place) →
    Emits (expr.sites place) expr.lower.parts
  | .ident .., _ | .int .., _ | .float .., _ | .bool .., _ | .str .., _ | .undefined .., _ =>
    .expr .nil rfl
  | .char .., h | .importModule .., h | .error .., h | .immutable .., h =>
    absurd (h _ List.mem_cons_self) id
  | .paren _ expr, h => by
    simp only [Expr.sites, allFit_cons] at h
    exact .expr ((expr.emits place h.2).mono (List.subset_cons_self _ _)) rfl
  | .binary pos op lhs rhs, h => by
    simp only [Expr.sites, allFit_cons, allFit_append] at h
    obtain ⟨hfits, hlhs, hrhs⟩ := h
    obtain ⟨luaOp, hlower⟩ := Expr.lower_binary hfits
    refine .expr (.append ((lhs.emits place hlhs).mono ?_) ((rhs.emits place hrhs).mono ?_)) rfl
    all_goals
      intro part hmem
      simp [hlower, Lua.Expr.operate, Lua.Expr.parts, hmem]
  | .unary pos op expr, h => by
    simp only [Expr.sites, allFit_cons] at h
    obtain ⟨luaOp, hlower⟩ := Expr.lower_unary h.1
    refine .expr ((expr.emits place h.2).mono ?_) rfl
    intro part hmem
    simp [hlower, Lua.Expr.parts, hmem]
  | .selector _ expr field, h => by
    simp only [Expr.sites, allFit_cons] at h
    refine .expr ((expr.emits place h.2).mono ?_) rfl
    intro part hmem
    simp [Expr.lower, Lua.Expr.parts, hmem]
  | .index _ expr key, h => by
    simp only [Expr.sites, allFit_cons, allFit_append] at h
    refine .expr (.append ((expr.emits place h.2.1).mono ?_) ((key.emits place h.2.2).mono ?_)) rfl
    all_goals
      intro part hmem
      simp [Expr.lower, Lua.Expr.parts, hmem]
  | .slice _ expr low high, h => by
    simp only [Expr.sites, allFit_cons, allFit_append] at h
    obtain ⟨-, ⟨hexpr, hlow⟩, hhigh⟩ := h
    refine .expr (.append (.append ((expr.emits place hexpr).mono ?_)
      ((Expr.emits_option place (.numeral "0") low hlow).mono ?_))
      ((Expr.emits_option place .nil high hhigh).mono ?_)) rfl
    all_goals
      intro part hmem
      simp [Expr.lower, Lua.Expr.parts, Lua.Expr.partsOfList, hmem]
  | .cond _ test whenTrue whenFalse, h => by
    simp only [Expr.sites, allFit_cons, allFit_append] at h
    obtain ⟨-, ⟨htest, hwhenTrue⟩, hwhenFalse⟩ := h
    refine .expr (.append (.append ((test.emits place htest).mono ?_)
      ((whenTrue.emits place hwhenTrue).mono ?_)) ((whenFalse.emits place hwhenFalse).mono ?_)) rfl
    all_goals
      intro part hmem
      simp [Expr.lower, Lua.Expr.choose, Lua.Expr.parts, Lua.Expr.partsOfList,
      Lua.Stmt.partsOfList, Lua.Stmt.parts, Lua.Else.parts, Lua.Style.inside, hmem]
  | .call _ callee args, h => by
    simp only [Expr.sites, allFit_cons, allFit_append] at h
    refine .expr (.append ((callee.emits place h.2.1).mono ?_)
      ((Expr.emits_list place args h.2.2).mono ?_)) rfl
    all_goals
      intro part hmem
      simp [Expr.lower, Lua.Expr.parts, hmem]
  | .array _ elements, h => by
    simp only [Expr.sites, allFit_cons] at h
    exact .expr ((Expr.emits_list place elements h.2).mono
      (Lua.Expr.partsOfList_subset_array _)) rfl
  | .map _ elements, h => by
    simp only [Expr.sites, allFit_cons] at h
    exact .expr ((MapElement.emits_list place elements h.2).mono (List.subset_cons_self _ _)) rfl
  | .func _ params body, h => by
    simp only [Expr.sites, allFit_cons, allFit_append] at h
    exact .expr (.append (.binders _ _) ((body.emits _ .lexical 0 h.2.2).mono
      (List.subset_cons_self _ _))) rfl

theorem Expr.emits_option (place : Place) (default : Lua.Expr) : (expr : Option Expr) →
    AllFit (Expr.sitesOfOption place expr) →
      Emits (Expr.sitesOfOption place expr) (Expr.lowerOption default expr).parts
  | none, _ => .nil
  | some expr, h => expr.emits place h

theorem Expr.emits_list (place : Place) : (exprs : List Expr) →
    AllFit (Expr.sitesOfList place exprs) →
      Emits (Expr.sitesOfList place exprs) (Lua.Expr.partsOfList (Expr.lowerList exprs))
  | [], _ => .nil
  | expr :: exprs, h => by
    simp only [Expr.sitesOfList, allFit_append] at h
    exact .append ((expr.emits place h.1).mono (List.subset_append_left _ _))
      ((Expr.emits_list place exprs h.2).mono (List.subset_append_right _ _))

theorem MapElement.emits_list (place : Place) : (elements : List MapElement) →
    AllFit (MapElement.sitesOfList place elements) →
      Emits (MapElement.sitesOfList place elements)
        (Lua.Field.partsOfList (MapElement.lowerList elements))
  | [], _ => .nil
  | ⟨_, key, value⟩ :: elements, h => by
    simp only [MapElement.sitesOfList, allFit_append] at h
    refine .append ((value.emits place h.1).mono ?_)
      ((MapElement.emits_list place elements h.2).mono (List.subset_append_right _ _))
    intro part hmem
    simp [MapElement.lowerList, Lua.Field.partsOfList, Lua.Field.parts, Lua.Expr.parts, hmem]

theorem Stmt.emits (place : Place) (binding : Binding) (depth : Nat) : (stmt : Stmt) →
    AllFit (stmt.sites place) →
      Emits (stmt.sites place) (Lua.Stmt.partsOfList .lines (stmt.lower binding depth))
  | .expr _ expr, h => by
    simp only [Stmt.sites, allFit_cons] at h
    refine .stmt ((expr.emits place h.2).mono ?_) rfl
    simp [Stmt.lower, Lua.Stmt.partsOfList, Lua.Stmt.parts]
  | .incDec pos op target, h => by
    simp only [Stmt.sites, allFit_cons] at h
    refine .update rfl ((target.emits place h.2).mono ?_)
    intro part hmem
    simp [Stmt.lower, Lua.Stmt.update, Lua.Stmt.partsOfList, Lua.Stmt.parts, hmem]
  | .assign pos op [target] [value], h => by
    have hfits : (Node.stmt (.assign pos op [target] [value])).Fits place :=
      h _ List.mem_cons_self
    simp only [Stmt.sites, Expr.sitesOfList, List.append_nil, List.any_cons, List.any_nil,
      Bool.or_false, allFit_cons, allFit_append] at h
    obtain ⟨-, hlhs, hrhs⟩ := h
    have hvalue := value.emits _ hrhs
    obtain ⟨_, _, hleft, hright, hcases⟩ := Stmt.lower_assign hfits
    obtain rfl := List.singleton_inj.1 hleft
    obtain rfl := List.singleton_inj.1 hright
    by_cases hop : op = .define
    · subst hop
      obtain ⟨-, id, rfl, hlower⟩ | ⟨hop, -⟩ := hcases
      · have hbinder : Emits [⟨place, .binder id⟩] (Lua.Stmt.partsOfList .lines
            (Stmt.lower binding depth (.assign pos .define [.ident id] [value]))) :=
          Emits.nil.cons (List.nil_subset _) (List.nil_subset _)
        simp only [Stmt.sites, Expr.sitesOfList, Expr.sitesOfDefined, List.append_nil, if_true,
          List.any_cons, List.any_nil, Bool.or_false]
        refine .stmt (hbinder.append (hvalue.mono ?_)) rfl
        rw [hlower]
        exact Lua.Stmt.parts_subset_bind ..
      · exact absurd rfl hop
    · rw [Stmt.lower_of_isUpdate hfits (by simp [Stmt.isUpdate, hop])]
      rw [if_neg hop] at hlhs
      have htarget := target.emits place hlhs
      refine .update (by simp [Stmt.sites, Expr.sitesOfList, hop])
        (.append (htarget.mono ?_) (hvalue.mono ?_))
      all_goals
        intro part hmem
        obtain ⟨hdefine, -⟩ | ⟨-, -, hlower | ⟨luaOp, hlower⟩⟩ := hcases
        · exact absurd hdefine hop
        · simp [hlower, Lua.Stmt.partsOfList, Lua.Stmt.parts, hmem]
        · simp [hlower, Lua.Stmt.update, Lua.Expr.operate, Lua.Expr.parts, Lua.Stmt.partsOfList,
            Lua.Stmt.parts, hmem]
  | .assign _ _ [] _, h | .assign _ _ (_ :: _ :: _) _, h | .assign _ _ [_] [], h
  | .assign _ _ [_] (_ :: _ :: _), h => by
    simp [Stmt.sites, Node.Fits] at h
  | .ret _ result, h => Stmt.emits_ret place .lines binding depth result h
  | .branch .., _ => .stmt .nil rfl
  | .block body, h => by
    simp only [Stmt.sites, allFit_cons] at h
    refine .stmt ((body.emits place.enter .lexical depth h.2).mono ?_) rfl
    simp [Stmt.lower, Lua.Stmt.partsOfList, Lua.Stmt.parts, Lua.Style.inside]
  | .ifElse _ init test body rest, h => by
    simp only [Stmt.sites, allFit_cons, allFit_append] at h
    obtain ⟨-, ⟨⟨hinit, htest⟩, hbody⟩, hrest⟩ := h
    refine .stmt (.append (.append (.append ((Stmt.emits_option _ depth init hinit).mono ?_)
      ((test.emits _ htest).mono ?_)) ((body.emits _ .lexical depth hbody).mono ?_))
      ((Stmt.emits_else _ depth rest hrest).mono ?_)) rfl
    all_goals
      intro part hmem
      simp [Stmt.lower, Lua.Stmt.partsOfList, Lua.Stmt.parts, Lua.Style.inside, hmem]
  | .loop pos init test post body, h => by
    simp only [Stmt.sites, allFit_cons, allFit_append] at h
    obtain ⟨-, ⟨⟨hinit, htest⟩, hbody⟩, hpost⟩ := h
    have hcode := Stmt.parts_subset_loop binding depth pos init test post body
    simp only [List.append_subset] at hcode
    obtain ⟨⟨⟨hinitCode, htestCode⟩, hbodyCode⟩, hpostCode⟩ := hcode
    exact .stmt (.append (.append (.append ((Stmt.emits_option _ depth init hinit).mono hinitCode)
      ((Expr.emits_option _ (.bool true) test htest).mono htestCode))
      ((body.emits _ .lexical (depth + 1) hbody).mono hbodyCode))
      ((Stmt.emits_afterRound _ _ (depth + 1) post hpost).mono hpostCode)) rfl
  | .forIn _ key value iterable body, h => by
    simp only [Stmt.sites, allFit_cons, allFit_append] at h
    obtain ⟨-, ⟨hiterable, -⟩, hbody⟩ := h
    have hround := Lua.Stmt.parts_subset_round (Names.continueFlag (depth + 1))
      (body.lower .lexical (depth + 1)) body.fallsThrough
      (.breakUnless (Names.continueFlag (depth + 1)))
    refine .stmt (.append (.append ((iterable.emits _ hiterable).mono ?_) (.binders _ _))
      ((body.emits _ .lexical (depth + 1) hbody).mono ?_)) rfl
    · intro part hmem
      simp [Stmt.lower, Lua.Stmt.partsOfList, Lua.Stmt.parts, Lua.Expr.parts,
        Lua.Expr.partsOfList, hmem]
    · intro part hmem
      have hpart := hround (List.mem_append_left _ hmem)
      simp [Stmt.lower, Lua.Stmt.partsOfList, Lua.Stmt.parts] at hpart ⊢
      tauto
  | .exportValue .., h => absurd (h _ List.mem_cons_self) id

theorem Stmt.emits_ret (place : Place) (style : Lua.Style) (binding : Binding) (depth : Nat)
    {pos : Pos} : (result : Option Expr) → AllFit (Stmt.sites place (.ret pos result)) →
      Emits (Stmt.sites place (.ret pos result))
        (Lua.Stmt.partsOfList style (Stmt.lower binding depth (.ret pos result)))
  | none, _ => .stmt .nil rfl
  | some result, h => by
    simp only [Stmt.sites, allFit_cons] at h
    refine .stmt ((result.emits place h.2).mono ?_) rfl
    intro part hmem
    simp [Stmt.lower, Lua.Stmt.partsOfList, Lua.Stmt.parts, Lua.Expr.parts, hmem]

theorem Stmt.emits_option (place : Place) (depth : Nat) : (stmt : Option Stmt) →
    AllFit (Stmt.sitesOfOption place stmt) →
      Emits (Stmt.sitesOfOption place stmt)
        (Lua.Stmt.partsOfList .lines (Stmt.lowerOption depth stmt))
  | none, _ => .nil
  | some stmt, h => stmt.emits place .lexical depth h

theorem Stmt.emits_afterRound (place : Place) (flag : String) (depth : Nat) :
    (post : Option Stmt) → AllFit (Stmt.sitesOfOption place post) →
      Emits (Stmt.sitesOfOption place post)
        ((Lua.Stmt.afterRound flag (post.map (Stmt.lower .lexical depth))).parts .lines)
  | none, _ => .nil
  | some post, h =>
    (post.emits place .lexical depth h).mono (Lua.Stmt.parts_subset_afterRound _ _)

theorem Stmt.emits_else (place : Place) (depth : Nat) : (rest : Option Stmt) →
    AllFit (Stmt.sitesOfElse place rest) →
      Emits (Stmt.sitesOfElse place rest) ((Stmt.lowerElse depth rest).parts .lines)
  | none, _ => .nil
  | some stmt, h => by
    cases stmt with
    | block body =>
        simp only [Stmt.sitesOfElse, allFit_cons] at h
        exact .stmt (body.emits _ .lexical depth h.2) rfl
    | ifElse pos init test body rest =>
        cases init with
        | none =>
            simp only [Stmt.sitesOfElse, allFit_cons, allFit_append] at h
            obtain ⟨-, ⟨htest, hbody⟩, hrest⟩ := h
            refine .stmt (.append (.append ((test.emits _ htest).mono ?_)
              ((body.emits _ .lexical depth hbody).mono ?_))
              ((Stmt.emits_else _ depth rest hrest).mono ?_)) rfl
            all_goals
              intro part hmem
              simp [Stmt.lowerElse, Lua.Else.parts, hmem]
        | some init => exact Stmt.emits place.enter .lexical depth _ h
    | _ => exact Stmt.emits place.enter .lexical depth _ h

theorem Stmt.emits_list (place : Place) (binding : Binding) (depth : Nat) : (stmts : List Stmt) →
    AllFit (Stmt.sitesOfList place stmts) →
      Emits (Stmt.sitesOfList place stmts)
        (Lua.Stmt.partsOfList .lines (Stmt.lowerList binding depth stmts))
  | [], _ => .nil
  | stmt :: stmts, h => by
    simp only [Stmt.sitesOfList, allFit_append] at h
    rw [Stmt.lowerList_cons, Lua.Stmt.partsOfList_append]
    refine .append (.mono ?_ (List.subset_append_left _ _))
      ((Stmt.emits_list _ binding depth stmts h.2).mono (List.subset_append_right _ _))
    split
    · next hreturn =>
        cases stmt with
        | ret pos result =>
            refine (Stmt.emits_ret place .inline binding depth result h.1).mono ?_
            intro part hmem
            simp [Lua.Stmt.partsOfList, Lua.Stmt.parts, Lua.Style.inside, hmem]
        | _ => simp [Stmt.isReturn] at hreturn
    · exact stmt.emits place binding depth h.1

theorem Block.emits (place : Place) (binding : Binding) (depth : Nat) : (block : Block) →
    AllFit (block.sites place) →
      Emits (block.sites place) (Lua.Stmt.partsOfList .lines (block.lower binding depth))
  | ⟨_, stmts⟩, h => Stmt.emits_list place binding depth stmts h

end

namespace File

/-- All parts of the code of a script. -/
def parts (binding : Binding) (file : File) : List Lua.Part :=
  Lua.Stmt.partsOfList .lines (file.lower binding)

variable {options : Options} {file : File} {text : String}

theorem wellFormed_of_toLua_eq_ok (htext : file.toLua options = .ok text) : file.WellFormed :=
  (fault?_analyse_eq_none_iff options.binding file).1
    ((exists_toLua_eq_ok_iff options file).1 ⟨text, htext⟩)

theorem emits_parts (hfit : file.WellFormed) (binding : Binding) :
    Emits file.sites (file.parts binding) :=
  Stmt.emits_list .root binding 0 file.stmts hfit

/-- The text of a converted script has all parts of the code in it. -/
theorem prints_parts (htext : file.toLua options = .ok text) :
    Lua.Prints options.indent (file.parts options.binding) text := by
  have hfault := (exists_toLua_eq_ok_iff options file).1 ⟨text, htext⟩
  rw [File.toLua_of_fault?_eq_none hfault, File.render_layout_eq_print] at htext
  rw [← Except.ok.inj htext]
  exact (Lua.Stmt.prints_printList .lines 0 _).right

end File

end Script

end LuaBackend
