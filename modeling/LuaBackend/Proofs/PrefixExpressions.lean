import LuaBackend.Proofs.CodeParts
import LuaBackend.Proofs.ReadBack

/-!
# What is called and what is assigned to

Lua calls only what begins with a name or a parenthesis, and assigns only to names and to elements.
`Lua.IsPrefixExp` and `Lua.IsVariable` are these forms as a grammar of texts, over any set of texts
that count as expressions.

A callee is written as it stands, so its text is a prefix expression unless a function or another
literal is called, directly or through the calls before it.  A target is written as it stands too,
and its text is a variable unless the target is in parentheses.
-/

namespace LuaBackend

open Script

namespace Lua

/-! ## The grammar -/

/-- A name or an expression in parentheses, and then any number of keys and calls. -/
inductive IsPrefixExp (IsExp : String → Prop) : String → Prop where
  | name {name : String} (hname : isName name) : IsPrefixExp IsExp name
  | paren {text : String} (htext : IsExp text) : IsPrefixExp IsExp ("(" ++ text ++ ")")
  | index {first key : String} (hfirst : IsPrefixExp IsExp first) (hkey : IsExp key) :
      IsPrefixExp IsExp (first ++ "[" ++ key ++ "]")
  | call {first : String} {args : List String} (hfirst : IsPrefixExp IsExp first)
      (hargs : ∀ arg ∈ args, IsExp arg) :
      IsPrefixExp IsExp (first ++ "(" ++ ", ".intercalate args ++ ")")

/-- What an assignment may have on its left. -/
inductive IsVariable (IsExp : String → Prop) : String → Prop where
  | name {name : String} (hname : isName name) : IsVariable IsExp name
  | index {first key : String} (hfirst : IsPrefixExp IsExp first) (hkey : IsExp key) :
      IsVariable IsExp (first ++ "[" ++ key ++ "]")

/-- The text of an expression among some parts of code. -/
def IsPrinted (indent : String) (parts : List Part) (text : String) : Prop :=
  ∃ code level, .expr code ∈ parts ∧ text = Expr.print indent level code

/-! ## How prefix expressions begin -/

/-- The text begins with a parenthesis or with a whole name. -/
def OpensPrefixExp (text : String) : Prop :=
  (∃ cs, text.toList = '(' :: cs) ∨
    ∃ name rest, isName name ∧ text.toList = name.toList ++ rest ∧ endsWord rest

theorem endsWord_append {cs more : List Char} (hcs : endsWord cs) (hmore : endsWord more) :
    endsWord (cs ++ more) := by
  cases cs with
  | nil => exact hmore
  | cons c cs => exact hcs

theorem OpensPrefixExp.append {text more : String} (h : OpensPrefixExp text)
    (hmore : endsWord more.toList) : OpensPrefixExp (text ++ more) := by
  obtain ⟨cs, hcs⟩ | ⟨name, rest, hname, htext, hrest⟩ := h
  · refine .inl ⟨cs ++ more.toList, ?_⟩
    rw [String.toList_append, hcs, List.cons_append]
  · refine .inr ⟨name, rest ++ more.toList, hname, ?_, endsWord_append hrest hmore⟩
    rw [String.toList_append, htext, List.append_assoc]

theorem IsPrefixExp.opens {IsExp : String → Prop} {text : String} (h : IsPrefixExp IsExp text) :
    OpensPrefixExp text := by
  induction h with
  | @name name hname => exact .inr ⟨name, [], hname, (List.append_nil _).symm, rfl⟩
  | @paren text =>
      refine .inl ⟨text.toList ++ [')'], ?_⟩
      rw [String.toList_append, String.toList_append]
      rfl
  | index hfirst hkey ih =>
      rw [String.append_assoc, String.append_assoc]
      exact ih.append (by simp only [String.toList_append]; rfl)
  | call hfirst hargs ih =>
      rw [String.append_assoc, String.append_assoc]
      exact ih.append (by simp only [String.toList_append]; rfl)

theorem not_opensPrefixExp_of_head {text : String} {c : Char} {cs : List Char}
    (htext : text.toList = c :: cs) (hparen : c ≠ '(') (hstart : isNameStart c = false) :
    ¬ OpensPrefixExp text := by
  rintro (⟨rest, hrest⟩ | ⟨name, rest, hname, hrest, -⟩)
  · rw [htext] at hrest
    exact hparen (List.cons.inj hrest).1
  · obtain ⟨first, others, hcs, hfirst, -⟩ := exists_toList_of_isName hname
    rw [htext, hcs, List.cons_append] at hrest
    rw [(List.cons.inj hrest).1, hfirst] at hstart
    cases hstart

/-- A keyword is no name, and a longer word is not cut short. -/
theorem not_opensPrefixExp_of_keyword {text : String} {rest : List Char} (keyword : Keyword)
    (htext : text.toList = keyword.spelling.toList ++ rest) (hrest : endsWord rest) :
    ¬ OpensPrefixExp text := by
  have hword : keyword.spelling.toList.all isNameChar := by cases keyword <;> rfl
  rintro (⟨others, hothers⟩ | ⟨name, others, hname, hothers, hends⟩)
  · rw [htext] at hothers
    cases keyword <;> cases hothers
  · obtain ⟨c, cs, hcs, hc, hall, -⟩ := exists_toList_of_isName hname
    have hnameChars : name.toList.all isNameChar := by
      rw [hcs, List.all_cons, isNameChar_of_isNameStart hc, hall]
      rfl
    have hsame : keyword.spelling.toList = name.toList := by
      rw [← (takeWhile_isNameChar hword hrest).1, ← htext, hothers,
        (takeWhile_isNameChar hnameChars hends).1]
    rw [← String.toList_inj.1 hsame] at hname
    cases keyword <;> cases hname

theorem not_opensPrefixExp_table {indent : String} {level : Nat} (fields : List Field)
    (rest : String) : ¬ OpensPrefixExp ((Expr.table fields).print indent level ++ rest) := by
  have htext : ((Expr.table fields).print indent level ++ rest).toList =
      '\x7b' :: ((Field.printList indent level fields).toList ++ ['\x7d'] ++ rest.toList) := by
    rw [Expr.print]
    simp only [String.toList_append]
    rfl
  exact not_opensPrefixExp_of_head htext (by decide) (by decide)

theorem not_opensPrefixExp_func {indent : String} {level : Nat} (style : Style)
    (params : List String) (body : List Stmt) (rest : String) :
    ¬ OpensPrefixExp ((Expr.func style params body).print indent level ++ rest) := by
  have htext : ∃ cs, ((Expr.func style params body).print indent level ++ rest).toList =
      Keyword.function.spelling.toList ++ '(' :: cs := by
    cases style <;>
    · rw [Expr.print, functionHead]
      simp only [String.toList_append, List.append_assoc]
      exact ⟨_, rfl⟩
  obtain ⟨cs, hcs⟩ := htext
  exact not_opensPrefixExp_of_keyword .function hcs rfl

theorem not_isVariable_paren {IsExp : String → Prop} {content : String} :
    ¬ IsVariable IsExp ("(" ++ content ++ ")") := by
  intro h
  generalize htext : "(" ++ content ++ ")" = text at h
  have hchars := congrArg String.toList htext
  simp only [String.toList_append] at hchars
  cases h with
  | name hname =>
      obtain ⟨c, cs, hcs, hc, -⟩ := exists_toList_of_isName hname
      rw [hcs] at hchars
      rw [← (List.cons.inj hchars).1] at hc
      exact absurd hc (by decide)
  | index =>
      rw [String.toList_append] at hchars
      have hlast := (List.append_inj' hchars rfl).2
      exact absurd hlast (by decide)

/-! ## Code -/

/-- What the suffixes are put behind. -/
def Expr.root : Expr → Expr
  | .index expr _ => expr.root
  | .call callee _ => callee.root
  | expr => expr

/-- A name, or an expression in parentheses. -/
def Expr.isHead : Expr → Bool
  | .name label => isName label
  | .paren _ => true
  | _ => false

theorem Expr.mem_parts_self (code : Expr) : .expr code ∈ code.parts := by
  cases code <;> exact List.mem_cons_self

theorem Expr.isPrinted_print {indent : String} {parts : List Part} {code : Expr}
    (hparts : code.parts ⊆ parts) (level : Nat) :
    IsPrinted indent parts (code.print indent level) :=
  ⟨code, level, hparts code.mem_parts_self, rfl⟩

theorem Expr.isPrinted_of_mem {indent : String} {parts : List Part} {codes : List Expr}
    (hparts : Expr.partsOfList codes ⊆ parts) (level : Nat) :
    ∀ text ∈ codes.map (Expr.print indent level), IsPrinted indent parts text := by
  induction codes with
  | nil => simp
  | cons code codes ih =>
      rw [Expr.partsOfList, List.append_subset] at hparts
      rw [List.map_cons, List.forall_mem_cons]
      exact ⟨Expr.isPrinted_print hparts.1 level, ih hparts.2⟩

/-- Suffixes behind a head make a prefix expression. -/
theorem Expr.isPrefixExp_print {indent : String} {parts : List Part} (level : Nat) :
    (code : Expr) → code.parts ⊆ parts → code.root.isHead →
      IsPrefixExp (IsPrinted indent parts) (code.print indent level)
  | .name _, _, hhead => .name hhead
  | .paren expr, hparts, _ =>
    .paren (Expr.isPrinted_print (List.cons_subset.1 hparts).2 level)
  | .index expr key, hparts, hhead => by
    obtain ⟨hexpr, hkey⟩ := List.append_subset.1 (List.cons_subset.1 hparts).2
    exact .index (expr.isPrefixExp_print level hexpr hhead) (Expr.isPrinted_print hkey level)
  | .call callee args, hparts, hhead => by
    obtain ⟨hcallee, hargs⟩ := List.append_subset.1 (List.cons_subset.1 hparts).2
    rw [Expr.print, Expr.printList_eq_intercalate]
    exact .call (callee.isPrefixExp_print level hcallee hhead) (Expr.isPrinted_of_mem hargs level)
  | .nil, _, hhead | .bool _, _, hhead | .numeral _, _, hhead | .str _, _, hhead
  | .unary .., _, hhead | .binary .., _, hhead | .table _, _, hhead | .func .., _, hhead => by
    cases hhead

/-- The text of code goes on with a suffix behind its root. -/
theorem Expr.exists_print_eq_root (indent : String) (level : Nat) : (code : Expr) →
    ∃ rest, code.print indent level = code.root.print indent level ++ rest ∧ endsWord rest.toList
  | .index expr key => by
    obtain ⟨rest, hprint, hrest⟩ := expr.exists_print_eq_root indent level
    refine ⟨rest ++ ("[" ++ key.print indent level ++ "]"), ?_, ?_⟩
    · rw [Expr.print, Expr.root, hprint]
      simp only [String.append_assoc]
    · rw [String.toList_append]
      refine endsWord_append hrest ?_
      simp only [String.toList_append]
      rfl
  | .call callee args => by
    obtain ⟨rest, hprint, hrest⟩ := callee.exists_print_eq_root indent level
    refine ⟨rest ++ ("(" ++ Expr.printList indent level args ++ ")"), ?_, ?_⟩
    · rw [Expr.print, Expr.root, hprint]
      simp only [String.append_assoc]
    · rw [String.toList_append]
      refine endsWord_append hrest ?_
      simp only [String.toList_append]
      rfl
  | .nil | .bool _ | .numeral _ | .str _ | .name _ | .paren _ | .unary .. | .binary .. | .table _
  | .func .. => ⟨"", String.append_empty.symm, rfl⟩

end Lua

/-! ## Callees and targets of scripts -/

/-- An identifier can be written in Lua as it is. -/
def Node.hasLuaName : Node → Bool
  | .expr (.ident id) | .binder id => Lua.isName id.name
  | _ => true

namespace Script

/-- What is called first in a chain of calls. -/
def Expr.callRoot : Expr → Expr
  | .call _ callee _ => callee.callRoot
  | expr => expr

/-- A number is written as Lua writes numbers. -/
def Expr.hasLuaNumeral : Expr → Bool
  | .int _ literal | .float _ literal => Lua.isNumeral literal
  | _ => true

/-- The expressions that the statement assigns to. -/
def Stmt.targets : Stmt → List Expr
  | .incDec _ _ target => [target]
  | .assign _ _ lhs _ => lhs
  | _ => []

variable {place : Place}

theorem Expr.isHead_root_lower : (expr : Expr) → AllFit (expr.sites place) →
    (∀ site ∈ expr.sites place, site.node.hasLuaName) → expr.callRoot.isCallable →
      expr.lower.root.isHead
  | .ident _, _, hnames, _ => hnames _ List.mem_cons_self
  | .paren .., _, _, _ | .selector .., _, _, _ | .index .., _, _, _ | .cond .., _, _, _ => rfl
  | .slice .., _, _, _ => by
    change Lua.isName Names.slice
    decide
  | .binary .., hfit, _, _ => by
    obtain ⟨op, hlower⟩ := Expr.lower_binary (hfit _ List.mem_cons_self)
    rw [hlower]
    rfl
  | .unary .., hfit, _, _ => by
    obtain ⟨op, hlower⟩ := Expr.lower_unary (hfit _ List.mem_cons_self)
    rw [hlower]
    rfl
  | .call _ callee args, hfit, hnames, hcallable => by
    simp only [Expr.sites, allFit_cons, allFit_append, List.forall_mem_cons,
      List.forall_mem_append] at hfit hnames
    exact callee.isHead_root_lower hfit.2.1 hnames.2.1 hcallable
  | .char .., hfit, _, _ | .importModule .., hfit, _, _ | .error .., hfit, _, _
  | .immutable .., hfit, _, _ => absurd (hfit _ List.mem_cons_self) id
  | .int .., _, _, hcallable | .float .., _, _, hcallable | .bool .., _, _, hcallable
  | .str .., _, _, hcallable | .undefined .., _, _, hcallable | .array .., _, _, hcallable
  | .map .., _, _, hcallable | .func .., _, _, hcallable => by cases hcallable

theorem Expr.root_lower : (expr : Expr) → expr.callRoot.isCallable = false →
    expr.lower.root = expr.callRoot.lower
  | .call _ callee _, hliteral => callee.root_lower hliteral
  | .int .., _ | .float .., _ | .bool .., _ | .str .., _ | .undefined .., _ | .array .., _
  | .map .., _ | .func .., _ => rfl
  | .ident .., hliteral | .char .., hliteral | .paren .., hliteral | .binary .., hliteral
  | .unary .., hliteral | .selector .., hliteral | .index .., hliteral | .slice .., hliteral
  | .cond .., hliteral | .importModule .., hliteral | .error .., hliteral
  | .immutable .., hliteral => by cases hliteral

theorem Expr.not_opensPrefixExp_numeral {literal rest : String} (hnumeral : Lua.isNumeral literal) :
    ¬ Lua.OpensPrefixExp (literal ++ rest) := by
  rw [Lua.isNumeral, Bool.and_eq_true] at hnumeral
  cases hcs : literal.toList with
  | nil => simp [hcs, Lua.startsNumeral] at hnumeral
  | cons c cs =>
      rw [hcs, Lua.startsNumeral, Bool.or_eq_true, Bool.and_eq_true, beq_iff_eq] at hnumeral
      have htext : (literal ++ rest).toList = c :: (cs ++ rest.toList) := by
        rw [String.toList_append, hcs, List.cons_append]
      obtain ⟨hdigit | ⟨rfl, -⟩, -⟩ := hnumeral
      · refine Lua.not_opensPrefixExp_of_head htext ?_ ?_
        · rintro rfl
          exact absurd hdigit (by decide)
        · rw [Lua.isNameStart, hdigit]
          exact Bool.and_false _
      · exact Lua.not_opensPrefixExp_of_head htext (by decide) (by decide)

/-- Neither a literal nor what is written behind it begins like a prefix expression. -/
theorem Expr.not_opensPrefixExp_literal {indent : String} {level : Nat} {expr : Expr}
    (hliteral : expr.isCallable = false) (hnumeral : expr.hasLuaNumeral) {rest : String}
    (hrest : Lua.endsWord rest.toList) :
    ¬ Lua.OpensPrefixExp (expr.lower.print indent level ++ rest) := by
  cases expr with
  | int | float => exact Expr.not_opensPrefixExp_numeral hnumeral
  | bool pos value =>
      cases value with
      | true => exact Lua.not_opensPrefixExp_of_keyword .true String.toList_append hrest
      | false => exact Lua.not_opensPrefixExp_of_keyword .false String.toList_append hrest
  | undefined => exact Lua.not_opensPrefixExp_of_keyword .nil String.toList_append hrest
  | str pos value =>
      have htext : (Lua.quote value ++ rest).toList =
          '"' :: (value.toList.flatMap Lua.escapeChar ++ ['"'] ++ rest.toList) := by
        rw [String.toList_append, Lua.quote, String.toList_ofList]
        rfl
      exact Lua.not_opensPrefixExp_of_head htext (by decide) (by decide)
  | array | map => exact Lua.not_opensPrefixExp_table _ rest
  | func pos params body => exact Lua.not_opensPrefixExp_func _ _ _ rest
  | _ => cases hliteral

/-- An update is lowered to an assignment to its one target. -/
theorem Stmt.exists_lower_eq_assign {stmt : Stmt} (hfits : (Node.stmt stmt).Fits place)
    (hupdate : stmt.isUpdate) :
    ∃ target value, stmt.targets = [target] ∧ place.Assignable target ∧
      stmt.lower .lexical 0 = [.assign target.lower value] := by
  cases stmt with
  | incDec pos op target => exact ⟨target, _, rfl, hfits, rfl⟩
  | assign pos op lhs rhs =>
      obtain ⟨target, value, rfl, rfl, ⟨rfl, -⟩ | ⟨-, htarget, hcode | ⟨luaOp, hcode⟩⟩⟩ :=
        Stmt.lower_assign hfits
      · cases hupdate
      · exact ⟨target, _, rfl, htarget, hcode .lexical 0⟩
      · exact ⟨target, _, rfl, htarget, hcode .lexical 0⟩
  | _ => cases hupdate

theorem Expr.mem_sites_self (expr : Expr) : ⟨place, .expr expr⟩ ∈ expr.sites place := by
  cases expr <;> exact List.mem_cons_self

theorem Stmt.sites_target_subset {stmt : Stmt} {target : Expr} (hupdate : stmt.isUpdate)
    (htargets : stmt.targets = [target]) : target.sites place ⊆ stmt.sites place := by
  cases stmt with
  | incDec pos op expr =>
      obtain rfl := List.singleton_inj.1 htargets
      exact List.subset_cons_self _ _
  | assign pos op lhs rhs =>
      obtain rfl : lhs = [target] := htargets
      have hop : op ≠ .define := by simpa [Stmt.isUpdate] using hupdate
      rw [Stmt.sites, if_neg hop, Expr.sitesOfList, Expr.sitesOfList, List.append_nil]
      exact List.subset_cons_of_subset _ (List.subset_append_left _ _)
  | _ => cases hupdate

theorem Expr.isVariable_lower {indent : String} {level : Nat} {parts : List Lua.Part}
    {target : Expr} (hplace : target.isPlace)
    (hnames : ∀ site ∈ target.sites place, site.node.hasLuaName)
    (hparts : target.lower.parts ⊆ parts) :
    Lua.IsVariable (Lua.IsPrinted indent parts) (target.lower.print indent level) := by
  cases target with
  | ident id => exact .name (hnames _ List.mem_cons_self)
  | selector pos expr field =>
      obtain ⟨hexpr, hkey⟩ := List.append_subset.1 (List.cons_subset.1 hparts).2
      exact .index (Lua.Expr.isPrefixExp_print level _ hexpr rfl)
        (Lua.Expr.isPrinted_print hkey level)
  | index pos expr key =>
      obtain ⟨hexpr, hkey⟩ := List.append_subset.1 (List.cons_subset.1 hparts).2
      exact .index (Lua.Expr.isPrefixExp_print level _ hexpr rfl)
        (Lua.Expr.isPrinted_print hkey level)
  | _ => cases hplace

theorem Expr.not_isVariable_lower {IsExp : String → Prop} {indent : String} {level : Nat}
    {target : Expr} (htarget : place.Assignable target) (hparen : target.isPlace = false) :
    ¬ Lua.IsVariable IsExp (target.lower.print indent level) := by
  cases htarget with
  | paren => exact Lua.not_isVariable_paren
  | _ => cases hparen

end Script

/-- In a converted script whose identifiers are names of Lua, the text of a callee is a prefix
expression unless the calls in it begin with a literal, and the text of a target is a variable
unless the target is in parentheses.  In the other cases no reading of the expressions inside makes
it one. -/
theorem callees_and_targets {options : Options} {file : File} {text : String}
    (htext : file.toLua options = .ok text)
    (hnames : ∀ site ∈ file.sites, site.node.hasLuaName) :
    let indent := options.indent
    let IsExp := Lua.IsPrinted indent (file.parts options.binding)
    (∀ place pos callee args, ⟨place, .expr (.call pos callee args)⟩ ∈ file.sites →
      ∃ level,
        Lua.Occurs (callee.lower.print indent level ++ "(" ++
          Lua.Expr.printList indent level (Expr.lowerList args) ++ ")") text ∧
        (callee.callRoot.isCallable → Lua.IsPrefixExp IsExp (callee.lower.print indent level)) ∧
        (callee.callRoot.isCallable = false → callee.callRoot.hasLuaNumeral →
          ¬ Lua.IsPrefixExp (fun _ => True) (callee.lower.print indent level))) ∧
    ∀ place stmt, ⟨place, .stmt stmt⟩ ∈ file.sites → stmt.isUpdate →
      ∃ target value level, stmt.targets = [target] ∧
        Lua.Occurs
          (Lua.printLine indent level (target.lower.print indent level ++ " = " ++ value)) text ∧
        (target.isPlace → Lua.IsVariable IsExp (target.lower.print indent level)) ∧
        (target.isPlace = false →
          ¬ Lua.IsVariable (fun _ => True) (target.lower.print indent level)) := by
  intro indent IsExp
  have hfit := File.wellFormed_of_toLua_eq_ok htext
  have hemits := File.emits_parts hfit options.binding
  have hprints := File.prints_parts htext
  refine ⟨fun place pos callee args hsite => ?_, fun place stmt hsite hupdate => ?_⟩
  · obtain ⟨hsites, hparts⟩ := hemits _ hsite
    obtain ⟨hself, hinside⟩ := List.cons_subset.1 hparts
    have hcallee : callee.lower.parts ⊆ file.parts options.binding :=
      (List.append_subset.1 hinside).1
    have hcalleeSites : callee.sites place ⊆ file.sites :=
      (List.append_subset.1 (List.cons_subset.1 hsites).2).1
    obtain ⟨level, hoccurs⟩ := hprints _ hself
    refine ⟨level, hoccurs, fun hcallable => ?_, fun hliteral hnumeral hprefix => ?_⟩
    · refine Lua.Expr.isPrefixExp_print level _ hcallee ?_
      exact callee.isHead_root_lower (fun site hmem => hfit site (hcalleeSites hmem))
        (fun site hmem => hnames site (hcalleeSites hmem)) hcallable
    · obtain ⟨rest, hprint, hrest⟩ := Lua.Expr.exists_print_eq_root indent level callee.lower
      have hopens := hprefix.opens
      rw [hprint, callee.root_lower hliteral] at hopens
      exact Expr.not_opensPrefixExp_literal hliteral hnumeral hrest hopens
  · obtain ⟨target, value, htargets, hassignable, hlower⟩ :=
      Stmt.exists_lower_eq_assign (hfit _ hsite) hupdate
    obtain ⟨hsites, hparts⟩ := hemits _ hsite
    rw [Node.sites, if_pos hupdate] at hsites
    rw [Node.parts, if_pos hupdate, hlower] at hparts
    have htargetSites : target.sites place ⊆ file.sites :=
      List.Subset.trans (Stmt.sites_target_subset hupdate htargets) hsites
    have htarget : target.lower.parts ⊆ file.parts options.binding :=
      (hemits _ (htargetSites target.mem_sites_self)).2
    obtain ⟨level, hoccurs⟩ := hprints _ (hparts List.mem_cons_self)
    refine ⟨target, value.print indent level, level, htargets, hoccurs, fun hplace => ?_,
      Expr.not_isVariable_lower hassignable⟩
    exact Expr.isVariable_lower hplace (fun site hmem => hnames site (htargetSites hmem)) htarget

/-- `a := [len]` and `a[0] = a[0](1)(2)`. -/
def chainedCalls : File where
  stmts :=
    [.assign {} .define [.ident { name := "a" }] [.array {} [.ident { name := "len" }]],
      .assign {} .assign [.index {} (.ident { name := "a" }) (.int {} "0")]
        [.call {} (.call {} (.index {} (.ident { name := "a" }) (.int {} "0")) [.int {} "1"])
          [.int {} "2"]]]

theorem callees_and_targets_chainedCalls :
    let IsExp := Lua.IsPrinted "  " (chainedCalls.parts .lexical)
    (∀ site ∈ chainedCalls.sites, site.node.hasLuaName) ∧
      ∃ text, chainedCalls.toLua {} = .ok text ∧
        Lua.Occurs "(a)[0](1)(2)" text ∧ Lua.IsPrefixExp IsExp "(a)[0](1)" ∧
        (∃ level value, Lua.Occurs (Lua.printLine "  " level ("(a)[0]" ++ " = " ++ value)) text) ∧
        Lua.IsVariable IsExp "(a)[0]" := by
  intro IsExp
  have hnames : ∀ site ∈ chainedCalls.sites, site.node.hasLuaName := by decide
  obtain ⟨text, htext⟩ : ∃ text, chainedCalls.toLua {} = .ok text := ⟨_, rfl⟩
  obtain ⟨hcalls, hupdates⟩ := callees_and_targets htext hnames
  let place := Place.root.bind { name := "a" }
  have hcall : ⟨place, .expr (.call {} (.call {} (.index {} (.ident { name := "a" })
      (.int {} "0")) [.int {} "1"]) [.int {} "2"])⟩ ∈ chainedCalls.sites := by
    simp [place, chainedCalls, File.sites, Stmt.sitesOfList, Stmt.sites, Expr.sitesOfDefined,
      Expr.sitesOfList, Expr.sites, Expr.isFunction, Place.after, Stmt.binder?]
  have hupdate : ⟨place, .stmt (.assign {} .assign
      [.index {} (.ident { name := "a" }) (.int {} "0")]
      [.call {} (.call {} (.index {} (.ident { name := "a" }) (.int {} "0")) [.int {} "1"])
        [.int {} "2"]])⟩ ∈ chainedCalls.sites := by
    simp [place, chainedCalls, File.sites, Stmt.sitesOfList, Stmt.sites, Place.after,
      Stmt.binder?]
  obtain ⟨level, hoccurs, hprefix, -⟩ := hcalls _ _ _ _ hcall
  obtain ⟨_, value, level', htarget, hline, hvariable, -⟩ := hupdates _ _ hupdate rfl
  obtain rfl := List.singleton_inj.1 htarget
  exact ⟨hnames, text, htext, hoccurs, hprefix rfl, ⟨level', value, hline⟩, hvariable rfl⟩

/-- `a := 1` and `(a) = func() {}()`. -/
def calledFunction : File where
  stmts :=
    [.assign {} .define [.ident { name := "a" }] [.int {} "1"],
      .assign {} .assign [.paren {} (.ident { name := "a" })] [.call {} (.func {} [] {}) []]]

/-- A function that is called where it stands gets no parentheses, and those of a target stay. -/
theorem no_callee_no_target_calledFunction :
    let function : Expr := .func {} [] {}
    let target : Expr := .paren {} (.ident { name := "a" })
    calledFunction.toLua {} = .ok "local a = 1\n;(a) = function()\nend()\n" ∧
      (∀ site ∈ calledFunction.sites, site.node.hasLuaName) ∧
      (∃ place, ⟨place, .expr (.call {} function [])⟩ ∈ calledFunction.sites ∧
        ⟨place, .stmt (.assign {} .assign [target] [.call {} function []])⟩ ∈
          calledFunction.sites) ∧
      (∀ level, ¬ Lua.IsPrefixExp (fun _ => True) (function.lower.print "  " level)) ∧
      ∀ level, ¬ Lua.IsVariable (fun _ => True) (target.lower.print "  " level) := by
  intro function target
  refine ⟨rfl, by decide, ⟨Place.root.bind { name := "a" }, ?_, ?_⟩, fun level hprefix => ?_,
    fun level => Lua.not_isVariable_paren⟩
  · simp [function, calledFunction, File.sites, Stmt.sitesOfList, Stmt.sites, Expr.sitesOfList,
      Expr.sites, Expr.isFunction, Place.after, Stmt.binder?]
  · simp [target, function, calledFunction, File.sites, Stmt.sitesOfList, Stmt.sites, Place.after,
      Stmt.binder?]
  · apply Lua.not_opensPrefixExp_func .lines [] [] ""
    rw [String.append_empty]
    exact hprefix.opens

end LuaBackend
