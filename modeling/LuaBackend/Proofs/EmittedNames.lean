import LuaBackend.Proofs.Acceptance
import LuaBackend.Proofs.Labelling

/-!
# Emitted names

What Lua cannot express is lowered to nothing, with all identifiers inside of it.  A script that is
converted has no such forms: each of its occurrences is emitted, in the order of the tree.  The code
has more names than that.  Some are the generator's own, and the target of an update is written
twice.

A script and its labelled copy are followed together.  `PairedIn` says that their occurrences are
emitted at the same places, so the code of the copy shows for each of them the label it has in the
tree.
-/

namespace LuaBackend

open Script

/-! ## Names in code -/

namespace Lua

mutual

/-- The names of variables, from left to right, without those that are declared. -/
def Expr.names : Expr → List String
  | .nil | .bool _ | .numeral _ | .str _ => []
  | .name name => [name]
  | .paren expr | .unary _ expr => expr.names
  | .binary _ lhs rhs => lhs.names ++ rhs.names
  | .index expr key => expr.names ++ key.names
  | .call callee args => callee.names ++ Expr.namesOfList args
  | .table fields => Field.namesOfList fields
  | .func _ _ body => Stmt.namesOfList body

def Expr.namesOfList : List Expr → List String
  | [] => []
  | expr :: exprs => expr.names ++ Expr.namesOfList exprs

def Field.names : Field → List String
  | .item value | .named _ value => value.names
  | .keyed key value => key.names ++ value.names

def Field.namesOfList : List Field → List String
  | [] => []
  | field :: fields => field.names ++ Field.namesOfList fields

def Stmt.names : Stmt → List String
  | .expr expr => expr.names
  | .assign target value => target.names ++ value.names
  | .localVar _ value | .localRec _ value => value.names
  | .ret none | .break => []
  | .ret (some value) => value.names
  | .block _ body => Stmt.namesOfList body
  | .cond _ test body rest => test.names ++ Stmt.namesOfList body ++ rest.names
  | .whileLoop test body => test.names ++ Stmt.namesOfList body
  | .repeatLoop body test => Stmt.namesOfList body ++ test.names
  | .forIn _ iterator body => iterator.names ++ Stmt.namesOfList body

def Stmt.namesOfList : List Stmt → List String
  | [] => []
  | stmt :: stmts => stmt.names ++ Stmt.namesOfList stmts

def Else.names : Else → List String
  | .absent => []
  | .otherwise body => Stmt.namesOfList body
  | .elseIf test body rest => test.names ++ Stmt.namesOfList body ++ rest.names

end

@[simp] theorem Stmt.namesOfList_append (first second : List Stmt) :
    Stmt.namesOfList (first ++ second) = Stmt.namesOfList first ++ Stmt.namesOfList second := by
  induction first with
  | nil => rfl
  | cons stmt first ih => simp [Stmt.namesOfList, ih]

@[simp] theorem Stmt.namesOfList_singleton (stmt : Stmt) :
    Stmt.namesOfList [stmt] = stmt.names := by
  simp [Stmt.namesOfList]

theorem Expr.names_choose (test whenTrue whenFalse : Expr) :
    (Expr.choose test whenTrue whenFalse).names =
      test.names ++ whenTrue.names ++ whenFalse.names := by
  simp [Expr.choose, Expr.names, Expr.namesOfList, Stmt.names, Else.names]

theorem Expr.names_array (elements : List Expr) :
    (Expr.array elements).names = Expr.namesOfList elements := by
  have hitems : ∀ (others : List Expr) (fields : List Field),
      Field.namesOfList ((others.map fun value => .item (.paren value)) ++ fields) =
        Expr.namesOfList others ++ Field.namesOfList fields := by
    intro others fields
    induction others with
    | nil => rfl
    | cons value others ih =>
        simp [Field.namesOfList, Field.names, Expr.names, Expr.namesOfList, ih]
  cases elements with
  | nil => rfl
  | cons first others =>
      simp [Expr.array, Expr.names, Expr.namesOfList, Field.namesOfList, Field.names, hitems]

theorem Stmt.names_update (op : BinaryOp) (target value : Expr) :
    (Stmt.update op target value).names = target.names ++ (target.names ++ value.names) := rfl

theorem Stmt.namesOfList_guarded (flag : String) (body : List Stmt) (fallsThrough : Bool) :
    Stmt.namesOfList (Stmt.guarded flag body fallsThrough) =
      Stmt.namesOfList body ++ if fallsThrough then [flag] else [] := by
  cases fallsThrough <;> simp [Stmt.guarded, Stmt.namesOfList, Stmt.names, Expr.names]

/-- A block of its own does not change the names of a return. -/
theorem Stmt.namesOfList_inBlock (enclosed : Bool) (code : List Stmt) :
    Stmt.namesOfList (if enclosed then [.block .inline code] else code) =
      Stmt.namesOfList code := by
  cases enclosed <;> simp [Stmt.names]

theorem Stmt.names_breakUnless (flag : String) : (Stmt.breakUnless flag).names = [flag] := rfl

theorem Stmt.names_afterRound (flag : String) (post : Option (List Stmt)) :
    (Stmt.afterRound flag post).names = flag :: Stmt.namesOfList (post.getD []) := by
  cases post with
  | none => rfl
  | some post => simp [Stmt.afterRound, Stmt.names, Expr.names, Else.names]

end Lua

/-! ## Pairs of names -/

/-- The names of the occurrences among some nodes. -/
def namesIn (sites : List Site) : List String :=
  (occurrencesOf sites).map fun occurrence => occurrence.id.name

theorem namesIn_append (first second : List Site) :
    namesIn (first ++ second) = namesIn first ++ namesIn second := by
  simp [namesIn]

/-- The names stand in the code in this order, and where they stand there, the copy of the code has
their labels. -/
structure PairedIn (names labels code copy : List String) : Prop where
  length_labels : labels.length = names.length
  length_copy : copy.length = code.length
  sublist : (names.zip labels).Sublist (code.zip copy)

theorem PairedIn.append {names names' labels labels' code code' copy copy' : List String}
    (h : PairedIn names labels code copy) (h' : PairedIn names' labels' code' copy') :
    PairedIn (names ++ names') (labels ++ labels') (code ++ code') (copy ++ copy') where
  length_labels := by
    rw [List.length_append, List.length_append, h.length_labels, h'.length_labels]
  length_copy := by
    rw [List.length_append, List.length_append, h.length_copy, h'.length_copy]
  sublist := by
    rw [List.zip_append h.length_labels.symm, List.zip_append h.length_copy.symm]
    exact h.sublist.append h'.sublist

/-- The occurrences among the nodes of a tree and of its copy are emitted at the same places. -/
def Emitted (sites sites' : List Site) (code copy : List String) : Prop :=
  PairedIn (namesIn sites) (namesIn sites') code copy

namespace Emitted

variable {sites sites' others others' : List Site} {code copy code' copy' : List String}

theorem nil : Emitted [] [] [] [] := ⟨rfl, rfl, .slnil⟩

theorem ident (place place' : Place) (id id' : Ident) :
    Emitted [⟨place, .expr (.ident id)⟩] [⟨place', .expr (.ident id')⟩] [id.name] [id'.name] :=
  ⟨rfl, rfl, .refl _⟩

/-- A name that is no occurrence: the generator's own, or one that is bound as a global. -/
theorem own (name name' : String) : Emitted [] [] [name] [name'] :=
  ⟨rfl, rfl, List.nil_sublist _⟩

theorem append (h : Emitted sites sites' code copy) (h' : Emitted others others' code' copy') :
    Emitted (sites ++ others) (sites' ++ others') (code ++ code') (copy ++ copy') := by
  unfold Emitted
  rw [namesIn_append, namesIn_append]
  exact PairedIn.append h h'

/-- Code that is written once more. -/
theorem again (h : Emitted sites sites' code copy) : Emitted [] [] code copy :=
  ⟨rfl, h.length_copy, List.nil_sublist _⟩

/-- A node that is no occurrence is not emitted itself. -/
theorem node {site site' : Site} (h : Emitted sites sites' code copy)
    (hsite : site.occurrence? = none) (hsite' : site'.occurrence? = none) :
    Emitted (site :: sites) (site' :: sites') code copy := by
  unfold Emitted namesIn
  rwa [occurrencesOf_cons_of_none hsite, occurrencesOf_cons_of_none hsite']

theorem stmt {place place' : Place} {stmt stmt' : Stmt} (h : Emitted sites sites' code copy) :
    Emitted (⟨place, .stmt stmt⟩ :: sites) (⟨place', .stmt stmt'⟩ :: sites') code copy :=
  h.node rfl rfl

theorem binders (place place' : Place) (ids ids' : List Ident) :
    Emitted (place.binders ids) (place'.binders ids') [] [] := by
  unfold Emitted namesIn
  rw [occurrencesOf_binders, occurrencesOf_binders]
  exact nil

/-- What is bound behind some nodes is declared in the code. -/
theorem withBinders (h : Emitted sites sites' code copy) (place place' : Place)
    (ids ids' : List Ident) :
    Emitted (sites ++ place.binders ids) (sites' ++ place'.binders ids') code copy := by
  simpa using h.append (binders place place' ids ids')

/-- A name of the generator behind the code. -/
theorem withOwn (h : Emitted sites sites' code copy) (name : String) :
    Emitted sites sites' (code ++ [name]) (copy ++ [name]) := by
  simpa using h.append (own name name)

/-- The body of a loop is emitted once. -/
theorem guarded (flag : String) (fallsThrough : Bool) {body body' : List Lua.Stmt}
    (h : Emitted sites sites' (Lua.Stmt.namesOfList body) (Lua.Stmt.namesOfList body')) :
    Emitted sites sites' (Lua.Stmt.namesOfList (Lua.Stmt.guarded flag body fallsThrough))
      (Lua.Stmt.namesOfList (Lua.Stmt.guarded flag body' fallsThrough)) := by
  rw [Lua.Stmt.namesOfList_guarded, Lua.Stmt.namesOfList_guarded]
  cases fallsThrough with
  | true => exact h.withOwn flag
  | false => simpa using h

theorem bind (binding : Binding) (isFunction : Bool) (name name' : String) {value value' : Lua.Expr}
    (h : Emitted sites sites' value.names value'.names) :
    Emitted sites sites' (Lua.Stmt.bind binding isFunction name value).names
      (Lua.Stmt.bind binding isFunction name' value').names := by
  cases binding with
  | global => exact (own name name').append h
  | lexical => cases isFunction <;> exact h

end Emitted

namespace Script

/-! ## The code of compound statements -/

theorem Stmt.namesOfList_lower_ifElse (binding : Binding) (depth : Nat) (pos : Pos)
    (init : Option Stmt) (test : Expr) (body : Block) (rest : Option Stmt) :
    Lua.Stmt.namesOfList (Stmt.lower binding depth (.ifElse pos init test body rest)) =
      Lua.Stmt.namesOfList (Stmt.lowerOption depth init) ++ test.lower.names ++
        Lua.Stmt.namesOfList (body.lower .lexical depth) ++ (Stmt.lowerElse depth rest).names := by
  simp [Stmt.lower, Lua.Stmt.names]

theorem Stmt.namesOfList_lower_loop (binding : Binding) (depth : Nat) (pos : Pos)
    (init : Option Stmt) (test : Option Expr) (post : Option Stmt) (body : Block) :
    Lua.Stmt.namesOfList (Stmt.lower binding depth (.loop pos init test post body)) =
      Lua.Stmt.namesOfList (Stmt.lowerOption depth init) ++
        (Expr.lowerOption (.bool true) test).names ++
        Lua.Stmt.namesOfList (Lua.Stmt.guarded (Names.continueFlag (depth + 1))
          (body.lower .lexical (depth + 1)) body.fallsThrough) ++
        ([Names.continueFlag (depth + 1)] ++
          Lua.Stmt.namesOfList (Stmt.lowerOption (depth + 1) post)) := by
  have hpost : (post.map (Stmt.lower .lexical (depth + 1))).getD [] =
      Stmt.lowerOption (depth + 1) post := by
    cases post <;> rfl
  rw [Stmt.lower_loop]
  cases init with
  | none =>
      simp [Lua.Stmt.names, Lua.Stmt.names_afterRound, hpost, Stmt.lowerOption,
        Lua.Stmt.namesOfList]
  | some init => simp [Lua.Stmt.names, Lua.Stmt.names_afterRound, hpost]

theorem Stmt.namesOfList_lower_forIn (binding : Binding) (depth : Nat) (pos : Pos)
    (key : Option Ident) (value : Ident) (iterable : Expr) (body : Block) :
    Lua.Stmt.namesOfList (Stmt.lower binding depth (.forIn pos key value iterable body)) =
      [Names.iterate] ++ iterable.lower.names ++
        (Lua.Stmt.namesOfList (Lua.Stmt.guarded (Names.continueFlag (depth + 1))
          (body.lower .lexical (depth + 1)) body.fallsThrough) ++
          [Names.continueFlag (depth + 1)]) := by
  simp [Stmt.lower, Lua.Stmt.names, Lua.Expr.names, Lua.Expr.namesOfList,
    Lua.Stmt.names_breakUnless]

theorem Stmt.emitted_otherwise {place place' : Place} {naming : Naming} {path : Path} {stmt : Stmt}
    (halone : stmt.standsAlone) {depth : Nat}
    (h : Emitted (stmt.sites place.enter) ((stmt.relabel naming.enter path).sites place'.enter)
      (Lua.Stmt.namesOfList (stmt.lower .lexical depth))
      (Lua.Stmt.namesOfList ((stmt.relabel naming.enter path).lower .lexical depth))) :
    Emitted (Stmt.sitesOfElse place (some stmt))
      (Stmt.sitesOfElse place' (Stmt.relabelElse naming path (some stmt)))
      (Stmt.lowerElse depth (some stmt)).names
      (Stmt.lowerElse depth (Stmt.relabelElse naming path (some stmt))).names := by
  have halone' := Stmt.standsAlone_relabel naming.enter path halone
  rw [Stmt.relabelElse_of_standsAlone _ _ halone, Stmt.sitesOfElse_of_standsAlone _ halone,
    Stmt.sitesOfElse_of_standsAlone _ halone', Stmt.lowerElse_of_standsAlone _ halone,
    Stmt.lowerElse_of_standsAlone _ halone']
  exact h

/-! ## Every tree -/

mutual

theorem Expr.emitted {place : Place} (place' : Place) (naming : Naming) (path : Path) :
    (expr : Expr) → AllFit (expr.sites place) →
    Emitted (expr.sites place) ((expr.relabel naming path).sites place') expr.lower.names
      (expr.relabel naming path).lower.names
  | .ident id, _ => .ident _ _ id (naming.occurrence id)
  | .int .., _ | .float .., _ | .bool .., _ | .str .., _ | .undefined _, _ => .node .nil rfl rfl
  | .char .., hfit | .importModule .., hfit | .error .., hfit | .immutable .., hfit =>
    absurd (hfit _ List.mem_cons_self) id
  | .paren _ expr, hfit => by
    simp only [Expr.sites, allFit_cons] at hfit
    exact .node (expr.emitted place' naming _ hfit.2) rfl rfl
  | .binary pos op lhs rhs, hfit => by
    simp only [Expr.sites, allFit_cons, allFit_append] at hfit
    obtain ⟨hfits, hlhs, hrhs⟩ := hfit
    have hoperands := (lhs.emitted place' naming (0 :: path) hlhs).append
      (rhs.emitted place' naming (1 :: path) hrhs)
    obtain ⟨_, hlower⟩ := Expr.lower_binary hfits
    rw [Expr.relabel, hlower, hlower]
    exact .node hoperands rfl rfl
  | .unary pos op expr, hfit => by
    simp only [Expr.sites, allFit_cons] at hfit
    obtain ⟨_, hlower⟩ := Expr.lower_unary hfit.1
    rw [Expr.relabel, hlower, hlower]
    exact .node (expr.emitted place' naming (0 :: path) hfit.2) rfl rfl
  | .selector _ expr field, hfit => by
    simp only [Expr.sites, allFit_cons] at hfit
    have hexpr := expr.emitted place' naming (0 :: path) hfit.2
    refine .node ?_ rfl rfl
    simpa [Expr.relabel, Expr.lower, Lua.Expr.names] using hexpr
  | .index _ expr key, hfit => by
    simp only [Expr.sites, allFit_cons, allFit_append] at hfit
    exact .node ((expr.emitted place' naming (0 :: path) hfit.2.1).append
      (key.emitted place' naming (1 :: path) hfit.2.2)) rfl rfl
  | .slice _ expr low high, hfit => by
    simp only [Expr.sites, allFit_cons, allFit_append] at hfit
    obtain ⟨-, ⟨hexpr, hlow⟩, hhigh⟩ := hfit
    have hexpr := expr.emitted place' naming (0 :: path) hexpr
    have hlow := Expr.emitted_option place' naming (1 :: path) (.numeral "0") rfl low hlow
    have hhigh := Expr.emitted_option place' naming (2 :: path) .nil rfl high hhigh
    refine .node ?_ rfl rfl
    have hcall := (Emitted.own Names.slice Names.slice).append ((hexpr.append hlow).append hhigh)
    simpa [Expr.relabel, Expr.lower, Lua.Expr.names, Lua.Expr.namesOfList] using hcall
  | .cond _ test whenTrue whenFalse, hfit => by
    simp only [Expr.sites, allFit_cons, allFit_append] at hfit
    obtain ⟨-, ⟨htest, htrue⟩, hfalse⟩ := hfit
    rw [Expr.relabel, Expr.lower, Expr.lower, Lua.Expr.names_choose, Lua.Expr.names_choose]
    exact .node (((test.emitted place' naming (0 :: path) htest).append
      (whenTrue.emitted place' naming (1 :: path) htrue)).append
      (whenFalse.emitted place' naming (2 :: path) hfalse)) rfl rfl
  | .call _ callee args, hfit => by
    simp only [Expr.sites, allFit_cons, allFit_append] at hfit
    exact .node ((callee.emitted place' naming (0 :: path) hfit.2.1).append
      (Expr.emitted_list place' naming (1 :: path) args hfit.2.2)) rfl rfl
  | .array _ elements, hfit => by
    simp only [Expr.sites, allFit_cons] at hfit
    rw [Expr.relabel, Expr.lower, Expr.lower, Lua.Expr.names_array, Lua.Expr.names_array]
    exact .node (Expr.emitted_list place' naming (0 :: path) elements hfit.2) rfl rfl
  | .map _ elements, hfit => by
    simp only [Expr.sites, allFit_cons] at hfit
    exact .node (MapElement.emitted_list place' naming (0 :: path) elements hfit.2) rfl rfl
  | .func _ params body, hfit => by
    simp only [Expr.sites, allFit_cons, allFit_append] at hfit
    have hbody := body.emitted (place'.enterFunction.bindAll
      (naming.enterFunction.declaredParams (0 :: path) params))
      (naming.enterFunction.bindParams (0 :: path) params) (1 :: path) .lexical 0 hfit.2.2
    exact .node ((Emitted.binders _ _ _ _).append hbody) rfl rfl

theorem Expr.emitted_option {place : Place} (place' : Place) (naming : Naming) (path : Path)
    (default : Lua.Expr) (hdefault : default.names = []) : (expr : Option Expr) →
    AllFit (Expr.sitesOfOption place expr) →
    Emitted (Expr.sitesOfOption place expr)
      (Expr.sitesOfOption place' (Expr.relabelOption naming path expr))
      (Expr.lowerOption default expr).names
      (Expr.lowerOption default (Expr.relabelOption naming path expr)).names
  | none, _ => by
    rw [Expr.relabelOption, Expr.lowerOption, hdefault]
    exact .nil
  | some expr, hfit => expr.emitted place' naming path hfit

theorem Expr.emitted_list {place : Place} (place' : Place) (naming : Naming) (path : Path) :
    (exprs : List Expr) → AllFit (Expr.sitesOfList place exprs) →
    Emitted (Expr.sitesOfList place exprs)
      (Expr.sitesOfList place' (Expr.relabelList naming path exprs))
      (Lua.Expr.namesOfList (Expr.lowerList exprs))
      (Lua.Expr.namesOfList (Expr.lowerList (Expr.relabelList naming path exprs)))
  | [], _ => .nil
  | expr :: exprs, hfit => by
    simp only [Expr.sitesOfList, allFit_append] at hfit
    exact (expr.emitted place' naming (0 :: path) hfit.1).append
      (Expr.emitted_list place' naming (1 :: path) exprs hfit.2)

theorem MapElement.emitted_list {place : Place} (place' : Place) (naming : Naming) (path : Path) :
    (elements : List MapElement) → AllFit (MapElement.sitesOfList place elements) →
    Emitted (MapElement.sitesOfList place elements)
      (MapElement.sitesOfList place' (MapElement.relabelList naming path elements))
      (Lua.Field.namesOfList (MapElement.lowerList elements))
      (Lua.Field.namesOfList (MapElement.lowerList (MapElement.relabelList naming path elements)))
  | [], _ => .nil
  | ⟨_, _, value⟩ :: elements, hfit => by
    simp only [MapElement.sitesOfList, allFit_append] at hfit
    exact (value.emitted place' naming (0 :: path) hfit.1).append
      (MapElement.emitted_list place' naming (1 :: path) elements hfit.2)

theorem Stmt.emitted {place : Place} (place' : Place) (naming : Naming) (path : Path)
    (binding : Binding) (depth : Nat) : (stmt : Stmt) → AllFit (stmt.sites place) →
    Emitted (stmt.sites place) ((stmt.relabel naming path).sites place')
      (Lua.Stmt.namesOfList (stmt.lower binding depth))
      (Lua.Stmt.namesOfList ((stmt.relabel naming path).lower binding depth))
  | .expr _ expr, hfit => by
    simp only [Stmt.sites, allFit_cons] at hfit
    have hexpr := expr.emitted place' naming (0 :: path) hfit.2
    refine .stmt ?_
    simpa [Stmt.relabel, Stmt.lower, Lua.Stmt.names] using hexpr
  | .incDec _ op target, hfit => by
    simp only [Stmt.sites, allFit_cons] at hfit
    have htarget := target.emitted place' naming (0 :: path) hfit.2
    refine .stmt ?_
    simpa [Stmt.relabel, Stmt.lower, Lua.Stmt.names_update, Lua.Expr.names] using
      htarget.again.append htarget
  | .assign pos op [target] [value], hfit => by
    simp only [Stmt.sites, Expr.sitesOfList, List.append_nil, allFit_cons, allFit_append] at hfit
    obtain ⟨⟨_, _, htarget, -, hshape⟩, hlhs, hrhs⟩ := hfit
    simp only [Stmt.sites, Stmt.relabel, Expr.relabelList, Expr.sitesOfList, List.append_nil]
    refine .stmt ?_
    by_cases hop : op = .define
    · subst hop
      obtain rfl := List.singleton_inj.1 htarget
      obtain ⟨id, rfl⟩ := hshape
      simp only [if_true, Naming.declaredTargets, Stmt.lower, Expr.isFunction_relabel,
        Lua.Stmt.namesOfList_singleton]
      exact (Emitted.node .nil rfl rfl).append (.bind _ _ _ _ (value.emitted _ _ _ hrhs))
    · simp only [hop, if_false, Expr.sitesOfList, List.append_nil] at hlhs hshape ⊢
      have htarget := target.emitted place' naming (0 :: 0 :: path) hlhs
      cases op with
      | define => exact absurd rfl hop
      | assign =>
          rw [Stmt.lower, Stmt.lower, Lua.Stmt.namesOfList_singleton,
            Lua.Stmt.namesOfList_singleton]
          exact htarget.append (value.emitted _ _ _ hrhs)
      | add | sub | mul | quo | rem =>
          -- The target is written on the left and read in the operation.
          change Emitted _ _ (Lua.Stmt.namesOfList [.update ..]) (Lua.Stmt.namesOfList [.update ..])
          rw [Lua.Stmt.namesOfList_singleton, Lua.Stmt.namesOfList_singleton]
          exact htarget.again.append (htarget.append (value.emitted _ _ _ hrhs))
      | _ => exact absurd hshape.1 (by decide)
  | .assign _ _ [] _, hfit | .assign _ _ (_ :: _ :: _) _, hfit | .assign _ _ [_] [], hfit
  | .assign _ _ [_] (_ :: _ :: _), hfit => by
    simp [Stmt.sites, Node.Fits] at hfit
  | .ret _ none, _ => .stmt .nil
  | .ret _ (some result), hfit => by
    simp only [Stmt.sites, Expr.sitesOfOption, allFit_cons] at hfit
    have hresult := result.emitted place' naming (0 :: path) hfit.2
    refine .stmt ?_
    simpa [Stmt.relabel, Expr.relabelOption, Expr.sitesOfOption, Stmt.lower, Lua.Stmt.names,
      Lua.Expr.names] using hresult
  | .branch _ .break, _ => .stmt .nil
  | .branch _ .continue, _ => .stmt (.own _ _)
  | .block body, hfit => by
    simp only [Stmt.sites, allFit_cons] at hfit
    have hbody := body.emitted place'.enter naming.enter (0 :: path) .lexical depth hfit.2
    refine .stmt ?_
    simpa [Stmt.relabel, Stmt.lower, Lua.Stmt.names] using hbody
  | .ifElse _ init test body rest, hfit => by
    simp only [Stmt.sites, allFit_cons, allFit_append] at hfit
    obtain ⟨-, ⟨⟨hinit, htest⟩, hbody⟩, hrest⟩ := hfit
    rw [Stmt.relabel, Stmt.namesOfList_lower_ifElse, Stmt.namesOfList_lower_ifElse]
    exact .stmt ((((Stmt.emitted_option _ _ _ depth init hinit).append
      (test.emitted _ _ _ htest)).append (body.emitted _ _ _ .lexical depth hbody)).append
      (Stmt.emitted_else _ _ _ depth rest hrest))
  | .loop _ init test post body, hfit => by
    simp only [Stmt.sites, allFit_cons, allFit_append] at hfit
    obtain ⟨-, ⟨⟨hinit, htest⟩, hbody⟩, hpost⟩ := hfit
    rw [Stmt.relabel, Stmt.namesOfList_lower_loop, Stmt.namesOfList_lower_loop,
      Block.fallsThrough_relabel]
    exact .stmt ((((Stmt.emitted_option _ _ _ depth init hinit).append
      (Expr.emitted_option _ _ _ (.bool true) rfl test htest)).append
      (.guarded _ _ (body.emitted _ _ _ .lexical (depth + 1) hbody))).append
      ((Emitted.own _ _).append (Stmt.emitted_option _ _ _ (depth + 1) post hpost)))
  | .forIn _ key value iterable body, hfit => by
    simp only [Stmt.sites, allFit_cons, allFit_append] at hfit
    obtain ⟨-, ⟨hiterable, -⟩, hbody⟩ := hfit
    rw [Stmt.relabel, Stmt.namesOfList_lower_forIn, Stmt.namesOfList_lower_forIn,
      Block.fallsThrough_relabel]
    have hiterable := (Emitted.own Names.iterate Names.iterate).append
      (iterable.emitted place' naming (2 :: path) hiterable)
    exact .stmt ((hiterable.withBinders _ _ _ _).append
      (.withOwn (.guarded _ _ (body.emitted _ _ _ .lexical (depth + 1) hbody)) _))
  | .exportValue .., hfit => absurd (hfit _ List.mem_cons_self) id

theorem Stmt.emitted_option {place : Place} (place' : Place) (naming : Naming) (path : Path)
    (depth : Nat) : (stmt : Option Stmt) → AllFit (Stmt.sitesOfOption place stmt) →
    Emitted (Stmt.sitesOfOption place stmt)
      (Stmt.sitesOfOption place' (Stmt.relabelOption naming path stmt))
      (Lua.Stmt.namesOfList (Stmt.lowerOption depth stmt))
      (Lua.Stmt.namesOfList (Stmt.lowerOption depth (Stmt.relabelOption naming path stmt)))
  | none, _ => .nil
  | some stmt, hfit => stmt.emitted place' naming path .lexical depth hfit

theorem Stmt.emitted_else {place : Place} (place' : Place) (naming : Naming) (path : Path)
    (depth : Nat) : (rest : Option Stmt) → AllFit (Stmt.sitesOfElse place rest) →
    Emitted (Stmt.sitesOfElse place rest)
      (Stmt.sitesOfElse place' (Stmt.relabelElse naming path rest))
      (Stmt.lowerElse depth rest).names
      (Stmt.lowerElse depth (Stmt.relabelElse naming path rest)).names
  | none, _ => .nil
  | some stmt, hfit => by
    cases stmt with
    | block body =>
        simp only [Stmt.sitesOfElse, allFit_cons] at hfit
        exact .stmt (body.emitted place'.enter naming.enter (0 :: path) .lexical depth hfit.2)
    | ifElse pos init test body rest =>
        cases init with
        | none =>
            simp only [Stmt.sitesOfElse, allFit_cons, allFit_append] at hfit
            obtain ⟨-, ⟨htest, hbody⟩, hrest⟩ := hfit
            exact .stmt (((test.emitted place' naming (1 :: path) htest).append
              (body.emitted place'.enter naming.enter (2 :: path) .lexical depth hbody)).append
              (Stmt.emitted_else place' naming (3 :: path) depth rest hrest))
        | some init =>
            exact Stmt.emitted_otherwise rfl
              (Stmt.emitted place'.enter naming.enter path .lexical depth _ hfit)
    | _ =>
        exact Stmt.emitted_otherwise rfl
          (Stmt.emitted place'.enter naming.enter path .lexical depth _ hfit)

theorem Stmt.emitted_list {place : Place} (place' : Place) (naming : Naming) (path : Path)
    (binding : Binding) (depth : Nat) : (stmts : List Stmt) →
    AllFit (Stmt.sitesOfList place stmts) →
    Emitted (Stmt.sitesOfList place stmts)
      (Stmt.sitesOfList place' (Stmt.relabelList naming path stmts))
      (Lua.Stmt.namesOfList (Stmt.lowerList binding depth stmts))
      (Lua.Stmt.namesOfList (Stmt.lowerList binding depth (Stmt.relabelList naming path stmts)))
  | [], _ => .nil
  | stmt :: stmts, hfit => by
    simp only [Stmt.sitesOfList, allFit_append] at hfit
    have hstmt := stmt.emitted place' naming (0 :: path) binding depth hfit.1
    have hstmts := Stmt.emitted_list (place'.after (stmt.relabel naming (0 :: path)))
      (naming.after (0 :: path) stmt) (1 :: path) binding depth stmts hfit.2
    rw [Stmt.relabelList, Stmt.lowerList_cons, Stmt.lowerList_cons, Stmt.isReturn_relabel,
      Stmt.isEmpty_relabelList, Lua.Stmt.namesOfList_append, Lua.Stmt.namesOfList_append,
      Lua.Stmt.namesOfList_inBlock, Lua.Stmt.namesOfList_inBlock]
    exact hstmt.append hstmts

theorem Block.emitted {place : Place} (place' : Place) (naming : Naming) (path : Path)
    (binding : Binding) (depth : Nat) : (block : Block) → AllFit (block.sites place) →
    Emitted (block.sites place) ((block.relabel naming path).sites place')
      (Lua.Stmt.namesOfList (block.lower binding depth))
      (Lua.Stmt.namesOfList ((block.relabel naming path).lower binding depth))
  | ⟨_, stmts⟩, hfit => Stmt.emitted_list place' naming path binding depth stmts hfit

end

namespace File

/-- The names of all occurrences, from left to right. -/
def names (file : File) : List String := namesIn file.sites

theorem pairedIn_relabel {file : File} (hfile : file.WellFormed) (label : Path → String)
    (rootBinding binding : Binding) :
    PairedIn file.names (file.relabel label rootBinding).names
      (Lua.Stmt.namesOfList (file.lower binding))
      (Lua.Stmt.namesOfList ((file.relabel label rootBinding).lower binding)) :=
  Stmt.emitted_list .root (.root label rootBinding) [] binding 0 file.stmts hfile

end File

end Script

end LuaBackend
