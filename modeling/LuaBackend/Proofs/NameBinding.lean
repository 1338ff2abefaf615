import LuaBackend.Proofs.EmittedNames
import LuaBackend.Proofs.LuaScoping

/-!
# Lowering preserves name binding

A script and its code nest their scopes in different ways: frames on one side, `do`, `repeat`,
`then` and `function` blocks on the other.  Labels go through the lowering like names, so in the
code of a labelled script each local shows the declaration it was emitted for and each occurrence
the declaration that it stands for.  The result is that this is a relabelling of the code of the
script itself by the scopes of Lua, and that all occurrences are in it.
-/

namespace LuaBackend

open Script

/-! ## Names of the generator -/

/-- A name that a script can bind: neither reserved nor the one that a loop discards. -/
def Names.IsFree (name : String) : Prop := isReserved name = false ∧ name ≠ discard

namespace Names

theorem not_isFree_continueFlag (depth : Nat) : ¬ IsFree (continueFlag depth) := by
  simp [IsFree, isReserved_continueFlag]

theorem not_isFree_iterate : ¬ IsFree iterate := by
  have hreserved : isReserved iterate = true := by decide
  simp [IsFree, hreserved]

theorem not_isFree_slice : ¬ IsFree slice := by
  have hreserved : isReserved slice = true := by decide
  simp [IsFree, hreserved]

theorem not_isFree_discard : ¬ IsFree discard := by simp [IsFree]

theorem isFree_len : IsFree "len" := by
  refine ⟨by decide, by decide⟩

end Names

/-! ## Looking a name up behind a step -/

namespace Naming

variable (naming : Naming)

@[simp] theorem place_enter : naming.enter.place = naming.place.enter := rfl

@[simp] theorem place_enterFunction : naming.enterFunction.place = naming.place.enterFunction := rfl

@[simp] theorem place_enterLoop : naming.enterLoop.place = naming.place.enterLoop := rfl

@[simp] theorem place_bind (path : Path) (id : Ident) :
    (naming.bind path id).place = naming.place.bind id := rfl

@[simp] theorem place_after (path : Path) (stmt : Stmt) :
    (naming.after path stmt).place = naming.place.after stmt := by
  unfold after Place.after
  cases stmt.binder? <;> rfl

@[simp] theorem place_afterOption (path : Path) (stmt : Option Stmt) :
    (naming.afterOption path stmt).place = naming.place.afterOption stmt := by
  cases stmt <;> simp [afterOption, Place.afterOption]

/-- A frame without names does not change what a name refers to. -/
theorem lookup_of_frames_cons {inner : Naming} {kind : FrameKind}
    (hroot : inner.rootBinding = naming.rootBinding) (hlabels : inner.labels = naming.labels)
    (hframes : inner.place.frames = { kind } :: naming.place.frames) :
    inner.lookup = naming.lookup := by
  funext name
  simp only [lookup, hroot, hlabels, hframes, Scope.resolveIn, List.contains_nil,
    Bool.false_eq_true,
    if_false]
  cases Scope.resolveIn naming.rootBinding name naming.place.frames <;> rfl

@[simp] theorem lookup_enter : naming.enter.lookup = naming.lookup :=
  naming.lookup_of_frames_cons rfl rfl rfl

@[simp] theorem lookup_enterFunction : naming.enterFunction.lookup = naming.lookup :=
  naming.lookup_of_frames_cons rfl rfl rfl

@[simp] theorem lookup_enterLoop : naming.enterLoop.lookup = naming.lookup := rfl

theorem binding_enter (hframes : naming.place.frames ≠ []) : naming.enter.binding = .lexical := by
  simp [binding, depth, Scope.bindingAt, hframes]

theorem binding_enterFunction (hframes : naming.place.frames ≠ []) :
    naming.enterFunction.binding = .lexical := by
  simp [binding, depth, Scope.bindingAt, hframes]

@[simp] theorem binding_enterLoop : naming.enterLoop.binding = naming.binding := rfl

@[simp] theorem binding_bind (path : Path) (id : Ident) :
    (naming.bind path id).binding = naming.binding := by
  have hlength : (naming.place.bind id).frames.length = naming.place.frames.length := by
    unfold Place.bind
    split <;> simp_all
  simp [binding, depth, bind, hlength]

@[simp] theorem binding_after (path : Path) (stmt : Stmt) :
    (naming.after path stmt).binding = naming.binding := by
  unfold after
  split <;> simp

@[simp] theorem binding_afterOption (path : Path) (stmt : Option Stmt) :
    (naming.afterOption path stmt).binding = naming.binding := by
  cases stmt <;> simp [afterOption]

theorem lookup_bind_of_ne (path : Path) {id : Ident} {name : String} (hne : name ≠ id.name) :
    (naming.bind path id).lookup name = naming.lookup name := by
  unfold lookup bind Place.bind
  cases hframes : naming.place.frames with
  | nil => simp [hframes, Scope.resolveIn]
  | cons frame outer =>
      simp only [Scope.resolveIn, List.contains_cons, beq_false_of_ne hne, Bool.false_or, hne,
        and_false, if_false]

theorem lookup_bind_self {path : Path} {id : Ident} (hframes : naming.place.frames ≠ []) :
    (naming.bind path id).lookup id.name =
      match naming.binding with
      | .global => none
      | .lexical => some (naming.label path) := by
  unfold lookup bind Place.bind binding depth
  cases hplace : naming.place.frames with
  | nil => exact absurd hplace hframes
  | cons frame outer =>
      cases hbinding : Scope.bindingAt naming.rootBinding outer.length <;>
        simp [Scope.resolveIn, hbinding]

/-- Where definitions become globals, no local is in scope. -/
theorem lookup_eq_none_of_global (hglobal : naming.binding = .global) (name : String) :
    naming.lookup name = none := by
  unfold binding depth Scope.bindingAt at hglobal
  unfold lookup
  match hframes : naming.place.frames with
  | [] => rfl
  | [frame] =>
      have hroot : naming.rootBinding = .global := by simpa [hframes] using hglobal
      by_cases hname : name ∈ frame.names <;>
        simp [Scope.resolveIn, Scope.bindingAt, hname, hroot]
  | _ :: _ :: _ => simp [hframes] at hglobal

end Naming

/-! ## Agreement of the two scopes -/

/-- The names in scope in the script and the locals in scope in the code carry the same labels, and
the names of the generator stand for themselves. -/
structure Agrees (naming : Naming) (labels : Lua.Labels) : Prop where
  frames_ne_nil : naming.place.frames ≠ []
  isFree_of_binds : ∀ name, naming.place.Binds name → Names.IsFree name
  lookup_eq : ∀ name, Names.IsFree name → labels name = naming.lookup name
  occurrence_eq : ∀ name, ¬ Names.IsFree name → labels.occurrence name = name

namespace Place

theorem frames_bind_ne_nil {place : Place} (id : Ident) (hframes : place.frames ≠ []) :
    (place.bind id).frames ≠ [] := by
  unfold bind
  split <;> simp_all

end Place

namespace Agrees

variable {naming : Naming} {labels : Lua.Labels}

theorem root (label : Path → String) (rootBinding : Binding) :
    Agrees (.root label rootBinding) .empty where
  frames_ne_nil := by simp [Naming.root, Place.root]
  isFree_of_binds := by simp [Naming.root, Place.root, Place.Binds]
  lookup_eq := by simp [Naming.lookup, Naming.root, Place.root, Scope.resolveIn, Lua.Labels.empty]
  occurrence_eq := by simp [Lua.Labels.occurrence, Lua.Labels.empty]

theorem enter (hagrees : Agrees naming labels) : Agrees naming.enter labels where
  frames_ne_nil := by simp
  isFree_of_binds name hbinds := hagrees.isFree_of_binds name (Place.binds_enter_iff.1 hbinds)
  lookup_eq := by simpa using hagrees.lookup_eq
  occurrence_eq := hagrees.occurrence_eq

theorem enterFunction (hagrees : Agrees naming labels) : Agrees naming.enterFunction labels where
  frames_ne_nil := by simp
  isFree_of_binds name hbinds :=
    hagrees.isFree_of_binds name (Place.binds_enterFunction_iff.1 hbinds)
  lookup_eq := by simpa using hagrees.lookup_eq
  occurrence_eq := hagrees.occurrence_eq

theorem enterLoop (hagrees : Agrees naming labels) : Agrees naming.enterLoop labels :=
  { hagrees with }

/-- A definition that becomes a local. -/
theorem bind (hagrees : Agrees naming labels) (hlexical : naming.binding = .lexical) (path : Path)
    {id : Ident} (hfree : Names.IsFree id.name) :
    Agrees (naming.bind path id) (labels.bind id.name (naming.label path)) where
  frames_ne_nil := Place.frames_bind_ne_nil id hagrees.frames_ne_nil
  isFree_of_binds name hbinds := by
    rcases Place.binds_bind hbinds with rfl | hbinds
    · exact hfree
    · exact hagrees.isFree_of_binds name hbinds
  lookup_eq name hname := by
    by_cases heq : name = id.name
    · rw [heq, Lua.Labels.bind_self, naming.lookup_bind_self hagrees.frames_ne_nil, hlexical]
    · rw [labels.bind_of_ne _ heq, naming.lookup_bind_of_ne path heq, hagrees.lookup_eq name hname]
  occurrence_eq name hname := by
    have hne : name ≠ id.name := fun heq => hname (heq ▸ hfree)
    rw [Lua.Labels.occurrence, labels.bind_of_ne _ hne]
    exact hagrees.occurrence_eq name hname

/-- A definition that becomes a global hides no local. -/
theorem bind_global (hagrees : Agrees naming labels) (hglobal : naming.binding = .global)
    (path : Path) {id : Ident} (hfree : Names.IsFree id.name) :
    Agrees (naming.bind path id) labels where
  frames_ne_nil := Place.frames_bind_ne_nil id hagrees.frames_ne_nil
  isFree_of_binds name hbinds := by
    rcases Place.binds_bind hbinds with rfl | hbinds
    · exact hfree
    · exact hagrees.isFree_of_binds name hbinds
  lookup_eq name hname := by
    rw [hagrees.lookup_eq name hname, naming.lookup_eq_none_of_global hglobal,
      Naming.lookup_eq_none_of_global _ (by simpa using hglobal)]
  occurrence_eq := hagrees.occurrence_eq

/-- A local of the generator. -/
theorem bindOwn (hagrees : Agrees naming labels) {name : String} (hown : ¬ Names.IsFree name) :
    Agrees naming (labels.bind name name) where
  frames_ne_nil := hagrees.frames_ne_nil
  isFree_of_binds := hagrees.isFree_of_binds
  lookup_eq other hother := by
    have hne : other ≠ name := fun heq => hown (heq ▸ hother)
    rw [labels.bind_of_ne _ hne, hagrees.lookup_eq other hother]
  occurrence_eq other hother := by
    by_cases heq : other = name
    · rw [heq, Lua.Labels.occurrence, Lua.Labels.bind_self, Option.getD_some]
    · rw [Lua.Labels.occurrence, labels.bind_of_ne _ heq]
      exact hagrees.occurrence_eq other hother

theorem relabels_own (hagrees : Agrees naming labels) {name : String} (hown : ¬ Names.IsFree name) :
    Lua.Expr.Relabels labels (.name name) (.name name) := by
  have hname : Lua.Expr.Relabels labels (.name name) (.name (labels.occurrence name)) := .name
  rwa [hagrees.occurrence_eq name hown] at hname

/-- An identifier that may be read refers to the same declaration on both sides. -/
theorem relabels_ident (hagrees : Agrees naming labels) {id : Ident}
    (hfits : (Node.expr (.ident id)).Fits naming.place) :
    Lua.Expr.Relabels labels (.name id.name) (.name (naming.occurrence id).name) := by
  have hfree : Names.IsFree id.name := by
    rcases hfits with hbinds | hlen
    · exact hagrees.isFree_of_binds _ hbinds
    · exact hlen ▸ Names.isFree_len
  have hname : Lua.Expr.Relabels labels (.name id.name) (.name (labels.occurrence id.name)) :=
    .name
  rwa [Lua.Labels.occurrence, hagrees.lookup_eq _ hfree] at hname

end Agrees

/-! ## Trees whose bindings are kept -/

/-- The node fits, and it does not bind the name that a loop discards. -/
def Site.Clean (site : Site) : Prop :=
  site.node.Fits site.place ∧ ∀ id, site.node = .binder id → id.name ≠ Names.discard

def AllClean (sites : List Site) : Prop := ∀ site ∈ sites, site.Clean

@[simp] theorem allClean_cons {site : Site} {sites : List Site} :
    AllClean (site :: sites) ↔ site.Clean ∧ AllClean sites :=
  List.forall_mem_cons

@[simp] theorem allClean_append {first second : List Site} :
    AllClean (first ++ second) ↔ AllClean first ∧ AllClean second :=
  List.forall_mem_append

theorem Site.Clean.isFree {place : Place} {id : Ident} (hclean : Site.Clean ⟨place, .binder id⟩) :
    Names.IsFree id.name :=
  ⟨hclean.1.1, hclean.2 id rfl⟩

theorem AllClean.isFree_of_mem_binders {place : Place} {ids : List Ident}
    (hclean : AllClean (place.binders ids)) {id : Ident} (hmem : id ∈ ids) :
    Names.IsFree id.name := by
  induction ids generalizing place with
  | nil => simp at hmem
  | cons first rest ih =>
      simp only [Place.binders, allClean_cons] at hclean
      rcases List.mem_cons.1 hmem with rfl | hmem
      · exact hclean.1.isFree
      · exact ih hclean.2 hmem

namespace Naming

@[simp] theorem place_bindParams (naming : Naming) (path : Path) (ids : List Ident) :
    (naming.bindParams path ids).place = naming.place.bindAll ids := by
  induction ids generalizing naming path with
  | nil => rfl
  | cons id ids ih =>
      rw [bindParams, ih]
      rfl

@[simp] theorem binding_bindParams (naming : Naming) (path : Path) (ids : List Ident) :
    (naming.bindParams path ids).binding = naming.binding := by
  induction ids generalizing naming path with
  | nil => rfl
  | cons id ids ih => rw [bindParams, ih, binding_bind]

@[simp] theorem length_declaredParams (naming : Naming) (path : Path) (ids : List Ident) :
    (naming.declaredParams path ids).length = ids.length := by
  induction ids generalizing naming path with
  | nil => rfl
  | cons id ids ih => simp [declaredParams, ih]

theorem place_bindVariables (naming : Naming) (path path' : Path) (key : Option Ident)
    (value : Ident) :
    ((naming.bindKey path key).bindVariable path' value).place =
      naming.place.bindAll (loopBinders key value) := by
  cases key with
  | none =>
      by_cases hvalue : value.name = Names.discard <;>
        simp [bindKey, bindVariable, loopBinders, hvalue, Place.bindAll]
  | some key =>
      by_cases hkey : key.name = Names.discard <;> by_cases hvalue : value.name = Names.discard <;>
        simp [bindKey, bindVariable, loopBinders, hkey, hvalue, Place.bindAll]

/-- The locals in scope behind the code of a definition. -/
def labelsAfter (naming : Naming) (labels : Lua.Labels) (path : Path) (id : Ident) : Lua.Labels :=
  match naming.binding with
  | .global => labels
  | .lexical => labels.bind id.name (naming.label path)

theorem binding_bindKey (naming : Naming) (path : Path) (key : Option Ident) :
    (naming.bindKey path key).binding = naming.binding := by
  cases key with
  | none => rfl
  | some key =>
      simp only [bindKey, bindVariable]
      split
      · rfl
      · exact naming.binding_bind path key

end Naming

namespace Agrees

variable {naming : Naming} {labels : Lua.Labels}

theorem bindParams (hagrees : Agrees naming labels) (hlexical : naming.binding = .lexical)
    (path : Path) {ids : List Ident} (hclean : AllClean (naming.place.binders ids)) :
    Agrees (naming.bindParams path ids)
      (labels.bindAll ((ids.map Ident.name).zip
        ((naming.declaredParams path ids).map Ident.name))) := by
  induction ids generalizing naming labels path with
  | nil => exact hagrees
  | cons id ids ih =>
      simp only [Place.binders, allClean_cons] at hclean
      have hdeclared : (naming.declared (0 :: path) id).name = naming.label (0 :: path) := by
        simp [Naming.declared, hlexical]
      have hbind := hagrees.bind hlexical (0 :: path) hclean.1.isFree
      have hrest := ih hbind (by simpa using hlexical) (1 :: path) hclean.2
      simpa [Naming.bindParams, Naming.declaredParams, Lua.Labels.bindAll, hdeclared] using hrest

theorem bindVariable (hagrees : Agrees naming labels) (hlexical : naming.binding = .lexical)
    (path : Path) {id : Ident} (hfree : id.name ≠ Names.discard → Names.IsFree id.name) :
    Agrees (naming.bindVariable path id)
      (labels.bind id.name (naming.declaredVariable path id).name) := by
  unfold Naming.bindVariable Naming.declaredVariable
  split
  · next hdiscard =>
      rw [hdiscard]
      exact hagrees.bindOwn Names.not_isFree_discard
  · next hne =>
      simpa [Naming.declared, hlexical] using hagrees.bind hlexical path (hfree hne)

/-- Without a key the loop binds the name that it discards. -/
theorem bindKey (hagrees : Agrees naming labels) (hlexical : naming.binding = .lexical)
    (path : Path) {key : Option Ident}
    (hfree : ∀ id ∈ key, id.name ≠ Names.discard → Names.IsFree id.name) :
    Agrees (naming.bindKey path key)
      (labels.bind ((key.map Ident.name).getD Names.discard)
        (((key.map (naming.declaredVariable path)).map Ident.name).getD Names.discard)) := by
  cases key with
  | none => exact hagrees.bindOwn Names.not_isFree_discard
  | some key => exact hagrees.bindVariable hlexical path (hfree key rfl)

/-- Behind a definition both sides know the same names. -/
theorem after_define (hagrees : Agrees naming labels) (path : Path) {id : Ident}
    (hfree : Names.IsFree id.name) :
    Agrees (naming.bind path id) (naming.labelsAfter labels path id) := by
  unfold Naming.labelsAfter
  cases hbinding : naming.binding with
  | global => exact hagrees.bind_global hbinding path hfree
  | lexical => exact hagrees.bind hbinding path hfree

end Agrees

/-! ## The code of compound forms -/

namespace Lua

variable {labels : Labels}

theorem Expr.ListRelabels.map_item {values values' : List Expr}
    (hvalues : Expr.ListRelabels labels values values') {fields fields' : List Field}
    (hfields : Field.ListRelabels labels fields fields') :
    Field.ListRelabels labels ((values.map fun value => .item (.paren value)) ++ fields)
      ((values'.map fun value => .item (.paren value)) ++ fields') := by
  induction values generalizing values' with
  | nil =>
      cases hvalues
      exact hfields
  | cons value values ih =>
      cases hvalues with
      | cons hvalue hvalues => exact .cons (.item (.paren hvalue)) (ih hvalues)

theorem Expr.Relabels.array {elements elements' : List Expr}
    (helements : Expr.ListRelabels labels elements elements') :
    Expr.Relabels labels (.array elements) (.array elements') := by
  have hmark : Field.ListRelabels labels [.named Names.arrayMark (.bool true)]
      [.named Names.arrayMark (.bool true)] := .cons (.named .bool) .nil
  cases helements with
  | nil => exact .table (.cons (.keyed .numeral .nil) hmark)
  | cons hfirst hothers =>
    exact .table (.cons (.keyed .numeral (.paren hfirst)) (hothers.map_item hmark))

theorem Expr.Relabels.choose {test test' whenTrue whenTrue' whenFalse whenFalse' : Expr}
    (htest : Expr.Relabels labels test test') (htrue : Expr.Relabels labels whenTrue whenTrue')
    (hfalse : Expr.Relabels labels whenFalse whenFalse') :
    Expr.Relabels labels (.choose test whenTrue whenFalse)
      (.choose test' whenTrue' whenFalse') := by
  have htrue := Stmt.ListRelabels.single (.retValue (.paren htrue))
  have hfalse := Stmt.ListRelabels.single (.retValue (.paren hfalse))
  exact .call (.paren (.func rfl (.single (.cond htest htrue (.otherwise hfalse))))) .nil

theorem Stmt.Relabels.update {op : BinaryOp} {target target' value value' : Expr}
    (htarget : Expr.Relabels labels target target') (hvalue : Expr.Relabels labels value value') :
    Stmt.Relabels labels (.update op target value) (.update op target' value') labels :=
  .assign htarget (.paren (.binary htarget hvalue))

end Lua

namespace Agrees

variable {naming after : Naming} {labels inner : Lua.Labels} {flag : String}

/-- The body of a loop is run with the flag of the loop in scope. -/
theorem relabels_guarded (hagrees : Agrees after inner) (hown : ¬ Names.IsFree flag)
    {body body' : List Lua.Stmt} (fallsThrough : Bool)
    (hbody : Lua.Stmt.ListRelabels (labels.bind flag flag) body body' inner) :
    Lua.Stmt.ListRelabels labels (Lua.Stmt.guarded flag body fallsThrough)
      (Lua.Stmt.guarded flag body' fallsThrough) (labels.bind flag flag) := by
  have hdone : Lua.Stmt.ListRelabels inner
      (if fallsThrough then [.assign (.name flag) (.bool true)] else [])
      (if fallsThrough then [.assign (.name flag) (.bool true)] else []) inner := by
    split
    · exact .single (.assign (hagrees.relabels_own hown) .bool)
    · exact .nil
  exact .cons (.localVar .bool) (.single (.repeatLoop (hbody.append hdone) .bool))

theorem relabels_breakUnless (hagrees : Agrees naming labels) (hown : ¬ Names.IsFree flag) :
    Lua.Stmt.Relabels labels (.breakUnless flag) (.breakUnless flag) labels :=
  .cond (.unary (hagrees.relabels_own hown)) (.single .break) .absent

theorem relabels_afterRound (hagrees : Agrees naming labels) (hown : ¬ Names.IsFree flag)
    {path : Path} {depth : Nat} (post : Option Stmt)
    (hpost : Lua.Stmt.ListRelabels labels (Stmt.lowerOption depth post)
      (Stmt.lowerOption depth (Stmt.relabelOption naming path post)) inner) :
    Lua.Stmt.Relabels labels
      (.afterRound flag (post.map (Stmt.lower .lexical depth)))
      (.afterRound flag ((Stmt.relabelOption naming path post).map (Stmt.lower .lexical depth)))
      labels := by
  cases post with
  | none => exact hagrees.relabels_breakUnless hown
  | some post => exact .cond (hagrees.relabels_own hown) hpost (.otherwise (.single .break))

theorem relabels_define (hagrees : Agrees naming labels) {binding : Binding}
    (hbinding : naming.binding = binding) (path : Path) {id : Ident} (hfree : Names.IsFree id.name)
    {isFunction : Bool} {value value' : Lua.Expr}
    (hvalue : Lua.Expr.Relabels (if isFunction then naming.labelsAfter labels path id else labels)
      value value') :
    Lua.Stmt.Relabels labels (.bind binding isFunction id.name value)
      (.bind binding isFunction (naming.declared path id).name value')
      (naming.labelsAfter labels path id) := by
  unfold Naming.labelsAfter at hvalue ⊢
  unfold Naming.declared
  subst hbinding
  cases hbinding : naming.binding with
  | global =>
      simp only [hbinding, ite_self] at hvalue
      have hname : labels.occurrence id.name = id.name := by
        simp [Lua.Labels.occurrence, hagrees.lookup_eq _ hfree,
          naming.lookup_eq_none_of_global hbinding]
      have htarget : Lua.Expr.Relabels labels (.name id.name) (.name (labels.occurrence id.name)) :=
        .name
      exact .assign (by rwa [hname] at htarget) hvalue
  | lexical =>
      cases isFunction with
      | true => exact .localRec (by simpa [hbinding] using hvalue)
      | false => exact .localVar hvalue

theorem relabels_otherwise {stmt : Stmt} (halone : stmt.standsAlone) {path : Path} {depth : Nat}
    (hstmt : ∃ inner, Lua.Stmt.ListRelabels labels (stmt.lower .lexical depth)
      ((stmt.relabel naming.enter path).lower .lexical depth) inner ∧
      Agrees (naming.enter.after path stmt) inner) :
    Lua.Else.Relabels labels (Stmt.lowerElse depth (some stmt))
      (Stmt.lowerElse depth (Stmt.relabelElse naming path (some stmt))) := by
  obtain ⟨_, hstmt, -⟩ := hstmt
  rw [Stmt.relabelElse_of_standsAlone _ _ halone, Stmt.lowerElse_of_standsAlone _ halone,
    Stmt.lowerElse_of_standsAlone _ (Stmt.standsAlone_relabel _ _ halone)]
  exact .otherwise hstmt

/-- A return that is followed by more binds nothing, so its block does not matter. -/
theorem relabels_inList (hagrees : Agrees naming labels) {stmt : Stmt} {path : Path}
    {binding : Binding} {depth : Nat} (more : Bool)
    (hstmt : ∃ middle, Lua.Stmt.ListRelabels labels (stmt.lower binding depth)
      ((stmt.relabel naming path).lower binding depth) middle ∧
      Agrees (naming.after path stmt) middle) :
    ∃ middle, Lua.Stmt.ListRelabels labels
      (if stmt.isReturn && more then [.block .inline (stmt.lower binding depth)]
        else stmt.lower binding depth)
      (if stmt.isReturn && more then
          [.block .inline ((stmt.relabel naming path).lower binding depth)]
        else (stmt.relabel naming path).lower binding depth) middle ∧
      Agrees (naming.after path stmt) middle := by
  obtain ⟨middle, hstmt, hmiddle⟩ := hstmt
  cases stmt with
  | ret pos result =>
      cases more with
      | false => exact ⟨middle, hstmt, hmiddle⟩
      | true => exact ⟨labels, .single (.block hstmt), hagrees⟩
  | _ => exact ⟨middle, hstmt, hmiddle⟩

end Agrees

namespace Script

/-! ## Every tree -/

mutual

theorem Expr.lower_relabels {naming : Naming} {labels : Lua.Labels} (hagrees : Agrees naming labels)
    (path : Path) : (expr : Expr) → AllClean (expr.sites naming.place) →
    Lua.Expr.Relabels labels expr.lower (expr.relabel naming path).lower
  | .ident id, hclean => by
    simp only [Expr.sites, allClean_cons] at hclean
    exact hagrees.relabels_ident hclean.1.1
  | .int .., _ | .float .., _ => .numeral
  | .bool .., _ => .bool
  | .str .., _ => .str
  | .undefined _, _ | .char .., _ | .importModule .., _ | .error .., _ | .immutable .., _ => .nil
  | .paren _ expr, hclean => by
    simp only [Expr.sites, allClean_cons] at hclean
    exact .paren (expr.lower_relabels hagrees _ hclean.2)
  | .binary _ op lhs rhs, hclean => by
    simp only [Expr.sites, allClean_cons, allClean_append] at hclean
    have hlhs := lhs.lower_relabels hagrees (0 :: path) hclean.2.1
    have hrhs := rhs.lower_relabels hagrees (1 :: path) hclean.2.2
    simp only [Expr.lower, Expr.relabel]
    cases op.lower? with
    | none => exact .nil
    | some op => exact .paren (.binary hlhs hrhs)
  | .unary _ op expr, hclean => by
    simp only [Expr.sites, allClean_cons] at hclean
    have hexpr := expr.lower_relabels hagrees (0 :: path) hclean.2
    simp only [Expr.lower, Expr.relabel]
    cases op.lower? with
    | none => exact .nil
    | some op => exact .paren (.unary (.paren hexpr))
  | .selector _ expr _, hclean => by
    simp only [Expr.sites, allClean_cons] at hclean
    exact .index (.paren (expr.lower_relabels hagrees _ hclean.2)) .str
  | .index _ expr key, hclean => by
    simp only [Expr.sites, allClean_cons, allClean_append] at hclean
    exact .index (.paren (expr.lower_relabels hagrees _ hclean.2.1))
      (key.lower_relabels hagrees _ hclean.2.2)
  | .slice _ expr low high, hclean => by
    simp only [Expr.sites, allClean_cons, allClean_append] at hclean
    obtain ⟨-, ⟨hexpr, hlow⟩, hhigh⟩ := hclean
    exact .call (hagrees.relabels_own Names.not_isFree_slice)
      (.cons (expr.lower_relabels hagrees _ hexpr)
        (.cons (Expr.lowerOption_relabels hagrees _ .numeral low hlow)
          (.cons (Expr.lowerOption_relabels hagrees _ .nil high hhigh) .nil)))
  | .cond _ test whenTrue whenFalse, hclean => by
    simp only [Expr.sites, allClean_cons, allClean_append] at hclean
    obtain ⟨-, ⟨htest, htrue⟩, hfalse⟩ := hclean
    exact .choose (test.lower_relabels hagrees _ htest) (whenTrue.lower_relabels hagrees _ htrue)
      (whenFalse.lower_relabels hagrees _ hfalse)
  | .call _ callee args, hclean => by
    simp only [Expr.sites, allClean_cons, allClean_append] at hclean
    exact .call (callee.lower_relabels hagrees _ hclean.2.1)
      (Expr.lowerList_relabels hagrees _ args hclean.2.2)
  | .array _ elements, hclean => by
    simp only [Expr.sites, allClean_cons] at hclean
    exact .array (Expr.lowerList_relabels hagrees _ elements hclean.2)
  | .map _ elements, hclean => by
    simp only [Expr.sites, allClean_cons] at hclean
    exact .table (MapElement.lowerList_relabels hagrees _ elements hclean.2)
  | .func _ params body, hclean => by
    simp only [Expr.sites, allClean_cons, allClean_append] at hclean
    obtain ⟨-, hparams, hbody⟩ := hclean
    have hlexical := naming.binding_enterFunction hagrees.frames_ne_nil
    have hinner := hagrees.enterFunction.bindParams hlexical (0 :: path) hparams
    obtain ⟨_, _, hbody, -⟩ := body.lower_relabels hinner (by simpa using hlexical) (1 :: path) 0
      (by simpa using hbody)
    exact .func (by simp) hbody

theorem Expr.lowerOption_relabels {naming : Naming} {labels : Lua.Labels}
    (hagrees : Agrees naming labels) (path : Path) {default : Lua.Expr}
    (hdefault : Lua.Expr.Relabels labels default default) : (expr : Option Expr) →
    AllClean (Expr.sitesOfOption naming.place expr) →
    Lua.Expr.Relabels labels (Expr.lowerOption default expr)
      (Expr.lowerOption default (Expr.relabelOption naming path expr))
  | none, _ => hdefault
  | some expr, hclean => expr.lower_relabels hagrees path hclean

theorem Expr.lowerList_relabels {naming : Naming} {labels : Lua.Labels}
    (hagrees : Agrees naming labels) (path : Path) : (exprs : List Expr) →
    AllClean (Expr.sitesOfList naming.place exprs) →
    Lua.Expr.ListRelabels labels (Expr.lowerList exprs)
      (Expr.lowerList (Expr.relabelList naming path exprs))
  | [], _ => .nil
  | expr :: exprs, hclean => by
    simp only [Expr.sitesOfList, allClean_append] at hclean
    exact .cons (expr.lower_relabels hagrees _ hclean.1)
      (Expr.lowerList_relabels hagrees _ exprs hclean.2)

theorem MapElement.lowerList_relabels {naming : Naming} {labels : Lua.Labels}
    (hagrees : Agrees naming labels) (path : Path) : (elements : List MapElement) →
    AllClean (MapElement.sitesOfList naming.place elements) →
    Lua.Field.ListRelabels labels (MapElement.lowerList elements)
      (MapElement.lowerList (MapElement.relabelList naming path elements))
  | [], _ => .nil
  | ⟨_, _, value⟩ :: elements, hclean => by
    simp only [MapElement.sitesOfList, allClean_append] at hclean
    exact .cons (.keyed .str (.paren (value.lower_relabels hagrees _ hclean.1)))
      (MapElement.lowerList_relabels hagrees _ elements hclean.2)

theorem Stmt.lower_relabels {naming : Naming} {labels : Lua.Labels} (hagrees : Agrees naming labels)
    {binding : Binding} (hbinding : naming.binding = binding) (path : Path) (depth : Nat) :
    (stmt : Stmt) → AllClean (stmt.sites naming.place) →
    ∃ after, Lua.Stmt.ListRelabels labels (stmt.lower binding depth)
      ((stmt.relabel naming path).lower binding depth) after ∧
      Agrees (naming.after path stmt) after
  | .expr _ expr, hclean => by
    simp only [Stmt.sites, allClean_cons] at hclean
    exact ⟨labels, .single (.expr (expr.lower_relabels hagrees _ hclean.2)), hagrees⟩
  | .incDec _ op target, hclean => by
    simp only [Stmt.sites, allClean_cons] at hclean
    have htarget := target.lower_relabels hagrees (0 :: path) hclean.2
    exact ⟨labels, .single (.update htarget .numeral), hagrees⟩
  | .assign pos op [target] [value], hclean => by
    simp only [Stmt.sites, Expr.sitesOfList, List.append_nil, List.any_cons, List.any_nil,
      Bool.or_false, allClean_cons, allClean_append] at hclean
    obtain ⟨⟨⟨_, _, htarget, -, hshape⟩, -⟩, hlhs, hrhs⟩ := hclean
    by_cases hop : op = .define
    · subst hop
      obtain rfl := List.singleton_inj.1 htarget
      obtain ⟨id, rfl⟩ := hshape
      simp only [if_true, Expr.sitesOfDefined, allClean_cons] at hlhs
      have hfree := hlhs.1.isFree
      have hafter := hagrees.after_define path hfree
      have hvalue : Lua.Expr.Relabels
          (if value.isFunction then naming.labelsAfter labels path id else labels) value.lower
          (value.relabel (if value.isFunction then naming.bind path id else naming)
            (0 :: 1 :: path)).lower := by
        cases hfunction : value.isFunction with
        | true =>
            simp only [hfunction, if_true] at hrhs
            exact value.lower_relabels hafter _ hrhs
        | false =>
            simp only [hfunction, Bool.false_eq_true, if_false] at hrhs
            exact value.lower_relabels hagrees _ hrhs
      have hbind := hagrees.relabels_define hbinding path hfree hvalue
      refine ⟨_, .single ?_, hafter⟩
      simpa [Stmt.relabel, Naming.after, Stmt.binder?, Expr.relabelList] using hbind
    · have hplace : naming.place.after (.assign pos op [target] [value]) = naming.place := by
        simp [Place.after, Stmt.binder?, hop]
      have hnaming : naming.after path (.assign pos op [target] [value]) = naming := by
        simp [Naming.after, Stmt.binder?, hop]
      simp only [hop, if_false, hplace, ite_self] at hlhs hrhs
      have htarget := target.lower_relabels hagrees (0 :: 0 :: path) hlhs
      have hvalue := value.lower_relabels hagrees (0 :: 1 :: path) hrhs
      simp only [Stmt.relabel, Expr.relabelList, hop, if_false, hnaming, ite_self]
      cases op with
      | define => exact absurd rfl hop
      | assign => exact ⟨labels, .single (.assign htarget hvalue), hagrees⟩
      | add | sub | mul | quo | rem => exact ⟨labels, .single (.update htarget hvalue), hagrees⟩
      | _ => exact ⟨labels, .nil, hagrees⟩
  | .assign _ _ [] _, hclean | .assign _ _ (_ :: _ :: _) _, hclean | .assign _ _ [_] [], hclean
  | .assign _ _ [_] (_ :: _ :: _), hclean => by
    simp [Stmt.sites, Site.Clean, Node.Fits] at hclean
  | .ret _ none, _ => ⟨labels, .single .ret, hagrees⟩
  | .ret _ (some result), hclean => by
    simp only [Stmt.sites, Expr.sitesOfOption, allClean_cons] at hclean
    exact ⟨labels, .single (.retValue (.paren (result.lower_relabels hagrees _ hclean.2))), hagrees⟩
  | .branch _ .break, _ => ⟨labels, .single .break, hagrees⟩
  | .branch _ .continue, _ => by
    have hflag := hagrees.relabels_own (Names.not_isFree_continueFlag depth)
    exact ⟨labels, .cons (.assign hflag .bool) (.single .break), hagrees⟩
  | .block body, hclean => by
    simp only [Stmt.sites, allClean_cons] at hclean
    have hlexical := naming.binding_enter hagrees.frames_ne_nil
    obtain ⟨_, _, hbody, -⟩ := body.lower_relabels hagrees.enter hlexical (0 :: path) depth hclean.2
    exact ⟨labels, .single (.block hbody), hagrees⟩
  | .ifElse _ init test body rest, hclean => by
    simp only [Stmt.sites, allClean_cons, allClean_append] at hclean
    obtain ⟨-, ⟨⟨hinit, htest⟩, hbody⟩, hrest⟩ := hclean
    have hlexical := naming.binding_enter hagrees.frames_ne_nil
    obtain ⟨inner, hinit, hinner⟩ :=
      Stmt.lowerOption_relabels hagrees.enter hlexical (0 :: path) depth init hinit
    have htest := test.lower_relabels hinner (1 :: path) (by simpa using htest)
    obtain ⟨_, _, hbody, -⟩ := body.lower_relabels hinner.enter
      (Naming.binding_enter _ hinner.frames_ne_nil) (2 :: path) depth (by simpa using hbody)
    have hrest := Stmt.lowerElse_relabels hinner (3 :: path) depth rest (by simpa using hrest)
    exact ⟨labels, .single (.block (hinit.append (.single (.cond htest hbody hrest)))), hagrees⟩
  | .loop _ init test post body, hclean => by
    simp only [Stmt.sites, allClean_cons, allClean_append] at hclean
    obtain ⟨-, ⟨⟨hinit, htest⟩, hbody⟩, hpost⟩ := hclean
    have hlexical := naming.binding_enter hagrees.frames_ne_nil
    have hown := Names.not_isFree_continueFlag (depth + 1)
    obtain ⟨inner, hinit, hinner⟩ :=
      Stmt.lowerOption_relabels hagrees.enter hlexical (0 :: path) depth init hinit
    have htrue : Lua.Expr.Relabels inner (.bool true) (.bool true) := .bool
    have htest := Expr.lowerOption_relabels hinner (1 :: path) htrue test (by simpa using htest)
    have hround := hinner.enterLoop.bindOwn hown
    obtain ⟨_, _, hbody, hlast⟩ := body.lower_relabels hround.enter
      (Naming.binding_enter _ hround.frames_ne_nil) (3 :: path) (depth + 1) (by simpa using hbody)
    have hguarded := hlast.relabels_guarded hown body.fallsThrough hbody
    obtain ⟨_, hpost, -⟩ := Stmt.lowerOption_relabels hround (by simpa using hlexical) (2 :: path)
      (depth + 1) post (by simpa using hpost)
    have hnext := hround.relabels_afterRound hown post hpost
    have hloop := Lua.Stmt.Relabels.whileLoop htest (hguarded.append (.single hnext))
    simp only [Stmt.relabel, Stmt.lower_loop, Block.fallsThrough_relabel]
    cases init with
    | none =>
        cases hinit
        exact ⟨labels, .single hloop, hagrees⟩
    | some init => exact ⟨labels, .single (.block (hinit.append (.single hloop))), hagrees⟩
  | .forIn _ key value iterable body, hclean => by
    simp only [Stmt.sites, allClean_cons, allClean_append] at hclean
    obtain ⟨-, ⟨hiterable, hbinders⟩, hbody⟩ := hclean
    have hlexical := naming.binding_enter hagrees.frames_ne_nil
    have hown := Names.not_isFree_continueFlag (depth + 1)
    have hfree : ∀ id ∈ key.toList ++ [value], id.name ≠ Names.discard → Names.IsFree id.name := by
      intro id hmem hne
      exact hbinders.isFree_of_mem_binders (by simpa [loopBinders, hne] using hmem)
    have hkey := hagrees.enter.bindKey hlexical (0 :: path) fun id (hmem : id ∈ key) =>
      hfree id (by simp_all)
    have hvalue := hkey.bindVariable (by simpa [Naming.binding_bindKey] using hlexical) (1 :: path)
      (hfree value (by simp))
    have hround := hvalue.enterLoop.bindOwn hown
    rw [← Naming.place_enter, ← Naming.place_bindVariables _ (0 :: path) (1 :: path)] at hbody
    obtain ⟨_, _, hbody, hlast⟩ := body.lower_relabels hround.enter
      (Naming.binding_enter _ hround.frames_ne_nil) (3 :: path) (depth + 1) hbody
    have hguarded := hlast.relabels_guarded hown body.fallsThrough hbody
    have hiterate := hagrees.relabels_own Names.not_isFree_iterate
    have hiterable := iterable.lower_relabels hagrees (2 :: path) hiterable
    refine ⟨labels, ?_, hagrees⟩
    simp only [Stmt.lower, Stmt.relabel, Block.fallsThrough_relabel]
    exact .single (.forIn (.call hiterate (.cons hiterable .nil)) rfl
      (hguarded.append (.single (hround.relabels_breakUnless hown))))
  | .exportValue .., _ => ⟨labels, .nil, hagrees⟩

theorem Stmt.lowerOption_relabels {naming : Naming} {labels : Lua.Labels}
    (hagrees : Agrees naming labels) (hlexical : naming.binding = .lexical) (path : Path)
    (depth : Nat) : (stmt : Option Stmt) → AllClean (Stmt.sitesOfOption naming.place stmt) →
    ∃ after, Lua.Stmt.ListRelabels labels (Stmt.lowerOption depth stmt)
      (Stmt.lowerOption depth (Stmt.relabelOption naming path stmt)) after ∧
      Agrees (naming.afterOption path stmt) after
  | none, _ => ⟨labels, .nil, hagrees⟩
  | some stmt, hclean => stmt.lower_relabels hagrees hlexical path depth hclean

theorem Stmt.lowerElse_relabels {naming : Naming} {labels : Lua.Labels}
    (hagrees : Agrees naming labels) (path : Path) (depth : Nat) : (rest : Option Stmt) →
    AllClean (Stmt.sitesOfElse naming.place rest) →
    Lua.Else.Relabels labels (Stmt.lowerElse depth rest)
      (Stmt.lowerElse depth (Stmt.relabelElse naming path rest))
  | none, _ => .absent
  | some stmt, hclean => by
    have hlexical := naming.binding_enter hagrees.frames_ne_nil
    cases stmt with
    | block body =>
        simp only [Stmt.sitesOfElse, allClean_cons] at hclean
        obtain ⟨_, _, hbody, -⟩ := body.lower_relabels hagrees.enter hlexical
          (0 :: path) depth hclean.2
        exact .otherwise hbody
    | ifElse pos init test body rest =>
        cases init with
        | none =>
            simp only [Stmt.sitesOfElse, allClean_cons, allClean_append] at hclean
            obtain ⟨-, ⟨htest, hbody⟩, hrest⟩ := hclean
            obtain ⟨_, _, hbody, -⟩ :=
              body.lower_relabels hagrees.enter hlexical (2 :: path) depth hbody
            exact .elseIf (test.lower_relabels hagrees _ htest) hbody
              (Stmt.lowerElse_relabels hagrees _ depth rest hrest)
        | some init =>
            exact Agrees.relabels_otherwise rfl
              (Stmt.lower_relabels hagrees.enter hlexical path depth
              _ (by simpa [Stmt.sitesOfElse] using hclean))
    | _ =>
        exact Agrees.relabels_otherwise rfl (Stmt.lower_relabels hagrees.enter hlexical path depth
          _ (by simpa [Stmt.sitesOfElse] using hclean))

theorem Stmt.lowerList_relabels {naming : Naming} {labels : Lua.Labels}
    (hagrees : Agrees naming labels) {binding : Binding} (hbinding : naming.binding = binding)
    (path : Path) (depth : Nat) : (stmts : List Stmt) →
    AllClean (Stmt.sitesOfList naming.place stmts) →
    ∃ after last, Lua.Stmt.ListRelabels labels (Stmt.lowerList binding depth stmts)
      (Stmt.lowerList binding depth (Stmt.relabelList naming path stmts)) after ∧ Agrees last after
  | [], _ => ⟨labels, naming, .nil, hagrees⟩
  | stmt :: stmts, hclean => by
    simp only [Stmt.sitesOfList, allClean_append] at hclean
    obtain ⟨middle, hstmt, hmiddle⟩ := hagrees.relabels_inList (!stmts.isEmpty)
      (stmt.lower_relabels hagrees hbinding (0 :: path) depth hclean.1)
    obtain ⟨after, last, hstmts, hlast⟩ := Stmt.lowerList_relabels hmiddle
      (by simpa using hbinding) (1 :: path) depth stmts (by simpa using hclean.2)
    refine ⟨after, last, ?_, hlast⟩
    rw [Stmt.relabelList, Stmt.lowerList_cons, Stmt.lowerList_cons, Stmt.isReturn_relabel,
      Stmt.isEmpty_relabelList]
    exact hstmt.append hstmts

theorem Block.lower_relabels {naming : Naming} {labels : Lua.Labels}
    (hagrees : Agrees naming labels)
    {binding : Binding} (hbinding : naming.binding = binding) (path : Path) (depth : Nat) :
    (block : Block) → AllClean (block.sites naming.place) →
    ∃ after last, Lua.Stmt.ListRelabels labels (block.lower binding depth)
      ((block.relabel naming path).lower binding depth) after ∧ Agrees last after
  | ⟨_, stmts⟩, hclean => Stmt.lowerList_relabels hagrees hbinding path depth stmts hclean

end

end Script

theorem allClean_of_wellFormed {file : File} (hfile : file.WellFormed)
    (hdiscard : ∀ id ∈ file.binders, id.name ≠ Names.discard) : AllClean file.sites := by
  intro site hmem
  refine ⟨hfile site hmem, fun id hnode => hdiscard id ?_⟩
  exact List.mem_filterMap.2 ⟨site, hmem, by rw [hnode]⟩

/-- Each local of the code carries the label of the declaration it was emitted for, and each
occurrence the label of the declaration that the scope of the script finds for it.  Read with the
scopes of Lua, every occurrence denotes a local with just that label, and an occurrence without a
label is in the scope of no local.  No occurrence of the script is missing: its name is emitted, in
the order of the tree, and at the same place in the copy stands the label that it has in the tree. -/
theorem chunkRelabels_lower_relabel (options : Options) (file : File)
    (hok : ∃ text, file.toLua options = .ok text)
    (hdiscard : ∀ id ∈ file.binders, id.name ≠ Names.discard) (label : Path → String) :
    let labelled := file.relabel label options.binding
    let code := file.lower options.binding
    let copy := labelled.lower options.binding
    Lua.ChunkRelabels code copy ∧
      PairedIn file.names labelled.names (Lua.Stmt.namesOfList code)
        (Lua.Stmt.namesOfList copy) := by
  rw [exists_toLua_eq_ok_iff, fault?_analyse_eq_none_iff] at hok
  have hclean := allClean_of_wellFormed hok hdiscard
  have hbinding : (Naming.root label options.binding).binding = options.binding := by
    simp [Naming.binding, Naming.depth, Naming.root, Place.root, Scope.bindingAt]
  obtain ⟨after, _, hcode, -⟩ := Stmt.lowerList_relabels (Agrees.root label options.binding)
    hbinding [] 0 file.stmts hclean
  exact ⟨⟨after, hcode⟩, file.pairedIn_relabel hok label options.binding options.binding⟩

/-- A counter, a function and a loop that bind the same names over each other. -/
def shadowingScript : File where
  stmts :=
    [.assign {} .define [.ident { name := "n" }] [.int {} "1"],
      .assign {} .define [.ident { name := "f" }]
        [.func {} [{ name := "n" }]
          { stmts :=
              [.ifElse {} (some (.assign {} .define [.ident { name := "n" }]
                    [.ident { name := "n" }]))
                (.ident { name := "n" })
                { stmts := [.ret {} (some (.call {} (.ident { name := "f" })
                      [.ident { name := "n" }]))] }
                none,
              .ret {} (some (.ident { name := "len" }))] }],
      .loop {} (some (.assign {} .define [.ident { name := "i" }] [.ident { name := "n" }]))
        (some (.ident { name := "i" })) (some (.incDec {} .inc (.ident { name := "i" })))
        { stmts :=
            [.assign {} .define [.ident { name := "i" }] [.ident { name := "i" }],
              .forIn {} (some { name := "_" }) { name := "n" } (.ident { name := "i" })
                { stmts := [.assign {} .add [.ident { name := "n" }] [.ident { name := "i" }]] }] }]

/-- A label that shows where the declaration stands. -/
def pathLabel (path : Path) : String := String.ofList ('v' :: path.map Nat.digitChar)

theorem chunkRelabels_shadowingScript :
    (∃ text, shadowingScript.toLua {} = .ok text) ∧
      (∀ id ∈ shadowingScript.binders, id.name ≠ Names.discard) ∧
      Lua.ChunkRelabels (shadowingScript.lower .lexical)
        ((shadowingScript.relabel pathLabel .lexical).lower .lexical) ∧
      PairedIn ["n", "n", "f", "n", "len", "n", "i", "i", "i", "n", "i", "i"]
        ["v000101", "v0010101", "v01", "v0010101", "len", "v0", "v0011", "v0011", "v03011",
          "v1013011", "v03011", "v0011"]
        (Lua.Stmt.namesOfList (shadowingScript.lower .lexical))
        (Lua.Stmt.namesOfList ((shadowingScript.relabel pathLabel .lexical).lower .lexical)) := by
  have hok : ∃ text, shadowingScript.toLua {} = .ok text := ⟨_, rfl⟩
  have hdiscard : ∀ id ∈ shadowingScript.binders, id.name ≠ Names.discard := by decide
  have hlabels : (shadowingScript.relabel pathLabel .lexical).names =
      ["v000101", "v0010101", "v01", "v0010101", "len", "v0", "v0011", "v0011", "v03011",
        "v1013011", "v03011", "v0011"] := by decide +kernel
  have hpaired := chunkRelabels_lower_relabel {} shadowingScript hok hdiscard pathLabel
  refine ⟨hok, hdiscard, hpaired.1, ?_⟩
  rw [← hlabels]
  exact hpaired.2

end LuaBackend
