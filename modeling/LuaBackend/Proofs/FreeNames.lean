import LuaBackend.Proofs.Acceptance

/-!
# Free names

The free names of a part of a script are those that occur in it outside of the scope of the part's
own bindings.  They tell which names reach through the frames that the part opens: an occurrence is
looked up in a frame below a given level just if its name is free in what stands above that level
(`Stmt.escaped_sites`).
-/

namespace LuaBackend

open Script

/-! ## The free names of a tree -/

namespace Script

/-- What is left of some names in the scope of bindings. -/
def hide (ids : List Ident) (names : List String) : List String :=
  names.filter fun name => ids.all fun id => id.name ≠ name

@[simp] theorem mem_hide {ids : List Ident} {names : List String} {name : String} :
    name ∈ hide ids names ↔ name ∈ names ∧ ∀ id ∈ ids, id.name ≠ name := by
  simp [hide]

@[simp] theorem hide_nil (names : List String) : hide [] names = names := by
  simp [hide]

mutual

def Expr.free : Expr → List String
  | .ident id => [id.name]
  | .int .. | .float .. | .bool .. | .str .. | .char .. | .undefined _ | .importModule .. => []
  | .paren _ expr | .unary _ _ expr | .selector _ expr _ | .error _ expr | .immutable _ expr =>
    expr.free
  | .binary _ _ first second | .index _ first second => first.free ++ second.free
  | .slice _ expr low high => expr.free ++ Expr.freeOfOption low ++ Expr.freeOfOption high
  | .cond _ test whenTrue whenFalse => test.free ++ whenTrue.free ++ whenFalse.free
  | .call _ callee args => callee.free ++ Expr.freeOfList args
  | .array _ elements => Expr.freeOfList elements
  | .map _ elements => MapElement.freeOfList elements
  | .func _ params body => hide params body.free

def Expr.freeOfOption : Option Expr → List String
  | none => []
  | some expr => expr.free

def Expr.freeOfList : List Expr → List String
  | [] => []
  | expr :: exprs => expr.free ++ Expr.freeOfList exprs

/-- The left side of a definition, whose identifiers are bound and not looked up. -/
def Expr.freeOfDefined : List Expr → List String
  | [] => []
  | .ident _ :: exprs => Expr.freeOfDefined exprs
  | expr :: exprs => expr.free ++ Expr.freeOfDefined exprs

def MapElement.freeOfList : List MapElement → List String
  | [] => []
  | ⟨_, _, value⟩ :: elements => value.free ++ MapElement.freeOfList elements

def Stmt.free : Stmt → List String
  | .expr _ expr | .incDec _ _ expr | .exportValue _ expr => expr.free
  | .assign pos op lhs rhs =>
    -- A function sees the name it is bound to.
    let bound :=
      if rhs.any Expr.isFunction then (Stmt.assign pos op lhs rhs).binder?.toList else []
    (if op = .define then Expr.freeOfDefined lhs else Expr.freeOfList lhs) ++
      hide bound (Expr.freeOfList rhs)
  | .ret _ result => Expr.freeOfOption result
  | .branch .. => []
  | .block body => body.free
  | .ifElse _ init test body rest =>
    Stmt.freeOfOption init ++
      hide (init.bind Stmt.binder?).toList (test.free ++ body.free ++ Stmt.freeOfOption rest)
  | .loop _ init test post body =>
    Stmt.freeOfOption init ++
      hide (init.bind Stmt.binder?).toList
        (Expr.freeOfOption test ++ body.free ++ Stmt.freeOfOption post)
  | .forIn _ key value iterable body => iterable.free ++ hide (loopBinders key value) body.free

def Stmt.freeOfOption : Option Stmt → List String
  | none => []
  | some stmt => stmt.free

def Stmt.freeOfList : List Stmt → List String
  | [] => []
  | stmt :: stmts => stmt.free ++ hide stmt.binder?.toList (Stmt.freeOfList stmts)

def Block.free : Block → List String
  | ⟨_, stmts⟩ => Stmt.freeOfList stmts

end

end Script

/-! ## Frames from a level on -/

namespace Place

@[simp] theorem length_frames_bind (place : Place) (id : Ident) :
    (place.bind id).frames.length = place.frames.length := by
  unfold bind
  split <;> simp_all

@[simp] theorem length_frames_bindAll (place : Place) (ids : List Ident) :
    (place.bindAll ids).frames.length = place.frames.length := by
  induction ids generalizing place with
  | nil => rfl
  | cons id ids ih =>
      change ((place.bind id).bindAll ids).frames.length = place.frames.length
      rw [ih, length_frames_bind]

theorem after_eq_bindAll (place : Place) (stmt : Stmt) :
    place.after stmt = place.bindAll stmt.binder?.toList := by
  unfold after
  cases stmt.binder? <;> rfl

theorem afterOption_eq_bindAll (place : Place) (stmt : Option Stmt) :
    place.afterOption stmt = place.bindAll (stmt.bind Stmt.binder?).toList := by
  cases stmt with
  | none => rfl
  | some stmt => exact place.after_eq_bindAll stmt

/-- One of the frames from the level on has the name; the level of the root frame is 0. -/
def BindsFrom (level : Nat) (place : Place) (name : String) : Prop :=
  ∃ frame ∈ place.frames.take (place.frames.length - level), name ∈ frame.names

variable {level : Nat} {place : Place} {name : String}

/-- A frame without the name makes no difference. -/
theorem bindsFrom_of_frames_eq {other : Place} {frame : Frame}
    (hframes : other.frames = frame :: place.frames) (hname : name ∉ frame.names) :
    other.BindsFrom level name ↔ place.BindsFrom level name := by
  rcases Nat.lt_or_ge place.frames.length level with hlevel | hlevel
  · have hnone : place.frames.length - level = 0 := by omega
    have hnone' : place.frames.length + 1 - level = 0 := by omega
    simp [BindsFrom, hframes, hnone, hnone']
  · simp [BindsFrom, hframes, Nat.succ_sub hlevel, hname]

@[simp] theorem bindsFrom_enter : place.enter.BindsFrom level name ↔ place.BindsFrom level name :=
  bindsFrom_of_frames_eq (frames_enter place) (by simp)

@[simp] theorem bindsFrom_enterFunction :
    place.enterFunction.BindsFrom level name ↔ place.BindsFrom level name :=
  bindsFrom_of_frames_eq (frames_enterFunction place) (by simp)

@[simp] theorem bindsFrom_enterLoop :
    place.enterLoop.BindsFrom level name ↔ place.BindsFrom level name := Iff.rfl

theorem lt_length_frames_enter (hlevel : level < place.frames.length) :
    level < place.enter.frames.length := by
  simp only [frames_enter, List.length_cons]
  omega

theorem lt_length_frames_enterFunction (hlevel : level < place.frames.length) :
    level < place.enterFunction.frames.length := by
  simp only [frames_enterFunction, List.length_cons]
  omega

theorem lt_length_frames_bindAll (hlevel : level < place.frames.length) (ids : List Ident) :
    level < (place.bindAll ids).frames.length := by
  rwa [length_frames_bindAll]

theorem lt_length_frames_afterOption (hlevel : level < place.frames.length)
    (stmt : Option Stmt) : level < (place.afterOption stmt).frames.length := by
  rw [afterOption_eq_bindAll]
  exact lt_length_frames_bindAll hlevel _

/-- Nothing stands above the innermost frame. -/
@[simp] theorem not_bindsFrom_length : ¬ place.BindsFrom place.frames.length name := by
  simp [BindsFrom]

theorem bindsFrom_bind (hlevel : level < place.frames.length) {id : Ident} :
    (place.bind id).BindsFrom level name ↔ id.name = name ∨ place.BindsFrom level name := by
  obtain ⟨frames, loops⟩ := place
  cases frames with
  | nil => simp at hlevel
  | cons frame outer =>
      have hcount : outer.length + 1 - level = outer.length - level + 1 := by
        simp only [List.length_cons] at hlevel
        omega
      simp only [bind, BindsFrom, List.length_cons, hcount, List.take_succ_cons, List.mem_cons,
        exists_eq_or_imp, or_assoc, eq_comm (a := name)]

theorem bindsFrom_bindAll (hlevel : level < place.frames.length) {ids : List Ident} :
    (place.bindAll ids).BindsFrom level name ↔
      (∃ id ∈ ids, id.name = name) ∨ place.BindsFrom level name := by
  induction ids generalizing place with
  | nil => simp [bindAll]
  | cons id ids ih =>
      change ((place.bind id).bindAll ids).BindsFrom level name ↔ _
      rw [ih (by simpa using hlevel), bindsFrom_bind hlevel]
      simp only [List.mem_cons, exists_eq_or_imp, or_left_comm, or_assoc]

/-- A name is found in a frame of the level just if one from the level on has it. -/
theorem bindsFrom_iff_of_resolveIn_eq_some {binding : Binding} {found : Resolution}
    (hfound : Scope.resolveIn binding name place.frames = some found) :
    place.BindsFrom level name ↔ level ≤ found.symbol.depth := by
  obtain ⟨frames, loops⟩ := place
  induction frames generalizing found with
  | nil => simp [Scope.resolveIn] at hfound
  | cons frame outer ih =>
      simp only [Scope.resolveIn, List.contains_iff_mem] at hfound
      split at hfound
      · next hname =>
          obtain rfl := Option.some.inj hfound
          rcases Nat.lt_or_ge outer.length level with hlevel | hlevel
          · have hnone : outer.length + 1 - level = 0 := by omega
            simp [BindsFrom, hnone, hlevel]
          · simp [BindsFrom, Nat.succ_sub hlevel, hname, hlevel]
      · next hname =>
          obtain ⟨next, hnext, rfl⟩ := Option.map_eq_some_iff.1 hfound
          have houter := ih hnext
          exact (bindsFrom_of_frames_eq rfl hname).trans houter

/-- A name reaches through a place and some bindings if it reaches through the place and they do
not hide it. -/
theorem not_bindsFrom_bindAll_and (hlevel : level < place.frames.length) {ids : List Ident}
    {names : List String} :
    (¬ (place.bindAll ids).BindsFrom level name ∧ name ∈ names) ↔
      ¬ place.BindsFrom level name ∧ name ∈ hide ids names := by
  rw [bindsFrom_bindAll hlevel, mem_hide]
  push Not
  tauto

end Place

/-! ## Names that reach through -/

/-- An occurrence of the name that none of the frames from the level on binds. -/
def Site.Escapes (level : Nat) (name : String) (site : Site) : Prop :=
  (∃ id : Ident, site.node = .expr (.ident id) ∧ id.name = name) ∧
    ¬ site.place.BindsFrom level name

def Escaped (level : Nat) (name : String) (sites : List Site) : Prop :=
  ∃ site ∈ sites, site.Escapes level name

section Escaped

variable {level : Nat} {name : String}

@[simp] theorem escaped_nil : ¬ Escaped level name [] := by simp [Escaped]

@[simp] theorem escaped_append {first second : List Site} :
    Escaped level name (first ++ second) ↔
      Escaped level name first ∨ Escaped level name second := by
  simp [Escaped, or_and_right, exists_or]

theorem escaped_cons {site : Site} {sites : List Site} :
    Escaped level name (site :: sites) ↔ site.Escapes level name ∨ Escaped level name sites := by
  simp [Escaped]

@[simp] theorem escaped_cons_stmt {place : Place} {stmt : Stmt} {sites : List Site} :
    Escaped level name (⟨place, .stmt stmt⟩ :: sites) ↔ Escaped level name sites := by
  simp [escaped_cons, Site.Escapes]

@[simp] theorem escaped_cons_binder {place : Place} {id : Ident} {sites : List Site} :
    Escaped level name (⟨place, .binder id⟩ :: sites) ↔ Escaped level name sites := by
  simp [escaped_cons, Site.Escapes]

@[simp] theorem escaped_cons_expr {place : Place} {expr : Expr} {sites : List Site} :
    Escaped level name (⟨place, .expr expr⟩ :: sites) ↔
      ((∃ id : Ident, expr = .ident id ∧ id.name = name) ∧ ¬ place.BindsFrom level name) ∨
        Escaped level name sites := by
  simp [escaped_cons, Site.Escapes]

@[simp] theorem not_escaped_binders {place : Place} {ids : List Ident} :
    ¬ Escaped level name (place.binders ids) := by
  induction ids generalizing place with
  | nil => simp [Place.binders]
  | cons id ids ih => simp [Place.binders, ih]

end Escaped

namespace Script

variable {level : Nat} {name : String}

mutual

theorem Expr.escaped_sites {place : Place} (hlevel : level < place.frames.length) :
    (expr : Expr) → (Escaped level name (expr.sites place) ↔
      ¬ place.BindsFrom level name ∧ name ∈ expr.free)
  | .ident id => by simp [Expr.sites, Expr.free, and_comm, eq_comm (a := name)]
  | .int .. | .float .. | .bool .. | .str .. | .char .. | .undefined _ | .importModule .. => by
    simp [Expr.sites, Expr.free]
  | .paren _ expr | .unary _ _ expr | .selector _ expr _ | .error _ expr | .immutable _ expr => by
    simp [Expr.sites, Expr.free, expr.escaped_sites hlevel]
  | .binary _ _ first second | .index _ first second => by
    simp [Expr.sites, Expr.free, first.escaped_sites hlevel, second.escaped_sites hlevel,
      and_or_left]
  | .slice _ expr low high => by
    simp [Expr.sites, Expr.free, expr.escaped_sites hlevel, Expr.escaped_sitesOfOption hlevel low,
      Expr.escaped_sitesOfOption hlevel high, and_or_left]
  | .cond _ test whenTrue whenFalse => by
    simp [Expr.sites, Expr.free, test.escaped_sites hlevel, whenTrue.escaped_sites hlevel,
      whenFalse.escaped_sites hlevel, and_or_left]
  | .call _ callee args => by
    simp [Expr.sites, Expr.free, callee.escaped_sites hlevel, Expr.escaped_sitesOfList hlevel args,
      and_or_left]
  | .array _ elements => by
    simp [Expr.sites, Expr.free, Expr.escaped_sitesOfList hlevel elements]
  | .map _ elements => by
    simp [Expr.sites, Expr.free, MapElement.escaped_sitesOfList hlevel elements]
  | .func _ params body => by
    have hinner := Place.lt_length_frames_enterFunction hlevel
    have hbody := body.escaped_sites (Place.lt_length_frames_bindAll hinner params)
    simp [Expr.sites, Expr.free, hbody, Place.not_bindsFrom_bindAll_and hinner]

theorem Expr.escaped_sitesOfOption {place : Place} (hlevel : level < place.frames.length) :
    (expr : Option Expr) → (Escaped level name (Expr.sitesOfOption place expr) ↔
      ¬ place.BindsFrom level name ∧ name ∈ Expr.freeOfOption expr)
  | none => by simp [Expr.sitesOfOption, Expr.freeOfOption]
  | some expr => expr.escaped_sites hlevel

theorem Expr.escaped_sitesOfList {place : Place} (hlevel : level < place.frames.length) :
    (exprs : List Expr) → (Escaped level name (Expr.sitesOfList place exprs) ↔
      ¬ place.BindsFrom level name ∧ name ∈ Expr.freeOfList exprs)
  | [] => by simp [Expr.sitesOfList, Expr.freeOfList]
  | expr :: exprs => by
    simp [Expr.sitesOfList, Expr.freeOfList, expr.escaped_sites hlevel,
      Expr.escaped_sitesOfList hlevel exprs, and_or_left]

theorem Expr.escaped_sitesOfDefined {place : Place} (hlevel : level < place.frames.length) :
    (exprs : List Expr) → (Escaped level name (Expr.sitesOfDefined place exprs) ↔
      ¬ place.BindsFrom level name ∧ name ∈ Expr.freeOfDefined exprs)
  | [] => by simp [Expr.sitesOfDefined, Expr.freeOfDefined]
  | expr :: exprs => by
    have hexpr := expr.escaped_sites hlevel
    have hexprs := Expr.escaped_sitesOfDefined hlevel exprs
    cases expr with
    | ident => simpa [Expr.sitesOfDefined, Expr.freeOfDefined] using hexprs
    | _ => simp [Expr.sitesOfDefined, Expr.freeOfDefined, hexpr, hexprs, and_or_left]

theorem MapElement.escaped_sitesOfList {place : Place} (hlevel : level < place.frames.length) :
    (elements : List MapElement) → (Escaped level name (MapElement.sitesOfList place elements) ↔
      ¬ place.BindsFrom level name ∧ name ∈ MapElement.freeOfList elements)
  | [] => by simp [MapElement.sitesOfList, MapElement.freeOfList]
  | ⟨_, _, value⟩ :: elements => by
    simp [MapElement.sitesOfList, MapElement.freeOfList, value.escaped_sites hlevel,
      MapElement.escaped_sitesOfList hlevel elements, and_or_left]

theorem Stmt.escaped_sites {place : Place} (hlevel : level < place.frames.length) :
    (stmt : Stmt) → (Escaped level name (stmt.sites place) ↔
      ¬ place.BindsFrom level name ∧ name ∈ stmt.free)
  | .expr _ expr | .incDec _ _ expr | .exportValue _ expr => by
    simp [Stmt.sites, Stmt.free, expr.escaped_sites hlevel]
  | .assign pos op lhs rhs => by
    have hlhs : Escaped level name (if op = .define then Expr.sitesOfDefined place lhs
          else Expr.sitesOfList place lhs) ↔
        ¬ place.BindsFrom level name ∧
          name ∈ if op = .define then Expr.freeOfDefined lhs else Expr.freeOfList lhs := by
      split
      · exact Expr.escaped_sitesOfDefined hlevel lhs
      · exact Expr.escaped_sitesOfList hlevel lhs
    have hrhs : Escaped level name (Expr.sitesOfList (if rhs.any Expr.isFunction then
          place.after (.assign pos op lhs rhs) else place) rhs) ↔
        ¬ place.BindsFrom level name ∧
          name ∈ hide (if rhs.any Expr.isFunction then
            (Stmt.assign pos op lhs rhs).binder?.toList else []) (Expr.freeOfList rhs) := by
      split
      · rw [Place.after_eq_bindAll,
          Expr.escaped_sitesOfList (Place.lt_length_frames_bindAll hlevel _),
          Place.not_bindsFrom_bindAll_and hlevel]
      · rw [Expr.escaped_sitesOfList hlevel, hide_nil]
    simp only [Stmt.sites, escaped_cons_stmt, escaped_append, hlhs, hrhs, Stmt.free,
      List.mem_append, and_or_left]
  | .ret _ result => by
    simp [Stmt.sites, Stmt.free, Expr.escaped_sitesOfOption hlevel result]
  | .branch .. => by simp [Stmt.sites, Stmt.free]
  | .block body => by
    have henter := Place.lt_length_frames_enter hlevel
    simp [Stmt.sites, Stmt.free, body.escaped_sites henter]
  | .ifElse _ init test body rest => by
    have henter := Place.lt_length_frames_enter hlevel
    have hinner := Place.lt_length_frames_afterOption henter init
    have hbody := body.escaped_sites (Place.lt_length_frames_enter hinner)
    simp only [Stmt.sites, escaped_cons_stmt, escaped_append,
      Stmt.escaped_sitesOfOption henter init, test.escaped_sites hinner, hbody,
      Stmt.escaped_sitesOfElse hinner rest, Place.bindsFrom_enter, or_assoc, ← and_or_left,
      ← List.mem_append]
    -- All parts behind the initial statement stand in the scope of what it binds.
    rw [Place.afterOption_eq_bindAll, Place.not_bindsFrom_bindAll_and henter]
    simp [Stmt.free, and_or_left]
  | .loop _ init test post body => by
    have henter := Place.lt_length_frames_enter hlevel
    have hinner := Place.lt_length_frames_afterOption henter init
    have hround : level < (place.enter.afterOption init).enterLoop.frames.length := hinner
    have hbody := body.escaped_sites (Place.lt_length_frames_enter hround)
    simp only [Stmt.sites, escaped_cons_stmt, escaped_append,
      Stmt.escaped_sitesOfOption henter init, Expr.escaped_sitesOfOption hinner test, hbody,
      Stmt.escaped_sitesOfOption hround post, Place.bindsFrom_enter, Place.bindsFrom_enterLoop,
      or_assoc, ← and_or_left, ← List.mem_append]
    rw [Place.afterOption_eq_bindAll, Place.not_bindsFrom_bindAll_and henter]
    simp [Stmt.free, and_or_left]
  | .forIn _ key value iterable body => by
    have henter := Place.lt_length_frames_enter hlevel
    have hround : level <
        (place.enter.bindAll (loopBinders key value)).enterLoop.frames.length :=
      Place.lt_length_frames_bindAll henter _
    have hbody := body.escaped_sites (Place.lt_length_frames_enter hround)
    simp [Stmt.sites, Stmt.free, iterable.escaped_sites hlevel, hbody,
      Place.not_bindsFrom_bindAll_and henter, and_or_left]

theorem Stmt.escaped_sitesOfOption {place : Place} (hlevel : level < place.frames.length) :
    (stmt : Option Stmt) → (Escaped level name (Stmt.sitesOfOption place stmt) ↔
      ¬ place.BindsFrom level name ∧ name ∈ Stmt.freeOfOption stmt)
  | none => by simp [Stmt.sitesOfOption, Stmt.freeOfOption]
  | some stmt => stmt.escaped_sites hlevel

theorem Stmt.escaped_sitesOfElse {place : Place} (hlevel : level < place.frames.length) :
    (rest : Option Stmt) → (Escaped level name (Stmt.sitesOfElse place rest) ↔
      ¬ place.BindsFrom level name ∧ name ∈ Stmt.freeOfOption rest)
  | none => by simp [Stmt.sitesOfElse, Stmt.freeOfOption]
  | some stmt => by
    have henter := Place.lt_length_frames_enter hlevel
    cases stmt with
    | block body =>
        simp [Stmt.sitesOfElse, Stmt.freeOfOption, Stmt.free, body.escaped_sites henter]
    | ifElse pos init test body rest =>
        cases init with
        | none =>
            simp [Stmt.sitesOfElse, Stmt.freeOfOption, Stmt.free, test.escaped_sites hlevel,
              body.escaped_sites henter, Stmt.escaped_sitesOfElse hlevel rest, and_or_left]
        | some init =>
            exact (Stmt.escaped_sites henter _).trans (by rw [Place.bindsFrom_enter]; rfl)
    | _ => exact (Stmt.escaped_sites henter _).trans (by rw [Place.bindsFrom_enter]; rfl)

theorem Stmt.escaped_sitesOfList {place : Place} (hlevel : level < place.frames.length) :
    (stmts : List Stmt) → (Escaped level name (Stmt.sitesOfList place stmts) ↔
      ¬ place.BindsFrom level name ∧ name ∈ Stmt.freeOfList stmts)
  | [] => by simp [Stmt.sitesOfList, Stmt.freeOfList]
  | stmt :: stmts => by
    have hbound := Place.lt_length_frames_bindAll hlevel stmt.binder?.toList
    have hstmts := Stmt.escaped_sitesOfList hbound stmts
    rw [Place.not_bindsFrom_bindAll_and hlevel] at hstmts
    simp only [Stmt.sitesOfList, escaped_append, stmt.escaped_sites hlevel,
      Place.after_eq_bindAll, hstmts, Stmt.freeOfList, List.mem_append, and_or_left]

theorem Block.escaped_sites {place : Place} (hlevel : level < place.frames.length) :
    (block : Block) → (Escaped level name (block.sites place) ↔
      ¬ place.BindsFrom level name ∧ name ∈ block.free)
  | ⟨_, stmts⟩ => Stmt.escaped_sitesOfList hlevel stmts

end

end Script

end LuaBackend
