import LuaBackend.Proofs.Acceptance
import LuaBackend.Proofs.Execution

/-!
# Where the flags of the generator occur

In the code of an accepted script a flag occurs free only where a `continue` sets the flag of the
loop around it.  In particular the code of an expression refers to no flag outside of it, even if
functions in it have loops, and flags of the same name, of their own.
-/

namespace LuaBackend

open Script

/-! ## Flags are no names of a script -/

def Names.IsFlag (name : String) : Prop := ∃ depth, name = continueFlag depth

namespace Names.IsFlag

variable {name : String}

theorem isReserved (hflag : IsFlag name) : isReserved name = true := by
  obtain ⟨depth, rfl⟩ := hflag
  exact isReserved_continueFlag depth

theorem ne_of_isReserved_eq_false (hflag : IsFlag name) {other : String}
    (hother : Names.isReserved other = false) : other ≠ name := by
  rintro rfl
  simp [hflag.isReserved] at hother

theorem iterate_ne (hflag : IsFlag name) : iterate ≠ name := by
  obtain ⟨depth, rfl⟩ := hflag
  intro heq
  simp [iterate, ← String.toList_inj, toList_continueFlag] at heq

theorem slice_ne (hflag : IsFlag name) : slice ≠ name := by
  obtain ⟨depth, rfl⟩ := hflag
  intro heq
  simp [slice, ← String.toList_inj, toList_continueFlag] at heq

end Names.IsFlag

/-- No name that is bound around the place is one of the generator. -/
def Place.Plain (place : Place) : Prop := ∀ name, place.Binds name → Names.isReserved name = false

theorem AllFit.isReserved_of_mem_binders {place : Place} {ids : List Ident}
    (hfit : AllFit (place.binders ids)) {id : Ident} (hmem : id ∈ ids) :
    Names.isReserved id.name = false := by
  induction ids generalizing place with
  | nil => simp at hmem
  | cons first rest ih =>
      simp only [Place.binders, allFit_cons] at hfit
      rcases List.mem_cons.1 hmem with rfl | hmem
      · exact hfit.1.1
      · exact ih hfit.2 hmem

namespace Place.Plain

variable {place : Place}

theorem root : Plain .root := by simp [Plain, Place.root, Binds]

theorem enter (hplain : place.Plain) : place.enter.Plain :=
  fun name hbinds => hplain name (binds_enter_iff.1 hbinds)

theorem enterFunction (hplain : place.Plain) : place.enterFunction.Plain :=
  fun name hbinds => hplain name (binds_enterFunction_iff.1 hbinds)

theorem enterLoop (hplain : place.Plain) : place.enterLoop.Plain := hplain

theorem bind (hplain : place.Plain) {id : Ident} (hid : Names.isReserved id.name = false) :
    (place.bind id).Plain := by
  intro name hbinds
  rcases binds_bind hbinds with rfl | hbinds
  · exact hid
  · exact hplain name hbinds

theorem bindAll (hplain : place.Plain) {ids : List Ident} (hfit : AllFit (place.binders ids)) :
    (place.bindAll ids).Plain := by
  induction ids generalizing place with
  | nil => exact hplain
  | cons id ids ih =>
      simp only [binders, allFit_cons] at hfit
      exact ih (hplain.bind hfit.1.1) hfit.2

theorem after (hplain : place.Plain) {stmt : Stmt} (hfit : AllFit (stmt.sites place)) :
    (place.after stmt).Plain := by
  unfold Place.after
  cases hbinder : stmt.binder? with
  | none => exact hplain
  | some id =>
      unfold Stmt.binder? at hbinder
      split at hbinder
      · obtain rfl : _ = id := by simpa using hbinder
        simp only [Stmt.sites, if_true, Expr.sitesOfDefined, allFit_cons, allFit_append] at hfit
        exact hplain.bind hfit.2.1.1.1
      · simp at hbinder

theorem afterOption (hplain : place.Plain) {stmt : Option Stmt}
    (hfit : AllFit (Stmt.sitesOfOption place stmt)) : (place.afterOption stmt).Plain := by
  cases stmt with
  | none => exact hplain
  | some stmt => exact hplain.after hfit

end Place.Plain

/-! ## Code that does not touch a name -/

namespace Lua

variable {name : String}

/-- None of the statements refers to the name or declares it. -/
def Untouched (name : String) (code : List Stmt) : Prop := ∀ stmt ∈ code, stmt.touches name = false

@[simp] theorem untouched_nil : Untouched name [] := by simp [Untouched]

@[simp] theorem untouched_cons {stmt : Stmt} {code : List Stmt} :
    Untouched name (stmt :: code) ↔ stmt.touches name = false ∧ Untouched name code :=
  List.forall_mem_cons

@[simp] theorem untouched_append {first second : List Stmt} :
    Untouched name (first ++ second) ↔ Untouched name first ∧ Untouched name second :=
  List.forall_mem_append

theorem Untouched.listUses {code : List Stmt} (hcode : Untouched name code) (last : Bool) :
    Stmt.listUses name code last = last := by
  induction code with
  | nil => simp [Stmt.listUses]
  | cons stmt code ih =>
      rw [untouched_cons, Stmt.touches, Bool.or_eq_false_iff] at hcode
      simp [Stmt.listUses, hcode.1.1, hcode.1.2, ih hcode.2]

theorem touches_block {style : Style} {body : List Stmt} (hbody : Untouched name body) :
    (Stmt.block style body).touches name = false := by
  simp [Stmt.touches, Stmt.uses, Stmt.declares, hbody.listUses]

theorem touches_update {op : BinaryOp} {target value : Expr} (htarget : target.uses name = false)
    (hvalue : value.uses name = false) : (Stmt.update op target value).touches name = false := by
  simp [Stmt.update, Expr.operate, Stmt.touches, Stmt.uses, Stmt.declares, Expr.uses, htarget,
    hvalue]

theorem touches_bind {binding : Binding} {isFunction : Bool} {own : String} {value : Expr}
    (hown : own ≠ name) (hvalue : value.uses name = false) :
    (Stmt.bind binding isFunction own value).touches name = false := by
  cases binding <;> cases isFunction <;>
    simp [Stmt.bind, Stmt.touches, Stmt.uses, Stmt.declares, Expr.uses, hown, hvalue]

theorem uses_array {elements : List Expr} (helements : Expr.listUses name elements = false) :
    (Expr.array elements).uses name = false := by
  have hitems : ∀ values : List Expr, Expr.listUses name values = false →
      Field.listUses name ((values.map fun value => .item (.paren value)) ++
        [.named Names.arrayMark (.bool true)]) = false := by
    intro values hvalues
    induction values with
    | nil => simp [Field.listUses, Field.uses, Expr.uses]
    | cons value values ih =>
        rw [Expr.listUses, Bool.or_eq_false_iff] at hvalues
        simp [Field.listUses, Field.uses, Expr.uses, hvalues.1, ih hvalues.2]
  cases elements with
  | nil => simp [Expr.array, Expr.uses, Field.listUses, Field.uses]
  | cons first others =>
      rw [Expr.listUses, Bool.or_eq_false_iff] at helements
      simp [Expr.array, Expr.uses, Field.listUses, Field.uses, helements.1, hitems _ helements.2]

theorem uses_choose {test whenTrue whenFalse : Expr} (htest : test.uses name = false)
    (htrue : whenTrue.uses name = false) (hfalse : whenFalse.uses name = false) :
    (Expr.choose test whenTrue whenFalse).uses name = false := by
  simp [Expr.choose, Expr.uses, Expr.listUses, Stmt.listUses, Stmt.uses, Stmt.declares, Else.uses,
    htest, htrue, hfalse]

/-- A round of a loop declares its flag before all else, so no other use of the name is free. -/
theorem listUses_round {flag : String} {body : List Stmt} (fallsThrough : Bool) {next : Stmt}
    (hbody : flag ≠ name → Untouched name body)
    (hnext : flag ≠ name → next.touches name = false) :
    Stmt.listUses name (Stmt.guarded flag body fallsThrough ++ [next]) false = false := by
  by_cases hflag : flag = name
  · simp [Stmt.guarded, Stmt.listUses, Stmt.uses, Stmt.declares, Expr.uses, hflag]
  · have hdone : Untouched name
        (if fallsThrough then [Stmt.assign (.name flag) (.bool true)] else []) := by
      split <;> simp [Stmt.touches, Stmt.uses, Stmt.declares, Expr.uses, hflag]
    have hguarded : Untouched name (Stmt.guarded flag body fallsThrough) := by
      have hrepeat := (untouched_append.2 ⟨hbody hflag, hdone⟩).listUses false
      simp [Stmt.guarded, Stmt.touches, Stmt.uses, Stmt.declares, Expr.uses, hflag, hrepeat]
    have hround := untouched_append.2 ⟨hguarded, untouched_cons.2 ⟨hnext hflag, untouched_nil⟩⟩
    exact hround.listUses false

theorem touches_afterRound {flag : String} (hflag : flag ≠ name) {post : Option (List Stmt)}
    (hpost : ∀ code ∈ post, Untouched name code) :
    (Stmt.afterRound flag post).touches name = false := by
  cases post with
  | none =>
      simp [Stmt.afterRound, Stmt.breakUnless, Stmt.touches, Stmt.uses, Stmt.declares, Expr.uses,
        Stmt.listUses, Else.uses, hflag]
  | some code =>
      simp [Stmt.afterRound, Stmt.touches, Stmt.uses, Stmt.declares, Expr.uses, Else.uses,
        Stmt.listUses, hflag, (hpost code rfl).listUses]

end Lua

/-! ## The code of a script -/

namespace Script

/-- A statement without branches, blocks and loops of its own. -/
def Stmt.isStraight : Stmt → Bool
  | .expr .. | .incDec .. | .assign .. | .ret .. | .exportValue .. => true
  | _ => false

/-- The flag that a `continue` at the place sets is not this one. -/
def Foreign (place : Place) (name : String) : Prop :=
  0 < place.loops → Names.continueFlag place.loops ≠ name

variable {name : String}

mutual

/-- The code of an expression refers to no flag. -/
theorem Expr.uses_lower (hflag : Names.IsFlag name) {place : Place} (hplain : place.Plain) :
    (expr : Expr) → AllFit (expr.sites place) → expr.lower.uses name = false
  | .ident id, hfit => by
    simp only [Expr.sites, allFit_cons, Node.Fits] at hfit
    have hid : Names.isReserved id.name = false := by
      rcases hfit.1 with hbinds | hlen
      · exact hplain _ hbinds
      · rw [hlen]
        decide
    simpa [Expr.lower, Lua.Expr.uses] using hflag.ne_of_isReserved_eq_false hid
  | .int .., _ | .float .., _ | .bool .., _ | .str .., _ | .undefined .., _ | .char .., _
  | .importModule .., _ | .error .., _ | .immutable .., _ => rfl
  | .paren _ expr, hfit => by
    simp only [Expr.sites, allFit_cons] at hfit
    exact expr.uses_lower hflag hplain hfit.2
  | .binary _ op lhs rhs, hfit => by
    simp only [Expr.sites, allFit_cons, allFit_append] at hfit
    have hlhs := lhs.uses_lower hflag hplain hfit.2.1
    have hrhs := rhs.uses_lower hflag hplain hfit.2.2
    cases hop : op.lower? <;> simp [Expr.lower, hop, Lua.Expr.operate, Lua.Expr.uses, hlhs, hrhs]
  | .unary _ op expr, hfit => by
    simp only [Expr.sites, allFit_cons] at hfit
    have hexpr := expr.uses_lower hflag hplain hfit.2
    cases hop : op.lower? <;> simp [Expr.lower, hop, Lua.Expr.uses, hexpr]
  | .selector _ expr _, hfit => by
    simp only [Expr.sites, allFit_cons] at hfit
    simp [Expr.lower, Lua.Expr.uses, expr.uses_lower hflag hplain hfit.2]
  | .index _ expr key, hfit => by
    simp only [Expr.sites, allFit_cons, allFit_append] at hfit
    simp [Expr.lower, Lua.Expr.uses, expr.uses_lower hflag hplain hfit.2.1,
      key.uses_lower hflag hplain hfit.2.2]
  | .slice _ expr low high, hfit => by
    simp only [Expr.sites, allFit_cons, allFit_append] at hfit
    simp [Expr.lower, Lua.Expr.uses, Lua.Expr.listUses, hflag.slice_ne,
      expr.uses_lower hflag hplain hfit.2.1.1,
      Expr.uses_lowerOption hflag hplain (.numeral "0") rfl low hfit.2.1.2,
      Expr.uses_lowerOption hflag hplain .nil rfl high hfit.2.2]
  | .cond _ test whenTrue whenFalse, hfit => by
    simp only [Expr.sites, allFit_cons, allFit_append] at hfit
    exact Lua.uses_choose (test.uses_lower hflag hplain hfit.2.1.1)
      (whenTrue.uses_lower hflag hplain hfit.2.1.2) (whenFalse.uses_lower hflag hplain hfit.2.2)
  | .call _ callee args, hfit => by
    simp only [Expr.sites, allFit_cons, allFit_append] at hfit
    simp [Expr.lower, Lua.Expr.uses, callee.uses_lower hflag hplain hfit.2.1,
      Expr.listUses_lowerList hflag hplain args hfit.2.2]
  | .array _ elements, hfit => by
    simp only [Expr.sites, allFit_cons] at hfit
    exact Lua.uses_array (Expr.listUses_lowerList hflag hplain elements hfit.2)
  | .map _ elements, hfit => by
    simp only [Expr.sites, allFit_cons] at hfit
    exact MapElement.listUses_lowerList hflag hplain elements hfit.2
  | .func _ params body, hfit => by
    simp only [Expr.sites, allFit_cons, allFit_append] at hfit
    have hparams := hplain.enterFunction.bindAll hfit.2.1
    -- Loops do not reach into the function, so every flag is foreign to its body.
    have hbody := body.untouched_lower hflag hparams .lexical (by simp [Foreign]) hfit.2.2
    simp only [Place.loops_bindAll, Place.loops_enterFunction] at hbody
    simp [Expr.lower, Lua.Expr.uses, hbody.listUses]

theorem Expr.uses_lowerOption (hflag : Names.IsFlag name) {place : Place} (hplain : place.Plain)
    (default : Lua.Expr) (hdefault : default.uses name = false) :
    (expr : Option Expr) → AllFit (Expr.sitesOfOption place expr) →
      (Expr.lowerOption default expr).uses name = false
  | none, _ => hdefault
  | some expr, hfit => expr.uses_lower hflag hplain hfit

theorem Expr.listUses_lowerList (hflag : Names.IsFlag name) {place : Place} (hplain : place.Plain) :
    (exprs : List Expr) → AllFit (Expr.sitesOfList place exprs) →
      Lua.Expr.listUses name (Expr.lowerList exprs) = false
  | [], _ => rfl
  | expr :: exprs, hfit => by
    simp only [Expr.sitesOfList, allFit_append] at hfit
    simp [Expr.lowerList, Lua.Expr.listUses, expr.uses_lower hflag hplain hfit.1,
      Expr.listUses_lowerList hflag hplain exprs hfit.2]

theorem MapElement.listUses_lowerList (hflag : Names.IsFlag name) {place : Place}
    (hplain : place.Plain) :
    (elements : List MapElement) → AllFit (MapElement.sitesOfList place elements) →
      Lua.Field.listUses name (MapElement.lowerList elements) = false
  | [], _ => rfl
  | ⟨_, _, value⟩ :: elements, hfit => by
    simp only [MapElement.sitesOfList, allFit_append] at hfit
    simp [MapElement.lowerList, Lua.Field.listUses, Lua.Field.uses, Lua.Expr.uses,
      value.uses_lower hflag hplain hfit.1,
      MapElement.listUses_lowerList hflag hplain elements hfit.2]

theorem Stmt.untouched_lower (hflag : Names.IsFlag name) {place : Place} (hplain : place.Plain)
    (binding : Binding) :
    (stmt : Stmt) → (hforeign : stmt.isStraight = false → Foreign place name) →
      AllFit (stmt.sites place) → Lua.Untouched name (stmt.lower binding place.loops)
  | .expr _ expr, _, hfit => by
    simp only [Stmt.sites, allFit_cons] at hfit
    have hexpr := expr.uses_lower hflag hplain hfit.2
    simp [Stmt.lower, Lua.Stmt.touches, Lua.Stmt.uses, Lua.Stmt.declares, hexpr]
  | .incDec _ op target, _, hfit => by
    simp only [Stmt.sites, allFit_cons] at hfit
    have htarget := target.uses_lower hflag hplain hfit.2
    have hone : (Lua.Expr.numeral "1").uses name = false := rfl
    simp [Stmt.lower, Lua.touches_update htarget hone]
  | .assign pos op [target] [value], _, hfit => by
    have hafter := hplain.after hfit
    simp only [Stmt.sites, Expr.sitesOfList, List.append_nil, List.any_cons, List.any_nil,
      Bool.or_false, allFit_cons, allFit_append] at hfit
    obtain ⟨⟨_, _, htarget, -, hshape⟩, hlhs, hrhs⟩ := hfit
    have hvalue : value.lower.uses name = false := by
      split at hrhs
      · exact value.uses_lower hflag hafter hrhs
      · exact value.uses_lower hflag hplain hrhs
    by_cases hop : op = .define
    · subst hop
      obtain rfl := List.singleton_inj.1 htarget
      obtain ⟨id, rfl⟩ := hshape
      simp only [if_true, Expr.sitesOfDefined, allFit_cons] at hlhs
      have hid := hflag.ne_of_isReserved_eq_false hlhs.1.1
      simp [Stmt.lower, Lua.touches_bind hid hvalue]
    · simp only [hop, if_false] at hlhs
      have huses := target.uses_lower hflag hplain hlhs
      cases op with
      | define => exact absurd rfl hop
      | assign =>
          have hassign : (Lua.Stmt.assign target.lower value.lower).touches name = false := by
            simp [Lua.Stmt.touches, Lua.Stmt.uses, Lua.Stmt.declares, huses, hvalue]
          exact Lua.untouched_cons.2 ⟨hassign, Lua.untouched_nil⟩
      | add | sub | mul | quo | rem =>
          exact Lua.untouched_cons.2 ⟨Lua.touches_update huses hvalue, Lua.untouched_nil⟩
      | _ => exact Lua.untouched_nil
  | .assign _ _ [] _, _, hfit | .assign _ _ (_ :: _ :: _) _, _, hfit | .assign _ _ [_] [], _, hfit
  | .assign _ _ [_] (_ :: _ :: _), _, hfit => by
    simp [Stmt.sites, Node.Fits] at hfit
  | .ret _ none, _, _ => by simp [Stmt.lower, Lua.Stmt.touches, Lua.Stmt.uses, Lua.Stmt.declares]
  | .ret _ (some result), _, hfit => by
    simp only [Stmt.sites, Expr.sitesOfOption, allFit_cons] at hfit
    have hresult := result.uses_lower hflag hplain hfit.2
    simp [Stmt.lower, Lua.Stmt.touches, Lua.Stmt.uses, Lua.Stmt.declares, Lua.Expr.uses, hresult]
  | .branch _ .break, _, _ => by
    simp [Stmt.lower, Lua.Stmt.touches, Lua.Stmt.uses, Lua.Stmt.declares]
  | .branch _ .continue, hforeign, hfit => by
    simp only [Stmt.sites, allFit_cons, Node.Fits] at hfit
    simp [Stmt.lower, Lua.Stmt.touches, Lua.Stmt.uses, Lua.Stmt.declares, Lua.Expr.uses,
      hforeign rfl hfit.1]
  | .block body, hforeign, hfit => by
    simp only [Stmt.sites, allFit_cons] at hfit
    have hbody := body.untouched_lower hflag hplain.enter .lexical (hforeign rfl) hfit.2
    exact Lua.untouched_cons.2 ⟨Lua.touches_block hbody, Lua.untouched_nil⟩
  | .ifElse _ init test body rest, hforeign, hfit => by
    simp only [Stmt.sites, allFit_cons, allFit_append] at hfit
    obtain ⟨-, ⟨⟨hinit, htest⟩, hbody⟩, hrest⟩ := hfit
    have hinner := hplain.enter.afterOption hinit
    have hcode := Stmt.untouched_lowerOption hflag hplain.enter (hforeign rfl) init hinit
    have htest := test.uses_lower hflag hinner htest
    have hbody := body.untouched_lower hflag hinner.enter .lexical
      (by simpa [Foreign] using hforeign rfl)
      hbody
    have hrest := Stmt.uses_lowerElse hflag hinner (by simpa [Foreign] using hforeign rfl)
      rest hrest
    simp only [Place.loops_enter, Place.loops_afterOption] at hbody hrest hcode
    have hcond : Lua.Untouched name [.cond .lines test.lower (body.lower .lexical place.loops)
        (Stmt.lowerElse place.loops rest)] := by
      simp [Lua.Stmt.touches, Lua.Stmt.uses, Lua.Stmt.declares, htest, hbody.listUses, hrest]
    exact Lua.untouched_cons.2
      ⟨Lua.touches_block (Lua.untouched_append.2 ⟨hcode, hcond⟩), Lua.untouched_nil⟩
  | .loop _ init test post body, hforeign, hfit => by
    simp only [Stmt.sites, allFit_cons, allFit_append] at hfit
    obtain ⟨-, ⟨⟨hinit, htest⟩, hbody⟩, hpost⟩ := hfit
    have hinner := hplain.enter.afterOption hinit
    have hcode := Stmt.untouched_lowerOption hflag hplain.enter (hforeign rfl) init hinit
    have htest := Expr.uses_lowerOption hflag hinner (.bool true) rfl test htest
    have hbody : Names.continueFlag (place.loops + 1) ≠ name →
        Lua.Untouched name (body.lower .lexical (place.loops + 1)) := fun hne => by
      simpa using body.untouched_lower hflag hinner.enterLoop.enter .lexical
        (by simpa [Foreign] using hne) hbody
    have hpost : Names.continueFlag (place.loops + 1) ≠ name →
        ∀ code ∈ post.map (Stmt.lower .lexical (place.loops + 1)), Lua.Untouched name code :=
      fun hne => by
        have hpost := Stmt.untouched_lowerOption hflag hinner.enterLoop
          (by simpa [Foreign] using hne) post hpost
        cases post <;> simp_all [Stmt.lowerOption]
    have hround := Lua.listUses_round body.fallsThrough hbody
      fun hne => Lua.touches_afterRound hne (hpost hne)
    have hloop : Lua.Untouched name [.whileLoop (Expr.lowerOption (.bool true) test)
        (Lua.Stmt.guarded (Names.continueFlag (place.loops + 1))
          (body.lower .lexical (place.loops + 1)) body.fallsThrough ++
          [Lua.Stmt.afterRound (Names.continueFlag (place.loops + 1))
            (post.map (Stmt.lower .lexical (place.loops + 1)))])] := by
      simp [Lua.Stmt.touches, Lua.Stmt.uses, Lua.Stmt.declares, htest, hround]
    rw [Stmt.lower_loop]
    dsimp only
    split
    · exact Lua.untouched_cons.2
        ⟨Lua.touches_block (Lua.untouched_append.2 ⟨hcode, hloop⟩), Lua.untouched_nil⟩
    · exact hloop
  | .forIn _ key value iterable body, hforeign, hfit => by
    simp only [Stmt.sites, allFit_cons, allFit_append] at hfit
    obtain ⟨-, ⟨hiterable, hbinders⟩, hbody⟩ := hfit
    have hiterable := iterable.uses_lower hflag hplain hiterable
    have hinner := hplain.enter.bindAll hbinders
    have hbody : Names.continueFlag (place.loops + 1) ≠ name →
        Lua.Untouched name (body.lower .lexical (place.loops + 1)) := fun hne => by
      simpa using body.untouched_lower hflag hinner.enterLoop.enter .lexical
        (by simpa [Foreign] using hne) hbody
    have hnext : Names.continueFlag (place.loops + 1) ≠ name →
        (Lua.Stmt.breakUnless (Names.continueFlag (place.loops + 1))).touches name = false :=
      fun hne => Lua.touches_afterRound hne (by simp : ∀ code ∈ none, Lua.Untouched name code)
    have hround := Lua.listUses_round body.fallsThrough hbody hnext
    simp [Stmt.lower, Lua.Stmt.touches, Lua.Stmt.uses, Lua.Stmt.declares, Lua.Expr.uses,
      Lua.Expr.listUses, hflag.iterate_ne, hiterable, hround]
  | .exportValue .., _, _ => Lua.untouched_nil

theorem Stmt.untouched_lowerOption (hflag : Names.IsFlag name) {place : Place}
    (hplain : place.Plain)
    (hforeign : Foreign place name) :
    (stmt : Option Stmt) → AllFit (Stmt.sitesOfOption place stmt) →
      Lua.Untouched name (Stmt.lowerOption place.loops stmt)
  | none, _ => Lua.untouched_nil
  | some stmt, hfit => stmt.untouched_lower hflag hplain .lexical (fun _ => hforeign) hfit

theorem Stmt.uses_lowerElse (hflag : Names.IsFlag name) {place : Place} (hplain : place.Plain)
    (hforeign : Foreign place name) :
    (rest : Option Stmt) → AllFit (Stmt.sitesOfElse place rest) →
      (Stmt.lowerElse place.loops rest).uses name = false
  | none, _ => rfl
  | some stmt, hfit => by
    cases stmt with
    | block body =>
        simp only [Stmt.sitesOfElse, allFit_cons] at hfit
        have hbody := body.untouched_lower hflag hplain.enter .lexical hforeign hfit.2
        exact hbody.listUses false
    | ifElse pos init test body rest =>
        cases init with
        | none =>
            simp only [Stmt.sitesOfElse, allFit_cons, allFit_append] at hfit
            have htest := test.uses_lower hflag hplain hfit.2.1.1
            have hbody := body.untouched_lower hflag hplain.enter .lexical hforeign hfit.2.1.2
            have hrest := Stmt.uses_lowerElse hflag hplain hforeign rest hfit.2.2
            rw [Place.loops_enter] at hbody
            simp [Stmt.lowerElse, Lua.Else.uses, htest, hbody.listUses, hrest]
        | some init =>
            have huntouched :=
              Stmt.untouched_lower hflag hplain.enter .lexical _ (fun _ => hforeign) hfit
            exact huntouched.listUses false
    | _ =>
        exact (Stmt.untouched_lower hflag hplain.enter .lexical _ (fun _ => hforeign) hfit).listUses
          false

theorem Stmt.untouched_lowerList (hflag : Names.IsFlag name) {place : Place} (hplain : place.Plain)
    (binding : Binding) (hforeign : Foreign place name) :
    (stmts : List Stmt) → AllFit (Stmt.sitesOfList place stmts) →
      Lua.Untouched name (Stmt.lowerList binding place.loops stmts)
  | [], _ => Lua.untouched_nil
  | stmt :: stmts, hfit => by
    simp only [Stmt.sitesOfList, allFit_append] at hfit
    have hstmt := stmt.untouched_lower hflag hplain binding (fun _ => hforeign) hfit.1
    have hstmts := Stmt.untouched_lowerList hflag (hplain.after hfit.1) binding
      (by simpa [Foreign] using hforeign) stmts hfit.2
    rw [Place.loops_after] at hstmts
    rw [Stmt.lowerList_cons, Lua.untouched_append]
    refine ⟨?_, hstmts⟩
    split
    · exact Lua.untouched_cons.2 ⟨Lua.touches_block hstmt, Lua.untouched_nil⟩
    · exact hstmt

theorem Block.untouched_lower (hflag : Names.IsFlag name) {place : Place} (hplain : place.Plain)
    (binding : Binding) (hforeign : Foreign place name) :
    (block : Block) → AllFit (block.sites place) →
      Lua.Untouched name (block.lower binding place.loops)
  | ⟨_, stmts⟩, hfit => Stmt.untouched_lowerList hflag hplain binding hforeign stmts hfit

end

end Script

end LuaBackend
