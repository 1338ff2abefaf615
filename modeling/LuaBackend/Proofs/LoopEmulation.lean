import LuaBackend.Proofs.Emulation

/-!
# Loops of a script and loops of its code

The code of every loop of an accepted script, run by the rules of Lua, does what the loop does by
the rules of scripts, for any meaning of the conditions, plain statements and iterators in it.  A
step behind the body must not branch: by then the body's own loop is over, and the flag of the round
says so already.
-/

namespace LuaBackend

open Script Behaviour

/-! ## Steps that branch -/

namespace Script

def Stmt.isLoop : Stmt → Bool
  | .loop .. | .forIn .. => true
  | _ => false

mutual

/-- A branch in the statement leaves or goes on with a loop around it. -/
def Stmt.branches : Stmt → Bool
  | .branch .. => true
  | .block body => body.branches
  | .ifElse _ init _ body rest =>
    Stmt.optionBranches init || body.branches || Stmt.optionBranches rest
  | .loop _ init _ post _ => Stmt.optionBranches init || Stmt.optionBranches post
  | _ => false

def Stmt.optionBranches : Option Stmt → Bool
  | none => false
  | some stmt => stmt.branches

def Stmt.listBranches : List Stmt → Bool
  | [] => false
  | stmt :: stmts => stmt.branches || Stmt.listBranches stmts

def Block.branches : Block → Bool
  | ⟨_, stmts⟩ => Stmt.listBranches stmts

end

mutual

/-- No loop in the statement has a post step that branches. -/
def Stmt.postsStay : Stmt → Bool
  | .block body => body.postsStay
  | .ifElse _ init _ body rest =>
    Stmt.optionPostsStay init && body.postsStay && Stmt.optionPostsStay rest
  | .loop _ init _ post body =>
    !Stmt.optionBranches post && Stmt.optionPostsStay init && Stmt.optionPostsStay post &&
      body.postsStay
  | .forIn _ _ _ _ body => body.postsStay
  | _ => true

def Stmt.optionPostsStay : Option Stmt → Bool
  | none => true
  | some stmt => stmt.postsStay

def Stmt.listPostsStay : List Stmt → Bool
  | [] => true
  | stmt :: stmts => stmt.postsStay && Stmt.listPostsStay stmts

def Block.postsStay : Block → Bool
  | ⟨_, stmts⟩ => Stmt.listPostsStay stmts

end

section

variable {σ ι : Type} (meaning : Lua.Meaning σ ι)

theorem Stmt.stays_performs (stmt : Stmt) : (stmt.Performs meaning).Stays := by
  unfold Stmt.Performs
  induction stmt.lower .lexical 0 with
  | nil => exact Stays.ends (by simp)
  | cons code codes ih => exact (Stays.after fun _ => Stays.ends (by simp)).seq ih

mutual

theorem Stmt.stays_runs : (stmt : Stmt) → stmt.branches = false → (stmt.Runs meaning).Stays
  | .expr .., _ | .incDec .., _ | .assign .., _ | .exportValue .., _ => by
    exact Stmt.stays_performs meaning _
  | .ret .., _ => Stays.after fun _ => Stays.ends (by simp)
  | .branch .., hbranches => by simp [Stmt.branches] at hbranches
  | .block body, hbranches => body.stays_runs hbranches
  | .ifElse _ init test body rest, hbranches => by
    simp only [Stmt.branches, Bool.or_eq_false_iff] at hbranches
    exact (Stmt.stays_optionRuns init hbranches.1.1).seq
      ((body.stays_runs hbranches.1.2).choose (Stmt.stays_optionRuns rest hbranches.2))
  | .loop _ init test post body, hbranches => by
    simp only [Stmt.branches, Bool.or_eq_false_iff] at hbranches
    exact (Stmt.stays_optionRuns init hbranches.1).seq (Stays.loop)
  | .forIn .., _ => Stays.after fun _ => Stays.loop

theorem Stmt.stays_optionRuns : (stmt : Option Stmt) → Stmt.optionBranches stmt = false →
    (Stmt.OptionRuns meaning stmt).Stays
  | none, _ => Stays.ends (by simp)
  | some stmt, hbranches => stmt.stays_runs hbranches

theorem Stmt.stays_listRuns : (stmts : List Stmt) → Stmt.listBranches stmts = false →
    (Stmt.ListRuns meaning stmts).Stays
  | [], _ => Stays.ends (by simp)
  | stmt :: stmts, hbranches => by
    simp only [Stmt.listBranches, Bool.or_eq_false_iff] at hbranches
    exact (stmt.stays_runs hbranches.1).seq (Stmt.stays_listRuns stmts hbranches.2)

theorem Block.stays_runs : (block : Block) → block.branches = false → (block.Runs meaning).Stays
  | ⟨_, stmts⟩, hbranches => Stmt.stays_listRuns stmts hbranches

end

/-- A body that ends in a return is never run to its end. -/
theorem Block.not_runs_normal {block : Block} (hfalls : block.fallsThrough = false) (s s' : σ) :
    ¬ block.Runs meaning s .normal s' := by
  obtain ⟨pos, stmts⟩ := block
  simp only [Block.fallsThrough, Bool.not_eq_false'] at hfalls
  change ¬ Stmt.ListRuns meaning stmts s .normal s'
  induction stmts generalizing s with
  | nil => simp at hfalls
  | cons stmt stmts ih =>
      rintro (⟨middle, hstmt, hstmts⟩ | ⟨-, hne⟩)
      · cases stmts with
        | cons next stmts => exact ih middle (by simpa using hfalls) hstmts
        | nil =>
            cases stmt with
            | ret _ result =>
                rcases hstmt with ⟨_, _, -, hends, -⟩ | ⟨-, hends⟩ <;> simp at hends
            | _ => simp [Stmt.isReturn] at hfalls
      · exact hne rfl

end

end Script

/-! ## The code of a script -/

/-- What the code inside `depth` loops finds: flags only, and the one that a `continue` sets. -/
structure FlagsAt (depth : Nat) (flags : List (String × Bool)) : Prop where
  isFlag : ∀ flag ∈ flags, Names.IsFlag flag.1
  lookup : 0 < depth → (flags.lookup (Names.continueFlag depth)).isSome

theorem FlagsAt.enterLoop {depth : Nat} {flags : List (String × Bool)}
    (hflags : FlagsAt depth flags)
    (value : Bool) : FlagsAt (depth + 1) ((Names.continueFlag (depth + 1), value) :: flags) where
  isFlag := List.forall_mem_cons.2 ⟨⟨depth + 1, rfl⟩, hflags.isFlag⟩
  lookup _ := by simp

theorem FlagsAt.enter {place : Place} {flags : List (String × Bool)}
    (hflags : FlagsAt place.loops flags) : FlagsAt place.enter.loops flags :=
  hflags

namespace Script

variable {σ ι : Type} {meaning : Lua.Meaning σ ι} {place : Place} {flags : List (String × Bool)}

/-- The code of an expression refers to none of the flags. -/
theorem Expr.uses_lower_eq_false (hflags : FlagsAt place.loops flags) (hplain : place.Plain)
    {expr : Expr} (hfit : AllFit (expr.sites place)) :
    ∀ flag ∈ flags, expr.lower.uses flag.1 = false :=
  fun flag hmem => expr.uses_lower (hflags.isFlag flag hmem) hplain hfit

theorem Stmt.emulates_straight (hflags : FlagsAt place.loops flags) (hplain : place.Plain)
    {stmt : Stmt} (hstraight : stmt.isStraight) (hfit : AllFit (stmt.sites place))
    (hcode : stmt.lower .lexical place.loops = stmt.lower .lexical 0)
    (hstmts : ∀ code ∈ stmt.lower .lexical 0, code.IsPlain) :
    Emulates (Names.continueFlag place.loops) flags
      (Lua.Stmt.ListRuns meaning (stmt.lower .lexical place.loops)) (stmt.Performs meaning) := by
  have huntouched : ∀ flag ∈ flags, Lua.Untouched flag.1 (stmt.lower .lexical place.loops) := by
    intro flag hmem
    exact stmt.untouched_lower (hflags.isFlag flag hmem) hplain .lexical (by simp [hstraight]) hfit
  rw [hcode] at huntouched ⊢
  exact Emulates.plain meaning hstmts huntouched

theorem Stmt.emulates_assign (hflags : FlagsAt place.loops flags) (hplain : place.Plain) {pos : Pos}
    {op : AssignOp} {lhs rhs : List Expr}
    (hfit : AllFit ((Stmt.assign pos op lhs rhs).sites place)) :
    Emulates (Names.continueFlag place.loops) flags
      (Lua.Stmt.ListRuns meaning ((Stmt.assign pos op lhs rhs).lower .lexical place.loops))
      ((Stmt.assign pos op lhs rhs).Performs meaning) := by
  have hsites := hfit
  simp only [Stmt.sites, allFit_cons, allFit_append] at hsites
  obtain ⟨target, value, rfl, rfl, hshape⟩ := Stmt.lower_assign hsites.1
  rcases hshape with ⟨rfl, id, rfl, hcode⟩ | ⟨-, -, hcode | ⟨luaOp, hcode⟩⟩
  · have hid : Names.isReserved id.name = false := by
      simp only [if_true, Expr.sitesOfDefined, allFit_cons] at hsites
      exact hsites.2.1.1.1
    refine Stmt.emulates_straight hflags hplain rfl hfit (by rw [hcode, hcode]) ?_
    rw [hcode]
    cases value.isFunction <;> simp [Lua.Stmt.bind, Lua.Stmt.IsPlain, hid]
  · refine Stmt.emulates_straight hflags hplain rfl hfit (by rw [hcode, hcode]) ?_
    simp [hcode, Lua.Stmt.IsPlain]
  · refine Stmt.emulates_straight hflags hplain rfl hfit (by rw [hcode, hcode]) ?_
    simp [hcode, Lua.Stmt.update, Lua.Stmt.IsPlain]

theorem Stmt.emulates_ret (hflags : FlagsAt place.loops flags) (hplain : place.Plain) {pos : Pos}
    {result : Option Expr} (hfit : AllFit ((Stmt.ret pos result).sites place)) :
    Emulates (Names.continueFlag place.loops) flags
      (Lua.Stmt.ListRuns meaning ((Stmt.ret pos result).lower .lexical place.loops))
      ((Stmt.ret pos result).Runs meaning) := by
  have hcode : (Stmt.ret pos result).lower .lexical place.loops =
      [.ret (result.map fun result => .paren result.lower)] := by
    cases result <;> rfl
  have huses : ∀ flag ∈ flags,
      (Lua.Stmt.ret (result.map fun result => .paren result.lower)).uses flag.1 = false := by
    intro flag hmem
    have huntouched := Stmt.untouched_lower (hflags.isFlag flag hmem) hplain .lexical
      (.ret pos result) (by simp [Stmt.isStraight]) hfit
    simpa [hcode, Lua.Stmt.touches, Lua.Stmt.declares] using huntouched
  rw [hcode, Lua.Stmt.listRuns_single]
  exact Emulates.after (Keeps.onState huses _) fun _ => Emulates.ends (by simp)

/-- A `continue` sets the flag of its loop and leaves the body. -/
theorem emulates_continue {depth : Nat} (hflags : FlagsAt depth flags) (hdepth : 0 < depth)
    (pos : Pos) :
    Emulates (Names.continueFlag depth) flags
      (Lua.Stmt.ListRuns meaning ((Stmt.branch pos .continue).lower .lexical depth))
      ((Stmt.branch pos .continue).Runs meaning) := by
  have hset : ∀ (s : σ) (e : Ending) (machine : Lua.Machine σ),
      (Lua.Stmt.assign (.name (Names.continueFlag depth)) (.bool true)).Runs meaning ⟨s, flags⟩ e
        machine ↔
      e = .normal ∧ machine = ⟨s, Lua.Machine.setFlag (Names.continueFlag depth) true flags⟩ := by
    intro s e machine
    simp [Lua.Stmt.Runs, hflags.lookup hdepth, Lua.Machine.set]
  rintro s e ⟨state, after⟩
  simp only [Stmt.lower, Lua.Stmt.ListRuns, Lua.Stmt.Runs, seq_ends_normal, Stmt.Runs]
  constructor
  · rintro (⟨middle, hfirst, rfl, hmachine⟩ | ⟨hfirst, hne⟩)
    · obtain ⟨-, rfl⟩ := (hset ..).1 hfirst
      cases hmachine
      exact ⟨.continue, ⟨rfl, rfl⟩, rfl, rfl⟩
    · exact absurd ((hset ..).1 hfirst).1 hne
  · rintro ⟨_, ⟨rfl, rfl⟩, rfl, rfl⟩
    exact .inl ⟨_, (hset ..).2 ⟨rfl, rfl⟩, rfl, rfl⟩

/-- The names that a loop over a container gives to its variables are no flags. -/
theorem contains_variables (hflags : ∀ flag ∈ flags, Names.IsFlag flag.1) {key : Option Ident}
    {value : Ident} (hfit : AllFit (place.binders (loopBinders key value))) :
    ∀ flag ∈ flags,
      [(key.map Ident.name).getD Names.discard, value.name].contains flag.1 = false := by
  intro flag hmem
  have hvariable : ∀ id ∈ key.toList ++ [value], Names.isReserved id.name = false := by
    intro id hid
    by_cases hdiscard : id.name = Names.discard
    · rw [hdiscard]
      decide
    · exact AllFit.isReserved_of_mem_binders hfit (by simpa [loopBinders, hdiscard] using hid)
  have hne : ∀ id ∈ key.toList ++ [value], id.name ≠ flag.1 :=
    fun id hid => (hflags flag hmem).ne_of_isReserved_eq_false (hvariable id hid)
  have hdiscard : Names.discard ≠ flag.1 :=
    (hflags flag hmem).ne_of_isReserved_eq_false (by decide)
  cases key with
  | none => simpa [hdiscard.symm] using (hne value (by simp)).symm
  | some key => simpa using ⟨(hne key (by simp)).symm, (hne value (by simp)).symm⟩

/-- What follows the body of a round is the post step. -/
theorem emulates_afterBody {flag : String} {depth : Nat} {post : Option Stmt}
    (hpost : Emulates flag flags (Lua.Stmt.ListRuns meaning (Stmt.lowerOption depth post))
      (Stmt.OptionRuns meaning post)) :
    Emulates flag flags (afterBody meaning (post.map (Stmt.lower .lexical depth)))
      (Stmt.OptionRuns meaning post) := by
  cases post with
  | none => exact hpost
  | some post => exact hpost.inBlock

mutual

/-- The code of a statement does what the statement does. -/
theorem Stmt.emulates_lower {place : Place} {flags : List (String × Bool)}
    (hflags : FlagsAt place.loops flags) (hplain : place.Plain) :
    (stmt : Stmt) → AllFit (stmt.sites place) → stmt.postsStay = true →
      Emulates (Names.continueFlag place.loops) flags
        (Lua.Stmt.ListRuns meaning (stmt.lower .lexical place.loops)) (stmt.Runs meaning)
  | .expr .., hfit, _ =>
    Stmt.emulates_straight hflags hplain rfl hfit rfl (by simp [Stmt.lower, Lua.Stmt.IsPlain])
  | .incDec .., hfit, _ =>
    Stmt.emulates_straight hflags hplain rfl hfit rfl
      (by simp [Stmt.lower, Lua.Stmt.update, Lua.Stmt.IsPlain])
  | .assign .., hfit, _ => Stmt.emulates_assign hflags hplain hfit
  | .exportValue .., hfit, _ =>
    Stmt.emulates_straight hflags hplain rfl hfit rfl (by simp [Stmt.lower])
  | .ret .., hfit, _ => Stmt.emulates_ret hflags hplain hfit
  | .branch _ .break, _, _ => by
    simp only [Stmt.lower, Lua.Stmt.listRuns_single, Lua.Stmt.Runs, Stmt.Runs]
    exact Emulates.ends (by simp)
  | .branch pos .continue, hfit, _ => by
    simp only [Stmt.sites, allFit_cons, Node.Fits] at hfit
    exact emulates_continue hflags hfit.1 pos
  | .block body, hfit, hposts => by
    simp only [Stmt.sites, allFit_cons] at hfit
    have hbody := body.emulates_lower hflags.enter hplain.enter hfit.2 hposts
    simp only [Stmt.lower, Lua.Stmt.listRuns_single, Lua.Stmt.Runs, Stmt.Runs]
    exact hbody.inBlock
  | .ifElse _ init test body rest, hfit, hposts => by
    simp only [Stmt.sites, allFit_cons, allFit_append] at hfit
    simp only [Stmt.postsStay, Bool.and_eq_true] at hposts
    obtain ⟨-, ⟨⟨hinit, htest⟩, hbody⟩, hrest⟩ := hfit
    have hinner := hplain.enter.afterOption hinit
    have hinnerFlags : FlagsAt (place.enter.afterOption init).loops flags := by simpa using hflags
    have hinit := Stmt.emulates_lowerOption hflags.enter hplain.enter init hinit hposts.1.1
    have htest := Keeps.tests meaning (Expr.uses_lower_eq_false hinnerFlags hinner htest)
    have hbody := body.emulates_lower hinnerFlags.enter hinner.enter hbody hposts.1.2
    have hrest := Stmt.emulates_lowerElse hinnerFlags hinner rest hrest hposts.2
    simp only [Place.loops_enter, Place.loops_afterOption] at hinit hbody hrest
    simp only [Stmt.lower, Lua.Stmt.listRuns_single, Lua.Stmt.Runs, Lua.Stmt.listRuns_append,
      Stmt.Runs]
    exact (hinit.seq (Emulates.choose htest hbody.inBlock hrest)).inBlock
  | .loop _ init test post body, hfit, hposts => by
    simp only [Stmt.sites, allFit_cons, allFit_append] at hfit
    simp only [Stmt.postsStay, Bool.and_eq_true, Bool.not_eq_true'] at hposts
    obtain ⟨-, ⟨⟨hinit, htest⟩, hbody⟩, hpost⟩ := hfit
    have hinner := hplain.enter.afterOption hinit
    have hinnerFlags : FlagsAt (place.enter.afterOption init).loops flags := by simpa using hflags
    have hinit := Stmt.emulates_lowerOption hflags.enter hplain.enter init hinit hposts.1.1.2
    have htest := Keeps.optionTests meaning test fun flag hmem =>
      Expr.uses_lowerOption (hinnerFlags.isFlag flag hmem) hinner (.bool true) rfl test htest
    have hstays := Stmt.stays_optionRuns meaning post hposts.1.1.1
    -- The body finds the flag of the round not set, the post step finds it set.
    have hbody := body.emulates_lower (hinnerFlags.enterLoop false) hinner.enterLoop.enter hbody
      hposts.2
    have hpost := emulates_afterBody
      (Stmt.emulates_lowerOption (hinnerFlags.enterLoop true) hinner.enterLoop post
        hpost hposts.1.2)
    simp only [Place.loops_enter, Place.loops_enterLoop, Place.loops_afterOption]
      at hinit hbody hpost
    have hround := Emulates.round (Names.continueFlag place.loops) (Names.isReserved_continueFlag _)
      hbody (body.not_runs_normal meaning) hpost hstays
    have hloop := Emulates.whileLoop htest hround (not_continue_round hstays)
    rw [Stmt.lower_loop, Stmt.Runs]
    cases init with
    | none =>
        simp only [Option.isSome_none, Bool.false_eq_true, if_false, Lua.Stmt.listRuns_single,
          Stmt.OptionRuns, ends_normal_seq]
        exact hloop
    | some init =>
        simp only [Option.isSome_some, if_true, Lua.Stmt.listRuns_single]
        rw [Lua.Stmt.Runs, Lua.Stmt.listRuns_append, Lua.Stmt.listRuns_single]
        exact (hinit.seq hloop).inBlock
  | .forIn _ key value iterable body, hfit, hposts => by
    simp only [Stmt.sites, allFit_cons, allFit_append] at hfit
    obtain ⟨-, ⟨hiterable, hbinders⟩, hbody⟩ := hfit
    have hinner := hplain.enter.bindAll hbinders
    have hinnerFlags : FlagsAt (place.enter.bindAll (loopBinders key value)).loops flags := by
      simpa using hflags
    have huses : ∀ flag ∈ flags,
        (Lua.Expr.call (.name Names.iterate) [iterable.lower]).uses flag.1 = false := by
      intro flag hmem
      simp [Lua.Expr.uses, Lua.Expr.listUses, (hflags.isFlag flag hmem).iterate_ne,
        Expr.uses_lower_eq_false hflags hplain hiterable flag hmem]
    have hnext := contains_variables hflags.isFlag hbinders
    have hbody := body.emulates_lower (hinnerFlags.enterLoop false) hinner.enterLoop.enter hbody
      hposts
    simp only [Place.loops_enter, Place.loops_enterLoop, Place.loops_bindAll] at hbody
    have hafter : Emulates (Names.continueFlag (place.loops + 1))
        ((Names.continueFlag (place.loops + 1), true) :: flags) (afterBody meaning none)
        (Behaviour.ends .normal) := Emulates.ends (by simp)
    have hround := Emulates.round (Names.continueFlag place.loops) (Names.isReserved_continueFlag _)
      hbody (body.not_runs_normal meaning) hafter (Stays.ends (by simp))
    rw [seq_ends_normal] at hround
    simp only [Stmt.lower, Lua.Stmt.listRuns_single, Lua.Stmt.Runs, Stmt.Runs]
    exact Emulates.after (Keeps.onState huses _) fun i =>
      Emulates.loop (fun _ => Keeps.onState hnext _) hround (not_continue_catchContinue _) i

theorem Stmt.emulates_lowerOption {place : Place} {flags : List (String × Bool)}
    (hflags : FlagsAt place.loops flags) (hplain : place.Plain) :
    (stmt : Option Stmt) → AllFit (Stmt.sitesOfOption place stmt) →
      Stmt.optionPostsStay stmt = true →
      Emulates (Names.continueFlag place.loops) flags
        (Lua.Stmt.ListRuns meaning (Stmt.lowerOption place.loops stmt))
        (Stmt.OptionRuns meaning stmt)
  | none, _, _ => Emulates.ends (by simp)
  | some stmt, hfit, hposts => stmt.emulates_lower hflags hplain hfit hposts

theorem Stmt.emulates_lowerElse {place : Place} {flags : List (String × Bool)}
    (hflags : FlagsAt place.loops flags) (hplain : place.Plain) :
    (rest : Option Stmt) → AllFit (Stmt.sitesOfElse place rest) → Stmt.optionPostsStay rest = true →
      Emulates (Names.continueFlag place.loops) flags
        ((Stmt.lowerElse place.loops rest).Runs meaning) (Stmt.OptionRuns meaning rest)
  | none, _, _ => Emulates.ends (by simp)
  | some stmt, hfit, hposts => by
    have hposts : stmt.postsStay = true := hposts
    cases stmt with
    | block body =>
        simp only [Stmt.sitesOfElse, allFit_cons] at hfit
        exact (body.emulates_lower hflags.enter hplain.enter hfit.2 hposts).inBlock
    | ifElse pos init test body rest =>
        cases init with
        | none =>
            simp only [Stmt.sitesOfElse, allFit_cons, allFit_append] at hfit
            simp only [Stmt.postsStay, Bool.and_eq_true] at hposts
            have htest := Keeps.tests meaning (Expr.uses_lower_eq_false hflags hplain hfit.2.1.1)
            have hbody := body.emulates_lower hflags.enter hplain.enter hfit.2.1.2 hposts.1.2
            have hrest := Stmt.emulates_lowerElse hflags hplain rest hfit.2.2 hposts.2
            simp only [Stmt.OptionRuns, Stmt.Runs, ends_normal_seq]
            exact Emulates.choose htest hbody.inBlock hrest
        | some init => exact (Stmt.emulates_lower hflags.enter hplain.enter _ hfit hposts).inBlock
    | _ => exact (Stmt.emulates_lower hflags.enter hplain.enter _ hfit hposts).inBlock

theorem Stmt.emulates_lowerList {place : Place} {flags : List (String × Bool)}
    (hflags : FlagsAt place.loops flags) (hplain : place.Plain) :
    (stmts : List Stmt) → AllFit (Stmt.sitesOfList place stmts) → Stmt.listPostsStay stmts = true →
      Emulates (Names.continueFlag place.loops) flags
        (Lua.Stmt.ListRuns meaning (Stmt.lowerList .lexical place.loops stmts))
        (Stmt.ListRuns meaning stmts)
  | [], _, _ => Emulates.ends (by simp)
  | stmt :: stmts, hfit, hposts => by
    simp only [Stmt.sitesOfList, allFit_append] at hfit
    simp only [Stmt.listPostsStay, Bool.and_eq_true] at hposts
    have hstmt := stmt.emulates_lower hflags hplain hfit.1 hposts.1
    have hafter : FlagsAt (place.after stmt).loops flags := by simpa using hflags
    have hstmts := Stmt.emulates_lowerList hafter (hplain.after hfit.1) stmts hfit.2 hposts.2
    rw [Place.loops_after] at hstmts
    rw [Stmt.lowerList_cons, Lua.Stmt.listRuns_append]
    refine Emulates.seq ?_ hstmts
    split
    · rw [Lua.Stmt.listRuns_single]
      exact hstmt.inBlock
    · exact hstmt

theorem Block.emulates_lower {place : Place} {flags : List (String × Bool)}
    (hflags : FlagsAt place.loops flags) (hplain : place.Plain) :
    (block : Block) → AllFit (block.sites place) → block.postsStay = true →
      Emulates (Names.continueFlag place.loops) flags
        (Lua.Stmt.ListRuns meaning (block.lower .lexical place.loops)) (block.Runs meaning)
  | ⟨_, stmts⟩, hfit, hposts => Stmt.emulates_lowerList hflags hplain stmts hfit hposts

end

end Script

/-! ## The loops of a file -/

/-- The loops among the nodes are accepted as a whole. -/
def LoopsFit (sites : List Site) : Prop :=
  ∀ place stmt, ⟨place, .stmt stmt⟩ ∈ sites → stmt.isLoop = true →
    place.Plain ∧ AllFit (stmt.sites place)

@[simp] theorem loopsFit_nil : LoopsFit [] := by simp [LoopsFit]

@[simp] theorem loopsFit_append {first second : List Site} :
    LoopsFit (first ++ second) ↔ LoopsFit first ∧ LoopsFit second := by
  simp only [LoopsFit, List.mem_append]
  grind

@[simp] theorem loopsFit_cons_expr {place : Place} {expr : Expr} {sites : List Site} :
    LoopsFit (⟨place, .expr expr⟩ :: sites) ↔ LoopsFit sites := by
  simp [LoopsFit]

@[simp] theorem loopsFit_cons_stmt {place : Place} {stmt : Stmt} {sites : List Site} :
    LoopsFit (⟨place, .stmt stmt⟩ :: sites) ↔
      (stmt.isLoop = true → place.Plain ∧ AllFit (stmt.sites place)) ∧ LoopsFit sites := by
  simp only [LoopsFit, List.mem_cons]
  grind

@[simp] theorem loopsFit_cons_binder {place : Place} {id : Ident} {sites : List Site} :
    LoopsFit (⟨place, .binder id⟩ :: sites) ↔ LoopsFit sites := by
  simp [LoopsFit]

@[simp] theorem loopsFit_binders (place : Place) (ids : List Ident) :
    LoopsFit (place.binders ids) := by
  induction ids generalizing place with
  | nil => simp [Place.binders]
  | cons id ids ih => simp [Place.binders, ih]

namespace Script

mutual

theorem Expr.loopsFit {place : Place} (hplain : place.Plain) :
    (expr : Expr) → AllFit (expr.sites place) → LoopsFit (expr.sites place)
  | .ident _, _ | .int .., _ | .float .., _ | .bool .., _ | .str .., _ | .char .., _
  | .undefined _, _ | .importModule .., _ => by simp [Expr.sites]
  | .paren _ expr, hfit | .unary _ _ expr, hfit | .selector _ expr _, hfit | .error _ expr, hfit
  | .immutable _ expr, hfit => by
    simp only [Expr.sites, allFit_cons] at hfit
    simp [Expr.sites, expr.loopsFit hplain hfit.2]
  | .binary _ _ first second, hfit | .index _ first second, hfit => by
    simp only [Expr.sites, allFit_cons, allFit_append] at hfit
    simp [Expr.sites, first.loopsFit hplain hfit.2.1, second.loopsFit hplain hfit.2.2]
  | .slice _ expr low high, hfit => by
    simp only [Expr.sites, allFit_cons, allFit_append] at hfit
    simp [Expr.sites, expr.loopsFit hplain hfit.2.1.1, Expr.loopsFit_option hplain low hfit.2.1.2,
      Expr.loopsFit_option hplain high hfit.2.2]
  | .cond _ test whenTrue whenFalse, hfit => by
    simp only [Expr.sites, allFit_cons, allFit_append] at hfit
    simp [Expr.sites, test.loopsFit hplain hfit.2.1.1, whenTrue.loopsFit hplain hfit.2.1.2,
      whenFalse.loopsFit hplain hfit.2.2]
  | .call _ callee args, hfit => by
    simp only [Expr.sites, allFit_cons, allFit_append] at hfit
    simp [Expr.sites, callee.loopsFit hplain hfit.2.1, Expr.loopsFit_list hplain args hfit.2.2]
  | .array _ elements, hfit => by
    simp only [Expr.sites, allFit_cons] at hfit
    simp [Expr.sites, Expr.loopsFit_list hplain elements hfit.2]
  | .map _ elements, hfit => by
    simp only [Expr.sites, allFit_cons] at hfit
    simp [Expr.sites, MapElement.loopsFit_list hplain elements hfit.2]
  | .func _ params body, hfit => by
    simp only [Expr.sites, allFit_cons, allFit_append] at hfit
    simp [Expr.sites, body.loopsFit (hplain.enterFunction.bindAll hfit.2.1) hfit.2.2]

theorem Expr.loopsFit_option {place : Place} (hplain : place.Plain) :
    (expr : Option Expr) → AllFit (Expr.sitesOfOption place expr) →
      LoopsFit (Expr.sitesOfOption place expr)
  | none, _ => loopsFit_nil
  | some expr, hfit => expr.loopsFit hplain hfit

theorem Expr.loopsFit_list {place : Place} (hplain : place.Plain) :
    (exprs : List Expr) → AllFit (Expr.sitesOfList place exprs) →
      LoopsFit (Expr.sitesOfList place exprs)
  | [], _ => loopsFit_nil
  | expr :: exprs, hfit => by
    simp only [Expr.sitesOfList, allFit_append] at hfit
    simp [Expr.sitesOfList, expr.loopsFit hplain hfit.1, Expr.loopsFit_list hplain exprs hfit.2]

theorem MapElement.loopsFit_list {place : Place} (hplain : place.Plain) :
    (elements : List MapElement) → AllFit (MapElement.sitesOfList place elements) →
      LoopsFit (MapElement.sitesOfList place elements)
  | [], _ => loopsFit_nil
  | ⟨_, _, value⟩ :: elements, hfit => by
    simp only [MapElement.sitesOfList, allFit_append] at hfit
    simp [MapElement.sitesOfList, value.loopsFit hplain hfit.1,
      MapElement.loopsFit_list hplain elements hfit.2]

theorem Stmt.loopsFit {place : Place} (hplain : place.Plain) :
    (stmt : Stmt) → AllFit (stmt.sites place) → LoopsFit (stmt.sites place)
  | .expr _ expr, hfit | .incDec _ _ expr, hfit | .exportValue _ expr, hfit => by
    simp only [Stmt.sites, allFit_cons] at hfit
    simp [Stmt.sites, Stmt.isLoop, expr.loopsFit hplain hfit.2]
  | .assign pos op [target] [value], hfit => by
    have hafter := hplain.after hfit
    simp only [Stmt.sites, Expr.sitesOfList, List.append_nil, List.any_cons, List.any_nil,
      Bool.or_false, allFit_cons, allFit_append] at hfit
    obtain ⟨⟨_, _, htarget, -, hshape⟩, hlhs, hrhs⟩ := hfit
    have hvalue : LoopsFit (value.sites
        (if value.isFunction then place.after (.assign pos op [target] [value]) else place)) := by
      split at hrhs
      · simpa [*] using value.loopsFit hafter hrhs
      · simpa [*] using value.loopsFit hplain hrhs
    by_cases hop : op = .define
    · obtain rfl := List.singleton_inj.1 htarget
      obtain ⟨id, rfl⟩ : ∃ id, target = .ident id := by simpa [hop] using hshape
      simpa [Stmt.sites, Stmt.isLoop, hop, Expr.sitesOfDefined, Expr.sitesOfList] using hvalue
    · simp only [hop, if_false] at hlhs
      simp [Stmt.sites, Stmt.isLoop, hop, Expr.sitesOfList, target.loopsFit hplain hlhs, hvalue]
  | .assign _ _ [] _, hfit | .assign _ _ (_ :: _ :: _) _, hfit | .assign _ _ [_] [], hfit
  | .assign _ _ [_] (_ :: _ :: _), hfit => by
    simp [Stmt.sites, Node.Fits] at hfit
  | .ret _ result, hfit => by
    simp only [Stmt.sites, allFit_cons] at hfit
    simp [Stmt.sites, Stmt.isLoop, Expr.loopsFit_option hplain result hfit.2]
  | .branch .., _ => by simp [Stmt.sites, Stmt.isLoop]
  | .block body, hfit => by
    simp only [Stmt.sites, allFit_cons] at hfit
    simp [Stmt.sites, Stmt.isLoop, body.loopsFit hplain.enter hfit.2]
  | .ifElse pos init test body rest, hfit => by
    simp only [Stmt.sites, allFit_cons, allFit_append] at hfit
    obtain ⟨-, ⟨⟨hinit, htest⟩, hbody⟩, hrest⟩ := hfit
    have hinner := hplain.enter.afterOption hinit
    simp [Stmt.sites, Stmt.isLoop, Stmt.loopsFit_option hplain.enter init hinit,
      test.loopsFit hinner htest, body.loopsFit hinner.enter hbody,
      Stmt.loopsFit_else hinner rest hrest]
  | .loop pos init test post body, hfit => by
    have hsites := hfit
    simp only [Stmt.sites, allFit_cons, allFit_append] at hsites
    obtain ⟨-, ⟨⟨hinit, htest⟩, hbody⟩, hpost⟩ := hsites
    have hinner := hplain.enter.afterOption hinit
    rw [Stmt.sites, loopsFit_cons_stmt]
    refine ⟨fun _ => ⟨hplain, hfit⟩, ?_⟩
    simp [Stmt.loopsFit_option hplain.enter init hinit, Expr.loopsFit_option hinner test htest,
      body.loopsFit hinner.enterLoop.enter hbody, Stmt.loopsFit_option hinner.enterLoop post hpost]
  | .forIn pos key value iterable body, hfit => by
    have hsites := hfit
    simp only [Stmt.sites, allFit_cons, allFit_append] at hsites
    obtain ⟨-, ⟨hiterable, hbinders⟩, hbody⟩ := hsites
    have hinner := hplain.enter.bindAll hbinders
    rw [Stmt.sites, loopsFit_cons_stmt]
    refine ⟨fun _ => ⟨hplain, hfit⟩, ?_⟩
    simp [iterable.loopsFit hplain hiterable, body.loopsFit hinner.enterLoop.enter hbody]

theorem Stmt.loopsFit_option {place : Place} (hplain : place.Plain) :
    (stmt : Option Stmt) → AllFit (Stmt.sitesOfOption place stmt) →
      LoopsFit (Stmt.sitesOfOption place stmt)
  | none, _ => loopsFit_nil
  | some stmt, hfit => stmt.loopsFit hplain hfit

theorem Stmt.loopsFit_else {place : Place} (hplain : place.Plain) :
    (rest : Option Stmt) → AllFit (Stmt.sitesOfElse place rest) →
      LoopsFit (Stmt.sitesOfElse place rest)
  | none, _ => loopsFit_nil
  | some stmt, hfit => by
    cases stmt with
    | block body =>
        simp only [Stmt.sitesOfElse, allFit_cons] at hfit
        simp [Stmt.sitesOfElse, Stmt.isLoop, body.loopsFit hplain.enter hfit.2]
    | ifElse pos init test body rest =>
        cases init with
        | none =>
            simp only [Stmt.sitesOfElse, allFit_cons, allFit_append] at hfit
            simp [Stmt.sitesOfElse, Stmt.isLoop, test.loopsFit hplain hfit.2.1.1,
              body.loopsFit hplain.enter hfit.2.1.2, Stmt.loopsFit_else hplain rest hfit.2.2]
        | some init => exact Stmt.loopsFit hplain.enter _ hfit
    | _ => exact Stmt.loopsFit hplain.enter _ hfit

theorem Stmt.loopsFit_list {place : Place} (hplain : place.Plain) :
    (stmts : List Stmt) → AllFit (Stmt.sitesOfList place stmts) →
      LoopsFit (Stmt.sitesOfList place stmts)
  | [], _ => loopsFit_nil
  | stmt :: stmts, hfit => by
    simp only [Stmt.sitesOfList, allFit_append] at hfit
    simp [Stmt.sitesOfList, stmt.loopsFit hplain hfit.1,
      Stmt.loopsFit_list (hplain.after hfit.1) stmts hfit.2]

theorem Block.loopsFit {place : Place} (hplain : place.Plain) :
    (block : Block) → AllFit (block.sites place) → LoopsFit (block.sites place)
  | ⟨_, stmts⟩, hfit => Stmt.loopsFit_list hplain stmts hfit

end

end Script

/-- The code of a loop runs from a state to an ending just if the loop does.  `flags` are those of
the loops around it; they matter only to a branch in the initial statement, which is one of
theirs. -/
theorem listRuns_lower_loop_iff (options : Options) (file : File)
    (hok : ∃ text, file.toLua options = .ok text) {place : Place} {stmt : Stmt}
    (hsite : ⟨place, .stmt stmt⟩ ∈ file.sites) (hloop : stmt.isLoop = true)
    (hposts : stmt.postsStay = true) {flags : List (String × Bool)}
    (hflags : FlagsAt place.loops flags) {σ ι : Type} (meaning : Lua.Meaning σ ι)
    (binding : Binding)
    (s : σ) (e : Ending) (machine : Lua.Machine σ) :
    Lua.Stmt.ListRuns meaning (stmt.lower binding place.loops) ⟨s, flags⟩ e machine ↔
      ∃ ending, stmt.Runs meaning s ending machine.state ∧ e = ending.emitted ∧
        machine.flags = ending.flags (Names.continueFlag place.loops) flags := by
  rw [exists_toLua_eq_ok_iff, fault?_analyse_eq_none_iff] at hok
  obtain ⟨hplain, hfit⟩ := Stmt.loopsFit_list .root file.stmts hok place stmt hsite hloop
  have hcode : stmt.lower binding place.loops = stmt.lower .lexical place.loops := by
    cases stmt with
    | loop => rw [Stmt.lower_loop, Stmt.lower_loop]
    | forIn => rfl
    | _ => simp [Stmt.isLoop] at hloop
  rw [hcode]
  exact stmt.emulates_lower hflags hplain hfit hposts s e machine

/-- A statement under a condition on a variable. -/
def onlyIf (name : String) (stmt : Stmt) : Stmt :=
  .ifElse {} none (.ident { name }) { stmts := [stmt] } none

/-- A round of a loop over items that is left by either kind of branch. -/
def innerRound : Block where
  stmts :=
    [onlyIf "v" (.branch {} .break),
      .expr {} (.call {} (.ident { name := "f" }) [.ident { name := "v" }]),
      .branch {} .continue]

/-- A round that defines a function with a loop of its own, may be continued early, and otherwise
runs a loop and returns. -/
def outerRound : Block where
  stmts :=
    [.assign {} .define [.ident { name := "f" }]
        [.func {} [{ name := "xs" }]
          { stmts := [.forIn {} none { name := "x" } (.ident { name := "xs" })
              { stmts :=
                  [.expr {} (.call {} (.ident { name := "x" }) []), .branch {} .continue] }] }],
      onlyIf "i" (.branch {} .continue),
      .forIn {} (some { name := "_" }) { name := "v" } (.array {} [.ident { name := "i" }])
        innerRound,
      .ret {} (some (.ident { name := "i" }))]

/-- Loops in loops, with both kinds of branch. -/
def nestedLoops : Stmt :=
  .loop {} (some (.assign {} .define [.ident { name := "i" }] [.int {} "0"]))
    (some (.binary {} .less (.ident { name := "i" }) (.int {} "3")))
    (some (.incDec {} .inc (.ident { name := "i" }))) outerRound

/-- Every part counts itself, iterators have two items, and conditions fail at two counts only. -/
def counting : Lua.Meaning Nat Nat where
  perform _ s result s' := result = some () ∧ s' = s + 1
  test _ s result s' := result = some (s != 7 && s != 10) ∧ s' = s + 1
  give _ s result s' := result = some () ∧ s' = s + 1
  start _ s result s' := result = some 2 ∧ s' = s + 1
  next _ i s result s' := result = some (if i = 0 then none else some (i - 1)) ∧ s' = s + 1

theorem performs_counting {stmt : Stmt} {code : Lua.Stmt} (hcode : stmt.lower .lexical 0 = [code])
    (s : Nat) : stmt.Performs counting s .normal (s + 1) := by
  rw [Stmt.Performs, hcode]
  exact .inl ⟨s + 1, .inl ⟨(), s + 1, ⟨rfl, rfl⟩, rfl, rfl⟩, rfl, rfl⟩

theorem runs_onlyIf_of_false (name : String) (stmt : Stmt) {s : Nat}
    (hfails : (s != 7 && s != 10) = false) :
    (onlyIf name stmt).Runs counting s .normal (s + 1) :=
  .inl ⟨s, ⟨rfl, rfl⟩, .inl ⟨false, s + 1, ⟨congrArg some hfails.symm, rfl⟩, rfl, rfl⟩⟩

theorem runs_onlyIf_of_true (name : String) {stmt : Stmt} {s s' : Nat} {ending : Ending}
    (hholds : (s != 7 && s != 10) = true) (hstmt : stmt.Runs counting (s + 1) ending s')
    (hleaves : ending ≠ .normal) :
    (onlyIf name stmt).Runs counting s ending s' :=
  .inl ⟨s, ⟨rfl, rfl⟩, .inl ⟨true, s + 1, ⟨congrArg some hholds.symm, rfl⟩, .inr ⟨hstmt, hleaves⟩⟩⟩

/-- The inner loop leaves its first item by `continue` and its second by `break`. -/
theorem runs_innerLoop :
    (Stmt.forIn {} (some { name := "_" }) { name := "v" } (.array {} [.ident { name := "i" }])
      innerRound).Runs counting 8 .normal 14 := by
  have hcontinue : innerRound.Runs counting 10 .continue 12 :=
    .inl ⟨11, runs_onlyIf_of_false _ _ rfl,
      .inl ⟨12, performs_counting rfl 11, .inr ⟨⟨rfl, rfl⟩, by simp⟩⟩⟩
  have hbreak : innerRound.Runs counting 13 .break 14 :=
    .inr ⟨runs_onlyIf_of_true _ rfl ⟨rfl, rfl⟩ (by simp), by simp⟩
  have hfirst : counting.next ["_", "v"] 2 9 (some (some 1)) 10 := ⟨rfl, rfl⟩
  have hsecond : counting.next ["_", "v"] 1 12 (some (some 0)) 13 := ⟨rfl, rfl⟩
  exact .inl ⟨2, 9, ⟨rfl, rfl⟩, .again hfirst (.inr ⟨rfl, hcontinue⟩)
    (.broken hsecond (.inl ⟨hbreak, by simp⟩))⟩

/-- The first round is ended by `continue`, the second goes through the inner loop to the return. -/
theorem runs_nestedLoops : nestedLoops.Runs counting 0 .return 15 := by
  have hcontinue : outerRound.Runs counting 2 .continue 4 :=
    .inl ⟨3, performs_counting rfl 2,
      .inr ⟨runs_onlyIf_of_true _ rfl ⟨rfl, rfl⟩ (by simp), by simp⟩⟩
  have hreturn : outerRound.Runs counting 6 .return 15 :=
    .inl ⟨7, performs_counting rfl 6, .inl ⟨8, runs_onlyIf_of_false _ _ rfl,
      .inl ⟨14, runs_innerLoop, .inr ⟨.inl ⟨(), 15, ⟨rfl, rfl⟩, rfl, rfl⟩, by simp⟩⟩⟩⟩
  have htest : ∀ s, (s != 7 && s != 10) = true → Expr.Tests counting
      (.binary {} .less (.ident { name := "i" }) (.int {} "3")) s (some true) (s + 1) :=
    fun s hholds => ⟨congrArg some hholds.symm, rfl⟩
  refine .inl ⟨1, performs_counting rfl 0, ?_⟩
  refine .again (j := ()) (htest 1 rfl)
    (.inl ⟨4, .inr ⟨rfl, hcontinue⟩, performs_counting rfl 4⟩) ?_
  exact .left (j := ()) (htest 5 rfl) (.inr ⟨.inl ⟨hreturn, by simp⟩, by simp⟩) (.inl rfl)

theorem listRuns_nestedLoops_iff :
    (∃ text, (File.mk [nestedLoops]).toLua {} = .ok text) ∧
      (⟨.root, .stmt nestedLoops⟩ ∈ (File.mk [nestedLoops]).sites ∧ nestedLoops.isLoop = true ∧
        nestedLoops.postsStay = true ∧ FlagsAt Place.root.loops []) ∧
      (Lua.Stmt.ListRuns counting (nestedLoops.lower .lexical 0) ⟨0, []⟩ .return ⟨15, []⟩ ↔
        ∃ ending, nestedLoops.Runs counting 0 ending 15 ∧ .return = ending.emitted ∧
          [] = ending.flags (Names.continueFlag 0) []) ∧
      nestedLoops.Runs counting 0 .return 15 ∧
      Lua.Stmt.ListRuns counting (nestedLoops.lower .lexical 0) ⟨0, []⟩ .return ⟨15, []⟩ := by
  have hok : ∃ text, (File.mk [nestedLoops]).toLua {} = .ok text := ⟨_, rfl⟩
  have hsite : ⟨.root, .stmt nestedLoops⟩ ∈ (File.mk [nestedLoops]).sites :=
    List.mem_append_left _ List.mem_cons_self
  have hflags : FlagsAt Place.root.loops [] := ⟨by simp, by simp [Place.root]⟩
  have hiff := listRuns_lower_loop_iff {} _ hok hsite rfl rfl hflags counting .lexical 0 .return
    ⟨15, []⟩
  exact ⟨hok, ⟨hsite, rfl, rfl, hflags⟩, hiff, runs_nestedLoops,
    hiff.2 ⟨.return, runs_nestedLoops, rfl, rfl⟩⟩

end LuaBackend
