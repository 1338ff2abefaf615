import LuaBackend.Proofs.FlagScope

/-!
# Code that does what a script does

Lua has no `continue`, so the code of a loop body ends a round in one way for both kinds of branch
and leaves it to a flag to tell them apart.  `Emulates` relates what the code does to what the
script does: a `continue` shows as a `break` with the flag set, and any other ending shows as
itself with the flags unchanged.  Sequences, choices, blocks and loops keep it; `Emulates.round` is
the round of a loop, where the flag is declared, set and tested.
-/

namespace LuaBackend

open Script Behaviour

variable {σ ι α : Type}

/-! ## Behaviours in sequence -/

namespace Behaviour

variable {τ : Type} (first second third : Behaviour τ)

@[simp] theorem seq_ends_normal : seq first (ends .normal) = first := by
  funext s e s'
  simp only [seq, ends, eq_iff_iff]
  constructor
  · rintro (⟨middle, hfirst, rfl, rfl⟩ | ⟨hfirst, -⟩) <;> exact hfirst
  · intro hfirst
    by_cases he : e = .normal
    · exact .inl ⟨s', he ▸ hfirst, he, rfl⟩
    · exact .inr ⟨hfirst, he⟩

@[simp] theorem ends_normal_seq : seq (ends .normal) second = second := by
  funext s e s'
  simp only [seq, ends, eq_iff_iff]
  constructor
  · rintro (⟨middle, ⟨-, rfl⟩, hsecond⟩ | ⟨⟨he, -⟩, hne⟩)
    · exact hsecond
    · exact absurd he hne
  · exact fun hsecond => .inl ⟨s, ⟨trivial, rfl⟩, hsecond⟩

theorem seq_assoc : seq (seq first second) third = seq first (seq second third) := by
  funext s e s'
  simp only [seq, eq_iff_iff]
  constructor
  · rintro (⟨m, ⟨m', hfirst, hsecond⟩ | ⟨-, hne⟩, hthird⟩ | ⟨⟨m', hfirst, hsecond⟩ | hfirst, hne⟩)
    · exact .inl ⟨m', hfirst, .inl ⟨m, hsecond, hthird⟩⟩
    · exact absurd rfl hne
    · exact .inl ⟨m', hfirst, .inr ⟨hsecond, hne⟩⟩
    · exact .inr hfirst
  · rintro (⟨m', hfirst, ⟨m, hsecond, hthird⟩ | ⟨hsecond, hne⟩⟩ | ⟨hfirst, hne⟩)
    · exact .inl ⟨m, .inl ⟨m', hfirst, hsecond⟩, hthird⟩
    · exact .inr ⟨.inl ⟨m', hfirst, hsecond⟩, hne⟩
    · exact .inr ⟨.inr ⟨hfirst, hne⟩, hne⟩

/-- No run branches to a loop around. -/
def Stays (behaviour : Behaviour τ) : Prop :=
  ∀ s e s', behaviour s e s' → e ≠ .break ∧ e ≠ .continue

variable {first second}

theorem Stays.seq (hfirst : first.Stays) (hsecond : second.Stays) : (seq first second).Stays := by
  rintro s e s' (⟨middle, -, hrun⟩ | ⟨hrun, -⟩)
  · exact hsecond _ _ _ hrun
  · exact hfirst _ _ _ hrun

theorem Stays.ends {ending : Ending} (hne : ending ≠ .break ∧ ending ≠ .continue) :
    Stays (τ := τ) (ends ending) := by
  rintro s e s' ⟨rfl, -⟩
  exact hne

theorem Stays.after {action : Action τ α} {next : α → Behaviour τ}
    (hnext : ∀ value, (next value).Stays) :
    (after action next).Stays := by
  rintro s e s' (⟨value, middle, -, hrun⟩ | ⟨-, rfl⟩)
  · exact hnext value _ _ _ hrun
  · simp

theorem Stays.choose {test : Action τ Bool} (hfirst : first.Stays) (hsecond : second.Stays) :
    (choose test first second).Stays := by
  refine Stays.after fun value => ?_
  cases value with
  | true => exact hfirst
  | false => exact hsecond

/-- A branch in the body is answered by the loop itself. -/
theorem Stays.loop {next : ι → Action τ (Option ι)} {body : Behaviour τ} {i : ι} :
    (Loop next body i).Stays := by
  intro s e s' hloop
  induction hloop with
  | done => simp
  | failed => simp
  | again _ _ _ ih => exact ih
  | broken => simp
  | left _ _ hleaves => rcases hleaves with rfl | rfl <;> simp

end Behaviour

theorem Lua.Machine.leave_eq {outer inner : Lua.Machine σ}
    (hlength : inner.flags.length = outer.flags.length) : outer.leave inner = inner := by
  simp [Lua.Machine.leave, hlength]

theorem Lua.Stmt.listRuns_append (meaning : Lua.Meaning σ ι) (first second : List Lua.Stmt) :
    Lua.Stmt.ListRuns meaning (first ++ second) =
      seq (Lua.Stmt.ListRuns meaning first) (Lua.Stmt.ListRuns meaning second) := by
  induction first with
  | nil => simp [Lua.Stmt.ListRuns]
  | cons stmt stmts ih => simp [Lua.Stmt.ListRuns, ih, seq_assoc]

theorem Lua.Stmt.listRuns_single (meaning : Lua.Meaning σ ι) (stmt : Lua.Stmt) :
    Lua.Stmt.ListRuns meaning [stmt] = stmt.Runs meaning := by
  simp [Lua.Stmt.ListRuns]

/-! ## Code that does what a script does -/

namespace Ending

/-- How code ends that stands for a run with this ending. -/
def emitted : Ending → Ending
  | .continue => .break
  | ending => ending

/-- The flags that such code leaves. -/
def flags (flag : String) (ending : Ending) (before : List (String × Bool)) :
    List (String × Bool) :=
  if ending = .continue then Lua.Machine.setFlag flag true before else before

theorem emitted_of_ne {ending : Ending} (hne : ending ≠ .continue) : ending.emitted = ending := by
  cases ending <;> first | rfl | exact absurd rfl hne

theorem flags_of_ne {flag : String} {ending : Ending} {before : List (String × Bool)}
    (hne : ending ≠ .continue) : ending.flags flag before = before := by
  simp [flags, hne]

theorem length_flags (flag : String) (ending : Ending) (before : List (String × Bool)) :
    (ending.flags flag before).length = before.length := by
  have hset : ∀ flags, (Lua.Machine.setFlag flag true flags).length = flags.length := by
    intro flags
    induction flags with
    | nil => rfl
    | cons pair flags ih =>
        unfold Lua.Machine.setFlag
        split <;> simp_all
  unfold flags
  split <;> simp [hset]

theorem emitted_eq_normal_iff {ending : Ending} : ending.emitted = .normal ↔ ending = .normal := by
  cases ending <;> simp [emitted]

end Ending

/-- Among these flags the action works on the state alone, as `source` says. -/
def Keeps (flags : List (String × Bool)) (code : Action (Lua.Machine σ) α) (source : Action σ α) :
    Prop :=
  ∀ s result machine, code ⟨s, flags⟩ result machine ↔
    source s result machine.state ∧ machine.flags = flags

/-- Among these flags the code does what `source` says; `flag` is set by a `continue`. -/
def Emulates (flag : String) (flags : List (String × Bool)) (code : Behaviour (Lua.Machine σ))
    (source : Behaviour σ) : Prop :=
  ∀ s e machine, code ⟨s, flags⟩ e machine ↔
    ∃ ending, source s ending machine.state ∧ e = ending.emitted ∧
      machine.flags = ending.flags flag flags

theorem Keeps.onState {flags : List (String × Bool)} {refers : String → Bool}
    (hrefers : ∀ flag ∈ flags, refers flag.1 = false) (action : Action σ α) :
    Keeps flags (Lua.onState refers action) action := by
  intro s result machine
  exact ⟨fun hcode => hcode hrefers, fun hsource _ => hsource⟩

namespace Emulates

variable {flag : String} {flags : List (String × Bool)} {code code' : Behaviour (Lua.Machine σ)}
  {source source' : Behaviour σ}

theorem ends {ending : Ending} (hne : ending ≠ .continue) :
    Emulates flag flags (Behaviour.ends ending) (Behaviour.ends (τ := σ) ending) := by
  rintro s e ⟨state, after⟩
  simp only [Behaviour.ends, Lua.Machine.mk.injEq]
  constructor
  · rintro ⟨rfl, rfl, rfl⟩
    exact ⟨e, ⟨rfl, rfl⟩, (Ending.emitted_of_ne hne).symm, (Ending.flags_of_ne hne).symm⟩
  · rintro ⟨_, ⟨rfl, rfl⟩, rfl, rfl⟩
    exact ⟨Ending.emitted_of_ne hne, rfl, Ending.flags_of_ne hne⟩

/-- A run to the end leaves the flags alone. -/
theorem normal_iff (hcode : Emulates flag flags code source) {s : σ} {machine : Lua.Machine σ} :
    code ⟨s, flags⟩ .normal machine ↔ source s .normal machine.state ∧ machine.flags = flags := by
  rw [hcode]
  constructor
  · rintro ⟨ending, hsource, hending, hflags⟩
    obtain rfl := Ending.emitted_eq_normal_iff.1 hending.symm
    exact ⟨hsource, hflags⟩
  · rintro ⟨hsource, hflags⟩
    exact ⟨.normal, hsource, rfl, hflags⟩

theorem seq (hfirst : Emulates flag flags code source)
    (hsecond : Emulates flag flags code' source') :
    Emulates flag flags (Behaviour.seq code code') (Behaviour.seq source source') := by
  intro s e machine
  constructor
  · rintro (⟨middle, hcode, hrest⟩ | ⟨hcode, hne⟩)
    · obtain ⟨hsource, hflags⟩ := hfirst.normal_iff.1 hcode
      obtain ⟨state, after⟩ := middle
      obtain rfl : after = flags := hflags
      obtain ⟨ending, hrest, hending⟩ := (hsecond ..).1 hrest
      exact ⟨ending, .inl ⟨state, hsource, hrest⟩, hending⟩
    · obtain ⟨ending, hsource, rfl, hflags⟩ := (hfirst ..).1 hcode
      refine ⟨ending, .inr ⟨hsource, ?_⟩, rfl, hflags⟩
      exact fun hnormal => hne (Ending.emitted_eq_normal_iff.2 hnormal)
  · rintro ⟨ending, ⟨middle, hsource, hrest⟩ | ⟨hsource, hne⟩, rfl, hflags⟩
    · exact .inl ⟨⟨middle, flags⟩, hfirst.normal_iff.2 ⟨hsource, rfl⟩,
        (hsecond ..).2 ⟨ending, hrest, rfl, hflags⟩⟩
    · refine .inr ⟨(hfirst ..).2 ⟨ending, hsource, rfl, hflags⟩, ?_⟩
      exact fun hnormal => hne (Ending.emitted_eq_normal_iff.1 hnormal)

theorem after {action : Action (Lua.Machine σ) α} {sourceAction : Action σ α}
    (haction : Keeps flags action sourceAction) {next : α → Behaviour (Lua.Machine σ)}
    {sourceNext : α → Behaviour σ}
    (hnext : ∀ value, Emulates flag flags (next value) (sourceNext value)) :
    Emulates flag flags (Behaviour.after action next)
      (Behaviour.after sourceAction sourceNext) := by
  intro s e machine
  constructor
  · rintro (⟨value, ⟨middle, between⟩, hvalue, hrest⟩ | ⟨hfail, rfl⟩)
    · obtain ⟨hsource, hflags⟩ := (haction ..).1 hvalue
      obtain rfl : between = flags := hflags
      obtain ⟨ending, hrest, hending⟩ := (hnext value ..).1 hrest
      exact ⟨ending, .inl ⟨value, middle, hsource, hrest⟩, hending⟩
    · obtain ⟨hfail, hflags⟩ := (haction ..).1 hfail
      exact ⟨.failure, .inr ⟨hfail, rfl⟩, rfl, hflags⟩
  · rintro ⟨ending, ⟨value, middle, hvalue, hrest⟩ | ⟨hfail, rfl⟩, rfl, hflags⟩
    · exact .inl ⟨value, ⟨middle, flags⟩, (haction ..).2 ⟨hvalue, rfl⟩,
        (hnext value ..).2 ⟨ending, hrest, rfl, hflags⟩⟩
    · exact .inr ⟨(haction ..).2 ⟨hfail, hflags⟩, rfl⟩

theorem choose {test : Action (Lua.Machine σ) Bool} {sourceTest : Action σ Bool}
    (htest : Keeps flags test sourceTest) (htrue : Emulates flag flags code source)
    (hfalse : Emulates flag flags code' source') :
    Emulates flag flags (Behaviour.choose test code code')
      (Behaviour.choose sourceTest source source') := by
  refine Emulates.after htest fun value => ?_
  cases value with
  | true => exact htrue
  | false => exact hfalse

/-- A block that declares no flag changes nothing. -/
theorem inBlock (hcode : Emulates flag flags code source) :
    Emulates flag flags (Lua.inBlock code) source := by
  have hleave : ∀ (s : σ) (machine : Lua.Machine σ) (ending : Ending),
      machine.flags = ending.flags flag flags →
        Lua.Machine.leave ⟨s, flags⟩ machine = machine :=
    fun s machine ending hflags => Lua.Machine.leave_eq (by rw [hflags, Ending.length_flags])
  intro s e machine
  constructor
  · rintro ⟨inner, hinner, rfl⟩
    obtain ⟨ending, hsource, hending, hflags⟩ := (hcode ..).1 hinner
    rw [hleave s inner ending hflags]
    exact ⟨ending, hsource, hending, hflags⟩
  · rintro ⟨ending, hsource, hending, hflags⟩
    exact ⟨machine, (hcode ..).2 ⟨ending, hsource, hending, hflags⟩,
      (hleave s machine ending hflags).symm⟩

/-- Without a `continue` of the source, code and source end in the same ways. -/
theorem iff_of_not_continue (hcode : Emulates flag flags code source)
    (hsource : ∀ s s', ¬ source s .continue s') (s : σ) (e : Ending) (machine : Lua.Machine σ) :
    code ⟨s, flags⟩ e machine ↔ source s e machine.state ∧ machine.flags = flags := by
  have hne : ∀ {ending : Ending}, source s ending machine.state → ending ≠ .continue := by
    rintro _ hrun rfl
    exact hsource _ _ hrun
  rw [hcode]
  constructor
  · rintro ⟨ending, hrun, rfl, hflags⟩
    rw [Ending.emitted_of_ne (hne hrun)]
    exact ⟨hrun, by rw [hflags, Ending.flags_of_ne (hne hrun)]⟩
  · rintro ⟨hrun, hflags⟩
    exact ⟨e, hrun, (Ending.emitted_of_ne (hne hrun)).symm,
      by rw [hflags, Ending.flags_of_ne (hne hrun)]⟩

theorem of_iff (hcode : ∀ s e machine, code ⟨s, flags⟩ e machine ↔
      source s e machine.state ∧ machine.flags = flags)
    (hsource : ∀ s s', ¬ source s .continue s') : Emulates flag flags code source := by
  intro s e machine
  rw [hcode]
  constructor
  · rintro ⟨hrun, hflags⟩
    have hne : e ≠ .continue := by
      rintro rfl
      exact hsource _ _ hrun
    exact ⟨e, hrun, (Ending.emitted_of_ne hne).symm, by rw [hflags, Ending.flags_of_ne hne]⟩
  · rintro ⟨ending, hrun, rfl, hflags⟩
    have hne : ending ≠ .continue := by
      rintro rfl
      exact hsource _ _ hrun
    rw [Ending.emitted_of_ne hne]
    exact ⟨hrun, by rw [hflags, Ending.flags_of_ne hne]⟩

/-- Rounds that agree make loops that agree. -/
theorem loop {next : ι → Action (Lua.Machine σ) (Option ι)} {sourceNext : ι → Action σ (Option ι)}
    (hnext : ∀ i, Keeps flags (next i) (sourceNext i)) (hbody : Emulates flag flags code source)
    (hsource : ∀ s s', ¬ source s .continue s') (i : ι) :
    Emulates flag flags (Behaviour.Loop next code i) (Behaviour.Loop sourceNext source i) := by
  have hround := hbody.iff_of_not_continue hsource
  refine of_iff (fun s e machine => ⟨fun hloop => ?_, fun hloop => ?_⟩) fun s s' hloop =>
    (Stays.loop _ _ _ hloop).2 rfl
  · generalize hstart : (⟨s, flags⟩ : Lua.Machine σ) = start at hloop
    induction hloop generalizing s with
    | done hdone =>
        subst hstart
        obtain ⟨hdone, hflags⟩ := (hnext ..).1 hdone
        exact ⟨.done hdone, hflags⟩
    | failed hfail =>
        subst hstart
        obtain ⟨hfail, hflags⟩ := (hnext ..).1 hfail
        exact ⟨.failed hfail, hflags⟩
    | @again i j _ m m' e machine hfirst hrest _ ih =>
        subst hstart
        obtain ⟨m, between⟩ := m
        obtain ⟨m', after⟩ := m'
        obtain ⟨hfirst', hflags⟩ := (hnext ..).1 hfirst
        obtain rfl : flags = between := hflags.symm
        obtain ⟨hrest', hflags⟩ := (hround ..).1 hrest
        obtain rfl : flags = after := hflags.symm
        obtain ⟨hloop, hflags⟩ := ih m' rfl
        exact ⟨.again hfirst' hrest' hloop, hflags⟩
    | @broken i j _ m machine hfirst hrest =>
        subst hstart
        obtain ⟨m, between⟩ := m
        obtain ⟨hfirst', hflags⟩ := (hnext ..).1 hfirst
        obtain rfl : flags = between := hflags.symm
        obtain ⟨hrest', hflags⟩ := (hround ..).1 hrest
        exact ⟨.broken hfirst' hrest', hflags⟩
    | @left i j _ m e machine hfirst hrest hleaves =>
        subst hstart
        obtain ⟨m, between⟩ := m
        obtain ⟨hfirst', hflags⟩ := (hnext ..).1 hfirst
        obtain rfl : flags = between := hflags.symm
        obtain ⟨hrest', hflags⟩ := (hround ..).1 hrest
        exact ⟨.left hfirst' hrest' hleaves, hflags⟩
  · obtain ⟨state, after⟩ := machine
    obtain ⟨hloop, hflags⟩ := hloop
    obtain rfl : flags = after := hflags.symm
    clear hflags
    change Behaviour.Loop sourceNext source i s e state at hloop
    have hgo : ∀ {i s result s'}, sourceNext i s result s' →
        next i ⟨s, flags⟩ result ⟨s', flags⟩ := fun hsource => (hnext ..).2 ⟨hsource, rfl⟩
    have hrun : ∀ {s e s'}, source s e s' → code ⟨s, flags⟩ e ⟨s', flags⟩ :=
      fun hsource => (hround ..).2 ⟨hsource, rfl⟩
    induction hloop with
    | done hdone => exact .done (hgo hdone)
    | failed hfail => exact .failed (hgo hfail)
    | again hfirst hrest _ ih => exact .again (hgo hfirst) (hrun hrest) ih
    | broken hfirst hrest => exact .broken (hgo hfirst) (hrun hrest)
    | left hfirst hrest hleaves => exact .left (hgo hfirst) (hrun hrest) hleaves

theorem whileLoop {test : Action (Lua.Machine σ) Bool} {sourceTest : Action σ Bool}
    (htest : Keeps flags test sourceTest) (hbody : Emulates flag flags code source)
    (hsource : ∀ s s', ¬ source s .continue s') :
    Emulates flag flags (Behaviour.whileLoop test code) (Behaviour.whileLoop sourceTest source) :=
  Emulates.loop (fun _ s result machine => htest s (result.map Option.isSome) machine)
    hbody hsource ()

end Emulates

/-! ## Conditions and plain statements -/

theorem Lua.Expr.truth?_of_not_uses {flags : List (String × Bool)} {expr : Lua.Expr}
    (huses : ∀ flag ∈ flags, expr.uses flag.1 = false) : expr.truth? flags = expr.truth? [] := by
  fun_induction Lua.Expr.truth? flags expr with
  | case1 => rfl
  | case2 name =>
      have hname : ∀ flag ∈ flags, ¬ name = flag.1 := by simpa [Lua.Expr.uses] using huses
      have hlookup : flags.lookup name = none := by
        simpa [List.lookup_eq_none_iff] using hname
      simp [Lua.Expr.truth?, hlookup]
  | case3 expr ih => exact ih huses
  | case4 expr ih => simp [Lua.Expr.truth?, ih huses]
  | case5 => simp_all [Lua.Expr.truth?]

namespace Keeps

variable (meaning : Lua.Meaning σ ι) {flags : List (String × Bool)}

theorem tests {expr : Expr} (huses : ∀ flag ∈ flags, expr.lower.uses flag.1 = false) :
    Keeps flags (expr.lower.Tests meaning) (expr.Tests meaning) := by
  rintro s result ⟨state, after⟩
  simp only [Lua.Expr.Tests, Expr.Tests, Lua.Expr.truth?_of_not_uses huses]
  cases expr.lower.truth? [] with
  | some value => simp [and_assoc]
  | none => exact onState huses (meaning.test expr.lower) s result ⟨state, after⟩

theorem optionTests (test : Option Expr)
    (huses : ∀ flag ∈ flags, (Expr.lowerOption (.bool true) test).uses flag.1 = false) :
    Keeps flags ((Expr.lowerOption (.bool true) test).Tests meaning)
      (Expr.OptionTests meaning test) := by
  cases test with
  | none =>
      rintro s result ⟨state, after⟩
      simp [Lua.Expr.Tests, Expr.lowerOption, Lua.Expr.truth?, Expr.OptionTests, always, and_assoc]
  | some test => exact tests meaning huses

end Keeps

/-- A statement that is run as a part of its own, whatever flags there are. -/
def Lua.Stmt.IsPlain : Lua.Stmt → Prop
  | .expr _ | .assign .. | .localRec .. => True
  | .localVar name _ => Names.isReserved name = false
  | _ => False

theorem Lua.Stmt.IsPlain.runs_iff {meaning : Lua.Meaning σ ι} {stmt : Lua.Stmt}
    (hplain : stmt.IsPlain)
    {flags : List (String × Bool)} (huntouched : ∀ flag ∈ flags, stmt.touches flag.1 = false)
    (s : σ) (e : Ending) (machine : Lua.Machine σ) :
    stmt.Runs meaning ⟨s, flags⟩ e machine ↔ stmt.Performs meaning ⟨s, flags⟩ e machine := by
  cases stmt with
  | expr | localRec => rfl
  | assign target value =>
      simp only [Lua.Stmt.Runs]
      split
      · next flag value =>
          have hlookup : flags.lookup flag = none := by
            simp only [Lua.Stmt.touches, Lua.Stmt.uses, Lua.Expr.uses, Lua.Stmt.declares,
              Bool.or_false] at huntouched
            simpa [List.lookup_eq_none_iff] using huntouched
          simp [hlookup]
      · rfl
  | localVar name value =>
      have hname : Names.isReserved name = false := hplain
      simp only [Lua.Stmt.Runs]
      split
      · simp [hname]
      · rfl
  | _ => exact hplain.elim

theorem Emulates.plain (meaning : Lua.Meaning σ ι) {flag : String} {flags : List (String × Bool)}
    {code : List Lua.Stmt} (hplain : ∀ stmt ∈ code, stmt.IsPlain)
    (huntouched : ∀ flag ∈ flags, Lua.Untouched flag.1 code) :
    Emulates flag flags (Lua.Stmt.ListRuns meaning code)
      (code.foldr (fun stmt rest => Behaviour.seq
        (Behaviour.after (meaning.perform stmt) fun _ => Behaviour.ends .normal) rest)
        (Behaviour.ends .normal)) := by
  induction code with
  | nil => exact Emulates.ends (by simp)
  | cons stmt code ih =>
      simp only [Lua.untouched_cons] at huntouched
      have htouches : ∀ flag ∈ flags, stmt.touches flag.1 = false :=
        fun flag hmem => (huntouched flag hmem).1
      have hstmt : Emulates flag flags (stmt.Runs meaning)
          (Behaviour.after (meaning.perform stmt) fun _ => Behaviour.ends .normal) := by
        intro s e machine
        rw [(hplain stmt (by simp)).runs_iff htouches]
        exact Emulates.after (Keeps.onState htouches _) (fun _ => Emulates.ends (by simp))
          s e machine
      exact hstmt.seq (ih (fun stmt hmem => hplain stmt (by simp [hmem]))
        fun flag hmem => (huntouched flag hmem).2)

/-! ## One round of a loop -/

namespace Ending

/-- How a `repeat` that runs once ends when its body ends like this. -/
def once : Ending → Ending
  | .break | .continue => .normal
  | ending => ending

/-- The loop goes on to the next round. -/
def goesOn (ending : Ending) : Bool := ending = .normal || ending = .continue

end Ending

variable (meaning : Lua.Meaning σ ι)

theorem choose_true (whenTrue whenFalse : Behaviour (Lua.Machine σ)) :
    choose (Lua.Expr.Tests meaning (.bool true)) whenTrue whenFalse = whenTrue := by
  funext machine e machine'
  simp [choose, after, Lua.Expr.Tests, Lua.Expr.truth?]

/-- A `repeat ... until true` runs its body once. -/
theorem runs_repeatOnce_iff (code : List Lua.Stmt) (machine : Lua.Machine σ) (e : Ending)
    (machine' : Lua.Machine σ) :
    (Lua.Stmt.repeatLoop code (.bool true)).Runs meaning machine e machine' ↔
      ∃ ending inner, Lua.Stmt.ListRuns meaning code machine ending inner ∧ ending ≠ .continue ∧
        e = ending.once ∧ machine' = machine.leave inner := by
  simp only [Lua.Stmt.Runs, choose_true, whileLoop]
  constructor
  · intro hloop
    cases hloop with
    | done hnext | failed hnext => simp [always] at hnext
    | again hnext hbody _ =>
        obtain ⟨inner, ⟨_, -, hends, -⟩ | ⟨-, hne⟩, -⟩ := hbody
        · simp at hends
        · exact absurd rfl hne
    | broken hnext hbody =>
        obtain ⟨-, rfl⟩ := hnext
        obtain ⟨inner, ⟨middle, hcode, -, rfl⟩ | ⟨hcode, -⟩, rfl⟩ := hbody
        · exact ⟨.normal, inner, hcode, by simp, rfl, rfl⟩
        · exact ⟨.break, inner, hcode, by simp, rfl, rfl⟩
    | left hnext hbody hleaves =>
        obtain ⟨-, rfl⟩ := hnext
        obtain ⟨inner, ⟨_, -, rfl, -⟩ | ⟨hcode, -⟩, rfl⟩ := hbody
        · simp at hleaves
        · exact ⟨e, inner, hcode, by rintro rfl; simp at hleaves,
            by rcases hleaves with rfl | rfl <;> rfl, rfl⟩
  · rintro ⟨ending, inner, hcode, hne, rfl, rfl⟩
    have hnext : always machine ((some (some ())).map Option.isSome) machine := ⟨rfl, rfl⟩
    cases ending with
    | normal => exact .broken hnext ⟨inner, .inl ⟨inner, hcode, rfl, rfl⟩, rfl⟩
    | «break» => exact .broken hnext ⟨inner, .inr ⟨hcode, by simp⟩, rfl⟩
    | «continue» => exact absurd rfl hne
    | «return» => exact .left hnext ⟨inner, .inr ⟨hcode, by simp [Ending.once]⟩, rfl⟩ (.inl rfl)
    | failure => exact .left hnext ⟨inner, .inr ⟨hcode, by simp [Ending.once]⟩, rfl⟩ (.inr rfl)

section Round

variable {meaning} {flag : String} {flags : List (String × Bool)} {code : List Lua.Stmt}
  {body : Behaviour σ} {fallsThrough : Bool}

/-- Where the body ends, the flag tells whether the loop goes on. -/
theorem listRuns_marked_iff
    (hbody : Emulates flag ((flag, false) :: flags) (Lua.Stmt.ListRuns meaning code) body)
    (hfalls : fallsThrough = false → ∀ s s', ¬ body s .normal s') (s : σ) (e : Ending)
    (machine : Lua.Machine σ) :
    Lua.Stmt.ListRuns meaning
        (code ++ if fallsThrough then [.assign (.name flag) (.bool true)] else [])
        ⟨s, (flag, false) :: flags⟩ e machine ↔
      ∃ ending, body s ending machine.state ∧ e = ending.emitted ∧
        machine.flags = (flag, ending.goesOn) :: flags := by
  have hflags : ∀ ending : Ending, ending ≠ .normal →
      ending.flags flag ((flag, false) :: flags) = (flag, ending.goesOn) :: flags := by
    intro ending hne
    cases ending <;> simp_all [Ending.flags, Ending.goesOn, Lua.Machine.setFlag]
  have hstep : ∀ e (machine : Lua.Machine σ) (state : σ),
      Lua.Stmt.ListRuns meaning [.assign (.name flag) (.bool true)]
        ⟨state, (flag, false) :: flags⟩ e machine ↔
          e = .normal ∧ machine = ⟨state, (flag, true) :: flags⟩ := by
    intro e machine state
    simp [Lua.Stmt.listRuns_single, Lua.Stmt.Runs, Lua.Machine.set, Lua.Machine.setFlag]
  rw [Lua.Stmt.listRuns_append]
  cases fallsThrough with
  | false =>
      simp only [Bool.false_eq_true, if_false, Lua.Stmt.ListRuns, seq_ends_normal,
        hbody s e machine]
      refine exists_congr fun ending => and_congr_right fun hrun => ?_
      have hne : ending ≠ .normal := by
        rintro rfl
        exact hfalls rfl _ _ hrun
      rw [hflags ending hne]
  | true =>
      simp only [if_true]
      constructor
      · rintro (⟨⟨state, middle⟩, hcode, hset⟩ | ⟨hcode, hne⟩)
        · obtain ⟨hrun, hmiddle⟩ := hbody.normal_iff.1 hcode
          obtain rfl : middle = (flag, false) :: flags := hmiddle
          obtain ⟨rfl, rfl⟩ := (hstep ..).1 hset
          exact ⟨.normal, hrun, rfl, rfl⟩
        · obtain ⟨ending, hrun, rfl, hafter⟩ := (hbody ..).1 hcode
          have hnormal : ending ≠ .normal := fun heq => hne (Ending.emitted_eq_normal_iff.2 heq)
          exact ⟨ending, hrun, rfl, by rw [hafter, hflags ending hnormal]⟩
      · rintro ⟨ending, hrun, rfl, hafter⟩
        by_cases hnormal : ending = .normal
        · subst hnormal
          refine .inl ⟨⟨machine.state, (flag, false) :: flags⟩, hbody.normal_iff.2 ⟨hrun, rfl⟩, ?_⟩
          refine (hstep ..).2 ⟨rfl, ?_⟩
          rw [show (flag, true) :: flags = machine.flags from hafter.symm]
        · refine .inr ⟨(hbody ..).2 ⟨ending, hrun, rfl, ?_⟩, ?_⟩
          · rw [hafter, hflags ending hnormal]
          · exact fun heq => hnormal (Ending.emitted_eq_normal_iff.1 heq)

theorem runs_declare_iff (hreserved : Names.isReserved flag = true) (value : Bool)
    (machine : Lua.Machine σ) (e : Ending) (machine' : Lua.Machine σ) :
    (Lua.Stmt.localVar flag (.bool value)).Runs meaning machine e machine' ↔
      e = .normal ∧ machine' = machine.declare flag value := by
  simp [Lua.Stmt.Runs, hreserved]

theorem listRuns_guarded_iff (hreserved : Names.isReserved flag = true)
    (hbody : Emulates flag ((flag, false) :: flags) (Lua.Stmt.ListRuns meaning code) body)
    (hfalls : fallsThrough = false → ∀ s s', ¬ body s .normal s') (s : σ) (e : Ending)
    (machine : Lua.Machine σ) :
    Lua.Stmt.ListRuns meaning (Lua.Stmt.guarded flag code fallsThrough) ⟨s, flags⟩ e machine ↔
      ∃ ending, body s ending machine.state ∧ e = ending.once ∧
        machine.flags = (flag, ending.goesOn) :: flags := by
  have hdeclare : Lua.Stmt.ListRuns meaning (Lua.Stmt.guarded flag code fallsThrough) ⟨s, flags⟩ e
      machine ↔ (Lua.Stmt.repeatLoop
        (code ++ if fallsThrough then [.assign (.name flag) (.bool true)] else [])
        (.bool true)).Runs meaning ⟨s, (flag, false) :: flags⟩ e machine := by
    simp only [Lua.Stmt.guarded, Lua.Stmt.ListRuns, seq_ends_normal]
    constructor
    · rintro (⟨_, hlocal, hrepeat⟩ | ⟨hlocal, hne⟩)
      · obtain ⟨-, rfl⟩ := (runs_declare_iff hreserved ..).1 hlocal
        exact hrepeat
      · exact absurd ((runs_declare_iff hreserved ..).1 hlocal).1 hne
    · exact fun hrepeat => .inl ⟨_, (runs_declare_iff hreserved ..).2 ⟨rfl, rfl⟩, hrepeat⟩
  have honce : ∀ ending : Ending, ending.emitted.once = ending.once := by
    intro ending
    cases ending <;> rfl
  rw [hdeclare, runs_repeatOnce_iff]
  constructor
  · rintro ⟨e, inner, hcode, -, rfl, rfl⟩
    obtain ⟨ending, hrun, rfl, hflags⟩ := (listRuns_marked_iff hbody hfalls ..).1 hcode
    rw [Lua.Machine.leave_eq (by simp [hflags])]
    exact ⟨ending, hrun, honce ending, hflags⟩
  · rintro ⟨ending, hrun, rfl, hflags⟩
    refine ⟨ending.emitted, machine,
      (listRuns_marked_iff hbody hfalls ..).2 ⟨ending, hrun, rfl, hflags⟩, ?_,
      (honce ending).symm, ?_⟩
    · cases ending <;> simp [Ending.emitted]
    · exact (Lua.Machine.leave_eq (by simp [hflags])).symm

variable {post : Behaviour σ} {next : Option (List Lua.Stmt)}

/-- What follows the body in a round, if the flag is set. -/
def afterBody (meaning : Lua.Meaning σ ι) : Option (List Lua.Stmt) → Behaviour (Lua.Machine σ)
  | none => Behaviour.ends .normal
  | some code => Lua.inBlock (Lua.Stmt.ListRuns meaning code)

theorem runs_afterRound_iff (state : σ) (value : Bool) (e : Ending) (machine : Lua.Machine σ) :
    (Lua.Stmt.afterRound flag next).Runs meaning ⟨state, (flag, value) :: flags⟩ e machine ↔
      if value then afterBody meaning next ⟨state, (flag, true) :: flags⟩ e machine
      else e = .break ∧ machine = ⟨state, (flag, false) :: flags⟩ := by
  have hbreak : ∀ machine machine' : Lua.Machine σ,
      Lua.inBlock (Lua.Stmt.ListRuns meaning [.break]) machine e machine' ↔
        e = .break ∧ machine' = machine := by
    intro machine machine'
    simp [Lua.inBlock, Lua.Stmt.listRuns_single, Lua.Stmt.Runs, ends, Lua.Machine.leave]
  cases next with
  | none =>
      cases value <;>
        simp [Lua.Stmt.afterRound, Lua.Stmt.breakUnless, Lua.Stmt.Runs, choose, after,
          Lua.Expr.Tests,
          Lua.Expr.truth?, hbreak, Lua.Else.Runs, afterBody]
  | some code =>
      cases value <;>
        simp [Lua.Stmt.afterRound, Lua.Stmt.Runs, choose, after, Lua.Expr.Tests, Lua.Expr.truth?,
          hbreak, Lua.Else.Runs, afterBody]

theorem not_continue_catchContinue (body : Behaviour σ) (s s' : σ) :
    ¬ catchContinue body s .continue s' := by
  rintro (⟨-, hne⟩ | ⟨heq, -⟩)
  · exact hne rfl
  · simp at heq

/-- A round answers the `continue` of its body. -/
theorem not_continue_round (hpost : post.Stays) (s s' : σ) :
    ¬ Behaviour.seq (catchContinue body) post s .continue s' := by
  rintro (⟨middle, -, hrun⟩ | ⟨hrun, -⟩)
  · exact (hpost _ _ _ hrun).2 rfl
  · exact not_continue_catchContinue body _ _ hrun

/-- The code of a round does what the round of the script does. -/
theorem Emulates.round (outer : String) (hreserved : Names.isReserved flag = true)
    (hbody : Emulates flag ((flag, false) :: flags) (Lua.Stmt.ListRuns meaning code) body)
    (hfalls : fallsThrough = false → ∀ s s', ¬ body s .normal s')
    (hnext : Emulates flag ((flag, true) :: flags) (afterBody meaning next) post)
    (hpost : post.Stays) :
    Emulates outer flags
      (Lua.inBlock (Lua.Stmt.ListRuns meaning
        (Lua.Stmt.guarded flag code fallsThrough ++ [.afterRound flag next])))
      (Behaviour.seq (catchContinue body) post) := by
  have hguarded := listRuns_guarded_iff hreserved hbody hfalls
  have hafter := hnext.iff_of_not_continue fun s s' hrun => (hpost _ _ _ hrun).2 rfl
  have hleave : ∀ (s : σ) (value : Bool) (inner : Lua.Machine σ),
      inner.flags = (flag, value) :: flags →
      Lua.Machine.leave ⟨s, flags⟩ inner = ⟨inner.state, flags⟩ := by
    intro s value inner hinner
    simp [Lua.Machine.leave, hinner]
  refine Emulates.of_iff (fun s e machine => ?_) (not_continue_round hpost)
  rw [Lua.Stmt.listRuns_append, Lua.Stmt.listRuns_single]
  constructor
  · rintro ⟨inner, ⟨⟨state, between⟩, hcode, hround⟩ | ⟨hcode, hne⟩, rfl⟩
    · obtain ⟨ending, hrun, honce, hflags⟩ := (hguarded ..).1 hcode
      obtain rfl : between = (flag, ending.goesOn) :: flags := hflags
      rw [runs_afterRound_iff] at hround
      split at hround
      · next hgoes =>
          obtain ⟨hround, hflags⟩ := (hafter ..).1 hround
          rw [hleave s true inner hflags]
          refine ⟨.inl ⟨state, ?_, hround⟩, rfl⟩
          -- The body was run to its end or left by `continue`.
          cases ending with
          | normal => exact .inl ⟨hrun, by simp⟩
          | «continue» => exact .inr ⟨rfl, hrun⟩
          | _ => simp [Ending.goesOn] at hgoes
      · next hgoes =>
          obtain ⟨rfl, rfl⟩ := hround
          rw [hleave s false _ rfl]
          refine ⟨.inr ⟨.inl ⟨?_, by simp⟩, by simp⟩, rfl⟩
          cases ending with
          | «break» => exact hrun
          | normal | «continue» => simp [Ending.goesOn] at hgoes
          | _ => simp [Ending.once] at honce
    · obtain ⟨ending, hrun, rfl, hflags⟩ := (hguarded ..).1 hcode
      rw [hleave s _ inner hflags]
      refine ⟨.inr ⟨.inl ?_, hne⟩, rfl⟩
      cases ending with
      | «return» | failure => exact ⟨hrun, by simp [Ending.once]⟩
      | _ => exact absurd rfl hne
  · obtain ⟨state', after⟩ := machine
    rintro ⟨hrun, hflags⟩
    obtain rfl : flags = after := hflags.symm
    rcases hrun with ⟨middle, hcatch, hrun⟩ | ⟨hcatch, hne⟩
    · have hbodyRun : ∃ ending : Ending, body s ending middle ∧ ending.once = .normal ∧
          ending.goesOn = true := by
        rcases hcatch with ⟨hrun, -⟩ | ⟨-, hrun⟩
        · exact ⟨.normal, hrun, rfl, rfl⟩
        · exact ⟨.continue, hrun, rfl, rfl⟩
      obtain ⟨ending, hbodyRun, honce, hgoes⟩ := hbodyRun
      refine ⟨⟨state', (flag, true) :: flags⟩, .inl ⟨⟨middle, (flag, true) :: flags⟩, ?_, ?_⟩,
        (hleave s true ⟨state', _⟩ rfl).symm⟩
      · exact (hguarded ..).2 ⟨ending, hbodyRun, honce.symm, by rw [hgoes]⟩
      · exact (runs_afterRound_iff ..).2 ((hafter ..).2 ⟨hrun, rfl⟩)
    · rcases hcatch with ⟨hrun, hcontinue⟩ | ⟨rfl, -⟩
      · refine ⟨⟨state', (flag, false) :: flags⟩, ?_, (hleave s false ⟨state', _⟩ rfl).symm⟩
        cases e with
        | normal => exact absurd rfl hne
        | «continue» => exact absurd rfl hcontinue
        | «break» =>
            exact .inl ⟨⟨state', (flag, false) :: flags⟩, (hguarded ..).2 ⟨.break, hrun, rfl, rfl⟩,
              (runs_afterRound_iff ..).2 ⟨rfl, rfl⟩⟩
        | «return» => exact .inr ⟨(hguarded ..).2 ⟨.return, hrun, rfl, rfl⟩, hne⟩
        | failure => exact .inr ⟨(hguarded ..).2 ⟨.failure, hrun, rfl, rfl⟩, hne⟩
      · exact absurd rfl hne

end Round

end LuaBackend
