import LuaBackend.Proofs.FreeNames
import LuaBackend.Proofs.LoopEmulation
import LuaBackend.Proofs.LuaScoping

/-!
# Variables that a loop discards

A loop over a container has two variables in Lua.  One that the script leaves out, or calls `_`, is
emitted as `_` but bound in no frame of the script.  A `_` that the script binds further out is
therefore still found from the body, where the code has the variable of the loop under that name.
`hidesBinding_iff` says which loops come between an occurrence and its binding.
-/

namespace LuaBackend

open Script

namespace Script

/-- The variables that a loop over a container has in Lua. -/
def loopVariables (key : Option Ident) (value : Ident) : List String :=
  [(key.map Ident.name).getD Names.discard, value.name]

end Script

/-- The place of the body of a loop over a container. -/
def Place.insideLoop (place : Place) (key : Option Ident) (value : Ident) : Place :=
  (place.enter.bindAll (loopBinders key value)).enterLoop.enter

/-- A loop at a place has a variable `_` in Lua, and an occurrence of `_` in its body is looked up
to a binding made outside of the loop. -/
def HidesBinding (rootBinding : Binding) (place : Place) (key : Option Ident) (value : Ident)
    (body : Block) : Prop :=
  Names.discard ∈ loopVariables key value ∧
    ∃ site ∈ body.sites (place.insideLoop key value), ∃ id found,
      site.node = .expr (.ident id) ∧ id.name = Names.discard ∧
        Scope.resolveIn rootBinding id.name site.place.frames = some found ∧
        found.symbol.depth < place.frames.length

theorem Place.length_frames_insideLoop (place : Place) (key : Option Ident) (value : Ident) :
    (place.insideLoop key value).frames.length = place.frames.length + 2 := by
  simp [insideLoop]

/-- The loop itself binds no `_` around its body. -/
theorem Place.not_bindsFrom_insideLoop (place : Place) (key : Option Ident) (value : Ident) :
    ¬ (place.insideLoop key value).BindsFrom place.frames.length Names.discard := by
  have hlevel : place.frames.length < place.enter.frames.length := by simp
  have hbinders : ¬ ∃ id ∈ loopBinders key value, id.name = Names.discard := by
    rintro ⟨id, hid, hname⟩
    exact of_decide_eq_true (List.mem_filter.1 hid).2 hname
  simp only [insideLoop, bindsFrom_enter, bindsFrom_enterLoop, bindsFrom_bindAll hlevel, hbinders,
    not_bindsFrom_length, or_self, not_false_eq_true]

/-- An occurrence that fits is looked up to a frame below the level just if it escapes from it. -/
theorem Site.escapes_discard_iff {level : Nat} {rootBinding : Binding} {site : Site}
    (hfits : site.node.Fits site.place) :
    site.Escapes level Names.discard ↔
      ∃ id found, site.node = .expr (.ident id) ∧ id.name = Names.discard ∧
        Scope.resolveIn rootBinding id.name site.place.frames = some found ∧
        found.symbol.depth < level := by
  constructor
  · rintro ⟨⟨id, hnode, hname⟩, hescapes⟩
    have hbound : site.place.Binds id.name := by
      rw [hnode] at hfits
      refine hfits.resolve_right fun hlen => ?_
      rw [hname] at hlen
      exact absurd hlen (by decide)
    obtain ⟨found, hfound⟩ :=
      Option.isSome_iff_exists.1 ((Scope.isSome_resolveIn_iff rootBinding _ _).2 hbound)
    refine ⟨id, found, hnode, hname, hfound, ?_⟩
    rw [← hname, Place.bindsFrom_iff_of_resolveIn_eq_some hfound] at hescapes
    exact Nat.lt_of_not_le hescapes
  · rintro ⟨id, found, hnode, hname, hfound, hdepth⟩
    refine ⟨⟨id, hnode, hname⟩, ?_⟩
    rw [← hname, Place.bindsFrom_iff_of_resolveIn_eq_some hfound]
    exact Nat.not_le_of_lt hdepth

/-- In an accepted script, a loop hides a binding just if it has a variable `_` and `_` is free in
its body. -/
theorem hidesBinding_iff (options : Options) (file : File)
    (hok : ∃ text, file.toLua options = .ok text) {place : Place} {pos : Pos}
    {key : Option Ident} {value : Ident} {iterable : Expr} {body : Block}
    (hloop : ⟨place, .stmt (.forIn pos key value iterable body)⟩ ∈ file.sites) :
    HidesBinding options.binding place key value body ↔
      Names.discard ∈ loopVariables key value ∧ Names.discard ∈ body.free := by
  rw [exists_toLua_eq_ok_iff, fault?_analyse_eq_none_iff] at hok
  obtain ⟨-, hfit⟩ := Stmt.loopsFit_list .root file.stmts hok place _ hloop rfl
  simp only [Stmt.sites, allFit_cons, allFit_append] at hfit
  have hbody : AllFit (body.sites (place.insideLoop key value)) := hfit.2.2
  have hlevel : place.frames.length < (place.insideLoop key value).frames.length := by
    rw [place.length_frames_insideLoop]
    omega
  have hescaped : Escaped place.frames.length Names.discard
      (body.sites (place.insideLoop key value)) ↔ Names.discard ∈ body.free :=
    (body.escaped_sites hlevel).trans
      (and_iff_right (place.not_bindsFrom_insideLoop key value))
  rw [HidesBinding, ← hescaped]
  refine and_congr_right fun _ => exists_congr fun site => and_congr_right fun hsite => ?_
  exact (Site.escapes_discard_iff (hbody site hsite)).symm

/-- The body binds a `_` of its own and hands it to a function with a parameter `_`. -/
def ownDiscard : Block where
  stmts :=
    [.assign {} .define [.ident { name := "_" }] [.ident { name := "v" }],
      .expr {} (.call {}
        (.func {} [{ name := "_" }] { stmts := [.ret {} (some (.ident { name := "_" }))] })
        [.ident { name := "_" }])]

theorem not_hidesBinding_ownDiscard :
    let file : File :=
      { stmts :=
          [.assign {} .define [.ident { name := "_" }] [.array {} []],
            .forIn {} none { name := "v" } (.ident { name := "_" }) ownDiscard] }
    let place := Place.root.bind { name := "_" }
    (∃ text, file.toLua {} = .ok text) ∧
      (⟨place, .stmt (.forIn {} none { name := "v" } (.ident { name := "_" }) ownDiscard)⟩ ∈
        file.sites) ∧
      ¬ HidesBinding .lexical place none { name := "v" } ownDiscard := by
  intro file place
  have hok : ∃ text, file.toLua {} = .ok text := ⟨_, rfl⟩
  have hloop :
      ⟨place, .stmt (.forIn {} none { name := "v" } (.ident { name := "_" }) ownDiscard)⟩ ∈
        file.sites :=
    List.mem_append_right _ (List.mem_append_left _ List.mem_cons_self)
  refine ⟨hok, hloop, fun hhides => ?_⟩
  have hfree := ((hidesBinding_iff {} file hok hloop).1 hhides).2
  exact absurd hfree (by decide)

/-- The script `_ := 1; for v in [2] { x := _ }`. -/
def hiddenBinding : File where
  stmts :=
    [.assign {} .define [.ident { name := "_" }] [.int {} "1"],
      .forIn {} none { name := "v" } (.array {} [.int {} "2"])
        { stmts := [.assign {} .define [.ident { name := "x" }] [.ident { name := "_" }]] }]

/-- The same loop with a key that its body reads. -/
def keyReader : File where
  stmts :=
    [.assign {} .define [.ident { name := "one" }] [.int {} "1"],
      .forIn {} (some { name := "key" }) { name := "v" } (.array {} [.int {} "2"])
        { stmts := [.assign {} .define [.ident { name := "x" }] [.ident { name := "key" }]] }]

theorem Lua.Expr.Relabels.of_occurrence_eq {labels : Lua.Labels} {name label : String}
    (hlabel : labels.occurrence name = label) :
    Lua.Expr.Relabels labels (.name name) (.name label) :=
  hlabel ▸ .name

/-- An accepted script can read a binding that the loop hides, and its code reads the key. -/
theorem hidesBinding_hiddenBinding :
    (∃ text, hiddenBinding.toLua {} = .ok text) ∧
      (∃ place iterable body,
        ⟨place, .stmt (.forIn {} none { name := "v" } iterable body)⟩ ∈ hiddenBinding.sites ∧
          HidesBinding .lexical place none { name := "v" } body) ∧
      Lua.ChunkRelabels (hiddenBinding.lower .lexical) (keyReader.lower .lexical) := by
  refine ⟨⟨_, rfl⟩, ⟨Place.root.bind { name := "_" }, _, _,
    List.mem_append_right _ (List.mem_append_left _ List.mem_cons_self), by decide, ?_⟩, ?_⟩
  · -- The occurrence stands behind the definition and its binder.
    have hread : ∀ first second read : Site, read ∈ [first, second, read] := by simp
    exact ⟨_, List.mem_append_left _ (hread _ _ _), { name := "_" }, _, rfl, rfl, rfl, by decide⟩
  · -- From the value of `x` the nearest `_` is the first variable of the loop.
    refine ⟨_, .cons (.localVar .numeral) (.single (.forIn ?iterator rfl
      (.cons (.localVar .bool)
        (.cons (.repeatLoop (.cons (.localVar ?value) (.single (.assign ?flag .bool))) .bool)
          (.single (.cond (.unary ?test) (.single .break) .absent))))))⟩
    case iterator =>
      refine .call (.of_occurrence_eq rfl) (.cons (.table ?_) .nil)
      exact .cons (.keyed .numeral (.paren .numeral)) (.cons (.named .bool) .nil)
    all_goals exact .of_occurrence_eq rfl

end LuaBackend
