import LuaBackend.Proofs.WalkedTrees

/-!
# Steps by one

`n++` and `n--` are written like `n += 1` and `n -= 1`, and they are refused for the same reasons.
A decrement and its subtraction are walked in the same way.  An increment and its addition differ
in one thing only: an addition may join strings and needs the support code for that, while an
increment is one of numbers.
-/

namespace LuaBackend

open Script Generator

namespace Generator

/-- The generator with a further snippet. -/
def use (generator : Generator) (snippet : Snippet) : Generator :=
  { generator with analysis.support := generator.support.use snippet }

/-- The second walk ended like the first one and, if that is a success, with a further snippet. -/
structure Outcome.Needs {α : Type} (first : Outcome α) (snippet : Snippet) (second : Outcome α) :
    Prop where
  result : second.result = first.result
  ok : ∀ a, first.result = .ok a → second.state = first.state.use snippet
  error : ∀ fault, first.result = .error fault → second.state = first.state

namespace Outcome.Needs

variable {α β : Type} {snippet : Snippet} {first second : Outcome α}

/-- Behind the same walk, it is enough to compare what follows. -/
theorem bind {walk : Walk α} {next other : α → Walk β}
    (hnext : ∀ a generator, (next a generator).Needs snippet (other a generator))
    (generator : Generator) :
    ((walk >>= next) generator).Needs snippet ((walk >>= other) generator) := by
  cases hresult : (walk generator).result with
  | error fault =>
      rw [Walk.bind_of_error hresult, Walk.bind_of_error hresult]
      refine ⟨rfl, fun a hok => ?_, fun _ _ => rfl⟩
      cases hok
  | ok a =>
      have hrest := hnext a (walk generator).state
      rw [Walk.bind_of_ok hresult, Walk.bind_of_ok hresult]
      exact ⟨hrest.result, hrest.ok, hrest.error⟩

/-- A line behind the need for a snippet. -/
theorem line (indent content : String) (generator : Generator) :
    (Walk.line indent content generator).Needs snippet
      ((Walk.event (.need snippet) >>= fun _ => Walk.line indent content) generator) := by
  refine ⟨rfl, fun _ _ => rfl, fun fault herror => ?_⟩
  cases herror

theorem scope_eq (hneeds : first.Needs snippet second) :
    second.state.scope = first.state.scope := by
  cases hresult : first.result with
  | error fault => rw [hneeds.error fault hresult]
  | ok a =>
      rw [hneeds.ok a hresult]
      rfl

theorem uses_iff (hneeds : first.Needs snippet second) (other : Snippet) :
    second.state.support.uses other = true ↔
      first.state.support.uses other = true ∨
        other = snippet ∧ ∃ a, first.result = .ok a := by
  cases hresult : first.result with
  | error fault => simp [hneeds.error fault hresult]
  | ok a =>
      rw [hneeds.ok a hresult]
      change (first.state.support.use snippet).uses other = true ↔ _
      simp

end Outcome.Needs

end Generator

namespace Script.Stmt

variable (indent : String) (pos one : Pos) (target : Expr)

theorem needs_walk_inc (generator : Generator) :
    ((Stmt.incDec pos .inc target).walk indent generator).Needs (.helper .stringConcat)
      ((Stmt.assign pos .add [target] [.int one "1"]).walk indent generator) := by
  rw [Stmt.walk, Stmt.walk]
  apply Outcome.Needs.bind
  intro _
  apply Outcome.Needs.bind
  intro text
  exact Outcome.Needs.line indent _

theorem walk_dec :
    (Stmt.incDec pos .dec target).walk indent =
      (Stmt.assign pos .sub [target] [.int one "1"]).walk indent := by
  rw [Stmt.walk, Stmt.walk]
  rfl

end Script.Stmt

/-- From every state, `++` and `+= 1` have the same text or the same fault and leave the same scope;
after a success the addition uses the support code for strings, and otherwise both use the same.
`--` and `-= 1` are the same throughout.  The walk over a whole script is its conversion. -/
theorem increment_agrees_with_addition (indent : String) (before : Generator) (pos one : Pos)
    (target : Expr) :
    let increased := (Stmt.incDec pos .inc target).walk indent before
    let added := (Stmt.assign pos .add [target] [.int one "1"]).walk indent before
    let decreased := (Stmt.incDec pos .dec target).walk indent before
    let subtracted := (Stmt.assign pos .sub [target] [.int one "1"]).walk indent before
    added.result = increased.result ∧
      added.state.scope = increased.state.scope ∧
      (∀ snippet, added.state.support.uses snippet = true ↔
        increased.state.support.uses snippet = true ∨
          snippet = .helper .stringConcat ∧ ∃ text, increased.result = .ok text) ∧
      subtracted.result = decreased.result ∧
      subtracted.state = decreased.state ∧
      ∀ (options : Options) (file : File), file.generate options = file.convert options := by
  intro increased added decreased subtracted
  have hneeds : increased.Needs (.helper .stringConcat) added :=
    Stmt.needs_walk_inc indent pos one target before
  have hdec : subtracted = decreased :=
    congrFun (Stmt.walk_dec indent pos one target).symm before
  exact ⟨hneeds.result, hneeds.scope_eq, hneeds.uses_iff, congrArg Outcome.result hdec,
    congrArg Outcome.state hdec, File.generate_eq_convert⟩

/-- A script that defines `n` and changes it. -/
def steppedCounter (step : Expr → Stmt) : File where
  stmts := [.assign {} .define [.ident { name := "n" }] [.int {} "1"], step (.ident { name := "n" })]

/-- `n += 1` brings the support code for strings with it, and `n++` does not. -/
theorem steppedCounter_support_ne :
    let increment := steppedCounter (.incDec {} .inc)
    let addition := steppedCounter fun n => .assign {} .add [n] [.int {} "1"]
    (Stmt.walkList "  " increment.stmts (.initial .lexical)).state.support ≠
        (Stmt.walkList "  " addition.stmts (.initial .lexical)).state.support ∧
      increment.toLua {} = .ok "local n = 1\nn = (n + 1)\n" ∧
      addition.toLua {} =
        .ok (Helper.stringConcat.source ++ "\n" ++ "local n = 1\nn = (n + 1)\n") := by
  exact ⟨by decide, rfl, rfl⟩

end LuaBackend
