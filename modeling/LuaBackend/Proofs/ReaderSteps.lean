import LuaBackend.Proofs.LuaParser

/-!
# Steps of the reader

What each reader of the parser does with one production, and how much fuel it takes.  Where the end
of what is read depends on the token behind it, that token is restricted.
-/

namespace LuaBackend.Lua

open Parsed

/-! ## Where things end -/

/-- The token goes on with the prefix expression before it. -/
def Token.startsSuffix : Token → Bool
  | .symbol .leftBracket | .symbol .dot | .symbol .colon | .symbol .leftParen
  | .symbol .leftBrace | .str _ => true
  | _ => false

/-- The token can begin a prefix expression. -/
def Token.startsPrefixExpr : Token → Bool
  | .name _ | .symbol .leftParen => true
  | _ => false

/-- The token can begin an expression. -/
def Token.startsExpr : Token → Bool
  | .name _ | .numeral _ | .str _ => true
  | .keyword .nil | .keyword .true | .keyword .false | .keyword .function | .keyword .not => true
  | .symbol .leftParen | .symbol .leftBrace | .symbol .minus => true
  | _ => false

/-- The token can begin a statement other than `return`. -/
def Token.startsStmt : Token → Bool
  | .name _ | .symbol .leftParen => true
  | .keyword .break | .keyword .do | .keyword .for | .keyword .if | .keyword .local
  | .keyword .repeat | .keyword .while => true
  | _ => false

/-- The token belongs to no statement before it. -/
def Token.endsStmt : Token → Bool
  | .name _ | .symbol .semicolon => true
  | .keyword word => word != .and && word != .or
  | _ => false

/-- An operand ends in front of the tokens. -/
def EndsOperand (tokens : List Token) : Prop := ∀ token ∈ tokens.head?, token.startsSuffix = false

/-- An expression ends in front of the tokens. -/
def EndsExpr (tokens : List Token) : Prop :=
  ∀ token ∈ tokens.head?, token.startsSuffix = false ∧ Parsed.BinaryOp.ofToken? token = none

/-- A statement ends in front of the tokens. -/
def EndsStmt (tokens : List Token) : Prop := ∀ token ∈ tokens.head?, token.endsStmt

/-- A block ends in front of the tokens. -/
def EndsBlock (tokens : List Token) : Prop := ∀ token ∈ tokens.head?, endsBlock token

theorem EndsExpr.endsOperand {tokens : List Token} (h : EndsExpr tokens) : EndsOperand tokens :=
  fun token htoken => (h token htoken).1

theorem EndsStmt.endsExpr {tokens : List Token} (h : EndsStmt tokens) : EndsExpr tokens := by
  intro token htoken
  have hends := h token htoken
  cases token with
  | name text => exact ⟨rfl, rfl⟩
  | keyword keyword => cases keyword <;> first | exact ⟨rfl, rfl⟩ | cases hends
  | numeral text => cases hends
  | str bytes => cases hends
  | symbol symbol => cases symbol <;> first | exact ⟨rfl, rfl⟩ | cases hends

theorem EndsStmt.head?_ne_comma {tokens : List Token} (h : EndsStmt tokens) :
    tokens.head? ≠ some (.symbol .comma) := by
  intro hhead
  cases h _ hhead

theorem EndsBlock.endsStmt {tokens : List Token} (h : EndsBlock tokens) : EndsStmt tokens := by
  intro token htoken
  have hends := h token htoken
  cases token with
  | keyword keyword => cases keyword <;> first | rfl | cases hends
  | name text => cases hends
  | numeral text => cases hends
  | str bytes => cases hends
  | symbol symbol => cases hends

theorem endsExpr_cons {token : Token} {tokens : List Token} (hsuffix : token.startsSuffix = false)
    (hoperator : Parsed.BinaryOp.ofToken? token = none) : EndsExpr (token :: tokens) := by
  rintro _ ⟨⟩
  exact ⟨hsuffix, hoperator⟩

theorem endsBlock_cons {token : Token} {tokens : List Token} (htoken : endsBlock token) :
    EndsBlock (token :: tokens) := by
  rintro _ ⟨⟩
  exact htoken

/-! ## How things begin -/

/-- There is a first token, and it is as told. -/
def Begins (p : Token → Prop) (tokens : List Token) : Prop :=
  ∃ first others, tokens = first :: others ∧ p first

namespace Begins

variable {p q : Token → Prop} {tokens : List Token}

theorem append (h : Begins p tokens) (rest : List Token) : Begins p (tokens ++ rest) := by
  obtain ⟨first, others, rfl, hfirst⟩ := h
  exact ⟨first, others ++ rest, rfl, hfirst⟩

theorem mono (h : Begins p tokens) (himp : ∀ token, p token → q token) : Begins q tokens := by
  obtain ⟨first, others, htokens, hfirst⟩ := h
  exact ⟨first, others, htokens, himp first hfirst⟩

theorem length_pos (h : Begins p tokens) : 0 < tokens.length := by
  obtain ⟨first, others, rfl, -⟩ := h
  exact Nat.succ_pos _

end Begins

/-! ## Steps of the reader -/

/-- With `bound` units of fuel or more the reader gives the result. -/
def Within {α : Type} (bound : Nat) (read : Nat → Option α) (result : α) : Prop :=
  ∀ fuel, bound ≤ fuel → read fuel = some result

namespace Within

variable {α β γ δ : Type} {k m n : Nat} {f : Nat → Option α} {g : Nat → Option β}
  {h : Nat → Option γ} {read : Nat → Option δ} {a : α} {b : β} {c : γ} {result : δ}

theorem mono (hread : Within m read result) (hle : m ≤ n) : Within n read result :=
  fun fuel hfuel => hread fuel (Nat.le_trans hle hfuel)

theorem unique {other : δ} (hread : Within m read result) (hother : Within n read other) :
    result = other := by
  have hread := hread (m + n) (by omega)
  have hother := hother (m + n) (by omega)
  exact Option.some.inj (hread.symm.trans hother)

theorem step₀ (hstep : ∀ fuel, read (fuel + 1) = some result) : Within 1 read result := by
  intro fuel hfuel
  obtain ⟨fuel, rfl⟩ := Nat.exists_eq_add_of_le' hfuel
  exact hstep fuel

theorem step₁ (hf : Within k f a)
    (hstep : ∀ fuel, f fuel = some a → read (fuel + 1) = some result) :
    Within (k + 1) read result := by
  intro fuel hfuel
  obtain ⟨fuel, rfl⟩ := Nat.exists_eq_add_of_le' (show 1 ≤ fuel by omega)
  exact hstep fuel (hf fuel (by omega))

theorem step₂ (hf : Within k f a) (hg : Within m g b)
    (hstep : ∀ fuel, f fuel = some a → g fuel = some b → read (fuel + 1) = some result) :
    Within (k + m + 1) read result := by
  intro fuel hfuel
  obtain ⟨fuel, rfl⟩ := Nat.exists_eq_add_of_le' (show 1 ≤ fuel by omega)
  exact hstep fuel (hf fuel (by omega)) (hg fuel (by omega))

theorem step₃ (hf : Within k f a) (hg : Within m g b) (hh : Within n h c)
    (hstep : ∀ fuel, f fuel = some a → g fuel = some b → h fuel = some c →
      read (fuel + 1) = some result) :
    Within (k + m + n + 1) read result := by
  intro fuel hfuel
  obtain ⟨fuel, rfl⟩ := Nat.exists_eq_add_of_le' (show 1 ≤ fuel by omega)
  exact hstep fuel (hf fuel (by omega)) (hg fuel (by omega)) (hh fuel (by omega))

end Within

section Expressions

variable {k m : Nat} {token : Token} {tokens next rest : List Token} {expr : Parsed.Expr}
  {result : Parsed.Expr × List Token}

theorem readBinary_of_endsExpr (limit : Nat) (expr : Parsed.Expr) (hrest : EndsExpr rest) :
    Within 1 (readBinary · limit expr rest) (expr, rest) := by
  refine .step₀ fun fuel => ?_
  cases rest with
  | nil => rw [readBinary]
  | cons token rest =>
    rw [readBinary]
    simp only [(hrest token rfl).2]

theorem readBinary_operator {limit : Nat} {op : Parsed.BinaryOp} {rhs : Parsed.Expr}
    (htoken : Parsed.BinaryOp.ofToken? token = some op) (hlimit : limit < op.priority.1)
    (hrhs : Within k (readOperators · op.priority.2 tokens) (rhs, next))
    (hnext : Within m (readBinary · limit (.binary op expr rhs) next) result) :
    Within (k + m + 1) (readBinary · limit expr (token :: tokens)) result := by
  refine .step₂ hrhs hnext fun fuel hrhs hnext => ?_
  rw [readBinary]
  simp [htoken, hlimit, hrhs, hnext]

theorem readOperators_unary {limit : Nat} {op : Parsed.UnaryOp}
    (htoken : Parsed.UnaryOp.ofToken? token = some op)
    (hexpr : Within k (readOperators · Parsed.UnaryOp.priority tokens) (expr, next))
    (hnext : Within m (readBinary · limit (.unary op expr) next) result) :
    Within (k + m + 1) (readOperators · limit (token :: tokens)) result := by
  refine .step₂ hexpr hnext fun fuel hexpr hnext => ?_
  rw [readOperators]
  simp [htoken, hexpr, hnext]

theorem readOperators_of_readSimple {limit : Nat}
    (hfirst : Begins (Parsed.UnaryOp.ofToken? · = none) tokens)
    (hsimple : Within k (readSimple · tokens) (expr, next))
    (hnext : Within m (readBinary · limit expr next) result) :
    Within (k + m + 1) (readOperators · limit tokens) result := by
  obtain ⟨first, others, rfl, htoken⟩ := hfirst
  refine .step₂ hsimple hnext fun fuel hsimple hnext => ?_
  rw [readOperators]
  simp [htoken, hsimple, hnext]

theorem eq_of_startsPrefixExpr (htoken : token.startsPrefixExpr) :
    token = .symbol .leftParen ∨ ∃ word, token = .name word := by
  cases token with
  | name word => exact .inr ⟨word, rfl⟩
  | symbol symbol => cases symbol <;> first | exact .inl rfl | cases htoken
  | _ => cases htoken

theorem readSimple_of_readSuffixed (hfirst : Begins (·.startsPrefixExpr) tokens)
    (hread : Within k (readSuffixed · tokens) result) :
    Within (k + 1) (readSimple · tokens) result := by
  obtain ⟨first, others, rfl, htoken⟩ := hfirst
  refine .step₁ hread fun fuel hread => ?_
  obtain rfl | ⟨word, rfl⟩ := eq_of_startsPrefixExpr htoken
  · rw [readSimple]
    · exact hread
    all_goals simp
  · rw [readSimple]
    · exact hread
    all_goals simp

theorem readSimple_table {fields : List Parsed.Field}
    (hfields : Within k (readFields · tokens) (fields, rest)) :
    Within (k + 1) (readSimple · (.symbol .leftBrace :: tokens)) (.table fields, rest) := by
  refine .step₁ hfields fun fuel hfields => ?_
  rw [readSimple]
  simp [hfields]

theorem readFunction_of_readParams {params : List String} {varargs : Bool} {body : Parsed.Block}
    (hparams : readParams tokens = some ((params, varargs), next))
    (hbody : Within k (readBlock · next) (body, .keyword .end :: rest)) :
    Within (k + 1) (readFunction · (.symbol .leftParen :: tokens))
      (.func params varargs body, rest) := by
  refine .step₁ hbody fun fuel hbody => ?_
  rw [readFunction]
  simp [expect, hparams, hbody]

theorem readSimple_function (hfunction : Within k (readFunction · tokens) result) :
    Within (k + 1) (readSimple · (.keyword .function :: tokens)) result := by
  refine .step₁ hfunction fun fuel hfunction => ?_
  rw [readSimple]
  exact hfunction

theorem readSuffixed_name {word : String}
    (hnext : Within k (readSuffixes · (.name word) rest) result) :
    Within (k + 1) (readSuffixed · (.name word :: rest)) result := by
  refine .step₁ hnext fun fuel hnext => ?_
  rw [readSuffixed]
  exact hnext

theorem readSuffixed_paren
    (hexpr : Within k (readOperators · 0 tokens) (expr, .symbol .rightParen :: rest))
    (hnext : Within m (readSuffixes · (.paren expr) rest) result) :
    Within (k + m + 1) (readSuffixed · (.symbol .leftParen :: tokens)) result := by
  refine .step₂ hexpr hnext fun fuel hexpr hnext => ?_
  rw [readSuffixed]
  simp [hexpr, hnext, expect]

theorem readSuffixes_of_endsOperand (expr : Parsed.Expr) (hrest : EndsOperand rest) :
    Within 1 (readSuffixes · expr rest) (expr, rest) := by
  refine .step₀ fun fuel => ?_
  rw [readSuffixes.eq_def]
  dsimp only
  split <;> first | rfl | cases hrest _ rfl

theorem readSuffixes_index {key : Parsed.Expr}
    (hkey : Within k (readOperators · 0 tokens) (key, .symbol .rightBracket :: rest))
    (hnext : Within m (readSuffixes · (.index expr key) rest) result) :
    Within (k + m + 1) (readSuffixes · expr (.symbol .leftBracket :: tokens)) result := by
  refine .step₂ hkey hnext fun fuel hkey hnext => ?_
  rw [readSuffixes]
  simp [hkey, hnext, expect]

theorem readSuffixes_call {args : List Parsed.Expr}
    (hargs : Within k (readArgs · (.symbol .leftParen :: tokens)) (args, rest))
    (hnext : Within m (readSuffixes · (.call expr args) rest) result) :
    Within (k + m + 1) (readSuffixes · expr (.symbol .leftParen :: tokens)) result := by
  refine .step₂ hargs hnext fun fuel hargs hnext => ?_
  rw [readSuffixes]
  simp [hargs, hnext]

theorem readArgs_empty (rest : List Token) :
    Within 1 (readArgs · (.symbol .leftParen :: .symbol .rightParen :: rest)) ([], rest) :=
  .step₀ fun fuel => by rw [readArgs]

theorem readArgs_paren {args : List Parsed.Expr} (hfirst : Begins (·.startsExpr) tokens)
    (hargs : Within k (readList · tokens) (args, .symbol .rightParen :: rest)) :
    Within (k + 1) (readArgs · (.symbol .leftParen :: tokens)) (args, rest) := by
  obtain ⟨first, others, rfl, htoken⟩ := hfirst
  refine .step₁ hargs fun fuel hargs => ?_
  rw [readArgs]
  · simp [hargs, expect]
  · rintro _ ⟨⟩
    cases htoken

theorem readList_single (hexpr : Within k (readOperators · 0 tokens) (expr, rest))
    (hrest : rest.head? ≠ some (.symbol .comma)) :
    Within (k + 1) (readList · tokens) ([expr], rest) := by
  refine .step₁ hexpr fun fuel hexpr => ?_
  rw [readList]
  simp only [hexpr, Option.bind_eq_bind, Option.bind_some]
  split
  · exact absurd rfl hrest
  · rfl

theorem readList_cons {exprs : List Parsed.Expr}
    (hexpr : Within k (readOperators · 0 tokens) (expr, .symbol .comma :: next))
    (hexprs : Within m (readList · next) (exprs, rest)) :
    Within (k + m + 1) (readList · tokens) (expr :: exprs, rest) := by
  refine .step₂ hexpr hexprs fun fuel hexpr hexprs => ?_
  rw [readList]
  simp [hexpr, hexprs]

theorem readField_item (hfirst : Begins (· = .symbol .leftParen) tokens)
    (hexpr : Within k (readOperators · 0 tokens) (expr, rest)) :
    Within (k + 1) (readField · tokens) (.item expr, rest) := by
  obtain ⟨_, others, rfl, rfl⟩ := hfirst
  refine .step₁ hexpr fun fuel hexpr => ?_
  rw [readField]
  · simp [hexpr]
  all_goals simp

theorem readField_keyed {key : Parsed.Expr}
    (hkey : Within k (readOperators · 0 tokens)
      (key, .symbol .rightBracket :: .symbol .assign :: next))
    (hexpr : Within m (readOperators · 0 next) (expr, rest)) :
    Within (k + m + 1) (readField · (.symbol .leftBracket :: tokens)) (.keyed key expr, rest) := by
  refine .step₂ hkey hexpr fun fuel hkey hexpr => ?_
  rw [readField]
  simp [hkey, hexpr, expect]

theorem readField_named {name : String}
    (hexpr : Within k (readOperators · 0 tokens) (expr, rest)) :
    Within (k + 1) (readField · (.name name :: .symbol .assign :: tokens))
      (.named name expr, rest) := by
  refine .step₁ hexpr fun fuel hexpr => ?_
  rw [readField]
  simp [hexpr]

theorem readFields_empty (rest : List Token) :
    Within 1 (readFields · (.symbol .rightBrace :: rest)) ([], rest) :=
  .step₀ fun fuel => by rw [readFields]

theorem readFields_single {field : Parsed.Field}
    (htokens : tokens.head? ≠ some (.symbol .rightBrace))
    (hfield : Within k (readField · tokens) (field, .symbol .rightBrace :: rest)) :
    Within (k + 1) (readFields · tokens) ([field], rest) := by
  refine .step₁ hfield fun fuel hfield => ?_
  rw [readFields]
  · simp [hfield]
  · rintro _ rfl
    exact htokens rfl

theorem readFields_cons {field : Parsed.Field} {fields : List Parsed.Field}
    (htokens : tokens.head? ≠ some (.symbol .rightBrace))
    (hfield : Within k (readField · tokens) (field, .symbol .comma :: next))
    (hfields : Within m (readFields · next) (fields, rest)) :
    Within (k + m + 1) (readFields · tokens) (field :: fields, rest) := by
  refine .step₂ hfield hfields fun fuel hfield hfields => ?_
  rw [readFields]
  · simp [hfield, hfields]
  · rintro _ rfl
    exact htokens rfl

end Expressions

section Statements

variable {k m n : Nat} {token : Token} {tokens next rest : List Token} {expr : Parsed.Expr}
  {stmt : Parsed.Stmt} {block : Parsed.Block}

theorem endsBlock_eq_false_of_startsStmt (htoken : token.startsStmt) : endsBlock token = false := by
  cases token with
  | keyword keyword => cases keyword <;> first | rfl | cases htoken
  | _ => rfl

theorem endsBlock_eq_false_of_startsExpr (htoken : token.startsExpr) : endsBlock token = false := by
  cases token with
  | keyword keyword => cases keyword <;> first | rfl | cases htoken
  | _ => rfl

theorem startsStmt_of_startsPrefixExpr (htoken : token.startsPrefixExpr) : token.startsStmt := by
  obtain rfl | ⟨word, rfl⟩ := eq_of_startsPrefixExpr htoken
  · rfl
  · rfl

theorem readBlock_of_endsBlock (hrest : EndsBlock rest) :
    Within 1 (readBlock · rest) (⟨[], none⟩, rest) := by
  refine .step₀ fun fuel => ?_
  rw [readBlock.eq_def]
  dsimp only
  split
  · rfl
  · exact absurd (hrest _ rfl) (by decide)
  · exact absurd (hrest _ rfl) (by decide)
  · rw [if_pos (hrest _ rfl)]

theorem readBlock_semicolon {result : Parsed.Block × List Token}
    (hblock : Within k (readBlock · tokens) result) :
    Within (k + 1) (readBlock · (.symbol .semicolon :: tokens)) result := by
  refine .step₁ hblock fun fuel hblock => ?_
  rw [readBlock]
  exact hblock

theorem readBlock_cons (hfirst : Begins (·.startsStmt) tokens)
    (hstmt : Within k (readStmt · tokens) (stmt, next))
    (hblock : Within m (readBlock · next) (block, rest)) :
    Within (k + m + 1) (readBlock · tokens) (block.cons stmt, rest) := by
  obtain ⟨first, others, rfl, htoken⟩ := hfirst
  refine .step₂ hstmt hblock fun fuel hstmt hblock => ?_
  rw [readBlock]
  · simp [endsBlock_eq_false_of_startsStmt htoken, hstmt, hblock]
  · rintro rfl
    cases htoken
  · rintro rfl
    cases htoken

theorem readBlock_return {result : Parsed.Block × List Token}
    (hreturn : Within k (readReturn · tokens) result) :
    Within (k + 1) (readBlock · (.keyword .return :: tokens)) result := by
  refine .step₁ hreturn fun fuel hreturn => ?_
  rw [readBlock]
  exact hreturn

theorem readReturn_of_endsBlock (hrest : EndsBlock rest) :
    Within 1 (readReturn · rest) (⟨[], some []⟩, rest) := by
  refine .step₀ fun fuel => ?_
  rw [readReturn.eq_def]
  dsimp only
  split
  · rfl
  · exact absurd (hrest _ rfl) (by decide)
  · rw [if_pos (hrest _ rfl)]

theorem readReturn_of_readList {values : List Parsed.Expr} (hfirst : Begins (·.startsExpr) tokens)
    (hvalues : Within k (readList · tokens) (values, rest)) (hrest : EndsBlock rest) :
    Within (k + 1) (readReturn · tokens) (⟨[], some values⟩, rest) := by
  obtain ⟨first, others, rfl, htoken⟩ := hfirst
  refine .step₁ hvalues fun fuel hvalues => ?_
  rw [readReturn]
  · simp only [endsBlock_eq_false_of_startsExpr htoken, Bool.false_eq_true, if_false, hvalues,
      Option.bind_eq_bind, Option.bind_some]
    split
    · exact absurd (hrest _ rfl) (by decide)
    · rfl
  · rintro rfl
    cases htoken

/-- A statement that begins with a prefix expression. -/
theorem readStmt_of_readSuffixed (hfirst : Begins (·.startsPrefixExpr) tokens)
    (hexpr : Within k (readSuffixed · tokens) (expr, next))
    (hassign : Within m (readAssign · [expr] next) (stmt, rest)) :
    Within (k + m + 1) (readStmt · tokens) (stmt, rest) := by
  obtain ⟨first, others, rfl, htoken⟩ := hfirst
  refine .step₂ hexpr hassign fun fuel hexpr hassign => ?_
  obtain rfl | ⟨word, rfl⟩ := eq_of_startsPrefixExpr htoken
  · rw [readStmt]
    · simp [hexpr, hassign]
    all_goals simp
  · rw [readStmt]
    · simp [hexpr, hassign]
    all_goals simp

theorem readStmt_local {name : String} {values : List Parsed.Expr}
    (hvalues : Within k (readList · tokens) (values, rest)) :
    Within (k + 1) (readStmt · (.keyword .local :: .name name :: .symbol .assign :: tokens))
      (.local [name] values, rest) := by
  refine .step₁ hvalues fun fuel hvalues => ?_
  rw [readStmt]
  · simp [readNames, hvalues]
  · simp

theorem readStmt_declare (name : String) (rest : List Token) :
    Within 1 (readStmt · (.keyword .local :: .name name :: .symbol .semicolon :: rest))
      (.local [name] [], .symbol .semicolon :: rest) := by
  refine .step₀ fun fuel => ?_
  rw [readStmt]
  · simp [readNames]
  · simp

theorem readStmt_break (rest : List Token) :
    Within 1 (readStmt · (.keyword .break :: rest)) (.break, rest) :=
  .step₀ fun fuel => by rw [readStmt]

theorem readStmt_block (hbody : Within k (readBlock · tokens) (block, .keyword .end :: rest)) :
    Within (k + 1) (readStmt · (.keyword .do :: tokens)) (.block block, rest) := by
  refine .step₁ hbody fun fuel hbody => ?_
  rw [readStmt]
  simp [hbody, expect]

theorem readStmt_cond {others : Parsed.Else} {mid : List Token}
    (htest : Within k (readOperators · 0 tokens) (expr, .keyword .then :: next))
    (hbody : Within m (readBlock · next) (block, mid))
    (hothers : Within n (readElse · mid) (others, rest)) :
    Within (k + m + n + 1) (readStmt · (.keyword .if :: tokens))
      (.cond expr block others, rest) := by
  refine .step₃ htest hbody hothers fun fuel htest hbody hothers => ?_
  rw [readStmt]
  simp [htest, hbody, hothers, expect]

theorem readStmt_while
    (htest : Within k (readOperators · 0 tokens) (expr, .keyword .do :: next))
    (hbody : Within m (readBlock · next) (block, .keyword .end :: rest)) :
    Within (k + m + 1) (readStmt · (.keyword .while :: tokens)) (.while expr block, rest) := by
  refine .step₂ htest hbody fun fuel htest hbody => ?_
  rw [readStmt]
  simp [htest, hbody, expect]

theorem readStmt_repeat
    (hbody : Within k (readBlock · tokens) (block, .keyword .until :: next))
    (htest : Within m (readOperators · 0 next) (expr, rest)) :
    Within (k + m + 1) (readStmt · (.keyword .repeat :: tokens)) (.repeat block expr, rest) := by
  refine .step₂ hbody htest fun fuel hbody htest => ?_
  rw [readStmt]
  simp [htest, hbody, expect]

theorem readFor_in {names : List String} {iterators : List Parsed.Expr} {mid : List Token}
    (hnames : readNames tokens = some (names, .keyword .in :: mid))
    (hiterators : Within k (readList · mid) (iterators, .keyword .do :: next))
    (hbody : Within m (readBlock · next) (block, .keyword .end :: rest)) :
    Within (k + m + 1) (readFor · tokens) (.forIn names iterators block, rest) := by
  refine .step₂ hiterators hbody fun fuel hiterators hbody => ?_
  rw [readFor]
  · simp [hnames, hiterators, hbody, expect]
  · rintro name others rfl
    simp [readNames] at hnames

theorem readStmt_for (hread : Within k (readFor · tokens) (stmt, rest)) :
    Within (k + 1) (readStmt · (.keyword .for :: tokens)) (stmt, rest) := by
  refine .step₁ hread fun fuel hread => ?_
  rw [readStmt]
  exact hread

theorem readElse_end (rest : List Token) :
    Within 1 (readElse · (.keyword .end :: rest)) (.absent, rest) :=
  .step₀ fun fuel => by rw [readElse]

theorem readElse_else (hbody : Within k (readBlock · tokens) (block, .keyword .end :: rest)) :
    Within (k + 1) (readElse · (.keyword .else :: tokens)) (.otherwise block, rest) := by
  refine .step₁ hbody fun fuel hbody => ?_
  rw [readElse]
  simp [hbody, expect]

theorem readElse_elseif {others : Parsed.Else} {mid : List Token}
    (htest : Within k (readOperators · 0 tokens) (expr, .keyword .then :: next))
    (hbody : Within m (readBlock · next) (block, mid))
    (hothers : Within n (readElse · mid) (others, rest)) :
    Within (k + m + n + 1) (readElse · (.keyword .elseif :: tokens))
      (.elseIf expr block others, rest) := by
  refine .step₃ htest hbody hothers fun fuel htest hbody hothers => ?_
  rw [readElse]
  simp [htest, hbody, hothers, expect]

end Statements

end LuaBackend.Lua
