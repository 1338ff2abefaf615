import LuaBackend.Proofs.ReadableCode
import LuaBackend.Proofs.ReaderSteps

/-!
# The tree of printed code

The tokens of readable code are read as the tree that the code stands for.  An expression is read
back in front of every token that cannot go on with it, a block up to the token that ends it.
-/

namespace LuaBackend.Lua

open Parsed

/-! ## How code begins -/

theorem Expr.begins : ∀ (expr : Expr), expr.Readable → Begins (·.startsExpr) expr.tokens
  | .nil, _ | .bool true, _ | .bool false, _ | .numeral _, _ | .str _, _ | .name _, _ =>
    ⟨_, _, rfl, rfl⟩
  | .paren _, _ | .unary .not _, _ | .unary .neg _, _ | .table _, _ | .func .., _ =>
    ⟨_, _, rfl, rfl⟩
  | .unary .plus _, h => absurd rfl h.1
  | .binary op lhs rhs, h => by
    rw [Expr.tokens, List.append_assoc]
    exact (Expr.begins lhs h.2.1).append _
  | .index expr key, h => by
    rw [Expr.tokens, List.append_assoc, List.append_assoc]
    exact (Expr.begins expr h.2.1).append _
  | .call callee args, h => by
    rw [Expr.tokens, List.append_assoc, List.append_assoc]
    exact (Expr.begins callee h.2.1).append _

theorem Expr.begins_of_opensParen : ∀ (expr : Expr), expr.opensParen →
    Begins (· = .symbol .leftParen) expr.tokens
  | .paren expr, _ => ⟨_, _, rfl, rfl⟩
  | .binary op lhs rhs, h => by
    rw [Expr.tokens, List.append_assoc]
    exact (Expr.begins_of_opensParen lhs h).append _
  | .index expr key, h => by
    rw [Expr.tokens, List.append_assoc, List.append_assoc]
    exact (Expr.begins_of_opensParen expr h).append _
  | .call callee args, h => by
    rw [Expr.tokens, List.append_assoc, List.append_assoc]
    exact (Expr.begins_of_opensParen callee h).append _

/-- A prefix expression that does not begin with a parenthesis begins with a name. -/
theorem Expr.begins_of_isPrefixExpr : ∀ (expr : Expr), expr.Readable → expr.isPrefixExpr →
    expr.opensParen = false → Begins (fun token => ∃ word, token = .name word) expr.tokens
  | .name word, _, _, _ => ⟨_, _, rfl, word, rfl⟩
  | .index expr key, h, _, hparen => by
    rw [Expr.tokens, List.append_assoc, List.append_assoc]
    exact (Expr.begins_of_isPrefixExpr expr h.2.1 h.1 hparen).append _
  | .call callee args, h, _, hparen => by
    rw [Expr.tokens, List.append_assoc, List.append_assoc]
    exact (Expr.begins_of_isPrefixExpr callee h.2.1 h.1 hparen).append _

theorem Expr.begins_startsPrefixExpr {expr : Expr} (hexpr : expr.Readable)
    (hform : expr.isPrefixExpr) : Begins (·.startsPrefixExpr) expr.tokens := by
  cases hparen : expr.opensParen with
  | true =>
    refine (Expr.begins_of_opensParen expr hparen).mono ?_
    rintro _ rfl
    rfl
  | false =>
    refine (Expr.begins_of_isPrefixExpr expr hexpr hform hparen).mono ?_
    rintro _ ⟨word, rfl⟩
    rfl

theorem Expr.isPrefixExpr_of_isCall {expr : Expr} (h : expr.isCall) : expr.isPrefixExpr := by
  cases expr <;> first | rfl | cases h

theorem Expr.isPrefixExpr_of_isTarget {expr : Expr} (h : expr.isTarget) : expr.isPrefixExpr := by
  cases expr <;> first | rfl | cases h

/-- With its separator a prefix expression does not go on with what stands before it. -/
theorem Expr.begins_separator {expr : Expr} (hexpr : expr.Readable) (hform : expr.isPrefixExpr) :
    Begins (·.endsStmt) (expr.separator ++ expr.tokens) := by
  cases hparen : expr.opensParen with
  | true => exact ⟨_, _, by rw [Expr.separator, if_pos hparen]; rfl, rfl⟩
  | false =>
    rw [Expr.separator, hparen]
    refine (Expr.begins_of_isPrefixExpr expr hexpr hform hparen).mono ?_
    rintro _ ⟨word, rfl⟩
    rfl

theorem Expr.begins_tokensList : ∀ (exprs : List Expr), Expr.ListReadable exprs → exprs ≠ [] →
    Begins (·.startsExpr) (Expr.tokensList exprs)
  | [expr], h, _ => Expr.begins expr h.1
  | expr :: next :: exprs, h, _ => by
    simp only [Expr.tokensList, List.append_assoc]
    exact (Expr.begins expr h.1).append _

theorem Field.head?_tokens {field : Field} (h : field.Readable) (rest : List Token) :
    (field.tokens ++ rest).head? ≠ some (.symbol .rightBrace) := by
  cases field with
  | item value =>
    obtain ⟨_, others, htokens, rfl⟩ := Expr.begins_of_opensParen value h.1
    simp [Field.tokens, htokens]
  | keyed key value => simp [Field.tokens]
  | named name value => simp [Field.tokens]

theorem Stmt.begins {style : Style} {stmt : Stmt} (h : stmt.Readable style) :
    Begins (·.endsStmt) stmt.tokens := by
  cases stmt with
  | expr expr => exact Expr.begins_separator h.2.2 (Expr.isPrefixExpr_of_isCall h.2.1)
  | assign target value =>
    rw [Stmt.tokens, ← List.append_assoc, ← List.append_assoc, List.append_assoc]
    exact (Expr.begins_separator h.2.2.1 (Expr.isPrefixExpr_of_isTarget h.2.1)).append _
  | ret value => cases value <;> exact ⟨_, _, rfl, rfl⟩
  | _ => exact ⟨_, _, rfl, rfl⟩

theorem Stmt.endsStmt_tokensList {style : Style} {stmts : List Stmt} {rest : List Token}
    (h : Stmt.ListReadable style stmts) (hrest : EndsStmt rest) :
    EndsStmt (Stmt.tokensList stmts ++ rest) := by
  cases stmts with
  | nil => exact hrest
  | cons stmt stmts =>
    obtain ⟨first, others, htokens, hfirst⟩ := Stmt.begins h.1
    rw [Stmt.tokensList, htokens]
    rintro _ ⟨⟩
    exact hfirst

theorem Else.endsBlock_tokens (others : Else) (rest : List Token) :
    EndsBlock (others.tokens ++ .keyword .end :: rest) := by
  cases others with
  | absent => exact endsBlock_cons rfl
  | otherwise body => exact endsBlock_cons rfl
  | elseIf test body others => exact endsBlock_cons rfl

theorem UnaryOp.ofToken?_token {op : UnaryOp} (hop : op ≠ .plus) :
    ∃ parsed, op.parsed? = some parsed ∧ Parsed.UnaryOp.ofToken? op.token = some parsed := by
  cases op with
  | not => exact ⟨_, rfl, rfl⟩
  | neg => exact ⟨_, rfl, rfl⟩
  | plus => exact absurd rfl hop

theorem BinaryOp.ofToken?_token (op : BinaryOp) :
    Parsed.BinaryOp.ofToken? op.token = some op.parsed ∧ op.token.startsSuffix = false ∧
      0 < op.parsed.priority.1 := by
  cases op <;> exact ⟨rfl, rfl, by decide⟩

/-! ## Steps on code -/

theorem readNames_nameTokens (rest : List Token) : ∀ (names : List String), names ≠ [] →
    readNames (nameTokens names ++ .keyword .in :: rest) = some (names, .keyword .in :: rest)
  | [name], _ => rfl
  | name :: next :: names, _ => by
    have hnames := readNames_nameTokens rest (next :: names) (by simp)
    simp only [nameTokens, List.cons_append, readNames, hnames, Option.map_some]

theorem readParamList_nameTokens (rest : List Token) : ∀ (params : List String), params ≠ [] →
    readParamList (nameTokens params ++ .symbol .rightParen :: rest) = some ((params, false), rest)
  | [name], _ => rfl
  | name :: next :: names, _ => by
    have hnames := readParamList_nameTokens rest (next :: names) (by simp)
    simp only [nameTokens, List.cons_append, readParamList, hnames, Option.map_some]

theorem readParams_nameTokens (rest : List Token) : ∀ (params : List String),
    readParams (nameTokens params ++ .symbol .rightParen :: rest) = some ((params, false), rest)
  | [] | [_] => rfl
  | name :: next :: names => readParamList_nameTokens rest (name :: next :: names) (by simp)

section

variable {k : Nat} {tokens rest : List Token}

theorem readBlock_separator (expr : Expr) {result : Parsed.Block × List Token}
    (hblock : Within k (readBlock · tokens) result) :
    Within (k + 8 * expr.separator.length) (readBlock · (expr.separator ++ tokens)) result := by
  rw [Expr.separator]
  split
  · exact (readBlock_semicolon hblock).mono (by simp)
  · exact hblock

theorem readAssign_single (target : Expr) (htarget : target.isTarget)
    {value : Parsed.Expr} (hvalue : Within k (readOperators · 0 tokens) (value, rest))
    (hrest : EndsStmt rest) :
    Within (k + 2) (readAssign · [target.parsed] (.symbol .assign :: tokens))
      (.assign [target.parsed] [value], rest) := by
  have hlist := readList_single hvalue hrest.head?_ne_comma
  refine .step₁ hlist fun fuel hlist => ?_
  rw [readAssign]
  cases target with
  | name word => simp [Expr.parsed, hlist]
  | index expr key => simp [Expr.parsed, hlist]
  | _ => cases htarget

theorem readAssign_call {expr : Expr} (hexpr : expr.isCall) (hrest : EndsStmt rest) :
    Within 1 (readAssign · [expr.parsed] rest) (.call expr.parsed, rest) := by
  refine .step₀ fun fuel => ?_
  cases expr with
  | call callee args =>
    rw [readAssign.eq_def]
    dsimp only
    split
    · cases hrest _ rfl
    · cases hrest _ rfl
    · rfl
  | _ => cases hexpr

/-- Arguments in parentheses. -/
theorem readArgs_tokensList {args : List Expr}
    (hreadable : Expr.ListReadable args)
    (hargs : args ≠ [] → Within (8 * (Expr.tokensList args).length - 2)
      (readList · (Expr.tokensList args ++ .symbol .rightParen :: rest))
      (Expr.parsedList args, .symbol .rightParen :: rest)) :
    Within (8 * (Expr.tokensList args).length + 1)
      (readArgs · (.symbol .leftParen :: (Expr.tokensList args ++ .symbol .rightParen :: rest)))
      (Expr.parsedList args, rest) := by
  cases args with
  | nil => exact readArgs_empty rest
  | cons arg args =>
    have hfirst := Expr.begins_tokensList (arg :: args) hreadable (by simp)
    exact (readArgs_paren (hfirst.append _) (hargs (by simp))).mono (by omega)

/-- A statement that begins with a prefix expression, behind its separator. -/
theorem readBlock_of_prefixExpr {expr : Expr} {stmt : Parsed.Stmt} {block : Parsed.Block}
    {mid next : List Token} {m n : Nat} (hexpr : expr.Readable) (hform : expr.isPrefixExpr)
    (hread : Within k (readSuffixed · (expr.tokens ++ tokens)) (expr.parsed, mid))
    (hassign : Within m (readAssign · [expr.parsed] mid) (stmt, next))
    (hblock : Within n (readBlock · next) (block, rest)) :
    Within (k + m + n + 2 + 8 * expr.separator.length)
      (readBlock · (expr.separator ++ (expr.tokens ++ tokens))) (block.cons stmt, rest) := by
  have hfirst := (Expr.begins_startsPrefixExpr hexpr hform).append tokens
  have hstmt := readStmt_of_readSuffixed hfirst hread hassign
  have hread := readBlock_cons (hfirst.mono fun _ => startsStmt_of_startsPrefixExpr) hstmt hblock
  exact (readBlock_separator expr hread).mono (by omega)

end

/-! ## Code

Eight units of fuel for each token are enough.  An expression leaves some of them over, which pay
for the steps from the statement down to it. -/

/-- How an expression is read back: a prefix expression up to its suffixes, an operand up to the
operators behind it, and a whole expression. -/
structure Expr.ReadsBack (expr : Expr) : Prop where
  ofPrefix : expr.isPrefixExpr → ∀ {bound rest result},
    Within bound (readSuffixes · expr.parsed rest) result →
      Within (bound + 8 * expr.tokens.length - 7) (readSuffixed · (expr.tokens ++ rest)) result
  ofOperand : expr.isOperand → ∀ {bound limit rest result}, EndsOperand rest →
    Within bound (readBinary · limit expr.parsed rest) result →
      Within (bound + 8 * expr.tokens.length - 4) (readOperators · limit (expr.tokens ++ rest))
        result
  ofExpr : ∀ rest, EndsExpr rest →
    Within (8 * expr.tokens.length - 3) (readOperators · 0 (expr.tokens ++ rest))
      (expr.parsed, rest)

namespace Expr.ReadsBack

variable {expr : Expr}

/-- An operand is read in one go. -/
theorem of_simple
    (hform : expr.isPrefixExpr → ∀ {bound rest result},
      Within bound (readSuffixes · expr.parsed rest) result →
        Within (bound + 8 * expr.tokens.length - 7) (readSuffixed · (expr.tokens ++ rest)) result)
    (hfirst : Begins (Parsed.UnaryOp.ofToken? · = none) expr.tokens)
    (hsimple : ∀ rest, EndsOperand rest →
      Within (8 * expr.tokens.length - 5) (readSimple · (expr.tokens ++ rest))
        (expr.parsed, rest)) :
    expr.ReadsBack := by
  have hlength := hfirst.length_pos
  have hoperand {bound limit rest result} (hrest : EndsOperand rest)
      (hnext : Within bound (readBinary · limit expr.parsed rest) result) :
      Within (bound + 8 * expr.tokens.length - 4) (readOperators · limit (expr.tokens ++ rest))
        result :=
    (readOperators_of_readSimple (hfirst.append rest) (hsimple rest hrest) hnext).mono (by omega)
  refine ⟨hform, fun _ => hoperand, fun rest hrest => ?_⟩
  exact (hoperand hrest.endsOperand (readBinary_of_endsExpr 0 expr.parsed hrest)).mono (by omega)

/-- A prefix expression is an operand with all its suffixes. -/
theorem of_prefixExpr (hreadable : expr.Readable) (hexpr : expr.isPrefixExpr)
    (hread : ∀ {bound rest result}, Within bound (readSuffixes · expr.parsed rest) result →
      Within (bound + 8 * expr.tokens.length - 7) (readSuffixed · (expr.tokens ++ rest)) result) :
    expr.ReadsBack := by
  have hfirst := Expr.begins_startsPrefixExpr hreadable hexpr
  have hlength := hfirst.length_pos
  have hoperator : Begins (Parsed.UnaryOp.ofToken? · = none) expr.tokens := by
    refine hfirst.mono fun token htoken => ?_
    obtain rfl | ⟨word, rfl⟩ := eq_of_startsPrefixExpr htoken
    · rfl
    · rfl
  refine of_simple (fun _ => hread) hoperator fun rest hrest => ?_
  have hread := hread (readSuffixes_of_endsOperand expr.parsed hrest)
  exact (readSimple_of_readSuffixed (hfirst.append rest) hread).mono (by omega)

end Expr.ReadsBack

mutual

theorem Expr.readsBack : ∀ (expr : Expr), expr.Readable → expr.ReadsBack
  | .nil, _ => .of_simple nofun ⟨_, _, rfl, rfl⟩ fun rest _ => by
    refine Within.mono (.step₀ fun fuel => ?_) (by decide)
    rw [Expr.tokens, List.singleton_append, readSimple, Expr.parsed]
  | .bool true, _ => .of_simple nofun ⟨_, _, rfl, rfl⟩ fun rest _ => by
    refine Within.mono (.step₀ fun fuel => ?_) (by decide)
    rw [Expr.tokens, List.singleton_append, readSimple, Expr.parsed]
  | .bool false, _ => .of_simple nofun ⟨_, _, rfl, rfl⟩ fun rest _ => by
    refine Within.mono (.step₀ fun fuel => ?_) (by decide)
    rw [Expr.tokens, List.singleton_append, readSimple, Expr.parsed]
  | .numeral digits, _ => .of_simple nofun ⟨_, _, rfl, rfl⟩ fun rest _ => by
    refine Within.mono (.step₀ fun fuel => ?_) (by simp [Expr.tokens])
    rw [Expr.tokens, List.singleton_append, readSimple, Expr.parsed]
  | .str value, _ => .of_simple nofun ⟨_, _, rfl, rfl⟩ fun rest _ => by
    refine Within.mono (.step₀ fun fuel => ?_) (by simp [Expr.tokens])
    rw [Expr.tokens, List.singleton_append, readSimple, Expr.parsed]
  | .name word, h => .of_prefixExpr h rfl fun hnext => by
    rw [Expr.parsed] at hnext
    simp only [Expr.tokens, List.cons_append, List.nil_append, List.length_cons, List.length_nil]
    exact (readSuffixed_name hnext).mono (by omega)
  | .paren expr, h => .of_prefixExpr h rfl fun {bound rest result} hnext => by
    have hexpr := (Expr.readsBack expr h).ofExpr (.symbol .rightParen :: rest)
      (endsExpr_cons rfl rfl)
    rw [Expr.parsed] at hnext
    simp only [Expr.tokens, List.append_assoc, List.cons_append, List.nil_append,
      List.length_append, List.length_cons, List.length_nil]
    exact (readSuffixed_paren hexpr hnext).mono (by omega)
  | .unary op expr, h => by
    obtain ⟨hop, hoperand, hexpr⟩ := h
    obtain ⟨parsed, hparsed, htoken⟩ := UnaryOp.ofToken?_token hop
    refine ⟨nofun, nofun, fun rest hrest => ?_⟩
    have hread := (Expr.readsBack expr hexpr).ofOperand hoperand hrest.endsOperand
      (readBinary_of_endsExpr Parsed.UnaryOp.priority _ hrest)
    simp only [Expr.tokens, Expr.parsed, hparsed, List.cons_append, List.nil_append,
      List.length_cons]
    exact (readOperators_unary htoken hread (readBinary_of_endsExpr _ _ hrest)).mono (by omega)
  | .binary op lhs rhs, h => by
    obtain ⟨hlhsOperand, hlhs, hrhsOperand, hrhs⟩ := h
    obtain ⟨htoken, hsuffix, hpriority⟩ := BinaryOp.ofToken?_token op
    refine ⟨nofun, nofun, fun rest hrest => ?_⟩
    have hright := (Expr.readsBack rhs hrhs).ofOperand hrhsOperand hrest.endsOperand
      (readBinary_of_endsExpr op.parsed.priority.2 _ hrest)
    have hnext := readBinary_operator htoken hpriority hright
      (readBinary_of_endsExpr 0 (.binary op.parsed lhs.parsed rhs.parsed) hrest)
    have hoperand : EndsOperand (op.token :: (rhs.tokens ++ rest)) := by
      rintro _ ⟨⟩
      exact hsuffix
    have hleft := (Expr.readsBack lhs hlhs).ofOperand hlhsOperand hoperand hnext
    simp only [Expr.tokens, Expr.parsed, List.append_assoc, List.cons_append, List.nil_append,
      List.length_append, List.length_cons]
    exact hleft.mono (by omega)
  | .index expr key, h => .of_prefixExpr h rfl fun {bound rest result} hnext => by
    obtain ⟨hform, hexpr, hkey⟩ := h
    have hkey := (Expr.readsBack key hkey).ofExpr (.symbol .rightBracket :: rest)
      (endsExpr_cons rfl rfl)
    rw [Expr.parsed] at hnext
    simp only [Expr.tokens, List.append_assoc, List.cons_append, List.nil_append,
      List.length_append, List.length_cons, List.length_nil]
    have hread := (Expr.readsBack expr hexpr).ofPrefix hform (readSuffixes_index hkey hnext)
    exact hread.mono (by omega)
  | .call callee args, h => .of_prefixExpr h rfl fun {bound rest result} hnext => by
    obtain ⟨hform, hcallee, hargs⟩ := h
    have hargs := readArgs_tokensList hargs fun hne =>
      Expr.readList_tokensList args hargs hne (.symbol .rightParen :: rest) (endsExpr_cons rfl rfl)
        (by simp)
    rw [Expr.parsed] at hnext
    simp only [Expr.tokens, List.append_assoc, List.cons_append, List.nil_append,
      List.length_append, List.length_cons, List.length_nil]
    have hread := (Expr.readsBack callee hcallee).ofPrefix hform (readSuffixes_call hargs hnext)
    exact hread.mono (by omega)
  | .table fields, h => .of_simple nofun ⟨_, _, rfl, rfl⟩ fun rest _ => by
    have hfields := Field.readFields_tokensList fields h rest
    simp only [Expr.tokens, Expr.parsed, List.append_assoc, List.cons_append, List.nil_append,
      List.length_append, List.length_cons, List.length_nil]
    exact (readSimple_table hfields).mono (by omega)
  | .func style params body, h => .of_simple nofun ⟨_, _, rfl, rfl⟩ fun rest _ => by
    have hbody := Stmt.readBlock_tokensList body h.2 (.keyword .end :: rest) (endsBlock_cons rfl)
    simp only [Expr.tokens, Expr.parsed, List.append_assoc, List.cons_append, List.nil_append,
      List.length_append, List.length_cons, List.length_nil]
    have hread := readFunction_of_readParams (readParams_nameTokens _ params) hbody
    exact (readSimple_function hread).mono (by omega)

theorem Expr.readList_tokensList : ∀ (exprs : List Expr), Expr.ListReadable exprs → exprs ≠ [] →
    ∀ rest, EndsExpr rest → rest.head? ≠ some (.symbol .comma) →
      Within (8 * (Expr.tokensList exprs).length - 2) (readList · (Expr.tokensList exprs ++ rest))
        (Expr.parsedList exprs, rest)
  | [expr], h, _, rest, hrest, hcomma => by
    have hlength := (Expr.begins expr h.1).length_pos
    have hexpr := (Expr.readsBack expr h.1).ofExpr rest hrest
    simp only [Expr.tokensList, Expr.parsedList]
    exact (readList_single hexpr hcomma).mono (by omega)
  | expr :: next :: exprs, h, _, rest, hrest, hcomma => by
    have hexpr := (Expr.readsBack expr h.1).ofExpr
      (.symbol .comma :: (Expr.tokensList (next :: exprs) ++ rest)) (endsExpr_cons rfl rfl)
    have hexprs := Expr.readList_tokensList (next :: exprs) h.2 (by simp) rest hrest hcomma
    rw [Expr.tokensList, Expr.parsedList, List.append_assoc, List.append_assoc]
    · refine (readList_cons hexpr hexprs).mono ?_
      simp only [List.length_append, List.length_cons, List.length_nil]
      omega
    · simp

theorem Field.readField_tokens : ∀ (field : Field), field.Readable → ∀ rest, EndsExpr rest →
    Within (8 * field.tokens.length) (readField · (field.tokens ++ rest)) (field.parsed, rest)
  | .item value, h, rest, hrest => by
    have hfirst := Expr.begins_of_opensParen value h.1
    have hlength := hfirst.length_pos
    have hvalue := (Expr.readsBack value h.2).ofExpr rest hrest
    rw [Field.tokens, Field.parsed]
    exact (readField_item (hfirst.append rest) hvalue).mono (by omega)
  | .keyed key value, h, rest, hrest => by
    have hkey := (Expr.readsBack key h.1).ofExpr
      (.symbol .rightBracket :: .symbol .assign :: (value.tokens ++ rest)) (endsExpr_cons rfl rfl)
    have hvalue := (Expr.readsBack value h.2).ofExpr rest hrest
    simp only [Field.tokens, Field.parsed, List.append_assoc, List.cons_append, List.nil_append,
      List.length_append, List.length_cons]
    exact (readField_keyed hkey hvalue).mono (by omega)
  | .named name value, h, rest, hrest => by
    have hvalue := (Expr.readsBack value h.2).ofExpr rest hrest
    simp only [Field.tokens, Field.parsed, List.cons_append, List.nil_append, List.length_cons]
    exact (readField_named hvalue).mono (by omega)

theorem Field.readFields_tokensList : ∀ (fields : List Field), Field.ListReadable fields → ∀ rest,
    Within (8 * (Field.tokensList fields).length + 1)
      (readFields · (Field.tokensList fields ++ .symbol .rightBrace :: rest))
      (Field.parsedList fields, rest)
  | [], _, rest => readFields_empty rest
  | [field], h, rest => by
    have hfield := Field.readField_tokens field h.1 (.symbol .rightBrace :: rest)
      (endsExpr_cons rfl rfl)
    exact readFields_single (Field.head?_tokens h.1 _) hfield
  | field :: next :: fields, h, rest => by
    have hfield := Field.readField_tokens field h.1
      (.symbol .comma :: (Field.tokensList (next :: fields) ++ .symbol .rightBrace :: rest))
      (endsExpr_cons rfl rfl)
    have hfields := Field.readFields_tokensList (next :: fields) h.2 rest
    rw [Field.tokensList, Field.parsedList, List.append_assoc, List.append_assoc]
    · refine (readFields_cons (Field.head?_tokens h.1 _) hfield hfields).mono ?_
      simp only [List.length_append, List.length_cons, List.length_nil]
      omega
    · simp

theorem Stmt.readBlock_tokens {style : Style} : ∀ (stmt : Stmt), stmt.Readable style →
    ∀ {bound rest after next}, EndsStmt rest → (stmt.isRet → EndsBlock rest) →
      Within bound (readBlock · rest) (next, after) →
        Within (bound + 8 * stmt.tokens.length) (readBlock · (stmt.tokens ++ rest))
          (stmt.parsed next, after)
  | .expr expr, h, bound, rest, after, next, hrest, _, hnext => by
    obtain ⟨-, hcall, hexpr⟩ := h
    have hform := Expr.isPrefixExpr_of_isCall hcall
    have hlength := (Expr.begins expr hexpr).length_pos
    have hread := (Expr.readsBack expr hexpr).ofPrefix hform
      (readSuffixes_of_endsOperand _ hrest.endsExpr.endsOperand)
    simp only [Stmt.tokens, Stmt.parsed, List.append_assoc, List.length_append]
    exact (readBlock_of_prefixExpr hexpr hform hread (readAssign_call hcall hrest) hnext).mono
      (by omega)
  | .assign target value, h, bound, rest, after, next, hrest, _, hnext => by
    obtain ⟨-, htarget, hreadable, hvalue⟩ := h
    have hform := Expr.isPrefixExpr_of_isTarget htarget
    have hends : EndsExpr (.symbol .assign :: (value.tokens ++ rest)) := endsExpr_cons rfl rfl
    have hvalue := (Expr.readsBack value hvalue).ofExpr rest hrest.endsExpr
    have hread := (Expr.readsBack target hreadable).ofPrefix hform
      (readSuffixes_of_endsOperand _ hends.endsOperand)
    have hassign := readAssign_single target htarget hvalue hrest
    simp only [Stmt.tokens, Stmt.parsed, List.append_assoc, List.cons_append, List.nil_append,
      List.length_append, List.length_cons]
    exact (readBlock_of_prefixExpr hreadable hform hread hassign hnext).mono (by omega)
  | .localVar name value, h, bound, rest, after, next, hrest, _, hnext => by
    have hvalue := (Expr.readsBack value h.2).ofExpr rest hrest.endsExpr
    have hlist := readList_single hvalue hrest.head?_ne_comma
    simp only [Stmt.tokens, Stmt.parsed, List.cons_append, List.nil_append, List.length_cons]
    exact (readBlock_cons ⟨_, _, rfl, rfl⟩ (readStmt_local hlist) hnext).mono (by omega)
  | .localRec name value, h, bound, rest, after, next, hrest, _, hnext => by
    have hvalue := (Expr.readsBack value h.2).ofExpr rest hrest.endsExpr
    have hends : EndsExpr (.symbol .assign :: (value.tokens ++ rest)) := endsExpr_cons rfl rfl
    have hread := readSuffixed_name (readSuffixes_of_endsOperand (.name name) hends.endsOperand)
    have hassign := readAssign_single (.name name) rfl hvalue hrest
    have hstmt := readStmt_of_readSuffixed ⟨_, _, rfl, rfl⟩ hread hassign
    have hblock := readBlock_semicolon (readBlock_cons ⟨_, _, rfl, rfl⟩ hstmt hnext)
    simp only [Stmt.tokens, Stmt.parsed, List.cons_append, List.nil_append, List.length_cons]
    exact (readBlock_cons ⟨_, _, rfl, rfl⟩ (readStmt_declare name _) hblock).mono (by omega)
  | .ret none, _, bound, rest, after, next, _, hends, hnext => by
    obtain ⟨rfl, rfl⟩ := Prod.mk.inj ((readBlock_of_endsBlock (hends rfl)).unique hnext)
    simp only [Stmt.tokens, Stmt.parsed, List.cons_append, List.nil_append, List.length_cons]
    exact (readBlock_return (readReturn_of_endsBlock (hends rfl))).mono (by omega)
  | .ret (some value), h, bound, rest, after, next, hrest, hends, hnext => by
    obtain ⟨rfl, rfl⟩ := Prod.mk.inj ((readBlock_of_endsBlock (hends rfl)).unique hnext)
    have hvalue := (Expr.readsBack value h).ofExpr rest hrest.endsExpr
    have hlist := readList_single hvalue hrest.head?_ne_comma
    have hreturn := readReturn_of_readList ((Expr.begins value h).append rest) hlist (hends rfl)
    simp only [Stmt.tokens, Stmt.parsed, List.cons_append, List.nil_append, List.length_cons]
    exact (readBlock_return hreturn).mono (by omega)
  | .break, _, bound, rest, after, next, _, _, hnext => by
    simp only [Stmt.tokens, Stmt.parsed, List.cons_append, List.nil_append, List.length_cons]
    exact (readBlock_cons ⟨_, _, rfl, rfl⟩ (readStmt_break rest) hnext).mono (by omega)
  | .block own body, h, bound, rest, after, next, _, _, hnext => by
    have hbody := Stmt.readBlock_tokensList body h (.keyword .end :: rest) (endsBlock_cons rfl)
    simp only [Stmt.tokens, Stmt.parsed, List.append_assoc, List.cons_append, List.nil_append,
      List.length_append, List.length_cons, List.length_nil]
    exact (readBlock_cons ⟨_, _, rfl, rfl⟩ (readStmt_block hbody) hnext).mono (by omega)
  | .cond own test body others, h, bound, rest, after, next, _, _, hnext => by
    obtain ⟨htest, hbody, hothers⟩ := h
    have htest := (Expr.readsBack test htest).ofExpr
      (.keyword .then :: (Stmt.tokensList body ++ (others.tokens ++ .keyword .end :: rest)))
      (endsExpr_cons rfl rfl)
    have hbody := Stmt.readBlock_tokensList body hbody (others.tokens ++ .keyword .end :: rest)
      (Else.endsBlock_tokens others rest)
    have hothers := Else.readElse_tokens others hothers rest
    simp only [Stmt.tokens, Stmt.parsed, List.append_assoc, List.cons_append, List.nil_append,
      List.length_append, List.length_cons, List.length_nil]
    exact (readBlock_cons ⟨_, _, rfl, rfl⟩ (readStmt_cond htest hbody hothers) hnext).mono
      (by omega)
  | .whileLoop test body, h, bound, rest, after, next, _, _, hnext => by
    obtain ⟨htest, hbody⟩ := h
    have htest := (Expr.readsBack test htest).ofExpr
      (.keyword .do :: (Stmt.tokensList body ++ .keyword .end :: rest)) (endsExpr_cons rfl rfl)
    have hbody := Stmt.readBlock_tokensList body hbody (.keyword .end :: rest) (endsBlock_cons rfl)
    simp only [Stmt.tokens, Stmt.parsed, List.append_assoc, List.cons_append, List.nil_append,
      List.length_append, List.length_cons, List.length_nil]
    exact (readBlock_cons ⟨_, _, rfl, rfl⟩ (readStmt_while htest hbody) hnext).mono (by omega)
  | .repeatLoop body test, h, bound, rest, after, next, hrest, _, hnext => by
    obtain ⟨htest, hbody⟩ := h
    have htest := (Expr.readsBack test htest).ofExpr rest hrest.endsExpr
    have hbody := Stmt.readBlock_tokensList body hbody (.keyword .until :: (test.tokens ++ rest))
      (endsBlock_cons rfl)
    simp only [Stmt.tokens, Stmt.parsed, List.append_assoc, List.cons_append, List.nil_append,
      List.length_append, List.length_cons]
    exact (readBlock_cons ⟨_, _, rfl, rfl⟩ (readStmt_repeat hbody htest) hnext).mono (by omega)
  | .forIn names iterator body, h, bound, rest, after, next, _, _, hnext => by
    obtain ⟨hne, -, hiterator, hbody⟩ := h
    have hiterator := (Expr.readsBack iterator hiterator).ofExpr
      (.keyword .do :: (Stmt.tokensList body ++ .keyword .end :: rest)) (endsExpr_cons rfl rfl)
    have hlist := readList_single hiterator (by simp)
    have hbody := Stmt.readBlock_tokensList body hbody (.keyword .end :: rest) (endsBlock_cons rfl)
    simp only [Stmt.tokens, Stmt.parsed, List.append_assoc, List.cons_append, List.nil_append,
      List.length_append, List.length_cons, List.length_nil]
    have hread := readFor_in (readNames_nameTokens _ names hne) hlist hbody
    exact (readBlock_cons ⟨_, _, rfl, rfl⟩ (readStmt_for hread) hnext).mono (by omega)

theorem Stmt.readBlock_tokensList {style : Style} : ∀ (stmts : List Stmt),
    Stmt.ListReadable style stmts → ∀ rest, EndsBlock rest →
      Within (8 * (Stmt.tokensList stmts).length + 1) (readBlock · (Stmt.tokensList stmts ++ rest))
        (Stmt.parsedBlock stmts, rest)
  | [], _, rest, hrest => readBlock_of_endsBlock hrest
  | stmt :: stmts, h, rest, hrest => by
    obtain ⟨hstmt, hret, hstmts⟩ := h
    have hnext := Stmt.readBlock_tokensList stmts hstmts rest hrest
    have hends : stmt.isRet → EndsBlock (Stmt.tokensList stmts ++ rest) := by
      intro hisRet
      rw [hret hisRet]
      exact hrest
    have hread := Stmt.readBlock_tokens stmt hstmt
      (Stmt.endsStmt_tokensList hstmts hrest.endsStmt) hends hnext
    simp only [Stmt.tokensList, Stmt.parsedBlock, List.append_assoc, List.length_append]
    exact hread.mono (by omega)

theorem Else.readElse_tokens {style : Style} : ∀ (others : Else), others.Readable style → ∀ rest,
    Within (8 * others.tokens.length + 1) (readElse · (others.tokens ++ .keyword .end :: rest))
      (others.parsed, rest)
  | .absent, _, rest => readElse_end rest
  | .otherwise body, h, rest => by
    have hbody := Stmt.readBlock_tokensList body h (.keyword .end :: rest) (endsBlock_cons rfl)
    simp only [Else.tokens, Else.parsed, List.cons_append, List.nil_append, List.length_cons]
    exact (readElse_else hbody).mono (by omega)
  | .elseIf test body others, h, rest => by
    obtain ⟨htest, hbody, hothers⟩ := h
    have htest := (Expr.readsBack test htest).ofExpr
      (.keyword .then :: (Stmt.tokensList body ++ (others.tokens ++ .keyword .end :: rest)))
      (endsExpr_cons rfl rfl)
    have hbody := Stmt.readBlock_tokensList body hbody (others.tokens ++ .keyword .end :: rest)
      (Else.endsBlock_tokens others rest)
    have hothers := Else.readElse_tokens others hothers rest
    simp only [Else.tokens, Else.parsed, List.append_assoc, List.cons_append, List.nil_append,
      List.length_append, List.length_cons]
    exact (readElse_elseif htest hbody hothers).mono (by omega)

end

end LuaBackend.Lua
