import LuaBackend.Proofs.Lexemes
import LuaBackend.Proofs.ReadableCode

/-!
# The tokens of printed code

Readable code, printed at any level with an indentation of blanks, is cut into its own tokens.
A statement that takes whole lines is so cut in front of everything; within a line, a word must not
run on.
-/

namespace LuaBackend.Lua

open Layout

/-! ## Characters of a layout -/

namespace Layout

def chars (indent : List Char) (layout : Layout) : List Char :=
  layout.flatMap fun piece => (List.replicate piece.level indent).flatten ++ piece.text.toList

theorem toList_render (indent : String) (layout : Layout) :
    (layout.render indent).toList = layout.chars indent.toList := by
  rw [render, String.toList_join, chars, List.flatMap_map]
  congr
  funext piece
  simp [Piece.render, String.toList_join, List.flatMap_def]

variable {indent : List Char}

@[simp] theorem chars_nil : chars indent [] = [] := rfl

@[simp] theorem chars_cons (piece : Piece) (rest : Layout) :
    chars indent (piece :: rest) =
      (List.replicate piece.level indent).flatten ++ piece.text.toList ++ rest.chars indent :=
  List.flatMap_cons

@[simp] theorem chars_append (layout rest : Layout) :
    chars indent (layout ++ rest) = layout.chars indent ++ rest.chars indent :=
  List.flatMap_append

@[simp] theorem chars_text (content : String) : (text content).chars indent = content.toList := by
  simp [chars, text]

/-- The layout begins with a character that is not indented. -/
def Leads (c : Char) : Layout → Prop
  | [] => False
  | piece :: _ => piece.level = 0 ∧ piece.text.toList.head? = some c

variable {c : Char} {layout : Layout}

theorem leads_text {content : String} (h : content.toList.head? = some c) :
    (text content).Leads c :=
  ⟨rfl, h⟩

theorem Leads.append (h : layout.Leads c) (rest : Layout) : Leads c (layout ++ rest) := by
  cases layout with
  | nil => cases h
  | cons piece pieces => exact h

theorem Leads.head?_eq (h : layout.Leads c) : layout.head? = some c := by
  cases layout with
  | nil => cases h
  | cons piece pieces =>
    obtain ⟨cs, hcs⟩ := List.head?_eq_some_iff.mp h.2
    simp [head?, hcs]

theorem Leads.exists_chars_eq (indent : List Char) (h : layout.Leads c) :
    ∃ cs, layout.chars indent = c :: cs := by
  cases layout with
  | nil => cases h
  | cons piece pieces =>
    obtain ⟨cs, hcs⟩ := List.head?_eq_some_iff.mp h.2
    exact ⟨cs ++ chars indent pieces, by simp [chars, h.1, hcs]⟩

/-- What the first character decides holds of the text with anything behind it. -/
theorem Leads.avoids (h : layout.Leads c) {excluded : List Char} (hc : c ∉ excluded)
    (rest : List Char) : avoids excluded (layout.chars indent ++ rest) := by
  obtain ⟨cs, hcs⟩ := h.exists_chars_eq indent
  rw [hcs, List.cons_append, Lua.avoids]
  simpa using hc

end Layout

/-! ## The first character of an expression -/

def Expr.lead : Expr → Char
  | .nil => 'n'
  | .bool true => 't'
  | .bool false => 'f'
  | .numeral digits => digits.toList.headD ' '
  | .str _ => '"'
  | .name word => word.toList.headD ' '
  | .paren _ => '('
  | .unary .not _ => 'n'
  | .unary .neg _ => '-'
  | .unary .plus _ => '+'
  | .binary _ lhs _ => lhs.lead
  | .index expr _ => expr.lead
  | .call callee _ => callee.lead
  | .table _ => '\x7b'
  | .func .. => 'f'

theorem Expr.leads_layout (level : Nat) :
    ∀ {expr : Expr}, expr.Readable → (expr.layout level).Leads expr.lead
  | .nil, _ => by exact leads_text rfl
  | .bool true, _ => by exact leads_text rfl
  | .bool false, _ => by exact leads_text rfl
  | .numeral digits, h => by
    rw [Expr.layout, Expr.lead]
    rw [Expr.Readable, isNumeral, Bool.and_eq_true] at h
    cases hcs : digits.toList with
    | nil => simp [hcs, startsNumeral] at h
    | cons c cs => exact leads_text (by simp [hcs])
  | .str value, _ => by
    rw [Expr.layout, Expr.lead]
    exact leads_text (by simp [quote])
  | .name word, h => by
    obtain ⟨c, cs, hcs, -⟩ := exists_toList_of_isName h
    rw [Expr.layout, Expr.lead]
    exact leads_text (by simp [hcs])
  | .paren expr, _ => by
    rw [Expr.layout]
    exact ((leads_text rfl).append _).append _
  | .unary .not expr, _ => by
    rw [Expr.layout]
    exact (leads_text rfl).append _
  | .unary .neg expr, _ => by
    rw [Expr.layout]
    exact (leads_text rfl).append _
  | .unary .plus expr, _ => by
    rw [Expr.layout]
    exact (leads_text rfl).append _
  | .binary op lhs rhs, h => by
    rw [Expr.layout]
    exact ((Expr.leads_layout level h.2.1).append _).append _
  | .index expr key, h => by
    rw [Expr.layout]
    exact (((Expr.leads_layout level h.2.1).append _).append _).append _
  | .call callee args, h => by
    rw [Expr.layout]
    exact (((Expr.leads_layout level h.2.1).append _).append _).append _
  | .table fields, _ => by
    rw [Expr.layout]
    exact ((leads_text rfl).append _).append _
  | .func .inline params body, _ => by
    rw [Expr.layout]
    exact ((leads_text (by simp [functionHead, Expr.lead])).append _).append _
  | .func .lines params body, _ => by
    rw [Expr.layout]
    exact ((leads_text (by simp [functionHead, Expr.lead])).append _).append _

theorem not_mem_of_isNameStart {c : Char} (hc : isNameStart c) : c ∉ ['[', '=', '-', '('] := by
  intro hmem
  simp only [List.mem_cons, List.not_mem_nil, or_false] at hmem
  obtain rfl | rfl | rfl | rfl := hmem <;> exact absurd hc (by decide)

theorem not_mem_of_startsNumeral {c : Char} {cs : List Char} (h : startsNumeral (c :: cs)) :
    c ∉ ['[', '=', '-', '('] := by
  intro hmem
  simp only [List.mem_cons, List.not_mem_nil, or_false] at hmem
  obtain rfl | rfl | rfl | rfl := hmem <;> cases h

/-- What the first character of an expression tells. -/
structure Expr.LeadsPlainly (expr : Expr) : Prop where
  notBracket : expr.lead ∉ ['[', '=']
  minus : expr.isOperand → expr.lead ≠ '-'
  paren : expr.lead = '(' ↔ expr.opensParen

theorem Expr.LeadsPlainly.of_not_mem {expr : Expr} (h : expr.lead ∉ ['[', '=', '-', '('])
    (hparen : expr.opensParen = false) : expr.LeadsPlainly := by
  simp only [List.mem_cons, List.not_mem_nil, or_false, not_or] at h
  exact ⟨by simp [h.1, h.2.1], fun _ => h.2.2.1, by simp [h.2.2.2, hparen]⟩

theorem Expr.isOperand_of_isPrefixExpr {expr : Expr} (h : expr.isPrefixExpr) : expr.isOperand := by
  cases expr <;> first | rfl | cases h

theorem Expr.leadsPlainly : ∀ {expr : Expr}, expr.Readable → expr.LeadsPlainly
  | .nil, _ | .bool true, _ | .bool false, _ | .str _, _ | .unary .not _, _ | .table _, _
  | .func .., _ => .of_not_mem (by simp [Expr.lead]) rfl
  | .numeral digits, h => by
    rw [Expr.Readable, isNumeral, Bool.and_eq_true] at h
    cases hcs : digits.toList with
    | nil => simp [hcs, startsNumeral] at h
    | cons c cs =>
      rw [hcs] at h
      refine .of_not_mem ?_ rfl
      rw [Expr.lead, hcs]
      exact not_mem_of_startsNumeral h.1
  | .name word, h => by
    obtain ⟨c, cs, hcs, hc, -⟩ := exists_toList_of_isName h
    refine .of_not_mem ?_ rfl
    rw [Expr.lead, hcs]
    exact not_mem_of_isNameStart hc
  | .paren _, _ => ⟨by simp [Expr.lead], by simp [Expr.lead], by simp [Expr.lead, opensParen]⟩
  | .unary .neg _, _ =>
    ⟨by simp [Expr.lead], by simp [isOperand], by simp [Expr.lead, opensParen]⟩
  | .unary .plus _, h => absurd rfl h.1
  | .binary _ lhs _, h =>
    have hlhs := Expr.leadsPlainly h.2.1
    ⟨hlhs.notBracket, fun _ => hlhs.minus h.1, hlhs.paren⟩
  | .index expr _, h =>
    have hexpr := Expr.leadsPlainly h.2.1
    ⟨hexpr.notBracket, fun _ => hexpr.minus (isOperand_of_isPrefixExpr h.1), hexpr.paren⟩
  | .call callee _, h =>
    have hcallee := Expr.leadsPlainly h.2.1
    ⟨hcallee.notBracket, fun _ => hcallee.minus (isOperand_of_isPrefixExpr h.1), hcallee.paren⟩

/-! ## Fixed parts -/

theorem lexes_leftParen : Lexes anything "(".toList [.symbol .leftParen] :=
  .literal 1 (fun _ => rfl) (by decide)

theorem lexes_rightParen : Lexes anything ")".toList [.symbol .rightParen] :=
  .literal 1 (fun _ => rfl) (by decide)

theorem lexes_rightBracket : Lexes anything "]".toList [.symbol .rightBracket] :=
  .literal 1 (fun _ => rfl) (by decide)

theorem lexes_blank : Lexes anything " ".toList [] := .literal 1 (fun _ => rfl) (by decide)

theorem lexes_newline : Lexes anything "\n".toList [] := .literal 1 (fun _ => rfl) (by decide)

/-- A keyword, and the blank behind it that ends it whatever follows. -/
theorem lexes_keywordBlank (keyword : Keyword) :
    Lexes anything (keyword.spelling.toList ++ " ".toList) [.keyword keyword] :=
  (lexes_keyword keyword).append lexes_blank fun _ _ => rfl

theorem lexes_blankKeyword (keyword : Keyword) :
    Lexes endsWord (" ".toList ++ keyword.spelling.toList) [.keyword keyword] :=
  lexes_blank.prepend (lexes_keyword keyword)

theorem lexes_keywordBetween (keyword : Keyword) :
    Lexes anything (" ".toList ++ (keyword.spelling.toList ++ " ".toList)) [.keyword keyword] :=
  lexes_blank.prepend (lexes_keywordBlank keyword)

theorem lexes_end : Lexes endsWord " end".toList [.keyword .end] :=
  lexes_blankKeyword .end

theorem lexes_comma : Lexes anything ", ".toList [.symbol .comma] :=
  .literal 2 (fun _ => rfl) (by decide)

theorem lexes_if : Lexes anything "if ".toList [.keyword .if] := lexes_keywordBlank .if

theorem lexes_inlineThen : Lexes anything " then ".toList [.keyword .then] :=
  lexes_keywordBetween .then

theorem lexes_then : Lexes endsWord " then".toList [.keyword .then] :=
  lexes_blankKeyword .then

theorem lexes_inlineDo : Lexes anything " do ".toList [.keyword .do] := lexes_keywordBetween .do

theorem lexes_do : Lexes endsWord " do".toList [.keyword .do] :=
  lexes_blankKeyword .do

theorem lexes_local : Lexes anything "local ".toList [.keyword .local] := lexes_keywordBlank .local

theorem lexes_equals : Lexes anything " = ".toList [.symbol .assign] :=
  .literal 3 (fun _ => rfl) (by decide)

/-- A symbol that could go on is one by itself if the next character is none of its others. -/
theorem lexes_symbol {c : Char} {excluded : List Char} {symbol : Symbol}
    (hend : lexStep [c] = some (some (.symbol symbol), []))
    (hnext : ∀ next rest, next ∉ excluded →
      lexStep (c :: next :: rest) = some (some (.symbol symbol), next :: rest)) :
    Lexes (avoids excluded) [c] [.symbol symbol] := by
  refine .single fun rest hrest => ?_
  cases rest with
  | nil => exact hend
  | cons next rest => exact hnext next rest (by simpa [avoids] using hrest)

/-- A bracket in front of a key could begin a long string. -/
theorem lexes_leftBracket : Lexes (avoids ['[', '=']) "[".toList [.symbol .leftBracket] := by
  refine lexes_symbol rfl fun next rest hnext => ?_
  simp only [List.mem_cons, List.not_mem_nil, or_false, not_or] at hnext
  change lexSymbol '[' (next :: rest) = _
  simp [lexSymbol, pairSymbol?, singleSymbol?, hnext]

/-- Two of them would begin a comment. -/
theorem lexes_minus : Lexes (avoids ['-']) "-".toList [.symbol .minus] := by
  refine lexes_symbol rfl fun next rest hnext => ?_
  rw [List.mem_singleton] at hnext
  change lexSymbol '-' (next :: rest) = _
  simp [lexSymbol, pairSymbol?, singleSymbol?, hnext]

/-- Two of them would be a comparison. -/
theorem lexes_assign : Lexes (avoids ['=']) "=".toList [.symbol .assign] := by
  refine lexes_symbol rfl fun next rest hnext => ?_
  rw [List.mem_singleton] at hnext
  change lexSymbol '=' (next :: rest) = _
  simp [lexSymbol, pairSymbol?, singleSymbol?, hnext]

theorem lexes_binaryOp (op : BinaryOp) :
    Lexes anything (" ".toList ++ op.spelling.toList ++ " ".toList) [op.token] := by
  cases op <;> exact .literal 3 (fun _ => rfl) (by decide)

theorem lexes_names : ∀ (names : List String), (∀ name ∈ names, isName name) →
    Lexes endsWord (", ".intercalate names).toList (nameTokens names)
  | [], _ => .nil _
  | [name], hnames => by
    rw [String.intercalate_singleton]
    exact lexes_name (hnames name (by simp))
  | name :: next :: names, hnames => by
    have hname := lexes_name (hnames name (by simp))
    have hrest := lexes_names (next :: names) fun other hother =>
      hnames other (List.mem_cons_of_mem _ hother)
    rw [String.intercalate_cons_cons, String.toList_append, String.toList_append, List.append_assoc]
    exact hname.append (lexes_comma.prepend hrest) fun _ _ => rfl

theorem lexes_functionHead {params : List String} (hparams : ∀ name ∈ params, isName name) :
    Lexes anything (functionHead params).toList
      ([.keyword .function, .symbol .leftParen] ++ nameTokens params ++ [.symbol .rightParen]) := by
  have hhead : Lexes anything "function(".toList [.keyword .function, .symbol .leftParen] :=
    .literal 2 (fun _ => rfl) (by decide)
  rw [functionHead, String.toList_append, String.toList_append]
  exact (hhead.prepend (lexes_names params hparams)).append lexes_rightParen fun _ _ => rfl

/-! ## Lines -/

/-- What one level of indentation looks like. -/
structure Indentation where
  chars : List Char
  blank : ∀ c ∈ chars, isBlank c

/-- What can follow a statement in a style: everything behind a line, and within one no word. -/
def Style.follow : Style → List Char → Bool
  | .lines => anything
  | .inline => endsWord

section Lines

variable (indent : Indentation) {c : Char} {content : Layout} {tokens : List Token}

theorem lexes_indent (level : Nat) :
    Lexes anything (List.replicate level indent.chars).flatten [] := by
  refine lexes_blanks fun c hc => ?_
  obtain ⟨cs, hcs, hmem⟩ := List.mem_flatten.mp hc
  rw [List.eq_of_mem_replicate hcs] at hmem
  exact indent.blank c hmem

theorem lexes_line (level : Nat) (hleads : content.Leads c)
    (hcontent : Lexes endsWord (content.chars indent.chars) tokens) :
    Lexes anything ((line level content).chars indent.chars)
      ((if c = '(' then [.symbol .semicolon] else []) ++ tokens) := by
  have hline := hcontent.append lexes_newline fun _ _ => rfl
  have hseparator : Lexes anything
      (if content.head? = some '(' then ";" else "").toList
      (if c = '(' then [.symbol .semicolon] else []) := by
    rw [hleads.head?_eq]
    by_cases hc : c = '('
    · subst hc
      exact .literal 1 (fun _ => rfl) (by decide)
    · simp only [Option.some.injEq, hc, if_false]
      exact .nil _
  have hpieces := (lexes_indent indent level).prepend (hseparator.prepend hline)
  simpa [line] using hpieces

/-- A line that begins with something else than a parenthesis. -/
theorem lexes_plainLine (level : Nat) (hleads : content.Leads c) (hc : c ≠ '(')
    (hcontent : Lexes endsWord (content.chars indent.chars) tokens) :
    Lexes anything ((line level content).chars indent.chars) tokens := by
  have hline := lexes_line indent level hleads hcontent
  rwa [if_neg hc, List.nil_append] at hline

theorem lexes_wordLine (level : Nat) (keyword : Keyword) :
    Lexes anything ((line level (text keyword.spelling)).chars indent.chars)
      [.keyword keyword] := by
  have hword : Lexes endsWord ((text keyword.spelling).chars indent.chars) [.keyword keyword] := by
    rw [chars_text]
    exact lexes_keyword keyword
  obtain ⟨c, hleads, hc⟩ : ∃ c, (text keyword.spelling).Leads c ∧ c ≠ '(' := by
    cases keyword <;> exact ⟨_, leads_text rfl, by decide⟩
  exact lexes_plainLine indent level hleads hc hword

/-- The head of a statement: an expression between words. -/
theorem lexes_headLine {before after : String} {expr : Expr} (level : Nat)
    (hc : c ≠ '(') (hbefore : before.toList.head? = some c)
    (hcontent : Lexes endsWord
      (before.toList ++ (expr.layout level).chars indent.chars ++ after.toList) tokens) :
    Lexes anything
      ((line level (text before ++ expr.layout level ++ text after)).chars indent.chars)
        tokens := by
  refine lexes_plainLine indent level (((leads_text hbefore).append _).append _) hc ?_
  simpa only [chars_append, chars_text] using hcontent

theorem lexes_place (style : Style) (level : Nat) (hleads : content.Leads c) (hc : c ≠ '(')
    (hcontent : Lexes endsWord (content.chars indent.chars) tokens) :
    Lexes style.follow ((style.place level content).chars indent.chars) tokens := by
  cases style with
  | inline => exact hcontent
  | lines => exact lexes_plainLine indent level hleads hc hcontent

/-- A statement that begins with an expression. -/
theorem lexes_placeExpr {style : Style} {first : Expr} (level : Nat) (hfirst : first.Readable)
    (hstyle : style.Separates first) (hleads : content.Leads first.lead)
    (hcontent : Lexes endsWord (content.chars indent.chars) tokens) :
    Lexes style.follow ((style.place level content).chars indent.chars)
      (first.separator ++ tokens) := by
  have hseparator : first.separator =
      if first.lead = '(' then [.symbol .semicolon] else [] := by
    simp only [Expr.separator, (Expr.leadsPlainly hfirst).paren]
  cases style with
  | inline =>
    rw [Expr.separator, hstyle rfl]
    exact hcontent
  | lines =>
    rw [hseparator]
    exact lexes_line indent level hleads hcontent

end Lines

theorem Style.eq_lines_of_inside {style own : Style} (h : style.inside own = .lines) :
    style = .lines := by
  cases style with
  | lines => rfl
  | inline => cases h

/-- Within a line a further branch begins with a blank. -/
theorem Else.endsWord_layout {indent : List Char} (level : Nat) (rest : Else) :
    ∀ more, endsWord more → endsWord ((rest.layout .inline level).chars indent ++ more) := by
  intro more hmore
  cases rest with
  | absent => exact hmore
  | otherwise body =>
    rw [Else.layout, chars_append, chars_text]
    rfl
  | elseIf test body rest =>
    simp only [Else.layout, chars_append, chars_text]
    rfl

/-! ## Code -/

section Code

variable {indent : Indentation}

mutual

theorem Expr.lexes (level : Nat) : ∀ (expr : Expr), expr.Readable →
    Lexes endsWord ((expr.layout level).chars indent.chars) expr.tokens
  | .nil, _ => by
    rw [Expr.layout, Expr.tokens, chars_text]
    exact lexes_keyword .nil
  | .bool true, _ => by
    rw [Expr.layout, Expr.tokens, chars_text]
    exact lexes_keyword .true
  | .bool false, _ => by
    rw [Expr.layout, Expr.tokens, chars_text]
    exact lexes_keyword .false
  | .numeral digits, h => by
    rw [Expr.layout, Expr.tokens, chars_text]
    exact lexes_numeral h
  | .str value, _ => by
    rw [Expr.layout, Expr.tokens, chars_text]
    exact (lexes_quote value).weaken
  | .name word, h => by
    rw [Expr.layout, Expr.tokens, chars_text]
    exact lexes_name h
  | .paren expr, h => by
    have hexpr := Expr.lexes level expr h
    simp only [Expr.layout, Expr.tokens, chars_append, chars_text]
    exact ((lexes_leftParen.prepend hexpr).append lexes_rightParen fun _ _ => rfl).weaken
  | .unary .not expr, h => by
    have hexpr := Expr.lexes level expr h.2.2
    have hnot : Lexes anything "not ".toList [.keyword .not] := lexes_keywordBlank .not
    simp only [Expr.layout, Expr.tokens, chars_append, chars_text]
    exact hnot.prepend hexpr
  | .unary .neg expr, h => by
    have hexpr := Expr.lexes level expr h.2.2
    have hlead : expr.lead ∉ ['-'] := by simpa using (Expr.leadsPlainly h.2.2).minus h.2.1
    simp only [Expr.layout, Expr.tokens, chars_append, chars_text]
    exact lexes_minus.append hexpr fun rest _ => (Expr.leads_layout level h.2.2).avoids hlead rest
  | .unary .plus _, h => absurd rfl h.1
  | .binary op lhs rhs, h => by
    obtain ⟨-, hlhs, -, hrhs⟩ := h
    have hlhs := Expr.lexes level lhs hlhs
    have hrhs := Expr.lexes level rhs hrhs
    simp only [Expr.layout, Expr.tokens, chars_append, chars_text, String.toList_append]
    exact (hlhs.append (lexes_binaryOp op) fun _ _ => rfl).prepend hrhs
  | .index expr key, h => by
    obtain ⟨-, hexpr, hkey⟩ := h
    have hlead := (Expr.leadsPlainly hkey).notBracket
    have hopen := (Expr.lexes level expr hexpr).append lexes_leftBracket fun _ _ => rfl
    have hopened := hopen.append (Expr.lexes level key hkey) fun rest _ =>
      (Expr.leads_layout level hkey).avoids hlead rest
    simp only [Expr.layout, Expr.tokens, chars_append, chars_text]
    exact (hopened.append lexes_rightBracket fun _ _ => rfl).weaken
  | .call callee args, h => by
    obtain ⟨-, hcallee, hargs⟩ := h
    have hcallee := Expr.lexes level callee hcallee
    have hargs := Expr.lexesList level args hargs
    simp only [Expr.layout, Expr.tokens, chars_append, chars_text]
    have hopened := (hcallee.append lexes_leftParen fun _ _ => rfl).prepend hargs
    exact (hopened.append lexes_rightParen fun _ _ => rfl).weaken
  | .table fields, h => by
    have hfields := Field.lexesList level fields h
    have hopen : Lexes anything "\x7b".toList [.symbol .leftBrace] :=
      .literal 1 (fun _ => rfl) (by decide)
    have hclose : Lexes anything "\x7d".toList [.symbol .rightBrace] :=
      .literal 1 (fun _ => rfl) (by decide)
    simp only [Expr.layout, Expr.tokens, chars_append, chars_text]
    exact ((hopen.prepend hfields).append hclose fun _ _ => rfl).weaken
  | .func .inline params body, h => by
    have hhead := (lexes_functionHead h.1).prepend lexes_blank
    have hbody := Stmt.lexesList .inline level body h.2
    simp only [Expr.layout, Expr.tokens, chars_append, chars_text, String.toList_append]
    rw [List.append_nil] at hhead
    exact (hhead.prepend hbody).append lexes_end fun _ _ => rfl
  | .func .lines params body, h => by
    have hhead := (lexes_functionHead h.1).prepend lexes_newline
    have hbody := Stmt.lexesList .lines (level + 1) body h.2
    have hend := (lexes_indent indent level).prepend (lexes_keyword .end)
    simp only [Expr.layout, Expr.tokens, chars_append, chars_text, chars_cons, chars_nil,
      String.toList_append, List.append_nil]
    rw [List.append_nil] at hhead
    exact (hhead.prepend hbody).prepend hend

theorem Expr.lexesList (level : Nat) : ∀ (exprs : List Expr), Expr.ListReadable exprs →
    Lexes endsWord ((Expr.layoutList level exprs).chars indent.chars) (Expr.tokensList exprs)
  | [], _ => .nil _
  | [expr], h => Expr.lexes level expr h.1
  | expr :: next :: exprs, h => by
    have hexpr := Expr.lexes level expr h.1
    have hexprs := Expr.lexesList level (next :: exprs) h.2
    rw [Expr.layoutList, Expr.tokensList, chars_append, chars_append, chars_text]
    · exact (hexpr.append lexes_comma fun _ _ => rfl).prepend hexprs
    · simp
    · simp

theorem Field.lexes (level : Nat) : ∀ (field : Field), field.Readable →
    Lexes endsWord ((field.layout level).chars indent.chars) field.tokens
  | .item value, h => Expr.lexes level value h.2
  | .keyed key value, h => by
    obtain ⟨hkey, hvalue⟩ := h
    have hkeyLead := (Expr.leadsPlainly hkey).notBracket
    have hvalueLead : value.lead ∉ ['='] := fun hmem =>
      (Expr.leadsPlainly hvalue).notBracket (List.mem_cons_of_mem _ hmem)
    have hopened := lexes_leftBracket.append (Expr.lexes level key hkey) fun rest _ =>
      (Expr.leads_layout level hkey).avoids hkeyLead rest
    have hclosed := hopened.append (lexes_rightBracket.prepend lexes_assign) fun _ _ => rfl
    simp only [Field.layout, Field.tokens, chars_append, chars_text]
    exact hclosed.append (Expr.lexes level value hvalue) fun rest _ =>
      (Expr.leads_layout level hvalue).avoids hvalueLead rest
  | .named name value, h => by
    obtain ⟨hname, hvalue⟩ := h
    have hvalueLead : value.lead ∉ ['='] := fun hmem =>
      (Expr.leadsPlainly hvalue).notBracket (List.mem_cons_of_mem _ hmem)
    have hassigned := (lexes_name hname).append lexes_assign fun _ _ => rfl
    simp only [Field.layout, Field.tokens, chars_append, chars_text, String.toList_append]
    exact hassigned.append (Expr.lexes level value hvalue) fun rest _ =>
      (Expr.leads_layout level hvalue).avoids hvalueLead rest

theorem Field.lexesList (level : Nat) : ∀ (fields : List Field), Field.ListReadable fields →
    Lexes endsWord ((Field.layoutList level fields).chars indent.chars) (Field.tokensList fields)
  | [], _ => .nil _
  | [field], h => Field.lexes level field h.1
  | field :: next :: fields, h => by
    have hfield := Field.lexes level field h.1
    have hfields := Field.lexesList level (next :: fields) h.2
    rw [Field.layoutList, Field.tokensList, chars_append, chars_append, chars_text]
    · exact (hfield.append lexes_comma fun _ _ => rfl).prepend hfields
    · simp
    · simp

theorem Stmt.lexes (style : Style) (level : Nat) : ∀ (stmt : Stmt), stmt.Readable style →
    Lexes style.follow ((stmt.layout style level).chars indent.chars) stmt.tokens
  | .expr expr, h => by
    obtain ⟨hstyle, -, hexpr⟩ := h
    rw [Stmt.layout, Stmt.tokens]
    exact lexes_placeExpr indent level hexpr hstyle (Expr.leads_layout level hexpr)
      (Expr.lexes level expr hexpr)
  | .assign target value, h => by
    obtain ⟨hstyle, -, htarget, hvalue⟩ := h
    have hcontent := ((Expr.lexes level target htarget).append lexes_equals fun _ _ => rfl).prepend
      (Expr.lexes level value hvalue)
    have hleads := ((Expr.leads_layout level htarget).append (text " = ")).append
      (value.layout level)
    rw [Stmt.layout, Stmt.tokens]
    refine lexes_placeExpr indent level htarget hstyle hleads ?_
    rw [chars_append, chars_append, chars_text]
    exact hcontent
  | .localVar name value, h => by
    obtain ⟨hname, hvalue⟩ := h
    have hhead := (lexes_local.prepend (lexes_name hname)).append lexes_equals fun _ _ => rfl
    rw [Stmt.layout, Stmt.tokens]
    refine lexes_place indent style level ((leads_text (by simp; rfl)).append _) (by decide) ?_
    rw [chars_append, chars_text, String.toList_append, String.toList_append]
    exact hhead.prepend (Expr.lexes level value hvalue)
  | .localRec name value, h => by
    obtain ⟨hname, hvalue⟩ := h
    have hsemicolon : Lexes anything "; ".toList [.symbol .semicolon] :=
      .literal 2 (fun _ => rfl) (by decide)
    have hdeclared := (lexes_local.prepend (lexes_name hname)).append hsemicolon fun _ _ => rfl
    have hhead := (hdeclared.prepend (lexes_name hname)).append lexes_equals fun _ _ => rfl
    rw [Stmt.layout, Stmt.tokens]
    refine lexes_place indent style level ((leads_text (by simp; rfl)).append _) (by decide) ?_
    rw [chars_append, chars_text, String.toList_append, String.toList_append, String.toList_append,
      String.toList_append]
    exact hhead.prepend (Expr.lexes level value hvalue)
  | .ret none, _ => by
    rw [Stmt.layout, Stmt.tokens]
    refine lexes_place indent style level (leads_text rfl) (by decide) ?_
    rw [chars_text]
    exact lexes_keyword .return
  | .ret (some value), h => by
    have hreturn : Lexes anything "return ".toList [.keyword .return] := lexes_keywordBlank .return
    rw [Stmt.layout, Stmt.tokens]
    refine lexes_place indent style level ((leads_text rfl).append _) (by decide) ?_
    rw [chars_append, chars_text]
    exact hreturn.prepend (Expr.lexes level value h)
  | .break, _ => by
    rw [Stmt.layout, Stmt.tokens]
    refine lexes_place indent style level (leads_text rfl) (by decide) ?_
    rw [chars_text]
    exact lexes_keyword .break
  | .block own body, h => by
    rw [Stmt.Readable] at h
    rw [Stmt.layout, Stmt.tokens]
    split
    · next hinside =>
      rw [hinside] at h
      have hdo : Lexes anything "do ".toList [.keyword .do] := lexes_keywordBlank .do
      refine lexes_place indent style level (((leads_text rfl).append _).append _) (by decide) ?_
      rw [chars_append, chars_append, chars_text, chars_text]
      exact (hdo.prepend (Stmt.lexesList .inline level body h)).append lexes_end fun _ _ => rfl
    · next hinside =>
      rw [hinside] at h
      obtain rfl := Style.eq_lines_of_inside hinside
      rw [chars_append, chars_append]
      exact ((lexes_wordLine indent level .do).prepend
        (Stmt.lexesList .lines (level + 1) body h)).prepend (lexes_wordLine indent level .end)
  | .cond own test body rest, h => by
    obtain ⟨htest, hbody, hrest⟩ := h
    have hif := lexes_if.prepend (Expr.lexes level test htest)
    rw [Stmt.layout, Stmt.tokens]
    split
    · next hinside =>
      rw [hinside] at hbody hrest
      have hthen := (hif.append lexes_inlineThen fun _ _ => rfl).prepend
        (Stmt.lexesList .inline level body hbody)
      have helse := hthen.append (Else.lexes .inline level rest hrest)
        (Else.endsWord_layout level rest)
      refine lexes_place indent style level
        (((((leads_text rfl).append _).append _).append _).append _ |>.append _) (by decide) ?_
      simp only [chars_append, chars_text]
      exact helse.append lexes_end fun _ _ => rfl
    · next hinside =>
      rw [hinside] at hbody hrest
      obtain rfl := Style.eq_lines_of_inside hinside
      have hhead := lexes_headLine indent level (c := 'i') (by decide) rfl
        (hif.append lexes_then fun _ _ => rfl)
      have hbranches := (hhead.prepend (Stmt.lexesList .lines (level + 1) body hbody)).prepend
        (Else.lexes .lines level rest hrest)
      rw [chars_append, chars_append, chars_append]
      exact hbranches.prepend (lexes_wordLine indent level .end)
  | .whileLoop test body, h => by
    obtain ⟨htest, hbody⟩ := h
    have hwhile : Lexes anything "while ".toList [.keyword .while] := lexes_keywordBlank .while
    have hhead := hwhile.prepend (Expr.lexes level test htest)
    rw [Stmt.tokens]
    cases style with
    | inline =>
      have hdo := (hhead.append lexes_inlineDo fun _ _ => rfl).prepend
        (Stmt.lexesList .inline level body hbody)
      simp only [Stmt.layout, chars_append, chars_text]
      exact hdo.append lexes_end fun _ _ => rfl
    | lines =>
      have hline := lexes_headLine indent level (c := 'w') (by decide) rfl
        (hhead.append lexes_do fun _ _ => rfl)
      simp only [Stmt.layout]
      rw [chars_append, chars_append]
      exact (hline.prepend (Stmt.lexesList .lines (level + 1) body hbody)).prepend
        (lexes_wordLine indent level .end)
  | .repeatLoop body test, h => by
    obtain ⟨htest, hbody⟩ := h
    have htest := Expr.lexes level test htest
    rw [Stmt.tokens]
    cases style with
    | inline =>
      have hrepeat : Lexes anything "repeat ".toList [.keyword .repeat] :=
        lexes_keywordBlank .repeat
      have huntil : Lexes anything " until ".toList [.keyword .until] := lexes_keywordBetween .until
      have hbody := hrepeat.prepend (Stmt.lexesList .inline level body hbody)
      simp only [Stmt.layout, chars_append, chars_text]
      exact (hbody.append huntil fun _ _ => rfl).prepend htest
    | lines =>
      have huntil : Lexes anything "until ".toList [.keyword .until] := lexes_keywordBlank .until
      have hlast : Lexes anything
          ((line level (text "until " ++ test.layout level)).chars indent.chars)
          ([.keyword .until] ++ test.tokens) := by
        refine lexes_plainLine indent level ((leads_text rfl).append _) (by decide) ?_
        rw [chars_append, chars_text]
        exact huntil.prepend htest
      simp only [Stmt.layout]
      rw [chars_append, chars_append, List.append_assoc _ [_]]
      exact ((lexes_wordLine indent level .repeat).prepend
        (Stmt.lexesList .lines (level + 1) body hbody)).prepend hlast
  | .forIn names iterator body, h => by
    obtain ⟨-, hnames, hiterator, hbody⟩ := h
    have hfor : Lexes anything "for ".toList [.keyword .for] := lexes_keywordBlank .for
    have hin : Lexes anything " in ".toList [.keyword .in] := lexes_keywordBetween .in
    have hhead := ((hfor.prepend (lexes_names names hnames)).append hin fun _ _ => rfl).prepend
      (Expr.lexes level iterator hiterator)
    rw [← String.toList_append, ← String.toList_append] at hhead
    rw [Stmt.tokens]
    cases style with
    | inline =>
      have hdo := (hhead.append lexes_inlineDo fun _ _ => rfl).prepend
        (Stmt.lexesList .inline level body hbody)
      simp only [Stmt.layout, chars_append, chars_text]
      exact hdo.append lexes_end fun _ _ => rfl
    | lines =>
      have hline := lexes_headLine indent level (c := 'f') (by decide) (by simp)
        (hhead.append lexes_do fun _ _ => rfl)
      simp only [Stmt.layout]
      rw [chars_append, chars_append]
      exact (hline.prepend (Stmt.lexesList .lines (level + 1) body hbody)).prepend
        (lexes_wordLine indent level .end)

theorem Stmt.lexesList (style : Style) (level : Nat) : ∀ (stmts : List Stmt),
    Stmt.ListReadable style stmts →
      Lexes style.follow ((Stmt.layoutList style level stmts).chars indent.chars)
        (Stmt.tokensList stmts)
  | [], _ => .nil _
  | [stmt], h => by
    have hstmt := Stmt.lexes style level stmt h.1
    rw [Stmt.layoutList, Stmt.tokensList, Stmt.tokensList, List.append_nil]
    exact hstmt
  | stmt :: next :: stmts, h => by
    have hstmt := Stmt.lexes style level stmt h.1
    have hstmts := Stmt.lexesList style level (next :: stmts) h.2.2
    rw [Stmt.tokensList]
    cases style with
    | inline =>
      have hblank := hstmt.append lexes_blank fun _ _ => rfl
      rw [List.append_nil] at hblank
      simp only [Stmt.layoutList, chars_append, chars_text]
      exact hblank.prepend hstmts
    | lines =>
      simp only [Stmt.layoutList, chars_append, List.append_nil]
      exact hstmt.prepend hstmts

theorem Else.lexes (style : Style) (level : Nat) : ∀ (rest : Else), rest.Readable style →
    Lexes style.follow ((rest.layout style level).chars indent.chars) rest.tokens
  | .absent, _ => .nil _
  | .otherwise body, h => by
    rw [Else.tokens]
    cases style with
    | inline =>
      have helse : Lexes anything " else ".toList [.keyword .else] := lexes_keywordBetween .else
      simp only [Else.layout, chars_append, chars_text]
      exact helse.prepend (Stmt.lexesList .inline level body h)
    | lines =>
      simp only [Else.layout, chars_append]
      exact (lexes_wordLine indent level .else).prepend
        (Stmt.lexesList .lines (level + 1) body h)
  | .elseIf test body rest, h => by
    obtain ⟨htest, hbody, hrest⟩ := h
    have htest := Expr.lexes level test htest
    rw [Else.tokens]
    cases style with
    | inline =>
      have helseif : Lexes anything " elseif ".toList [.keyword .elseif] :=
        lexes_keywordBetween .elseif
      have hthen := ((helseif.prepend htest).append lexes_inlineThen fun _ _ => rfl).prepend
        (Stmt.lexesList .inline level body hbody)
      simp only [Else.layout, chars_append, chars_text]
      exact hthen.append (Else.lexes .inline level rest hrest) (Else.endsWord_layout level rest)
    | lines =>
      have helseif : Lexes anything "elseif ".toList [.keyword .elseif] :=
        lexes_keywordBlank .elseif
      have hline := lexes_headLine indent level (c := 'e') (by decide) rfl
        ((helseif.prepend htest).append lexes_then fun _ _ => rfl)
      simp only [Else.layout]
      rw [chars_append, chars_append]
      exact (hline.prepend (Stmt.lexesList .lines (level + 1) body hbody)).prepend
        (Else.lexes .lines level rest hrest)

end

end Code

theorem lex_layoutList (indent : Indentation) {stmts : List Stmt}
    (h : Stmt.ListReadable .lines stmts) :
    lex ((Stmt.layoutList .lines 0 stmts).chars indent.chars) = some (Stmt.tokensList stmts) :=
  (Stmt.lexesList .lines 0 stmts h).lex_eq rfl

end LuaBackend.Lua
