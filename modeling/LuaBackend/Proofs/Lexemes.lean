import LuaBackend.Lua.Quote
import LuaBackend.Proofs.LuaTokens

/-!
# Lexemes

Texts that are cut into known tokens whatever follows them, as long as what follows cannot be drawn
into their last token.  Such texts are put together piece by piece; the single pieces are words,
numerals, strings and symbols.
-/

namespace LuaBackend.Lua

/-! ## Runs of the lexer -/

/-- The tokens that a number of steps gets to. -/
def lexSteps : Nat → List Char → Option (List Token × List Char)
  | 0, cs => some ([], cs)
  | count + 1, cs => do
    let (token?, next) ← lexStep cs
    let (tokens, rest) ← lexSteps count next
    return (token?.toList ++ tokens, rest)

theorem lexSteps_one {cs rest : List Char} {token? : Option Token}
    (h : lexStep cs = some (token?, rest)) : lexSteps 1 cs = some (token?.toList, rest) := by
  simp [lexSteps, h]

theorem lexSteps_add {first second : Nat} {cs next rest : List Char} {tokens more : List Token}
    (hfirst : lexSteps first cs = some (tokens, next))
    (hsecond : lexSteps second next = some (more, rest)) :
    lexSteps (first + second) cs = some (tokens ++ more, rest) := by
  induction first generalizing cs tokens with
  | zero =>
    obtain ⟨rfl, rfl⟩ := Prod.mk.inj (Option.some.inj hfirst)
    rw [Nat.zero_add]
    exact hsecond
  | succ first ih =>
    simp only [lexSteps, Option.bind_eq_bind, Option.bind_eq_some_iff, Prod.exists,
      Option.pure_def, Option.some.injEq, Prod.mk.injEq] at hfirst
    obtain ⟨token?, mid, hstep, others, _, hothers, rfl, rfl⟩ := hfirst
    rw [Nat.add_right_comm, lexSteps]
    simp [hstep, ih hothers]

/-- A text that some steps use up has the tokens that they find. -/
theorem lexWithin_of_lexSteps {count bound : Nat} {cs : List Char} {tokens : List Token}
    (h : lexSteps count cs = some (tokens, [])) (hcount : count ≤ bound) :
    lexWithin bound cs = some tokens := by
  induction count generalizing bound cs tokens with
  | zero =>
    obtain ⟨rfl, rfl⟩ := Prod.mk.inj (Option.some.inj h)
    cases bound <;> rfl
  | succ count ih =>
    simp only [lexSteps, Option.bind_eq_bind, Option.bind_eq_some_iff, Prod.exists,
      Option.pure_def, Option.some.injEq, Prod.mk.injEq] at h
    obtain ⟨token?, next, hstep, more, _, hmore, rfl, rfl⟩ := h
    obtain ⟨bound, rfl⟩ : ∃ smaller, bound = smaller + 1 := ⟨bound - 1, by omega⟩
    have hwithin := ih hmore (Nat.le_of_succ_le_succ hcount)
    cases cs with
    | nil => cases hstep
    | cons c cs => simp [lexWithin, hstep, hwithin]

/-! ## Texts with known tokens -/

/-- Nothing that follows matters. -/
def anything (_ : List Char) : Bool := true

/-- The text does not begin with one of some characters. -/
def avoids (chars : List Char) : List Char → Bool
  | [] => true
  | c :: _ => !chars.contains c

/-- A word or a numeral ends in front of the text. -/
def endsWord : List Char → Bool
  | [] => true
  | c :: _ => !isNameChar c && !(['.', '+', '-'].contains c)

/-- The text has some tokens in front of everything that `follow` admits, and takes no more steps
than it has characters. -/
def Lexes (follow : List Char → Bool) (cs : List Char) (tokens : List Token) : Prop :=
  ∀ rest, follow rest → ∃ count ≤ cs.length, lexSteps count (cs ++ rest) = some (tokens, rest)

namespace Lexes

variable {follow next : List Char → Bool} {cs more : List Char} {tokens others : List Token}

theorem nil (follow : List Char → Bool) : Lexes follow [] [] := fun _ _ => ⟨0, Nat.le_refl 0, rfl⟩

theorem append (h : Lexes follow cs tokens) (hmore : Lexes next more others)
    (hfollow : ∀ rest, next rest → follow (more ++ rest)) :
    Lexes next (cs ++ more) (tokens ++ others) := by
  intro rest hrest
  obtain ⟨first, hfirst, hsteps⟩ := h _ (hfollow rest hrest)
  obtain ⟨second, hsecond, hothers⟩ := hmore rest hrest
  refine ⟨first + second, ?_, ?_⟩
  · rw [List.length_append]
    omega
  · rw [List.append_assoc]
    exact lexSteps_add hsteps hothers

/-- What is cut off in front of everything goes in front of every text. -/
theorem prepend (h : Lexes anything cs tokens) (hmore : Lexes next more others) :
    Lexes next (cs ++ more) (tokens ++ others) :=
  h.append hmore fun _ _ => rfl

theorem weaken (h : Lexes anything cs tokens) : Lexes next cs tokens := fun rest _ => h rest rfl

/-- A text that the lexer gets through in a number of steps without a look at what follows. -/
theorem literal (count : Nat) (h : ∀ rest, lexSteps count (cs ++ rest) = some (tokens, rest))
    (hcount : count ≤ cs.length) : Lexes anything cs tokens :=
  fun rest _ => ⟨count, hcount, h rest⟩

/-- A text that is one token. -/
theorem single {c : Char} {token : Token}
    (h : ∀ rest, follow rest → lexStep (c :: cs ++ rest) = some (some token, rest)) :
    Lexes follow (c :: cs) [token] := fun rest hrest =>
  ⟨1, Nat.le_add_left 1 cs.length, lexSteps_one (h rest hrest)⟩

theorem lex_eq (h : Lexes follow cs tokens) (hend : follow []) : lex cs = some tokens := by
  obtain ⟨count, hcount, hsteps⟩ := h [] hend
  rw [List.append_nil] at hsteps
  exact lexWithin_of_lexSteps hsteps hcount

end Lexes

/-- Blanks have no tokens. -/
theorem lexes_blanks {cs : List Char} (hcs : ∀ c ∈ cs, isBlank c) : Lexes anything cs [] := by
  induction cs with
  | nil => exact .nil _
  | cons c cs ih =>
    have hstep : ∀ rest, lexStep (c :: rest) = some (none, rest) := by
      simp [lexStep, hcs c List.mem_cons_self]
    have hblank : Lexes anything [c] [] :=
      .literal 1 (fun rest => lexSteps_one (hstep rest)) (Nat.le_refl 1)
    exact hblank.prepend (ih fun other hother => hcs other (List.mem_cons_of_mem c hother))

/-! ## Words -/

theorem isBlank_eq_false_of_isNameChar {c : Char} (hc : isNameChar c) : isBlank c = false := by
  cases hblank : isBlank c with
  | false => rfl
  | true =>
    simp only [isBlank, Bool.or_eq_true, beq_iff_eq] at hblank
    obtain ((((rfl | rfl) | rfl) | rfl) | rfl) | rfl := hblank <;> exact absurd hc (by decide)

theorem isNameChar_of_isNameStart {c : Char} (hc : isNameStart c) : isNameChar c := by
  rw [isNameStart, Bool.and_eq_true] at hc
  exact hc.1

theorem takeWhile_isNameChar {word rest : List Char} (hword : word.all isNameChar)
    (hrest : endsWord rest) :
    (word ++ rest).takeWhile isNameChar = word ∧ (word ++ rest).dropWhile isNameChar = rest := by
  have hnone : rest.takeWhile isNameChar = [] ∧ rest.dropWhile isNameChar = rest := by
    cases rest with
    | nil => exact ⟨rfl, rfl⟩
    | cons c rest =>
      simp only [endsWord, Bool.and_eq_true, Bool.not_eq_true'] at hrest
      simp [hrest.1]
  rw [List.all_eq_true] at hword
  rw [List.takeWhile_append_of_pos hword, List.dropWhile_append_of_pos hword, hnone.1, hnone.2]
  simp

theorem lexes_word {c : Char} {cs : List Char} (hc : isNameStart c) (hcs : cs.all isNameChar) :
    Lexes endsWord (c :: cs) [wordToken (String.ofList (c :: cs))] := by
  refine .single fun rest hrest => ?_
  obtain ⟨htake, hdrop⟩ := takeWhile_isNameChar hcs hrest
  have hblank := isBlank_eq_false_of_isNameChar (isNameChar_of_isNameStart hc)
  simp [lexStep, hblank, hc, htake, hdrop]

theorem lexes_keyword (keyword : Keyword) :
    Lexes endsWord keyword.spelling.toList [.keyword keyword] := by
  cases keyword <;> exact lexes_word rfl rfl

theorem exists_toList_of_isName {name : String} (hname : isName name) :
    ∃ c cs, name.toList = c :: cs ∧ isNameStart c ∧ cs.all isNameChar ∧
      wordToken name = .name name := by
  rw [isName] at hname
  cases hcs : name.toList with
  | nil => simp [hcs] at hname
  | cons c cs =>
    simp only [hcs, Bool.and_eq_true, Option.isNone_iff_eq_none] at hname
    obtain ⟨⟨hc, hcs'⟩, hkeyword⟩ := hname
    exact ⟨c, cs, rfl, hc, hcs', by rw [wordToken, hkeyword]⟩

theorem lexes_name {name : String} (hname : isName name) :
    Lexes endsWord name.toList [.name name] := by
  obtain ⟨c, cs, hcs, hc, hall, htoken⟩ := exists_toList_of_isName hname
  have hword := lexes_word hc hall
  rwa [← hcs, String.ofList_toList, htoken] at hword

/-! ## Numerals -/

theorem numeralRun_append {isMark : Char → Bool} {afterMark : Bool} {cs rest : List Char}
    (hcs : numeralRun isMark afterMark cs = (cs, [])) (hrest : endsWord rest) :
    numeralRun isMark afterMark (cs ++ rest) = (cs, rest) := by
  induction cs generalizing afterMark with
  | nil =>
    cases rest with
    | nil => rfl
    | cons c rest =>
      simp only [endsWord, Bool.and_eq_true, Bool.not_eq_true', List.contains_cons,
        Bool.or_eq_false_iff] at hrest
      simp [numeralRun, hrest]
  | cons c cs ih =>
    rw [numeralRun] at hcs
    split at hcs
    · next htaken =>
      simp only [Prod.mk.injEq, List.cons.injEq, true_and] at hcs
      have htail := ih (Prod.ext hcs.1 hcs.2)
      simp [numeralRun, htaken, htail]
    · simp at hcs

theorem isHexadecimal_append {c : Char} {cs rest : List Char} (hrest : endsWord rest) :
    isHexadecimal (c :: cs ++ rest) = isHexadecimal (c :: cs) := by
  cases cs with
  | cons next cs => rfl
  | nil =>
    cases rest with
    | nil => rfl
    | cons next rest =>
      have hx : next ≠ 'x' := by
        rintro rfl
        cases hrest
      have hX : next ≠ 'X' := by
        rintro rfl
        cases hrest
      simp [isHexadecimal, hx, hX]

theorem numeral?_append {c : Char} {cs rest : List Char}
    (hcs : numeral? (c :: cs) = some (c :: cs, []))
    (hrest : endsWord rest) : numeral? (c :: cs ++ rest) = some (c :: cs, rest) := by
  simp only [numeral?] at hcs
  split at hcs
  · next hform =>
    have hrun : numeralRun _ false (c :: cs) = (c :: cs, []) := Option.some.inj hcs
    rw [hrun] at hform
    simp only [numeral?, isHexadecimal_append hrest, numeralRun_append hrun hrest]
    rw [if_pos hform]
  · cases hcs

/-- The first character of a numeral is a digit or a point, so that it is no blank and begins no
name. -/
theorem startsNumeral_append {c : Char} {cs : List Char} (h : startsNumeral (c :: cs))
    (rest : List Char) :
    startsNumeral (c :: cs ++ rest) ∧ isBlank c = false ∧ isNameStart c = false := by
  simp only [startsNumeral, Bool.or_eq_true, Bool.and_eq_true, beq_iff_eq] at h
  obtain hdigit | ⟨rfl, hnext⟩ := h
  · have hname : isNameChar c := by simp [isNameChar, Char.isAlphanum, hdigit]
    refine ⟨?_, isBlank_eq_false_of_isNameChar hname, ?_⟩
    · simp [startsNumeral, hdigit]
    · simp [isNameStart, hdigit]
  · cases cs with
    | nil => simp at hnext
    | cons next cs =>
      refine ⟨?_, rfl, rfl⟩
      simpa [startsNumeral] using hnext

theorem lexes_numeral {text : String} (htext : isNumeral text) :
    Lexes endsWord text.toList [.numeral text] := by
  rw [isNumeral, Bool.and_eq_true, decide_eq_true_eq] at htext
  obtain ⟨hstart, hnumeral⟩ := htext
  cases hcs : text.toList with
  | nil => simp [hcs, startsNumeral] at hstart
  | cons c cs =>
    rw [hcs] at hstart hnumeral
    refine .single fun rest hrest => ?_
    obtain ⟨hstarts, hblank, hname⟩ := startsNumeral_append hstart rest
    have hrun := numeral?_append hnumeral hrest
    have htoken : String.ofList (c :: cs) = text := by rw [← hcs, String.ofList_toList]
    rw [List.cons_append] at hstarts hrun ⊢
    rw [lexStep]
    simp [hblank, hname, hstarts, hrun, htoken]

/-! ## Strings -/

theorem charBytes_of_le {c : Char} (hc : c.toNat ≤ 127) : charBytes c = [UInt8.ofNat c.toNat] := by
  simp only [charBytes, String.utf8EncodeChar, Char.toNat_val, if_pos hc]

theorem isDigit_digitChar {n : Nat} (hn : n < 10) :
    (Nat.digitChar n).isDigit ∧ (Nat.digitChar n).toNat - '0'.toNat = n := by
  match n, hn with
  | 0, _ | 1, _ | 2, _ | 3, _ | 4, _ | 5, _ | 6, _ | 7, _ | 8, _ | 9, _ => exact ⟨rfl, rfl⟩

theorem escape?_threeDigits {n : Nat} (hn : n < 256) (cs : List Char) :
    escape? (threeDigits n ++ cs) = some ([UInt8.ofNat n], (threeDigits n).length) := by
  obtain ⟨hhundreds, hhundredsValue⟩ := isDigit_digitChar (n := n / 100 % 10) (by omega)
  obtain ⟨htens, htensValue⟩ := isDigit_digitChar (n := n / 10 % 10) (by omega)
  obtain ⟨hones, honesValue⟩ := isDigit_digitChar (n := n % 10) (by omega)
  have hdigits : ((threeDigits n ++ cs).takeWhile Char.isDigit).take 3 = threeDigits n := by
    simp [threeDigits, hhundreds, htens, hones]
  have hvalue : decimalValue (threeDigits n) = n := by
    simp only [threeDigits, decimalValue, List.foldl_cons, List.foldl_nil, hhundredsValue,
      htensValue, honesValue]
    omega
  have hx : Nat.digitChar (n / 100 % 10) ≠ 'x' := fun h => by simp [h] at hhundreds
  have hz : Nat.digitChar (n / 100 % 10) ≠ 'z' := fun h => by simp [h] at hhundreds
  rw [threeDigits, List.cons_append] at hdigits ⊢
  rw [escape?, if_neg hx, if_neg hz, if_pos hhundreds, hdigits]
  rw [threeDigits] at hvalue
  simp [hvalue, hn]

/-- Characters that have been read are passed over. -/
theorem stringBody_append (quote : Char) (first cs : List Char) :
    stringBody quote first.length (first ++ cs) = stringBody quote 0 cs := by
  induction first with
  | nil => rfl
  | cons c first ih =>
    rw [List.length_cons, List.cons_append, stringBody, ih]

theorem stringBody_escape (escaped : List Char) {bytes : List UInt8} {cs : List Char}
    (h : escape? (escaped ++ cs) = some (bytes, escaped.length)) :
    stringBody '"' 0 ('\\' :: escaped ++ cs) =
      (stringBody '"' 0 cs).map fun (more, rest) => (bytes ++ more, rest) := by
  rw [List.cons_append, stringBody]
  simp only [Char.reduceEq, if_false, if_true, h, stringBody_append, Option.bind_eq_bind,
    Option.bind_some]
  cases stringBody '"' 0 cs <;> rfl

theorem toNat_le_of_isControl {c : Char} (hc : isControl c) : c.toNat ≤ 127 := by
  simp only [isControl, Bool.or_eq_true, decide_eq_true_eq, beq_iff_eq] at hc
  omega

/-- One character of a string, written with its escape, is read as its own bytes. -/
theorem stringBody_escapeChar (c : Char) (cs : List Char) :
    stringBody '"' 0 (escapeChar c ++ cs) =
      (stringBody '"' 0 cs).map fun (bytes, rest) => (charBytes c ++ bytes, rest) := by
  unfold escapeChar
  split
  · next hquote =>
    subst hquote
    exact stringBody_escape ['"'] rfl
  split
  · next hbackslash =>
    subst hbackslash
    exact stringBody_escape ['\\'] rfl
  split
  · next hline =>
    subst hline
    exact stringBody_escape ['n'] rfl
  split
  · next hreturn =>
    subst hreturn
    exact stringBody_escape ['r'] rfl
  split
  · next htab =>
    subst htab
    exact stringBody_escape ['t'] rfl
  split
  · next hcontrol =>
    have hc := toNat_le_of_isControl hcontrol
    rw [charBytes_of_le hc]
    exact stringBody_escape (threeDigits c.toNat) (escape?_threeDigits (by omega) cs)
  · next hquote hbackslash hline hreturn _ _ =>
    rw [List.singleton_append, stringBody]
    simp only [hquote, hbackslash, hline, hreturn, decide_false, Bool.or_self, Bool.false_eq_true,
      if_false]
    cases stringBody '"' 0 cs <;> rfl

theorem stringBody_flatMap (cs rest : List Char) :
    stringBody '"' 0 (cs.flatMap escapeChar ++ '"' :: rest) =
      some (cs.flatMap charBytes, rest) := by
  induction cs with
  | nil =>
    rw [List.flatMap_nil, List.nil_append, stringBody]
    simp
  | cons c cs ih =>
    rw [List.flatMap_cons, List.append_assoc, stringBody_escapeChar, ih]
    simp

theorem lexes_quote (value : String) :
    Lexes anything (quote value).toList [.str (value.toList.flatMap charBytes)] := by
  rw [quote, String.toList_ofList, List.cons_append]
  refine .single fun rest _ => ?_
  rw [List.cons_append, List.append_assoc, List.singleton_append, lexStep, stringBody_flatMap]
  rfl

end LuaBackend.Lua
