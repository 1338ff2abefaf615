import LuaBackend.Proofs.Lexemes
import Mathlib.Tactic.Common

/-!
# Quoted texts

A quoted text is one string of Lua whatever stands behind it: reading starts at its first quote, ends
at its last one and gives the bytes of the text.  The reader decides where an escape ends by the
characters that follow, so this rests on the escapes: one that could go on with a digit always has
its three digits already.
-/

namespace LuaBackend.Lua

/-- The string at the front of a text, between single or double quotes: the bytes that it stands for
and what follows its closing quote. -/
def shortString? (text : String) : Option (ByteArray × String) :=
  match text.toList with
  | [] => none
  | c :: cs =>
    if c = '"' || c = '\x27' then
      (stringBody c 0 cs).map fun (bytes, rest) => (bytes.toByteArray, String.ofList rest)
    else none

theorem shortString?_quote (value rest : String) :
    shortString? (quote value ++ rest) = some (value.toUTF8, rest) := by
  have hchars : (quote value ++ rest).toList =
      '"' :: (value.toList.flatMap escapeChar ++ '"' :: rest.toList) := by
    simp [quote]
  have hbytes : (value.toList.flatMap charBytes).toByteArray = value.toUTF8 :=
    String.utf8Encode_toList
  rw [shortString?, hchars]
  simp [stringBody_flatMap, hbytes]

/-- The text and what follows it can be told from a quoted text and what follows that. -/
theorem quote_append_inj {first second rest rest' : String} :
    quote first ++ rest = quote second ++ rest' ↔ first = second ∧ rest = rest' := by
  constructor
  · intro htexts
    have hread : some (first.toUTF8, rest) = some (second.toUTF8, rest') :=
      calc some (first.toUTF8, rest)
          = shortString? (quote first ++ rest) := (shortString?_quote first rest).symm
        _ = shortString? (quote second ++ rest') := by rw [htexts]
        _ = some (second.toUTF8, rest') := shortString?_quote second rest'
    obtain ⟨hbytes, hrest⟩ := Prod.mk.inj (Option.some.inj hread)
    exact ⟨String.toByteArray_inj.1 hbytes, hrest⟩
  · rintro ⟨rfl, rfl⟩
    rfl

theorem quote_injective : Function.Injective quote := by
  intro first second hquote
  have htexts : quote first ++ "" = quote second ++ "" := by rw [hquote]
  exact (quote_append_inj.1 htexts).1

/-! ## Characters of a quoted text -/

theorem isControl_digitChar : ∀ n < 10, isControl (Nat.digitChar n) = false := by decide

theorem isControl_of_mem_escapeChar {c d : Char} (hd : d ∈ escapeChar c) : isControl d = false := by
  have hall : (escapeChar c).all fun d => !isControl d := by
    unfold escapeChar
    split_ifs with _ _ _ _ _ hcontrol
    · rfl
    · rfl
    · rfl
    · rfl
    · rfl
    · have hbackslash : isControl '\\' = false := rfl
      simp [threeDigits, hbackslash, isControl_digitChar _ (Nat.mod_lt _ _)]
    · simpa using hcontrol
  simpa using List.all_eq_true.1 hall d hd

theorem isControl_of_mem_quote {value : String} {c : Char} (hc : c ∈ (quote value).toList) :
    isControl c = false := by
  simp only [quote, String.toList_ofList, List.cons_append, List.mem_cons, List.mem_append,
    List.mem_flatMap, List.not_mem_nil, or_false] at hc
  obtain rfl | ⟨d, -, hd⟩ | rfl := hc
  · rfl
  · exact isControl_of_mem_escapeChar hd
  · rfl

/-- A quoted text is undone by reading it, in front of every other text.  It holds no control
character, and it can be cut off from what follows in one way only. -/
theorem shortString?_undoes_quote (value rest : String) :
    shortString? (quote value ++ rest) = some (value.toUTF8, rest) ∧
      ((quote value).toList.all fun c => 0x20 ≤ c.toNat && c.toNat ≠ 0x7F) ∧
      Function.Injective quote ∧
      ∀ other rest', quote value ++ rest = quote other ++ rest' ↔ value = other ∧ rest = rest' := by
  refine ⟨shortString?_quote value rest, ?_, quote_injective, fun other rest' => quote_append_inj⟩
  rw [List.all_eq_true]
  intro c hc
  have hcontrol := isControl_of_mem_quote hc
  simp only [isControl, Bool.or_eq_false_iff, decide_eq_false_iff_not, beq_eq_false_iff_ne]
    at hcontrol
  simp only [Bool.and_eq_true, decide_eq_true_eq]
  exact ⟨Nat.le_of_not_lt hcontrol.1, hcontrol.2⟩

-- An escape in front of a digit and a backslash in front of a quote, with a quote further on.
example : shortString? "\"\\0017\\\\\\\"\"9\"" = some ("\x017\\\"".toUTF8, "9\"") := by decide

end LuaBackend.Lua
