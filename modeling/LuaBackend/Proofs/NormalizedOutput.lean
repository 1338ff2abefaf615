import LuaBackend.Fixture.Output
import Mathlib.Data.List.DropRight
import Mathlib.Data.List.Infix

/-!
# Normalized outputs

No normalized output ends with white space.  Line ends are written as line feeds in one pass, and
what the pass has written is not looked at again: of `\r\r\n` it leaves `\r\n`.  So a normalized
output is free of `\r\n`, and normalizing it once more changes nothing, exactly if the output has no
`\r\r\n` in front of its last character that is not white.

The two steps of `normalize` can be exchanged (`trimEnd_dropReturns`), which leaves only the pass
over the line ends to be looked at.
-/

namespace LuaBackend

/-! ## White space at the end -/

namespace Text

theorem trimEnd_eq_rdropWhile (cs : List Char) : trimEnd cs = cs.rdropWhile isWhite := rfl

theorem isWhite_getLast?_trimEnd {cs : List Char} {c : Char}
    (hlast : (trimEnd cs).getLast? = some c) : isWhite c = false := by
  have hne : cs.rdropWhile isWhite ≠ [] := by
    intro hnil
    rw [trimEnd_eq_rdropWhile, hnil] at hlast
    cases hlast
  rw [trimEnd_eq_rdropWhile, List.getLast?_eq_some_getLast hne] at hlast
  have hnot := List.rdropWhile_last_not isWhite cs hne
  rw [Option.some.inj hlast] at hnot
  exact Bool.eq_false_iff.2 hnot

theorem trimEnd_eq_self {cs : List Char}
    (hlast : ∀ c, cs.getLast? = some c → isWhite c = false) : trimEnd cs = cs := by
  rw [trimEnd_eq_rdropWhile, List.rdropWhile_eq_self_iff]
  intro hne
  rw [hlast _ (List.getLast?_eq_some_getLast hne)]
  exact Bool.false_ne_true

/-- A text is its trimmed text and white space. -/
theorem exists_eq_trimEnd_append (cs : List Char) :
    ∃ blank : List Char, cs = trimEnd cs ++ blank ∧ ∀ c ∈ blank, isWhite c = true :=
  ⟨cs.rtakeWhile isWhite, List.rdropWhile_append_rtakeWhile.symm,
    fun _ => List.mem_rtakeWhile_imp⟩

theorem trimEnd_append_of_white {cs blank : List Char}
    (hblank : ∀ c ∈ blank, isWhite c = true) : trimEnd (cs ++ blank) = trimEnd cs := by
  have hnil : blank.reverse.dropWhile isWhite = [] := by
    rw [List.dropWhile_eq_nil_iff]
    intro c hc
    exact hblank c (List.mem_reverse.1 hc)
  rw [trimEnd, trimEnd, List.reverse_append, List.dropWhile_append, hnil]
  rfl

/-- Trimming stops at a character that is not white. -/
theorem trimEnd_append_of_not_white {cs ds : List Char} {c : Char} (hc : c ∈ ds)
    (hwhite : isWhite c = false) : trimEnd (cs ++ ds) = cs ++ trimEnd ds := by
  have hne : ds.reverse.dropWhile isWhite ≠ [] := by
    rw [ne_eq, List.dropWhile_eq_nil_iff]
    intro hall
    rw [hall c (List.mem_reverse.2 hc)] at hwhite
    cases hwhite
  rw [trimEnd, trimEnd, List.reverse_append, List.dropWhile_append,
    if_neg (by simpa using hne), List.reverse_append, List.reverse_reverse]

end Text

namespace Fixture

open Text

/-! ## One pass over the line ends -/

theorem mem_of_mem_dropReturns {c : Char} {cs : List Char} (hc : c ∈ dropReturns cs) :
    c ∈ cs := by
  fun_induction dropReturns cs with
  | case1 cs ih =>
      obtain rfl | hmem := List.mem_cons.1 hc
      · simp
      · exact List.mem_cons_of_mem _ (List.mem_cons_of_mem _ (ih hmem))
  | case2 d cs _ ih =>
      obtain rfl | hmem := List.mem_cons.1 hc
      · exact List.mem_cons_self
      · exact List.mem_cons_of_mem _ (ih hmem)
  | case3 => exact hc

theorem getLast?_dropReturns (cs : List Char) :
    (dropReturns cs).getLast? = cs.getLast? := by
  fun_induction dropReturns cs with
  | case1 cs ih => simp [List.getLast?_cons, ih]
  | case2 d cs _ ih => simp [List.getLast?_cons, ih]
  | case3 => rfl

theorem not_pair_begins {c : Char} {cs : List Char}
    (hpair : ∀ rest, c = '\r' → cs = '\n' :: rest → False) : ¬['\r', '\n'] <+: c :: cs := by
  rintro ⟨rest, hrest⟩
  obtain ⟨hc, hcs⟩ := List.cons.inj hrest
  exact hpair rest hc.symm hcs.symm

/-- The pass leaves a character that does not begin a pair of a carriage return and a line feed. -/
theorem dropReturns_cons {c : Char} {cs : List Char} (hpair : ¬['\r', '\n'] <+: c :: cs) :
    dropReturns (c :: cs) = c :: dropReturns cs := by
  rw [dropReturns]
  rintro rest rfl rfl
  exact hpair ⟨rest, rfl⟩

/-- A pair is not cut behind any character but a carriage return. -/
theorem dropReturns_append {cs ds : List Char} (hlast : cs.getLast? ≠ some '\r') :
    dropReturns (cs ++ ds) = dropReturns cs ++ dropReturns ds := by
  fun_induction dropReturns cs with
  | case1 cs ih =>
      have hlast' : cs.getLast? ≠ some '\r' := by
        cases cs with
        | nil => simp
        | cons c cs => simpa using hlast
      rw [List.cons_append, List.cons_append, dropReturns, ih hlast', List.cons_append]
  | case2 c cs hpair ih =>
      have hkept := not_pair_begins hpair
      cases cs with
      | nil =>
          have hc : c ≠ '\r' := by simpa using hlast
          rw [List.singleton_append, dropReturns_cons (by simp [hc.symm])]
          rfl
      | cons d cs =>
          rw [List.cons_append, dropReturns_cons (by simpa using hkept),
            ih (by simpa using hlast), List.cons_append]
  | case3 => rfl

theorem dropReturns_eq_self_iff {cs : List Char} :
    dropReturns cs = cs ↔ ¬['\r', '\n'] <:+: cs := by
  fun_induction dropReturns cs with
  | case1 cs ih =>
      have hpair : ['\r', '\n'] <:+: '\r' :: '\n' :: cs := ⟨[], cs, rfl⟩
      simp [hpair]
  | case2 c cs hpair ih =>
      rw [List.cons_inj_right, ih, List.infix_cons_iff, or_iff_right (not_pair_begins hpair)]
  | case3 => simp

/-- The pass writes a line feed first only where the text begins with a line end. -/
theorem feed_prefix_dropReturns {cs : List Char} :
    ['\n'] <+: dropReturns cs ↔ ['\n'] <+: cs ∨ ['\r', '\n'] <+: cs := by
  fun_induction dropReturns cs with
  | case1 cs ih => simp
  | case2 c cs hpair ih => simp [not_pair_begins hpair]
  | case3 => simp

/-- What the pass leaves of a pair comes from a carriage return in front of a pair. -/
theorem pair_infix_dropReturns {cs : List Char} :
    ['\r', '\n'] <:+: dropReturns cs ↔ ['\r', '\r', '\n'] <:+: cs := by
  fun_induction dropReturns cs with
  | case1 cs ih => simp [List.infix_cons_iff, ih]
  | case2 c cs hpair ih =>
      have hbegins : ['\r', '\n'] <+: c :: dropReturns cs ↔ ['\r', '\r', '\n'] <+: c :: cs := by
        have hfeed : '\r' = c → ¬['\n'] <+: cs := by
          intro hc hcs
          exact not_pair_begins hpair (List.cons_prefix_cons.2 ⟨hc, hcs⟩)
        rw [List.cons_prefix_cons, List.cons_prefix_cons, feed_prefix_dropReturns]
        exact and_congr_right fun hc => or_iff_right (hfeed hc)
      rw [List.infix_cons_iff, List.infix_cons_iff, hbegins, ih]
  | case3 => simp

/-! ## The two steps together -/

theorem trimEnd_dropReturns (cs : List Char) :
    trimEnd (dropReturns cs) = dropReturns (trimEnd cs) := by
  obtain ⟨blank, hcs, hblank⟩ := exists_eq_trimEnd_append cs
  have hlast : (trimEnd cs).getLast? ≠ some '\r' := by
    intro hreturn
    have hwhite := isWhite_getLast?_trimEnd hreturn
    cases hwhite
  have hkept : ∀ c, (dropReturns (trimEnd cs)).getLast? = some c → isWhite c = false := by
    intro c hc
    rw [getLast?_dropReturns] at hc
    exact isWhite_getLast?_trimEnd hc
  calc trimEnd (dropReturns cs)
      = trimEnd (dropReturns (trimEnd cs) ++ dropReturns blank) := by
        rw [← dropReturns_append hlast, ← hcs]
    _ = trimEnd (dropReturns (trimEnd cs)) :=
        trimEnd_append_of_white fun c hc => hblank c (mem_of_mem_dropReturns hc)
    _ = dropReturns (trimEnd cs) := trimEnd_eq_self hkept

theorem toList_normalize (output : String) :
    (normalize output).toList = dropReturns (trimEnd output.toList) := by
  rw [normalize, String.toList_ofList, trimEnd_dropReturns]

theorem isWhite_getLast?_normalize {output : String} {c : Char}
    (hlast : (normalize output).toList.getLast? = some c) : isWhite c = false := by
  rw [toList_normalize, getLast?_dropReturns] at hlast
  exact isWhite_getLast?_trimEnd hlast

/-- Nothing is left to trim, so a second pass changes what still has a pair. -/
theorem normalize_normalize_eq_iff (output : String) :
    normalize (normalize output) = normalize output ↔
      ¬['\r', '\n'] <:+: (normalize output).toList := by
  have htrim : trimEnd (normalize output).toList = (normalize output).toList :=
    trimEnd_eq_self fun _ => isWhite_getLast?_normalize
  rw [← String.toList_inj, toList_normalize (normalize output), htrim, dropReturns_eq_self_iff]

/-- A carriage return in front of a line end `\r\n`, and behind it a character that is not white. -/
def HasStrayReturn (cs : List Char) : Prop :=
  ∃ before after, cs = before ++ ['\r', '\r', '\n'] ++ after ∧ ∃ c ∈ after, isWhite c = false

theorem hasStrayReturn_iff {cs : List Char} :
    HasStrayReturn cs ↔ ['\r', '\r', '\n'] <:+: trimEnd cs := by
  constructor
  · rintro ⟨before, after, rfl, c, hc, hwhite⟩
    exact ⟨before, trimEnd after, (trimEnd_append_of_not_white hc hwhite).symm⟩
  · rintro ⟨before, after, htrim⟩
    obtain ⟨blank, hcs, -⟩ := exists_eq_trimEnd_append cs
    refine ⟨before, after ++ blank, by rw [← List.append_assoc, htrim, ← hcs], ?_⟩
    -- The line feed is white, so it is not the last character of the trimmed text.
    cases hlast : after.getLast? with
    | none =>
        obtain rfl := List.getLast?_eq_none_iff.1 hlast
        have hfeed : (trimEnd cs).getLast? = some '\n' := by simp [← htrim]
        have hwhite := isWhite_getLast?_trimEnd hfeed
        cases hwhite
    | some c =>
        have hc : (trimEnd cs).getLast? = some c := by
          rw [← htrim, List.getLast?_append, hlast, Option.some_or]
        exact ⟨c, List.mem_append_left _ (List.mem_of_getLast? hlast),
          isWhite_getLast?_trimEnd hc⟩

theorem pair_infix_normalize (output : String) :
    ['\r', '\n'] <:+: (normalize output).toList ↔ HasStrayReturn output.toList := by
  rw [toList_normalize, pair_infix_dropReturns, hasStrayReturn_iff]

/-- A normalized output never ends with white space.  It has no `\r\n`, and it is its own normalized
output, exactly if the output has no carriage return in front of a line end `\r\n` that is not part
of the white space at its end. -/
theorem normalize_isNormal_iff (output : String) :
    (∀ c, (normalize output).toList.getLast? = some c → isWhite c = false) ∧
      (¬['\r', '\n'] <:+: (normalize output).toList ↔ ¬HasStrayReturn output.toList) ∧
      (normalize (normalize output) = normalize output ↔ ¬HasStrayReturn output.toList) := by
  have hpair := pair_infix_normalize output
  refine ⟨fun c => isWhite_getLast?_normalize, not_congr hpair, ?_⟩
  rw [normalize_normalize_eq_iff, hpair]

/-- Of `\r\r\n` one carriage return stays in front of the line feed. -/
theorem normalize_strayReturn :
    ['\r', '\n'] <:+: (normalize "a\r\r\nb").toList ∧
      normalize (normalize "a\r\r\nb") ≠ normalize "a\r\r\nb" := by
  exact ⟨⟨['a'], ['b'], by decide⟩, by decide⟩

end Fixture

end LuaBackend
