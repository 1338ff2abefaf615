import LuaBackend.Text.Lines
import Mathlib.Data.List.Basic

/-!
# Lines and their numbers

A line is what stands between two line feeds (`IsLine`), and there are as many lines as there are
line feeds, with one more for a text that does not end with one (`lineCount`).  `lines` gives
exactly these lines, in order: the line with the number `n + 1` is its entry `n`.

Every text is a last line without a line feed, or a line, a line feed and the lines of a shorter
text (`line_induction`); all facts about lines are proved along this.
-/

namespace LuaBackend.Text

/-! ## Parts between separators -/

theorem split_eq_splitOn (separator : Char) (cs : List Char) :
    split separator cs = cs.splitOn separator := by
  induction cs with
  | nil => rfl
  | cons c cs ih =>
      simp only [split, ih, List.splitOn, List.splitOnP_cons_eq_if_modifyHead, beq_iff_eq]
      cases hparts : cs.splitOnP (· == separator) with
      | nil => exact absurd hparts (List.splitOnP_ne_nil _ _)
      | cons part parts => rfl

theorem split_ne_nil (separator : Char) (cs : List Char) : split separator cs ≠ [] := by
  rw [split_eq_splitOn]
  exact List.splitOnP_ne_nil _ _

theorem split_of_not_mem {separator : Char} {cs : List Char} (hcs : separator ∉ cs) :
    split separator cs = [cs] := by
  rw [split_eq_splitOn]
  apply List.splitOnP_eq_singleton
  intro c hc
  exact beq_eq_false_iff_ne.2 fun heq => hcs (heq ▸ hc)

theorem split_append_cons (separator : Char) (cs ds : List Char) :
    split separator (cs ++ separator :: ds) = split separator cs ++ split separator ds := by
  simp only [split_eq_splitOn]
  exact List.splitOnP_append_cons cs ds (beq_self_eq_true separator)

/-! ## One line after the other -/

@[elab_as_elim]
theorem line_induction {motive : List Char → Prop}
    (last : ∀ cs, '\n' ∉ cs → motive cs)
    (feed : ∀ line rest, '\n' ∉ line → motive rest → motive (line ++ '\n' :: rest))
    (cs : List Char) : motive cs := by
  induction hlength : cs.length using Nat.strongRecOn generalizing cs with
  | ind length ih =>
      by_cases hcs : '\n' ∈ cs
      · obtain ⟨line, rest, rfl, hline⟩ := List.eq_append_cons_of_mem hcs
        have hshorter : rest.length < length := by
          rw [← hlength, List.length_append, List.length_cons]
          omega
        exact feed line rest hline (ih rest.length hshorter rest rfl)
      · exact last cs hcs

theorem trimLines_split_of_not_mem {cs : List Char} (hcs : '\n' ∉ cs) :
    trimLines (split '\n' cs) = if cs = [] then [] else [cs] := by
  rw [split_of_not_mem hcs, trimLines]
  simp

theorem trimLines_split_append {line rest : List Char} (hline : '\n' ∉ line) :
    trimLines (split '\n' (line ++ '\n' :: rest)) =
      dropReturn line :: trimLines (split '\n' rest) := by
  rw [split_append_cons, split_of_not_mem hline, List.singleton_append]
  cases hparts : split '\n' rest with
  | nil => exact absurd hparts (split_ne_nil _ _)
  | cons part parts => rfl

/-- The first line feed of a text is in one place only. -/
theorem append_feed_inj {line line' rest rest' : List Char} (hline : '\n' ∉ line)
    (hline' : '\n' ∉ line') :
    line ++ '\n' :: rest = line' ++ '\n' :: rest' ↔ line = line' ∧ rest = rest' := by
  constructor
  · intro h
    have hparts : split '\n' (line ++ '\n' :: rest) = split '\n' (line' ++ '\n' :: rest') := by
      rw [h]
    rw [split_append_cons, split_append_cons, split_of_not_mem hline, split_of_not_mem hline']
      at hparts
    obtain rfl : line = line' := (List.cons.inj hparts).1
    exact ⟨rfl, (List.cons.inj (List.append_cancel_left h)).2⟩
  · rintro ⟨rfl, rfl⟩
    rfl

/-! ## Lines by their numbers -/

/-- How a line ends: with a line feed, and a carriage return directly in front of it does not belong
to the line, or with the text, and then the line is not empty. -/
inductive EndsLine (line : List Char) : (rest : List Char) → Prop where
  | feed {rest : List Char} (hline : line.getLast? ≠ some '\r') : EndsLine line ('\n' :: rest)
  | returnFeed {rest : List Char} : EndsLine line ('\r' :: '\n' :: rest)
  | finish (hline : line ≠ []) : EndsLine line []

/-- `line` is the line of a text with this number, where the first one has the number 1. -/
def IsLine (cs : List Char) (number : Nat) (line : List Char) : Prop :=
  ∃ before rest, cs = before ++ line ++ rest ∧ before.count '\n' + 1 = number ∧
    (before = [] ∨ before.getLast? = some '\n') ∧ '\n' ∉ line ∧ EndsLine line rest

/-- How many lines a text has. -/
def lineCount (cs : List Char) : Nat :=
  cs.count '\n' + if cs = [] ∨ cs.getLast? = some '\n' then 0 else 1

/-- What precedes the first line has no line feed, so it is empty. -/
theorem eq_nil_of_startsLine {before : List Char}
    (hstart : before = [] ∨ before.getLast? = some '\n') (hbefore : '\n' ∉ before) :
    before = [] := by
  obtain hnil | hlast := hstart
  · exact hnil
  · exact absurd (List.mem_of_getLast? hlast) hbefore

/-- A text without a line feed is its only line. -/
theorem isLine_iff_of_not_mem {cs line : List Char} {number : Nat} (hcs : '\n' ∉ cs) :
    IsLine cs number line ↔ cs ≠ [] ∧ number = 1 ∧ line = cs := by
  constructor
  · rintro ⟨before, rest, rfl, rfl, hstart, hline, hend⟩
    simp only [List.mem_append, not_or] at hcs
    obtain ⟨⟨hbefore, -⟩, hrest⟩ := hcs
    obtain rfl := eq_nil_of_startsLine hstart hbefore
    cases hend with
    | feed | returnFeed => simp at hrest
    | finish hne => simp [hne]
  · rintro ⟨hne, rfl, rfl⟩
    exact ⟨[], [], by simp, rfl, .inl rfl, hcs, .finish hne⟩

theorem dropReturn_eq_iff {line text : List Char} :
    dropReturn line = text ↔
      line = text ∧ text.getLast? ≠ some '\r' ∨ line = text ++ ['\r'] := by
  unfold dropReturn
  split_ifs with hreturn
  · obtain ⟨front, rfl⟩ := List.getLast?_eq_some_iff.1 hreturn
    rw [List.dropLast_concat]
    constructor
    · rintro rfl
      exact .inr rfl
    · rintro (⟨rfl, hlast⟩ | heq)
      · exact absurd hreturn hlast
      · exact List.append_cancel_right heq
  · constructor
    · rintro rfl
      exact .inl ⟨rfl, hreturn⟩
    · rintro (⟨rfl, -⟩ | rfl)
      · rfl
      · simp at hreturn

/-- The first line ends at the first line feed. -/
theorem isLine_one_iff {line rest text : List Char} (hline : '\n' ∉ line) :
    IsLine (line ++ '\n' :: rest) 1 text ↔ text = dropReturn line := by
  rw [eq_comm, dropReturn_eq_iff]
  constructor
  · rintro ⟨before, after, htext, hnumber, hstart, hfeed, hend⟩
    have hbefore : '\n' ∉ before := List.count_eq_zero.1 (Nat.succ.inj hnumber)
    obtain rfl := eq_nil_of_startsLine hstart hbefore
    rw [List.nil_append] at htext
    cases hend with
    | feed hreturn =>
        obtain ⟨rfl, -⟩ := (append_feed_inj hline hfeed).1 htext
        exact .inl ⟨rfl, hreturn⟩
    | @returnFeed after =>
        have hfeed' : '\n' ∉ text ++ ['\r'] := by simp [hfeed]
        have htext' : line ++ '\n' :: rest = text ++ ['\r'] ++ '\n' :: after := by simpa using htext
        exact .inr ((append_feed_inj hline hfeed').1 htext').1
    | finish =>
        rw [List.append_nil] at htext
        exact absurd (htext ▸ by simp) hfeed
  · rintro (⟨rfl, hreturn⟩ | rfl)
    · exact ⟨[], '\n' :: rest, rfl, rfl, .inl rfl, hline, .feed hreturn⟩
    · have hfeed : '\n' ∉ text := fun hmem => hline (List.mem_append_left _ hmem)
      exact ⟨[], '\r' :: '\n' :: rest, by simp, rfl, .inl rfl, hfeed, .returnFeed⟩

/-- The lines behind the first line feed have their numbers raised by one. -/
theorem isLine_add_two_iff {line rest text : List Char} {n : Nat} (hline : '\n' ∉ line) :
    IsLine (line ++ '\n' :: rest) (n + 2) text ↔ IsLine rest (n + 1) text := by
  constructor
  · rintro ⟨before, after, htext, hnumber, hstart, hfeed, hend⟩
    have hbefore : '\n' ∈ before := List.count_pos_iff.1 (by omega)
    obtain ⟨first, others, rfl, hfirst⟩ := List.eq_append_cons_of_mem hbefore
    have hsplit : line ++ '\n' :: rest = first ++ '\n' :: (others ++ text ++ after) := by
      simpa using htext
    obtain ⟨rfl, rfl⟩ := (append_feed_inj hline hfirst).1 hsplit
    refine ⟨others, after, rfl, ?_, ?_, hfeed, hend⟩
    · rw [List.count_append, List.count_eq_zero.2 hfirst, List.count_cons_self] at hnumber
      omega
    · cases others with
      | nil => exact .inl rfl
      | cons c others => simpa using hstart
  · rintro ⟨before, after, rfl, hnumber, hstart, hfeed, hend⟩
    refine ⟨line ++ '\n' :: before, after, by simp, ?_, .inr ?_, hfeed, hend⟩
    · rw [List.count_append, List.count_eq_zero.2 hline, List.count_cons_self]
      omega
    · obtain rfl | hlast := hstart
      · simp
      · simp [List.getLast?_cons, hlast]

theorem getElem?_trimLines_split (cs : List Char) (n : Nat) (text : List Char) :
    (trimLines (split '\n' cs))[n]? = some text ↔ IsLine cs (n + 1) text := by
  induction cs using line_induction generalizing n with
  | last cs hcs =>
      rw [trimLines_split_of_not_mem hcs, isLine_iff_of_not_mem hcs]
      by_cases hnil : cs = []
      · simp [hnil]
      · rw [if_neg hnil]
        cases n with
        | zero => simp [hnil, eq_comm]
        | succ n => simp
  | feed line rest hline ih =>
      rw [trimLines_split_append hline]
      cases n with
      | zero => simp [isLine_one_iff hline, eq_comm]
      | succ n => rw [List.getElem?_cons_succ, ih, isLine_add_two_iff hline]

theorem length_trimLines_split (cs : List Char) :
    (trimLines (split '\n' cs)).length = lineCount cs := by
  induction cs using line_induction with
  | last cs hcs =>
      have hlast : cs.getLast? ≠ some '\n' := fun h => hcs (List.mem_of_getLast? h)
      rw [trimLines_split_of_not_mem hcs, lineCount, List.count_eq_zero.2 hcs]
      by_cases hnil : cs = []
      · simp [hnil]
      · simp [hnil, hlast]
  | feed line rest hline ih =>
      rw [trimLines_split_append hline, List.length_cons, ih, lineCount, lineCount,
        List.count_append, List.count_eq_zero.2 hline, List.count_cons_self]
      -- The text ends like what follows its first line feed, or with that line feed.
      cases rest with
      | nil => simp
      | cons c cs =>
          have hlast : (line ++ '\n' :: c :: cs).getLast? = (c :: cs).getLast? := by
            rw [List.append_cons, List.getLast?_append_of_ne_nil _ (List.cons_ne_nil c cs)]
          simp only [hlast, List.append_eq_nil_iff, reduceCtorEq, and_false, false_or]
          omega

/-- The entries of `lines` are the lines of the text. -/
theorem getElem?_lines (source : String) (n : Nat) (text : String) :
    (lines source)[n]? = some text ↔ IsLine source.toList (n + 1) text.toList := by
  rw [lines, List.getElem?_map, ← getElem?_trimLines_split, Option.map_eq_some_iff]
  constructor
  · rintro ⟨line, hline, rfl⟩
    rwa [String.toList_ofList]
  · intro hline
    exact ⟨text.toList, hline, String.ofList_toList⟩

theorem length_lines (source : String) : (lines source).length = lineCount source.toList := by
  rw [lines, List.length_map, length_trimLines_split]

/-- The lines of a text have the numbers from 1 to their count, and no number stands for two. -/
theorem exists_unique_line {source : String} {number : Nat} (hpos : 0 < number)
    (hcount : number ≤ lineCount source.toList) :
    ∃ text : String, IsLine source.toList number text.toList ∧
      ∀ other : String, IsLine source.toList number other.toList → other = text := by
  obtain ⟨n, rfl⟩ : ∃ n, number = n + 1 := ⟨number - 1, by omega⟩
  have hn : n < (lines source).length := by
    rw [length_lines]
    omega
  refine ⟨(lines source)[n], ?_, ?_⟩
  · rw [← getElem?_lines]
    exact List.getElem?_eq_getElem hn
  · intro other hother
    rw [← getElem?_lines, List.getElem?_eq_getElem hn] at hother
    exact (Option.some.inj hother).symm

-- A line feed ends a line whatever stands before it, and a carriage return alone ends none.
example : lines "a\r\n\r\r\n\nb\rc\r" = ["a", "\r", "", "b\rc\r"] := by decide

end LuaBackend.Text
