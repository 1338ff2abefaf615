import LuaBackend.Diagnostic
import LuaBackend.Proofs.TextLines

/-!
# Excerpts of the source

A diagnostic with a position quotes the line that it is about, if the source has that line, and the
row below points into it.  Offsets are those of characters: the bars of the two rows stand at the
same offset for line numbers of any length, and so the caret is below the character with the column
of the fault, or below where it would be if the line were long enough.
-/

namespace LuaBackend.Diagnostic

/-! ## The row with the caret -/

/-- A row of blanks but for a bar and, as its last character, a caret. -/
structure IsCaretRow (row : List Char) (bar caret : Nat) : Prop where
  getElem?_bar : row[bar]? = some '|'
  getElem?_caret : row[caret]? = some '^'
  length_eq : row.length = caret + 1
  blank : ∀ i c, row[i]? = some c → i ≠ bar → i ≠ caret → c = ' '

theorem isCaretRow_replicate (width pad : Nat) :
    IsCaretRow (List.replicate width ' ' ++ '|' :: (List.replicate pad ' ' ++ ['^'])) width
      (width + 1 + pad) where
  getElem?_bar := by simp
  getElem?_caret := by
    rw [List.getElem?_append_right (by simp; omega), List.length_replicate,
      show width + 1 + pad - width = pad + 1 by omega]
    simp
  length_eq := by
    simp only [List.length_append, List.length_cons, List.length_replicate, List.length_nil]
    omega
  blank := by
    intro i c hc hbar hcaret
    rw [List.getElem?_append, List.length_replicate] at hc
    split_ifs at hc with hi
    · simpa [hi] using hc.symm
    · obtain ⟨j, rfl⟩ : ∃ j, i = width + 1 + j := ⟨i - width - 1, by omega⟩
      rw [show width + 1 + j - width = j + 1 by omega, List.getElem?_cons_succ,
        List.getElem?_append, List.length_replicate] at hc
      split_ifs at hc with hj
      · simpa [hj] using hc.symm
      · rw [List.getElem?_eq_none (by simp; omega)] at hc
        cases hc

theorem toList_blanks (count : Nat) : (blanks count).toList = List.replicate count ' ' :=
  String.toList_ofList

/-- The bar stands one character behind a gutter of this width, and the text begins two characters
behind the bar. -/
theorem exists_isCaretRow_caretRow (gutter : String) (column : UInt32) :
    ∃ row : String, caretRow gutter column = row ++ "\n" ∧
      IsCaretRow row.toList (gutter.length + 1)
        (gutter.length + 1 + 2 + (max column.toNat 1 - 1)) := by
  refine ⟨blanks gutter.length ++ " | " ++ blanks (column.toNat - 1) ++ "^", ?_, ?_⟩
  · simp only [caretRow, String.append_assoc]
    rfl
  · have hrow : (blanks gutter.length ++ " | " ++ blanks (column.toNat - 1) ++ "^").toList =
        List.replicate (gutter.length + 1) ' ' ++
          '|' :: (List.replicate (column.toNat - 1 + 1) ' ' ++ ['^']) := by
      rw [List.replicate_succ', List.replicate_succ]
      simp [toList_blanks]
    have hcaret : gutter.length + 1 + 2 + (max column.toNat 1 - 1) =
        gutter.length + 1 + 1 + (column.toNat - 1 + 1) := by omega
    rw [hrow, hcaret]
    exact isCaretRow_replicate _ _

theorem getElem?_bar_quoted (gutter text : String) :
    (gutter ++ " | " ++ text).toList[gutter.length + 1]? = some '|' := by
  rw [← String.length_toList, String.toList_append, String.toList_append,
    List.append_assoc, List.getElem?_append_right (by omega)]
  simp

theorem drop_quoted (gutter text : String) :
    (gutter ++ " | " ++ text).toList.drop (gutter.length + 1 + 2) = text.toList := by
  have hlead : gutter.length + 1 + 2 = (gutter ++ " | ").toList.length := by
    rw [String.length_toList, String.length_append]
    rfl
  have hquoted : (gutter ++ " | " ++ text).toList = (gutter ++ " | ").toList ++ text.toList :=
    String.toList_append
  rw [hlead, hquoted, List.drop_left]

/-! ## The parts of a rendered diagnostic -/

theorem isKnown_iff {pos : Script.Pos} : pos.isKnown = true ↔ pos.line.toNat ≠ 0 := by
  simp [Script.Pos.isKnown, UInt32.lt_iff_toNat_lt, Nat.pos_iff_ne_zero]

theorem ofFault_line_eq_none {fault : Fault} (hline : fault.pos.line.toNat = 0) (file : String) :
    (ofFault fault file).line = none :=
  if_neg fun hknown => isKnown_iff.1 hknown hline

theorem ofFault_line_eq_some {fault : Fault} (hline : fault.pos.line.toNat ≠ 0) (file : String) :
    (ofFault fault file).line = some fault.pos.line :=
  if_pos (isKnown_iff.2 hline)

theorem ofFault_column_eq_some {fault : Fault} (hline : fault.pos.line.toNat ≠ 0) (file : String) :
    (ofFault fault file).column = some fault.pos.column :=
  if_pos (isKnown_iff.2 hline)

/-- The header of a fault names the file, the position, if there is one, and the cause. -/
theorem header_ofFault (fault : Fault) (file : String) :
    (ofFault fault file).header =
      file ++ (if fault.pos.line.toNat = 0 then "" else ":" ++ fault.pos.text) ++ ": error[" ++
        fault.cause.category.code ++ "]: " ++ fault.cause.message := by
  by_cases hline : fault.pos.line.toNat = 0
  · rw [header, place, ofFault_line_eq_none hline, if_pos hline]
    simp only [ofFault, String.append_assoc, String.empty_append]
    rfl
  · rw [header, place, ofFault_line_eq_some hline, ofFault_column_eq_some hline, if_neg hline]
    simp only [ofFault, Script.Pos.text, String.append_assoc]
    rfl

theorem excerpt_none (diagnostic : Diagnostic) : diagnostic.excerpt none = "" := by
  unfold excerpt
  cases diagnostic.line <;> rfl

theorem excerpt_of_line_eq_none {diagnostic : Diagnostic} (hline : diagnostic.line = none)
    (source : Option String) : diagnostic.excerpt source = "" := by
  simp only [excerpt, hline]

/-- A line that the source does not have is not quoted. -/
theorem excerpt_of_lineCount_lt {diagnostic : Diagnostic} {line : UInt32} {source : String}
    (hline : diagnostic.line = some line)
    (hcount : Text.lineCount source.toList < line.toNat) :
    diagnostic.excerpt (some source) = "" := by
  have hpast : (Text.lines source)[line.toNat - 1]? = none := by
    rw [List.getElem?_eq_none_iff, Text.length_lines]
    omega
  simp only [excerpt, hline, hpast]

/-- A line that the source has is quoted with its number, above the row with the caret. -/
theorem excerpt_of_isLine {diagnostic : Diagnostic} {line column : UInt32}
    {source text : String} (hline : diagnostic.line = some line)
    (hcolumn : diagnostic.column = some column) (hpos : 0 < line.toNat)
    (htext : Text.IsLine source.toList line.toNat text.toList) :
    diagnostic.excerpt (some source) =
      line.toNat.repr ++ " | " ++ text ++ "\n" ++ caretRow line.toNat.repr column := by
  have hquoted : (Text.lines source)[line.toNat - 1]? = some text := by
    rw [Text.getElem?_lines, Nat.sub_add_cancel hpos]
    exact htext
  simp only [excerpt, hline, hcolumn, hquoted]

/-- Without the source, and for a position that is unknown or past its last line, a fault is
rendered as its header.  Otherwise the header is followed by the line of the fault, behind its
number and a bar, and by a row with a bar below that bar and a caret below the column. -/
theorem render_ofFault (fault : Fault) (file source : String) :
    let diagnostic := ofFault fault file
    let line := fault.pos.line.toNat
    let column := max fault.pos.column.toNat 1
    diagnostic.header =
        file ++ (if line = 0 then "" else ":" ++ fault.pos.text) ++ ": error[" ++
          fault.cause.category.code ++ "]: " ++ fault.cause.message ∧
      diagnostic.render none = diagnostic.header ++ "\n" ∧
      (line = 0 ∨ Text.lineCount source.toList < line →
        diagnostic.render (some source) = diagnostic.header ++ "\n") ∧
      (0 < line ∧ line ≤ Text.lineCount source.toList →
        ∃ text row : String,
          let quoted := line.repr ++ " | " ++ text
          let bar := line.repr.length + 1
          Text.IsLine source.toList line text.toList ∧
            (∀ other : String, Text.IsLine source.toList line other.toList → other = text) ∧
            diagnostic.render (some source) =
              diagnostic.header ++ "\n" ++ quoted ++ "\n" ++ row ++ "\n" ∧
            quoted.toList[bar]? = some '|' ∧
            quoted.toList.drop (bar + 2) = text.toList ∧
            IsCaretRow row.toList bar (bar + 2 + (column - 1))) := by
  intro diagnostic line column
  refine ⟨header_ofFault fault file, ?_, ?_, ?_⟩
  · rw [render, excerpt_none, String.append_empty]
  · intro habsent
    rw [render]
    by_cases hline : line = 0
    · rw [excerpt_of_line_eq_none (ofFault_line_eq_none hline file), String.append_empty]
    · have hpast : Text.lineCount source.toList < line := habsent.resolve_left hline
      rw [excerpt_of_lineCount_lt (ofFault_line_eq_some hline file) hpast, String.append_empty]
  · rintro ⟨hpos, hcount⟩
    have hline : line ≠ 0 := Nat.pos_iff_ne_zero.1 hpos
    obtain ⟨text, htext, hunique⟩ := Text.exists_unique_line hpos hcount
    obtain ⟨row, hrow, hcaret⟩ := exists_isCaretRow_caretRow line.repr fault.pos.column
    have hexcerpt := excerpt_of_isLine (ofFault_line_eq_some hline file)
      (ofFault_column_eq_some hline file) hpos htext
    refine ⟨text, row, htext, hunique, ?_, getElem?_bar_quoted _ _, drop_quoted _ _, hcaret⟩
    rw [render, hexcerpt, hrow]
    simp only [String.append_assoc]
    rfl

-- A column past the end, below a line with a number of two digits.
example :
    (ofFault ⟨⟨10, 4⟩, .importExpr⟩ "f").render (some "\n\n\n\n\n\n\n\n\na|\r\n") =
      "f:10:4: error[unsupported]: import expression not supported\n10 | a|\n   |    ^\n" := by
  decide

end LuaBackend.Diagnostic
