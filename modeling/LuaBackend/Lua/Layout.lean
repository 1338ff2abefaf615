/-!
# Layout

Generated text is a list of pieces, each indented by a number of levels.  What one level of
indentation looks like is decided only when the pieces are put together.
-/

namespace LuaBackend.Lua

structure Piece where
  level : Nat
  text : String
deriving DecidableEq, Repr, Inhabited

def Piece.render (indent : String) (piece : Piece) : String :=
  String.join (List.replicate piece.level indent) ++ piece.text

abbrev Layout := List Piece

namespace Layout

/-- Text that is not indented. -/
def text (text : String) : Layout := [⟨0, text⟩]

def render (indent : String) (layout : Layout) : String :=
  String.join (layout.map (Piece.render indent))

/-- The first character of the pieces, indentation aside. -/
def head? : Layout → Option Char
  | [] => none
  | piece :: pieces =>
    match piece.text.toList with
    | [] => head? pieces
    | c :: _ => some c

/-- One line.  Lua reads a line that begins with a parenthesis as a call of what stands before
it, so such a line gets a semicolon in front. -/
def line (level : Nat) (content : Layout) : Layout :=
  ⟨level, if head? content = some '(' then ";" else ""⟩ :: content ++ text "\n"

end Layout

end LuaBackend.Lua
