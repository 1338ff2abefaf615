/-!
# Lines of a text

A line ends at a line feed, and a carriage return directly before that line feed belongs to the
end of the line.  A text that ends with a line feed has no empty line after it.
-/

namespace LuaBackend.Text

/-- The parts between separators; there is always one part more than there are separators. -/
def split (separator : Char) : List Char → List (List Char)
  | [] => [[]]
  | c :: cs =>
    if c = separator then [] :: split separator cs
    else
      match split separator cs with
      | [] => [[c]]
      | part :: parts => (c :: part) :: parts

/-- Drops one carriage return at the end. -/
def dropReturn (line : List Char) : List Char :=
  if line.getLast? = some '\r' then line.dropLast else line

/-- Keeps what follows the last line feed as it is, unless it is empty. -/
def trimLines : List (List Char) → List (List Char)
  | [] => []
  | [last] => if last.isEmpty then [] else [last]
  | line :: lines => dropReturn line :: trimLines lines

def lines (text : String) : List String :=
  (trimLines (split '\n' text.toList)).map String.ofList

end LuaBackend.Text
