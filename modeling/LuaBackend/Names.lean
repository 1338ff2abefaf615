/-!
# Names of generated code

Names that begin and end with two underscores belong to the generator, so that no name of a
script can meet one of its own.
-/

namespace LuaBackend.Names

/-- `__m__` for a non-empty `m` without a line break. -/
def isReserved (name : String) : Bool :=
  match name.toList with
  | '_' :: '_' :: rest =>
    match rest.reverse with
    | '_' :: '_' :: middle => !middle.isEmpty && !middle.contains '\n'
    | _ => false
  | _ => false

/-- The variable that says whether the body of the loop at this nesting depth asked for the
next round. -/
def continueFlag (depth : Nat) : String := "__cont_" ++ depth.repr ++ "__"

/-- The function that walks arrays and maps. -/
def iterate : String := "__iter__"

/-- The function that cuts arrays and strings. -/
def slice : String := "__slice__"

/-- The field that marks a table as an array. -/
def arrayMark : String := "__a"

/-- The variable of a loop that takes no part in the script. -/
def discard : String := "_"

end LuaBackend.Names
