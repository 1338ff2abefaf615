import LuaBackend.Text.Lines

/-!
# Directory trees

The entries of a directory stand in the order in which they are listed.
-/

namespace LuaBackend.Fixture

inductive Entry where
  | file (text : String)
  | directory (entries : List (String × Entry))
deriving Repr, Inhabited

/-- A path below another; a path from the root stands for itself. -/
def joinPath (dir name : String) : String :=
  if name.toList.head? = some '/' ∨ dir.isEmpty then name
  else if dir.toList.getLast? = some '/' then dir ++ name
  else dir ++ "/" ++ name

namespace Entry

/-- Follows the parts of a path from an entry; `above` holds the directories around it. -/
def walk? : List Entry → Entry → List String → Option Entry
  | _, entry, [] => some entry
  | _, .file _, _ :: _ => none
  | above, .directory entries, part :: parts =>
    if part = "" ∨ part = "." then walk? above (.directory entries) parts
    else if part = ".." then
      match above with
      | [] => none
      | parent :: above => walk? above parent parts
    else
      match entries.lookup part with
      | none => none
      | some entry => walk? (.directory entries :: above) entry parts

/-- What stands at a path, which has to be relative. -/
def find? (root : Entry) (path : String) : Option Entry :=
  if path.isEmpty ∨ path.toList.head? = some '/' then none
  else walk? [] root ((Text.split '/' path.toList).map String.ofList)

def readText? (root : Entry) (path : String) : Option String :=
  match root.find? path with
  | some (.file text) => some text
  | _ => none

end Entry

end LuaBackend.Fixture
