/-!
# YAML values

A plain scalar keeps its text, since what it stands for depends on what is asked of it: `true` is
a truth value where one is expected and a text elsewhere.  A quoted scalar is always a text.
-/

namespace LuaBackend

inductive Yaml where
  | plain (text : String)
  | quoted (text : String)
  | mapping (entries : List (String × Yaml))
  | sequence (items : List Yaml)
deriving Repr, Inhabited

namespace Yaml

def bool? : Yaml → Option Bool
  | .plain text =>
    if ["true", "True", "TRUE"].contains text then some true
    else if ["false", "False", "FALSE"].contains text then some false
    else none
  | _ => none

/-- The text of any scalar, as it is written. -/
def str? : Yaml → Option String
  | .plain text | .quoted text => some text
  | _ => none

def isNull : Yaml → Bool
  | .plain text => ["", "~", "null", "Null", "NULL"].contains text
  | _ => false

/-- A text, or nothing where the value is null. -/
def optionalStr? (value : Yaml) : Option (Option String) :=
  if value.isNull then some none else value.str?.map some

/-- The entries of a mapping; a value that is left out is a mapping without entries. -/
def entries? : Yaml → Option (List (String × Yaml))
  | .mapping entries => some entries
  | .plain "" => some []
  | _ => none

end Yaml

/-- Reads the value at a key, which may be missing but not repeated. -/
def Yaml.field? {α : Type} (entries : List (String × Yaml)) (key : String) (default : α)
    (read : Yaml → Option α) : Option α :=
  match entries.filter fun entry => entry.1 == key with
  | [] => some default
  | [(_, value)] => read value
  | _ => none

end LuaBackend
