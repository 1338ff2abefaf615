import LuaBackend.Names

/-!
# Support code

Some constructs rely on Lua definitions that are put in front of the program.  Every snippet
defines a name of its own, so any selection of them can stand together.  Array tables carry the
field `__a` and keep element `i` at key `i`, starting from 0.
-/

namespace LuaBackend

inductive Helper where
  | stringConcat
  | iterator
  | slicing
deriving DecidableEq, Repr, Inhabited

/-- Functions that a script can call without a declaration. -/
inductive Builtin where
  | len
deriving DecidableEq, Repr, Inhabited

inductive Snippet where
  | helper (helper : Helper)
  | builtin (builtin : Builtin)
deriving DecidableEq, Repr, Inhabited

/-- Ends every line with a line break. -/
def sourceText (lines : List String) : String :=
  String.join (lines.map (· ++ "\n"))

namespace Helper

def label : Helper → String
  | .stringConcat => "StringConcat"
  | .iterator => "Iterator"
  | .slicing => "Slicing"

def source : Helper → String
  | .stringConcat => sourceText
    [ "getmetatable(\"\").__add = function(a, b)",
      "  return a .. b",
      "end" ]
  | .iterator => sourceText
    [ "function __iter__(v)",
      "  if type(v) == \"table\" and v.__a then",
      "    local i = -1",
      "    return function()",
      "      i = i + 1",
      "      local e = v[i]",
      "      if e == nil then",
      "        return nil",
      "      end",
      "      return i, e",
      "    end",
      "  end",
      "  return pairs(v)",
      "end" ]
  | .slicing => sourceText
    [ "function __slice__(v, low, high)",
      "  if type(v) == \"table\" and v.__a then",
      "    return \x7b[0]=nil, __a=true\x7d",
      "  end",
      "  return string.sub(v, low + 1, high)",
      "end" ]

end Helper

namespace Builtin

def all : List Builtin := [.len]

def name : Builtin → String
  | .len => "len"

def label : Builtin → String
  | .len => "Len"

def ofName? (name : String) : Option Builtin :=
  all.find? fun builtin => builtin.name == name

def source : Builtin → String
  | .len => sourceText
    [ "len = function(v)",
      "  if type(v) == \"string\" then",
      "    return string.len(v)",
      "  end",
      "  if v.__a then",
      "    if v[0] == nil then",
      "      return 0",
      "    end",
      "    return #v + 1",
      "  end",
      "  local n = 0",
      "  for _ in pairs(v) do",
      "    n = n + 1",
      "  end",
      "  return n",
      "end" ]

end Builtin

namespace Snippet

/-- All snippets, in the order in which a prologue holds them. -/
def all : List Snippet :=
  [.helper .stringConcat, .helper .iterator, .helper .slicing, .builtin .len]

def source : Snippet → String
  | .helper h => h.source
  | .builtin b => b.source

def helper? : Snippet → Option Helper
  | .helper h => some h
  | .builtin _ => none

def builtin? : Snippet → Option Builtin
  | .helper _ => none
  | .builtin b => some b

end Snippet

/-- The snippets that a program uses, each once and in the order of a prologue. -/
structure Support where
  snippets : List Snippet := []
deriving DecidableEq, Repr, Inhabited

namespace Support

def uses (support : Support) (snippet : Snippet) : Bool :=
  support.snippets.contains snippet

def use (support : Support) (snippet : Snippet) : Support :=
  ⟨Snippet.all.filter fun other => other == snippet || support.uses other⟩

def isEmpty (support : Support) : Bool := support.snippets.isEmpty

def helpers (support : Support) : List Helper := support.snippets.filterMap Snippet.helper?

def builtins (support : Support) : List Builtin := support.snippets.filterMap Snippet.builtin?

def prologue (support : Support) : String :=
  String.join (support.snippets.map Snippet.source)

end Support

end LuaBackend
