import LuaBackend.Support
import LuaBackend.Text.Blank

/-!
# Output of a case

A generated program is run inside a chunk that prints its result, and outputs are compared
without regard to line ends and to white space at the end.
-/

namespace LuaBackend.Fixture

/-- A Lua function that writes a value, maps with sorted keys. -/
def dumpSource : String :=
  sourceText
    [ "local function __dump__(v)",
      "  if type(v) == \"table\" then",
      "    local parts = \x7b\x7d",
      "    if v.__a then",
      "      local i = 0",
      "      while v[i] ~= nil do",
      "        parts[#parts + 1] = __dump__(v[i])",
      "        i = i + 1",
      "      end",
      "      return \"[\" .. table.concat(parts, \",\") .. \"]\"",
      "    end",
      "    local keys = \x7b\x7d",
      "    for k in pairs(v) do",
      "      keys[#keys + 1] = tostring(k)",
      "    end",
      "    table.sort(keys)",
      "    for _, k in ipairs(keys) do",
      "      parts[#parts + 1] = k .. \":\" .. __dump__(v[k])",
      "    end",
      "    return \"\x7b\" .. table.concat(parts, \",\") .. \"\x7d\"",
      "  end",
      "  if type(v) == \"string\" then",
      "    return string.format(\"%q\", v)",
      "  end",
      "  if type(v) == \"number\" and v == math.floor(v) then",
      "    return string.format(\"%d\", v)",
      "  end",
      "  return tostring(v)",
      "end" ]

/-- Wraps a program in a function, so that what it returns becomes the printed result. -/
def printing (lua : String) : String :=
  dumpSource ++ "local __result__ = (function()\n" ++ lua ++
    "end)()\nprint(__dump__(__result__))\n"

/-- Writes every line end as a line feed alone. -/
def dropReturns : List Char → List Char
  | '\r' :: '\n' :: cs => '\n' :: dropReturns cs
  | c :: cs => c :: dropReturns cs
  | [] => []

def normalize (output : String) : String :=
  String.ofList (Text.trimEnd (dropReturns output.toList))

end LuaBackend.Fixture
