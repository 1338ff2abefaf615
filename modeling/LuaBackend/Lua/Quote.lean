/-!
# Lua string literals

Quotes, backslashes and ASCII control characters are escaped; everything else stands for itself.
Control characters without a letter of their own take three decimal digits, so that a digit
that follows is never read as part of the escape.
-/

namespace LuaBackend.Lua

def isControl (c : Char) : Bool := c.toNat < 0x20 || c.toNat == 0x7F

/-- Three decimal digits, for a number below 1000. -/
def threeDigits (n : Nat) : List Char :=
  [Nat.digitChar (n / 100 % 10), Nat.digitChar (n / 10 % 10), Nat.digitChar (n % 10)]

def escapeChar (c : Char) : List Char :=
  if c = '"' then ['\\', '"']
  else if c = '\\' then ['\\', '\\']
  else if c = '\n' then ['\\', 'n']
  else if c = '\r' then ['\\', 'r']
  else if c = '\t' then ['\\', 't']
  else if isControl c then '\\' :: threeDigits c.toNat
  else [c]

def quote (value : String) : String :=
  String.ofList ('"' :: value.toList.flatMap escapeChar ++ ['"'])

end LuaBackend.Lua
