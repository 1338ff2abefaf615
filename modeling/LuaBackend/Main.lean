import LuaBackend.CommandLine

/-!
# The program

Connects the command line to the file system and the standard streams.
-/

namespace LuaBackend

def readText? (read : IO String) : IO (Option String) :=
  try
    return some (← read)
  catch _ =>
    return none

def realFiles : CommandLine.Files IO where
  file path := readText? (IO.FS.readFile path)
  standardInput := readText? do (← IO.getStdin).readToEnd

end LuaBackend

def main (arguments : List String) : IO UInt32 := do
  let response ← LuaBackend.CommandLine.run LuaBackend.realFiles arguments
  IO.print response.output
  IO.eprint response.errors
  return UInt32.ofNat response.exitCode
