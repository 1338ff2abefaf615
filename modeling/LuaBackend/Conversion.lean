import LuaBackend.Analysis.Run
import LuaBackend.Lowering
import LuaBackend.Lua.Printer
import LuaBackend.Options

/-!
# Conversion of a script

A script is analysed and, if the analysis finds no fault, printed as Lua behind the support code
that it needs.
-/

namespace LuaBackend

open Script

inductive LogLevel where
  | debug
  | trace
deriving DecidableEq, Repr, Inhabited

inductive LogEntry where
  | starting (statements : Nat)
  | capture (capture : Capture)
  | withoutSupport (bytes : Nat)
  | withSupport (support : Support)
  | generated (bytes : Nat)
deriving DecidableEq, Repr, Inhabited

namespace LogEntry

def level : LogEntry → LogLevel
  | .capture _ => .trace
  | _ => .debug

def listText (labels : List String) : String := "[" ++ ", ".intercalate labels ++ "]"

def message : LogEntry → String
  | .starting statements => "converting " ++ statements.repr ++ " top-level statements"
  | .capture ⟨name, frame, distance⟩ =>
    "closure captures '" ++ name ++ "' bound in frame " ++ frame.repr ++ ", " ++
      distance.repr ++ " frames out"
  | .withoutSupport bytes => "no support code needed, " ++ bytes.repr ++ " bytes generated"
  | .withSupport support =>
    "prologue helpers " ++ listText (support.helpers.map Helper.label) ++ ", builtins " ++
      listText (support.builtins.map Builtin.label)
  | .generated bytes => bytes.repr ++ " bytes generated"

end LogEntry

structure Conversion where
  log : List LogEntry
  result : Except Fault String

namespace Script.File

def analyse (binding : Binding) (file : File) : Analysis.Outcome :=
  Analysis.run (.initial binding) file.events

/-- The code of the script itself. -/
def body (binding : Binding) (file : File) : Lua.Layout :=
  Lua.Stmt.layoutList .lines 0 (file.lower binding)

/-- The support code, a blank line and the body, or the body alone. -/
def layout (binding : Binding) (support : Support) (file : File) : Lua.Layout :=
  if support.isEmpty then file.body binding
  else .text support.prologue ++ .text "\n" ++ file.body binding

def convert (options : Options) (file : File) : Conversion :=
  let outcome := file.analyse options.binding
  let log :=
    .starting file.stmts.length :: outcome.state.captures.map LogEntry.capture
  match outcome.fault? with
  | some fault => ⟨log, .error fault⟩
  | none =>
    let support := outcome.state.support
    let text := (file.layout options.binding support).render options.indent
    let bytes := text.utf8ByteSize
    ⟨log ++
        if support.isEmpty then [.withoutSupport bytes] else [.withSupport support, .generated bytes],
      .ok text⟩

/-- The Lua program for a script, or the first fault of the script. -/
def toLua (options : Options) (file : File) : Except Fault String :=
  (file.convert options).result

end Script.File

end LuaBackend
