import LuaBackend.Fault
import LuaBackend.Text.Lines

/-!
# Diagnostics

A diagnostic is a fault made ready for a reader: a header line and, when the source text is at
hand, the line it is about with a caret below the column.
-/

namespace LuaBackend

structure Diagnostic where
  code : String
  message : String
  file : String
  line : Option UInt32
  column : Option UInt32
deriving DecidableEq, Repr, Inhabited

namespace Diagnostic

def ofFault (fault : Fault) (file : String) : Diagnostic where
  code := fault.cause.category.code
  message := fault.cause.message
  file := file
  line := if fault.pos.isKnown then some fault.pos.line else none
  column := if fault.pos.isKnown then some fault.pos.column else none

def place (diagnostic : Diagnostic) : String :=
  match diagnostic.line, diagnostic.column with
  | some line, some column =>
    diagnostic.file ++ ":" ++ line.toNat.repr ++ ":" ++ column.toNat.repr ++ ": "
  | some line, none => diagnostic.file ++ ":" ++ line.toNat.repr ++ ": "
  | none, _ => diagnostic.file ++ ": "

def header (diagnostic : Diagnostic) : String :=
  diagnostic.place ++ "error[" ++ diagnostic.code ++ "]: " ++ diagnostic.message

def blanks (count : Nat) : String := String.ofList (List.replicate count ' ')

/-- The row below a quoted line; columns count from 1, and column 0 stands for the first. -/
def caretRow (gutter : String) (column : UInt32) : String :=
  blanks gutter.length ++ " | " ++ blanks (column.toNat - 1) ++ "^\n"

/-- The quoted line, if there is one, and the row with the caret. -/
def excerpt (diagnostic : Diagnostic) (source : Option String) : String :=
  match diagnostic.line, source with
  | some line, some source =>
    match (Text.lines source)[line.toNat - 1]? with
    | none => ""
    | some text =>
      let gutter := line.toNat.repr
      gutter ++ " | " ++ text ++ "\n" ++
        match diagnostic.column with
        | none => ""
        | some column => caretRow gutter column
  | _, _ => ""

def render (diagnostic : Diagnostic) (source : Option String) : String :=
  diagnostic.header ++ "\n" ++ diagnostic.excerpt source

end Diagnostic

end LuaBackend
