import LuaBackend.Fixture.Directory
import LuaBackend.Yaml.Reader

/-!
# Fixture cases

A case is a directory that holds a description, `case.yaml`, and a program, `program.json`.
-/

namespace LuaBackend.Fixture

inductive CaseClass where
  | success
  | fault
deriving DecidableEq, Repr, Inhabited

def CaseClass.ofYaml? (yaml : Yaml) : Option CaseClass :=
  match yaml.str? with
  | some "success" => some .success
  | some "transpile_error" => some .fault
  | _ => none

/-- Files that hold what the case should give. -/
structure Expected where
  luaFile : Option String := none
  resultFile : Option String := none
  errorContainsFile : Option String := none
deriving DecidableEq, Repr, Inhabited

def Expected.ofYaml? (yaml : Yaml) : Option Expected := do
  let entries ← yaml.entries?
  let luaFile ← Yaml.field? entries "lua_file" none Yaml.optionalStr?
  let resultFile ← Yaml.field? entries "result_file" none Yaml.optionalStr?
  let errorContainsFile ← Yaml.field? entries "error_contains_file" none Yaml.optionalStr?
  return { luaFile, resultFile, errorContainsFile }

structure CaseSpec where
  caseClass : CaseClass
  globalScope : Bool := false
  indent : Option String := none
  expected : Expected := {}
deriving DecidableEq, Repr, Inhabited

def CaseSpec.ofYaml? (yaml : Yaml) : Option CaseSpec := do
  let entries ← yaml.entries?
  let caseClass ← Yaml.field? entries "class" none fun value => (CaseClass.ofYaml? value).map some
  let globalScope ← Yaml.field? entries "global_scope" false Yaml.bool?
  let indent ← Yaml.field? entries "indent" none Yaml.optionalStr?
  let expected ← Yaml.field? entries "expected" {} Expected.ofYaml?
  return { caseClass := ← caseClass, globalScope, indent, expected }

def CaseSpec.ofText? (text : String) : Option CaseSpec := (Yaml.ofText? text).bind ofYaml?

structure Case where
  name : String
  dir : String
  programPath : String
  spec : CaseSpec
deriving DecidableEq, Repr, Inhabited

inductive LoadError where
  | unreadable (path : String)
  | badDescription (path : String)
  | missingProgram (dir : String)
  | noCases (dir : String)
  | unreadableProgram (name : String)
  | unreadableFile (name path : String)
deriving DecidableEq, Repr, Inhabited

def LoadError.message : LoadError → String
  | .unreadable path => "Reading " ++ path
  | .badDescription path => "Parsing " ++ path
  | .missingProgram dir => "Missing program.json for case " ++ dir
  | .noCases dir => "No test cases found in " ++ dir
  | .unreadableProgram name => "Reading program for " ++ name
  | .unreadableFile name path => "Reading " ++ name ++ " fixture file " ++ path

namespace Case

/-- The case that an entry of `dir` holds, if it holds one. -/
def ofEntry (dir name : String) (entry : Entry) : Except LoadError (Option Case) :=
  match entry with
  | .file _ => .ok none
  | .directory entries =>
    let path := joinPath dir name
    let descriptionPath := joinPath path "case.yaml"
    match entries.lookup "case.yaml", entries.lookup "program.json" with
    | none, _ => .ok none
    | some _, none => .error (.missingProgram path)
    | some (.directory _), some _ => .error (.unreadable descriptionPath)
    | some (.file text), some _ =>
      match CaseSpec.ofText? text with
      | none => .error (.badDescription descriptionPath)
      | some spec => .ok (some ⟨name, path, joinPath path "program.json", spec⟩)

/-- The cases among the entries of `dir`, in the order in which they are listed. -/
def ofEntries (dir : String) : List (String × Entry) → Except LoadError (List Case)
  | [] => .ok []
  | (name, entry) :: entries => do
    let found ← ofEntry dir name entry
    let cases ← ofEntries dir entries
    return found.toList ++ cases

/-- The cases of a directory with the given entries, sorted by name; there has to be one. -/
def ofDirectory (dir : String) (entries : List (String × Entry)) :
    Except LoadError (List Case) :=
  match ofEntries dir entries with
  | .error error => .error error
  | .ok [] => .error (.noCases dir)
  | .ok cases => .ok (cases.mergeSort fun a b => decide (a.name ≤ b.name))

/-- The cases of the directory at a path. -/
def load (root : Entry) (dir : String) : Except LoadError (List Case) :=
  match root.find? dir with
  | some (.directory entries) => ofDirectory dir entries
  | _ => .error (.unreadable dir)

def readProgram (root : Entry) (case : Case) : Except LoadError String :=
  match root.readText? case.programPath with
  | some text => .ok text
  | none => .error (.unreadableProgram case.name)

def readText (root : Entry) (case : Case) (path : String) : Except LoadError String :=
  match root.readText? (joinPath case.dir path) with
  | some text => .ok text
  | none => .error (.unreadableFile case.name path)

end Case

end LuaBackend.Fixture
