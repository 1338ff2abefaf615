import LuaBackend.Conversion
import LuaBackend.Diagnostic
import LuaBackend.Json.Reader
import LuaBackend.Script.Decode

/-!
# The command line

Arguments are taken from left to right.  Options come before the one file to convert, and
without a file the tree is read from standard input.  How files are read is left open, so that
the same code runs on a real file system and on a given set of files.
-/

namespace LuaBackend.CommandLine

def usage : String :=
  "usage: lualower [--global-scope] [--indent <str>] [--config <options.yaml>] " ++
    "[--source <script>] [tree.json]"

/-- Where texts come from; a text that cannot be read is `none`. -/
structure Files (m : Type → Type) where
  file : String → m (Option String)
  standardInput : m (Option String)

structure Response where
  exitCode : Nat
  output : String := ""
  errors : String := ""
deriving DecidableEq, Repr, Inhabited

inductive Flag where
  | globalScope
  | indent
  | config
  | source
  | help
deriving DecidableEq, Repr, Inhabited

namespace Flag

def ofArgument? (argument : String) : Option Flag :=
  match argument with
  | "--global-scope" | "-g" => some .globalScope
  | "--indent" => some .indent
  | "--config" | "-c" => some .config
  | "--source" | "-s" => some .source
  | "--help" | "-h" => some .help
  | _ => none

/-- What has to follow the flag. -/
def value : Flag → String
  | .indent => "indent string"
  | .config => "config path"
  | .source => "source path"
  | .globalScope | .help => ""

end Flag

/-- Why no conversion was attempted, or its diagnostic could not be shown. -/
inductive Failure where
  | missingValue (flag : Flag) (argument : String)
  | unreadable (path : String)
  | badConfig (path : String)
  | severalInputs
  | unreadableInput
  | badTree
deriving DecidableEq, Repr, Inhabited

def Failure.message : Failure → String
  | .missingValue flag argument => "Missing " ++ flag.value ++ " after " ++ argument
  | .unreadable path => "Reading " ++ path
  | .badConfig path => "Parsing " ++ path
  | .severalInputs => "Only one input file is supported\n" ++ usage
  | .unreadableInput => "Reading stdin"
  | .badTree => "Decoding syntax tree"

/-- Only the message of the failure itself is written.  The lines that give its causes, such as why
a file could not be read or where a text is malformed, would stand below it and are left out. -/
def Failure.response (failure : Failure) : Response where
  exitCode := 1
  errors := "Error: " ++ failure.message ++ "\n"

structure Settings where
  config : Options := {}
  globalScope : Bool := false
  indent : Option String := none
  source : Option String := none
  input : Option String := none
deriving DecidableEq, Repr, Inhabited

/-- Flags win over the configuration file, wherever they stand. -/
def Settings.options (settings : Settings) : Options :=
  let options :=
    if settings.globalScope then settings.config.withGlobalScope true else settings.config
  match settings.indent with
  | some indent => options.withIndent indent
  | none => options

/-- The result of scanning the arguments. -/
inductive Request where
  | convert (settings : Settings)
  | help
  | fail (failure : Failure)
deriving DecidableEq, Repr, Inhabited

variable {m : Type → Type} [Monad m]

/-- The options of a configuration file. -/
def readConfig (files : Files m) (path : String) : m (Except Failure Options) := do
  match ← files.file path with
  | none => return .error (.unreadable path)
  | some text =>
    match Options.ofText? text with
    | none => return .error (.badConfig path)
    | some config => return .ok config

/-- Configuration files are read while the arguments are scanned, and the last one counts. -/
def scan (files : Files m) (settings : Settings) : List String → m Request
  | [] => return .convert settings
  | argument :: rest =>
    match Flag.ofArgument? argument, rest with
    | none, [] => return .convert { settings with input := some argument }
    | none, _ :: _ => return .fail .severalInputs
    | some .globalScope, rest => scan files { settings with globalScope := true } rest
    | some .help, _ => return .help
    | some flag, [] => return .fail (.missingValue flag argument)
    | some .indent, indent :: rest => scan files { settings with indent := some indent } rest
    | some .source, path :: rest => scan files { settings with source := some path } rest
    | some .config, path :: rest => do
      match ← readConfig files path with
      | .error failure => return .fail failure
      | .ok config => scan files { settings with config } rest

/-- The text of the tree to convert. -/
def readTree (files : Files m) (settings : Settings) : m (Except Failure String) := do
  match settings.input with
  | none =>
    match ← files.standardInput with
    | some text => return .ok text
    | none => return .error .unreadableInput
  | some path =>
    match ← files.file path with
    | some text => return .ok text
    | none => return .error (.unreadable path)

/-- The diagnostic of a fault, quoting the source file if one is named. -/
def report (files : Files m) (settings : Settings) (fault : Fault) : m Response := do
  match settings.source with
  | none =>
    return { exitCode := 1, errors := (Diagnostic.ofFault fault "script").render none }
  | some path =>
    match ← files.file path with
    | none => return (Failure.unreadable path).response
    | some text =>
      return { exitCode := 1, errors := (Diagnostic.ofFault fault path).render (some text) }

def convert (files : Files m) (settings : Settings) : m Response := do
  match ← readTree files settings with
  | .error failure => return failure.response
  | .ok text =>
    match (Json.ofText? text).bind Script.File.ofJson? with
    | none => return Failure.badTree.response
    | some file =>
      match file.toLua settings.options with
      | .ok lua => return { exitCode := 0, output := lua }
      | .error fault => report files settings fault

def run (files : Files m) (arguments : List String) : m Response := do
  match ← scan files {} arguments with
  | .convert settings => convert files settings
  | .help => return { exitCode := 0, output := usage ++ "\n" }
  | .fail failure => return failure.response

end LuaBackend.CommandLine
