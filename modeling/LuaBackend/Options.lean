import LuaBackend.Json.Basic
import LuaBackend.Scope
import LuaBackend.Yaml.Reader

/-!
# Options of a conversion
-/

namespace LuaBackend

structure Options where
  /-- Names defined at the top of the script become Lua globals. -/
  globalScope : Bool := false
  /-- One level of indentation. -/
  indent : String := "  "
deriving DecidableEq, Repr, Inhabited

namespace Options

/-- How names defined at the top of the script are emitted. -/
def binding (options : Options) : Binding :=
  if options.globalScope then .global else .lexical

def withGlobalScope (options : Options) (globalScope : Bool) : Options :=
  { options with globalScope }

def withIndent (options : Options) (indent : String) : Options := { options with indent }

def ofJson? (json : Json) : Option Options := do
  let record ← json.record? ["enable-global-scope", "indent"]
  let globalScope ← record.defaulted "enable-global-scope" false Json.bool?
  let indent ← record.defaulted "indent" "  " Json.str?
  return { globalScope, indent }

def ofYaml? (yaml : Yaml) : Option Options := do
  let entries ← yaml.entries?
  let globalScope ← Yaml.field? entries "enable-global-scope" false Yaml.bool?
  let indent ← Yaml.field? entries "indent" "  " Yaml.str?
  return { globalScope, indent }

/-- The options that a configuration file holds. -/
def ofText? (text : String) : Option Options := (Yaml.ofText? text).bind ofYaml?

end Options

end LuaBackend
