import LuaBackend.CommandLine
import Mathlib.Data.List.Induction

/-!
# Invocations of the command line

How the command line answers, for every set of files.  Options can be written in any order and more
than once: all that counts is whether global names are asked for and the last of each other option
(`Summary`), and an option wins over the configuration file wherever the two stand.  Whatever the
arguments are, a text goes either to the output or to the errors, as the exit code says.

Scanning one option changes the settings in one place (`scan_arguments`), so scanning a list of them
is a fold (`scan_flatMap_arguments`), and each setting is that of the last option that sets it.
-/

namespace LuaBackend.CommandLine

open Script

/-! ## Files -/

/-- Files that do not change, and a standard input. -/
structure Store where
  file : String → Option String
  standardInput : Option String

namespace Store

def files (store : Store) : Files Id where
  file path := pure (store.file path)
  standardInput := pure store.standardInput

/-- The options of a configuration file that can be read and makes sense. -/
def config? (store : Store) (path : String) : Option Options :=
  (store.file path).bind Options.ofText?

/-- The text to convert: that of a file or of standard input. -/
def input? (store : Store) : Option String → Option String
  | none => store.standardInput
  | some path => store.file path

end Store

/-- The tree that a text holds. -/
def decode? (text : String) : Option File := (Json.ofText? text).bind File.ofJson?

/-! ## Options as they are written -/

/-- An option in front of the input, in its short form or in its long one. -/
inductive Choice where
  | globalScope (short : Bool)
  | indent (text : String)
  | config (short : Bool) (path : String)
  | source (short : Bool) (path : String)
deriving DecidableEq, Repr

namespace Choice

def arguments : Choice → List String
  | .globalScope short => [if short then "-g" else "--global-scope"]
  | .indent text => ["--indent", text]
  | .config short path => [if short then "-c" else "--config", path]
  | .source short path => [if short then "-s" else "--source", path]

def isGlobalScope : Choice → Bool
  | .globalScope _ => true
  | _ => false

def indent? : Choice → Option String
  | .indent text => some text
  | _ => none

def config? : Choice → Option String
  | .config _ path => some path
  | _ => none

def source? : Choice → Option String
  | .source _ path => some path
  | _ => none

end Choice

/-- The words that are taken for options. -/
def spellings : List String :=
  ["-g", "--global-scope", "--indent", "-c", "--config", "-s", "--source", "-h", "--help"]

/-- The arguments of an invocation: options and perhaps an input. -/
def invocation (choices : List Choice) (input : Option String) : List String :=
  choices.flatMap Choice.arguments ++ input.toList

/-- What counts of a list of options. -/
structure Summary where
  globalScope : Bool
  indent : Option String
  config : Option String
  source : Option String
deriving DecidableEq, Repr

namespace Summary

/-- Whether global names are asked for, and the last of each other option. -/
def ofChoices (choices : List Choice) : Summary where
  globalScope := choices.any Choice.isGlobalScope
  indent := (choices.filterMap Choice.indent?).getLast?
  config := (choices.filterMap Choice.config?).getLast?
  source := (choices.filterMap Choice.source?).getLast?

/-- The last configuration file or the defaults, with the options of the invocation on top. -/
def options (store : Store) (summary : Summary) : Options :=
  let config := (summary.config.bind store.config?).getD {}
  { globalScope := summary.globalScope || config.globalScope
    indent := summary.indent.getD config.indent }

/-- The answer to an invocation with this summary and this input. -/
inductive Answers (store : Store) (summary : Summary) (input : Option String) :
    Response → Prop where
  /-- The source file is not looked at. -/
  | converted {text lua : String} {file : File} (hread : store.input? input = some text)
      (hdecode : decode? text = some file) (hlua : file.toLua (summary.options store) = .ok lua) :
      Answers store summary input { exitCode := 0, output := lua, errors := "" }
  | refused {text : String} {file : File} {fault : Fault} (hread : store.input? input = some text)
      (hdecode : decode? text = some file)
      (hlua : file.toLua (summary.options store) = .error fault) (hsource : summary.source = none) :
      Answers store summary input
        { exitCode := 1, output := "", errors := (Diagnostic.ofFault fault "script").render none }
  | quoted {text path source : String} {file : File} {fault : Fault}
      (hread : store.input? input = some text) (hdecode : decode? text = some file)
      (hlua : file.toLua (summary.options store) = .error fault)
      (hsource : summary.source = some path) (hquote : store.file path = some source) :
      Answers store summary input
        { exitCode := 1, output := "",
          errors := (Diagnostic.ofFault fault path).render (some source) }
  | unquoted {text path : String} {file : File} {fault : Fault}
      (hread : store.input? input = some text) (hdecode : decode? text = some file)
      (hlua : file.toLua (summary.options store) = .error fault)
      (hsource : summary.source = some path) (hquote : store.file path = none) :
      Answers store summary input
        { exitCode := 1, output := "", errors := "Error: Reading " ++ path ++ "\n" }
  | noTree {text : String} (hread : store.input? input = some text)
      (hdecode : decode? text = none) :
      Answers store summary input
        { exitCode := 1, output := "", errors := "Error: Decoding syntax tree\n" }
  | noFile {path : String} (hinput : input = some path) (hread : store.file path = none) :
      Answers store summary input
        { exitCode := 1, output := "", errors := "Error: Reading " ++ path ++ "\n" }
  | noInput (hinput : input = none) (hread : store.standardInput = none) :
      Answers store summary input
        { exitCode := 1, output := "", errors := "Error: Reading stdin\n" }

end Summary

/-! ## Scanning -/

theorem ofArgument?_eq_none_iff (argument : String) :
    Flag.ofArgument? argument = none ↔ argument ∉ spellings := by
  unfold Flag.ofArgument?
  split <;> simp_all [spellings]

/-- The settings behind an option. -/
def Settings.choose (store : Store) (settings : Settings) : Choice → Settings
  | .globalScope _ => { settings with globalScope := true }
  | .indent text => { settings with indent := some text }
  | .config _ path => { settings with config := (store.config? path).getD {} }
  | .source _ path => { settings with source := some path }

theorem readConfig_of_config? {store : Store} {path : String} {options : Options}
    (hconfig : store.config? path = some options) :
    readConfig store.files path = pure (.ok options) := by
  obtain ⟨text, hread, hoptions⟩ := Option.bind_eq_some_iff.1 hconfig
  simp [readConfig, Store.files, hread, hoptions]

theorem scan_arguments {store : Store} (settings : Settings) {choice : Choice}
    (hconfig : ∀ path ∈ choice.config?, (store.config? path).isSome) (rest : List String) :
    scan store.files settings (choice.arguments ++ rest) =
      scan store.files (settings.choose store choice) rest := by
  cases choice with
  | globalScope short =>
      cases short <;> simp [Choice.arguments, scan, Flag.ofArgument?, Settings.choose]
  | indent text => simp [Choice.arguments, scan, Flag.ofArgument?, Settings.choose]
  | source short path =>
      cases short <;> simp [Choice.arguments, scan, Flag.ofArgument?, Settings.choose]
  | config short path =>
      obtain ⟨options, hoptions⟩ := Option.isSome_iff_exists.1 (hconfig path rfl)
      cases short <;>
        simp [Choice.arguments, scan, Flag.ofArgument?, Settings.choose,
          readConfig_of_config? hoptions, hoptions]

theorem scan_flatMap_arguments {store : Store} (settings : Settings) {choices : List Choice}
    (hconfigs : ∀ path ∈ choices.filterMap Choice.config?, (store.config? path).isSome)
    (rest : List String) :
    scan store.files settings (choices.flatMap Choice.arguments ++ rest) =
      scan store.files (choices.foldl (Settings.choose store) settings) rest := by
  induction choices generalizing settings with
  | nil => rfl
  | cons choice choices ih =>
      have hfirst : ∀ path ∈ choice.config?, (store.config? path).isSome := fun path hpath =>
        hconfigs path (List.mem_filterMap.2 ⟨choice, List.mem_cons_self, hpath⟩)
      have hothers : ∀ path ∈ choices.filterMap Choice.config?, (store.config? path).isSome := by
        intro path hpath
        obtain ⟨other, hother, hconfig⟩ := List.mem_filterMap.1 hpath
        exact hconfigs path (List.mem_filterMap.2 ⟨other, List.mem_cons_of_mem _ hother, hconfig⟩)
      rw [List.flatMap_cons, List.append_assoc, scan_arguments settings hfirst, ih _ hothers,
        List.foldl_cons]

/-- What the options of an invocation come to, by its summary. -/
def Summary.settings (store : Store) (summary : Summary) : Settings where
  config := (summary.config.bind store.config?).getD {}
  globalScope := summary.globalScope
  indent := summary.indent
  source := summary.source

theorem foldl_choose (store : Store) (choices : List Choice) :
    choices.foldl (Settings.choose store) {} = (Summary.ofChoices choices).settings store := by
  -- The last option decides, so the induction takes options away from the end.
  induction choices using List.reverseRecOn with
  | nil => rfl
  | append_singleton choices choice ih =>
      rw [List.foldl_append, List.foldl_cons, List.foldl_nil, ih]
      cases choice <;>
        simp [Settings.choose, Summary.settings, Summary.ofChoices, Choice.isGlobalScope,
          Choice.indent?, Choice.config?, Choice.source?]

theorem scan_invocation {store : Store} {choices : List Choice} {input : Option String}
    (hconfigs : ∀ path ∈ choices.filterMap Choice.config?, (store.config? path).isSome)
    (hinput : ∀ argument ∈ input, argument ∉ spellings) :
    scan store.files {} (invocation choices input) =
      pure (.convert { (Summary.ofChoices choices).settings store with input }) := by
  rw [invocation, scan_flatMap_arguments {} hconfigs, foldl_choose]
  cases input with
  | none => rfl
  | some argument =>
      have hflag := (ofArgument?_eq_none_iff argument).2 (hinput argument rfl)
      simp [scan, hflag]

/-! ## Answering -/

theorem Summary.options_settings (store : Store) (summary : Summary) (input : Option String) :
    Settings.options { summary.settings store with input } = summary.options store := by
  obtain ⟨globalScope, indent, config, source⟩ := summary
  cases globalScope <;> cases indent <;> rfl

/-- Every summary has an answer. -/
theorem Summary.exists_answers (store : Store) (summary : Summary) (input : Option String) :
    ∃ response, summary.Answers store input response := by
  cases hread : store.input? input with
  | none =>
      cases input with
      | none => exact ⟨_, .noInput rfl hread⟩
      | some path => exact ⟨_, .noFile rfl hread⟩
  | some text =>
      cases hdecode : decode? text with
      | none => exact ⟨_, .noTree hread hdecode⟩
      | some file =>
          cases hlua : file.toLua (summary.options store) with
          | ok lua => exact ⟨_, .converted hread hdecode hlua⟩
          | error fault =>
              cases hsource : summary.source with
              | none => exact ⟨_, .refused hread hdecode hlua hsource⟩
              | some path =>
                  cases hquote : store.file path with
                  | none => exact ⟨_, .unquoted hread hdecode hlua hsource hquote⟩
                  | some source => exact ⟨_, .quoted hread hdecode hlua hsource hquote⟩

section Convert

variable {store : Store} {settings : Settings} {text : String}

theorem readTree_of_input? (hread : store.input? settings.input = some text) :
    readTree store.files settings = pure (.ok text) := by
  cases hinput : settings.input with
  | none =>
      have hread : store.standardInput = some text := by rwa [hinput] at hread
      simp [readTree, Store.files, hinput, hread]
  | some path =>
      have hread : store.file path = some text := by rwa [hinput] at hread
      simp [readTree, Store.files, hinput, hread]

theorem convert_of_readTree_eq_error {failure : Failure}
    (hread : readTree store.files settings = pure (.error failure)) :
    convert store.files settings = pure failure.response := by
  simp [convert, hread]

theorem convert_of_decode?_eq_none (hread : store.input? settings.input = some text)
    (hdecode : decode? text = none) :
    convert store.files settings = pure Failure.badTree.response := by
  rw [decode?] at hdecode
  simp [convert, readTree_of_input? hread, hdecode]

theorem convert_of_toLua_eq_ok {file : File} {lua : String}
    (hread : store.input? settings.input = some text) (hdecode : decode? text = some file)
    (hlua : file.toLua settings.options = .ok lua) :
    convert store.files settings = pure { exitCode := 0, output := lua } := by
  rw [decode?] at hdecode
  simp [convert, readTree_of_input? hread, hdecode, hlua]

theorem convert_of_toLua_eq_error {file : File} {fault : Fault}
    (hread : store.input? settings.input = some text) (hdecode : decode? text = some file)
    (hlua : file.toLua settings.options = .error fault) :
    convert store.files settings = report store.files settings fault := by
  rw [decode?] at hdecode
  simp [convert, readTree_of_input? hread, hdecode, hlua]

end Convert

theorem response_unreadable (path : String) :
    (Failure.unreadable path).response =
      { exitCode := 1, output := "", errors := "Error: Reading " ++ path ++ "\n" } := by
  have herrors : "Error: " ++ ("Reading " ++ path) ++ "\n" = "Error: Reading " ++ path ++ "\n" := by
    rw [← String.append_assoc]
    rfl
  exact congrArg (Response.mk 1 "") herrors

theorem response_unreadableInput :
    Failure.unreadableInput.response =
      { exitCode := 1, output := "", errors := "Error: Reading stdin\n" } := by
  have herrors : "Error: " ++ "Reading stdin" ++ "\n" = "Error: Reading stdin\n" := rfl
  exact congrArg (Response.mk 1 "") herrors

theorem response_badTree :
    Failure.badTree.response =
      { exitCode := 1, output := "", errors := "Error: Decoding syntax tree\n" } := by
  have herrors : "Error: " ++ "Decoding syntax tree" ++ "\n" = "Error: Decoding syntax tree\n" :=
    rfl
  exact congrArg (Response.mk 1 "") herrors

theorem Summary.Answers.convert_eq {store : Store} {summary : Summary} {input : Option String}
    {response : Response} (hanswers : summary.Answers store input response) :
    convert store.files { summary.settings store with input } = pure response := by
  have hoptions := summary.options_settings store input
  cases hanswers with
  | converted hread hdecode hlua =>
      rw [← hoptions] at hlua
      exact convert_of_toLua_eq_ok hread hdecode hlua
  | refused hread hdecode hlua hsource =>
      rw [← hoptions] at hlua
      rw [convert_of_toLua_eq_error hread hdecode hlua]
      simp [report, Summary.settings, hsource]
  | quoted hread hdecode hlua hsource hquote =>
      rw [← hoptions] at hlua
      rw [convert_of_toLua_eq_error hread hdecode hlua]
      simp [report, Summary.settings, hsource, Store.files, hquote]
  | unquoted hread hdecode hlua hsource hquote =>
      rw [← hoptions] at hlua
      rw [convert_of_toLua_eq_error hread hdecode hlua]
      simp [report, Summary.settings, hsource, Store.files, hquote, response_unreadable]
  | noTree hread hdecode =>
      exact (convert_of_decode?_eq_none hread hdecode).trans (congrArg pure response_badTree)
  | noFile hinput hread =>
      subst hinput
      refine (convert_of_readTree_eq_error ?_).trans (congrArg pure (response_unreadable _))
      simp [readTree, Store.files, hread]
  | noInput hinput hread =>
      subst hinput
      refine (convert_of_readTree_eq_error ?_).trans (congrArg pure response_unreadableInput)
      simp [readTree, Store.files, hread]

/-! ## Streams -/

/-- A text goes to the output or to the errors, and the exit code tells which. -/
def Response.Separate (response : Response) : Prop :=
  response.exitCode = 0 ∧ response.errors = "" ∨
    response.exitCode = 1 ∧ response.output = "" ∧ response.errors ≠ ""

theorem separate_response (failure : Failure) : failure.response.Separate :=
  .inr ⟨rfl, rfl, by simp [Failure.response]⟩

theorem render_ne_empty (diagnostic : Diagnostic) (source : Option String) :
    diagnostic.render source ≠ "" := by
  simp [Diagnostic.render]

theorem separate_report (store : Store) (settings : Settings) (fault : Fault) :
    (report store.files settings fault).run.Separate := by
  cases hsource : settings.source with
  | none => exact .inr (by simp [report, hsource, render_ne_empty])
  | some path =>
      cases hquote : store.file path with
      | none =>
          have hreport :
              (report store.files settings fault).run = (Failure.unreadable path).response := by
            simp [report, hsource, Store.files, hquote]
          rw [hreport]
          exact separate_response _
      | some source =>
          exact .inr (by simp [report, hsource, Store.files, hquote, render_ne_empty])

theorem separate_convert (store : Store) (settings : Settings) :
    (convert store.files settings).run.Separate := by
  cases hread : store.input? settings.input with
  | none =>
      obtain ⟨failure, hfailure⟩ :
          ∃ failure, readTree store.files settings = pure (.error failure) := by
        cases hinput : settings.input with
        | none =>
            have hread : store.standardInput = none := by rwa [hinput] at hread
            exact ⟨.unreadableInput, by simp [readTree, Store.files, hinput, hread]⟩
        | some path =>
            have hread : store.file path = none := by rwa [hinput] at hread
            exact ⟨.unreadable path, by simp [readTree, Store.files, hinput, hread]⟩
      rw [convert_of_readTree_eq_error hfailure]
      exact separate_response failure
  | some text =>
      cases hdecode : decode? text with
      | none =>
          rw [convert_of_decode?_eq_none hread hdecode]
          exact separate_response .badTree
      | some file =>
          cases hlua : file.toLua settings.options with
          | ok lua =>
              rw [convert_of_toLua_eq_ok hread hdecode hlua]
              exact .inl ⟨rfl, rfl⟩
          | error fault =>
              rw [convert_of_toLua_eq_error hread hdecode hlua]
              exact separate_report store settings fault

theorem separate_run (store : Store) (arguments : List String) :
    (run store.files arguments).run.Separate := by
  obtain ⟨request, hscan⟩ : ∃ request, scan store.files {} arguments = pure request := ⟨_, rfl⟩
  simp only [run, hscan, pure_bind]
  cases request with
  | convert settings => exact separate_convert store settings
  | help => exact .inl ⟨rfl, rfl⟩
  | fail failure => exact separate_response failure

/-- With options that name usable configuration files, the answer is the one that belongs to the
summary of the options and to the input.  With any arguments at all, a conversion or the usage goes
to the output and leaves the errors empty, and everything else goes to the errors, with exit code 1,
and leaves the output empty. -/
theorem run_invocation (store : Store) :
    (∀ (choices : List Choice) (input : Option String),
      (∀ path ∈ choices.filterMap Choice.config?, (store.config? path).isSome) →
      (∀ argument ∈ input, argument ∉ spellings) →
      ∀ response, (run store.files (invocation choices input)).run = response ↔
        (Summary.ofChoices choices).Answers store input response) ∧
    ∀ arguments : List String,
      let response := (run store.files arguments).run
      response.exitCode = 0 ∧ response.errors = "" ∨
        response.exitCode = 1 ∧ response.output = "" ∧ response.errors ≠ "" := by
  refine ⟨fun choices input hconfigs hinput response => ?_, separate_run store⟩
  have hrun : ∀ {answer}, (Summary.ofChoices choices).Answers store input answer →
      run store.files (invocation choices input) = pure answer := by
    intro answer hanswer
    simp only [run, scan_invocation hconfigs hinput, pure_bind, hanswer.convert_eq]
  constructor
  · rintro rfl
    obtain ⟨answer, hanswer⟩ := (Summary.ofChoices choices).exists_answers store input
    rw [hrun hanswer]
    exact hanswer
  · intro hanswer
    rw [hrun hanswer]
    rfl

/-- A tree that holds a branch outside of a loop. -/
def strayBranch : String := "[[[\"Branch\",[1,2],\"break\"]]]"

/-- Two configuration files, and the tree on standard input. -/
def smallStore : Store where
  file path :=
    if path = "a.yaml" then some "indent: x" else if path = "b.yaml" then some "" else none
  standardInput := some strayBranch

/-- Options given twice, with values that look like options. -/
def repeatedChoices : List Choice :=
  [.config true "a.yaml", .globalScope true, .indent "-g", .source false "--help",
    .config false "b.yaml", .source true "gone"]

theorem run_repeatedChoices :
    (∀ path ∈ repeatedChoices.filterMap Choice.config?, (smallStore.config? path).isSome) ∧
      (run smallStore.files (invocation repeatedChoices none)).run =
        { exitCode := 1, output := "", errors := "Error: Reading " ++ "gone" ++ "\n" } := by
  have hconfigs : ∀ path ∈ repeatedChoices.filterMap Choice.config?,
      (smallStore.config? path).isSome := by decide +kernel
  let options := (Summary.ofChoices repeatedChoices).options smallStore
  have hread : smallStore.input? none = some strayBranch := rfl
  have hrefused : (decode? strayBranch).bind (fun file => (file.analyse options.binding).fault?) =
      some ⟨⟨1, 2⟩, .branchOutsideLoop .break⟩ := by decide +kernel
  obtain ⟨file, hdecode, hfault⟩ := Option.bind_eq_some_iff.1 hrefused
  have hlua : file.toLua options = .error ⟨⟨1, 2⟩, .branchOutsideLoop .break⟩ := by
    simp [File.toLua, File.convert, hfault]
  have hsource : (Summary.ofChoices repeatedChoices).source = some "gone" := by decide
  have hquote : smallStore.file "gone" = none := by decide +kernel
  exact ⟨hconfigs,
    ((run_invocation smallStore).1 repeatedChoices none hconfigs (by simp) _).2
      (.unquoted hread hdecode hlua hsource hquote)⟩

end LuaBackend.CommandLine
