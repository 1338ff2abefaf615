import LuaBackend.Proofs.FreeNames
import LuaBackend.Proofs.PrintedText
import LuaBackend.Proofs.SupportUse

/-!
# Global names of the support code

The support code defines global functions and reads globals of the Lua library.  Where the
definitions at the top of a script are emitted as globals, they share one table with these.  The
names that begin and end with two underscores are kept from the script; `toLua_global_clashes` says
which definitions meet one of the others.

What a snippet defines and reads is found by reading its source as Lua and collecting the names that
no local of it accounts for.
-/

namespace LuaBackend

open Script

/-! ## Globals of a chunk -/

namespace Lua.Parsed

/-- What is left of some names in the scope of locals. -/
def without (locals names : List String) : List String :=
  names.filter fun name => !locals.contains name

/-- The locals that a statement adds to the block around it. -/
def Stmt.declared : Stmt → List String
  | .local names _ => names
  | .localFunction name _ => [name]
  | _ => []

mutual

def Expr.globals : Expr → List String
  | .nil | .bool _ | .numeral _ | .str _ | .varargs => []
  | .name name => [name]
  | .paren expr | .unary _ expr => expr.globals
  | .binary _ first second | .index first second => first.globals ++ second.globals
  | .call callee args => callee.globals ++ Expr.globalsOfList args
  | .method expr _ args => expr.globals ++ Expr.globalsOfList args
  | .table fields => Field.globalsOfList fields
  | .func params _ body => without params (body.globalsBefore [])

def Expr.globalsOfOption : Option Expr → List String
  | none => []
  | some expr => expr.globals

def Expr.globalsOfList : List Expr → List String
  | [] => []
  | expr :: exprs => expr.globals ++ Expr.globalsOfList exprs

def Expr.globalsOfResult : Option (List Expr) → List String
  | none => []
  | some exprs => Expr.globalsOfList exprs

def Field.globalsOfList : List Field → List String
  | [] => []
  | .item value :: fields | .named _ value :: fields =>
    value.globals ++ Field.globalsOfList fields
  | .keyed key value :: fields => key.globals ++ value.globals ++ Field.globalsOfList fields

def Stmt.globals : Stmt → List String
  | .assign targets values => Expr.globalsOfList targets ++ Expr.globalsOfList values
  | .call expr => expr.globals
  | .label _ | .break | .goto _ => []
  | .block body => body.globalsBefore []
  | .while test body => test.globals ++ body.globalsBefore []
  -- The test sees the locals of the body.
  | .repeat body test => body.globalsBefore test.globals
  | .cond test body rest => test.globals ++ body.globalsBefore [] ++ rest.globals
  | .count name start stop step body =>
    start.globals ++ stop.globals ++ Expr.globalsOfOption step ++
      without [name] (body.globalsBefore [])
  | .forIn names iterators body =>
    Expr.globalsOfList iterators ++ without names (body.globalsBefore [])
  -- `function f.g()` reads `f`, `function f()` assigns it.
  | .function path method body =>
    path.take 1 ++ without (if method.isSome then ["self"] else []) body.globals
  | .localFunction name body => without [name] body.globals
  | .local _ values => Expr.globalsOfList values

def Else.globals : Else → List String
  | .absent => []
  | .otherwise body => body.globalsBefore []
  | .elseIf test body rest => test.globals ++ body.globalsBefore [] ++ rest.globals

def Stmt.globalsOfList (behind : List String) : List Stmt → List String
  | [] => behind
  | stmt :: stmts => stmt.globals ++ without stmt.declared (Stmt.globalsOfList behind stmts)

/-- The globals of a block and, of the names that stand behind it in its scope, those that are
globals there. -/
def Block.globalsBefore (behind : List String) : Block → List String
  | ⟨stmts, result⟩ => Stmt.globalsOfList (Expr.globalsOfResult result ++ behind) stmts

end

/-- The names that a chunk reads or assigns outside of the scope of a local. -/
def Block.globals (chunk : Block) : List String := chunk.globalsBefore []

end Lua.Parsed

/-! ## Globals of the snippets -/

theorem toList_sourceText (lines : List String) :
    (sourceText lines).toList = lines.flatMap fun line => line.toList ++ ['\n'] := by
  simp [sourceText, String.toList_join, List.flatMap_map]

namespace Snippet

/-- The globals of a snippet whose names a script may bind. -/
def openNames : Snippet → List String
  | .helper .stringConcat => ["getmetatable"]
  | .helper .iterator => ["type", "pairs"]
  | .helper .slicing => ["type", "string"]
  | .builtin .len => ["len", "type", "string", "pairs"]

/-- The globals of a snippet whose names no script can bind. -/
def closedNames : Snippet → List String
  | .helper .iterator => [Names.iterate]
  | .helper .slicing => [Names.slice]
  | _ => []

theorem isReserved_of_mem_closedNames {snippet : Snippet} {name : String}
    (hname : name ∈ snippet.closedNames) : Names.isReserved name = true := by
  have hall : ∀ other ∈ all, ∀ name ∈ other.closedNames, Names.isReserved name = true := by decide
  exact hall snippet snippet.mem_all name hname

/-- The source of a snippet is a chunk of Lua with just these globals. -/
theorem exists_parse_source (snippet : Snippet) :
    ∃ chunk, Lua.parse snippet.source = some chunk ∧
      chunk.globals = snippet.closedNames ++ snippet.openNames := by
  rw [← Option.map_eq_some_iff]
  -- The characters are found faster line by line than in the joined text.
  cases snippet with
  | helper helper =>
      cases helper <;>
        rw [Lua.parse, Snippet.source, Helper.source, toList_sourceText] <;>
        decide +kernel
  | builtin builtin =>
      cases builtin
      rw [Lua.parse, Snippet.source, Builtin.source, toList_sourceText]
      decide +kernel

end Snippet

/-! ## The built-in function -/

/-- A name that one of some statements binds is free in them just if it is free in those up to the
one that binds it. -/
theorem Script.Stmt.mem_freeOfList_append_cons {before after : List Stmt} {stmt : Stmt} {id : Ident}
    (hbinder : stmt.binder? = some id) :
    id.name ∈ Stmt.freeOfList (before ++ stmt :: after) ↔
      id.name ∈ Stmt.freeOfList (before ++ [stmt]) := by
  induction before with
  | nil => simp [Stmt.freeOfList, hbinder]
  | cons first before ih => simp [Stmt.freeOfList, ih]

theorem Site.needs_len_iff (site : Site) :
    site.node.Needs site.place (.builtin .len) ↔ site.Escapes 0 "len" := by
  obtain ⟨place, node⟩ := site
  have hbinds : place.BindsFrom 0 "len" ↔ place.Binds "len" := by
    simp [Place.BindsFrom, Place.Binds]
  rw [Site.Escapes, hbinds]
  constructor
  · intro hneeds
    unfold Node.Needs at hneeds
    split at hneeds
    case h_1 id hnode =>
      obtain ⟨-, hname, hunbound⟩ := hneeds
      exact ⟨⟨id, hnode, hname⟩, hname ▸ hunbound⟩
    all_goals simp at hneeds
  · rintro ⟨⟨id, rfl, hname⟩, hunbound⟩
    exact ⟨rfl, hname, hname ▸ hunbound⟩

/-- The built-in `len` is needed just if the name is free in the script. -/
theorem Script.File.needs_len_iff (file : File) :
    file.Needs (.builtin .len) ↔ "len" ∈ Stmt.freeOfList file.stmts := by
  have hlevel : 0 < Place.root.frames.length := by decide
  have hroot : ¬ Place.root.BindsFrom 0 "len" := by simp [Place.BindsFrom, Place.root]
  calc file.Needs (.builtin .len) ↔ Escaped 0 "len" file.sites :=
        exists_congr fun site => and_congr_right fun _ => site.needs_len_iff
    _ ↔ ¬ Place.root.BindsFrom 0 "len" ∧ "len" ∈ Stmt.freeOfList file.stmts :=
        Stmt.escaped_sitesOfList hlevel file.stmts
    _ ↔ "len" ∈ Stmt.freeOfList file.stmts := and_iff_right hroot

/-! ## Definitions at the top of a script -/

namespace Script

theorem Stmt.exists_eq_of_binder?_eq_some {stmt : Stmt} {id : Ident}
    (hbinder : stmt.binder? = some id) :
    ∃ pos value, stmt = .assign pos .define [.ident id] [value] := by
  unfold Stmt.binder? at hbinder
  split at hbinder
  · next pos _ value =>
      obtain rfl := Option.some.inj hbinder
      exact ⟨pos, value, rfl⟩
  · cases hbinder

/-- Every statement of a list but a return has its code in the code of the list. -/
theorem Stmt.lower_subset_lowerList {binding : Binding} {depth : Nat} {stmt : Stmt}
    (hreturn : stmt.isReturn = false) {stmts : List Stmt} (hmem : stmt ∈ stmts) :
    stmt.lower binding depth ⊆ Stmt.lowerList binding depth stmts := by
  induction stmts with
  | nil => simp at hmem
  | cons first stmts ih =>
      rw [Stmt.lowerList_cons]
      rcases List.mem_cons.1 hmem with rfl | hmem
      · simp [hreturn]
      · exact List.Subset.trans (ih hmem) (List.subset_append_right ..)

/-- Each statement of a list stands at a place of its own. -/
theorem Stmt.exists_sites_subset_sitesOfList (place : Place) {stmt : Stmt} {stmts : List Stmt}
    (hmem : stmt ∈ stmts) : ∃ inner, stmt.sites inner ⊆ Stmt.sitesOfList place stmts := by
  induction stmts generalizing place with
  | nil => simp at hmem
  | cons first stmts ih =>
      rw [Stmt.sitesOfList]
      rcases List.mem_cons.1 hmem with rfl | hmem
      · exact ⟨place, List.subset_append_left ..⟩
      · obtain ⟨inner, hinner⟩ := ih (place.after first) hmem
        exact ⟨inner, List.Subset.trans hinner (List.subset_append_right ..)⟩

end Script

/-- Where the definitions at the top of a script are emitted as globals, none has a reserved name,
so that a definition meets a global of a snippet just if its name is among the open ones.  A script
that defines `len` has the built-in one beside it just if `len` is free in the statements up to the
definition. -/
theorem toLua_global_clashes {indent : String} {file : File} {text : String}
    (htext : file.toLua { globalScope := true, indent } = .ok text) :
    ∃ support : Support, text = support.text ++ (file.body .global).render indent ∧
      ∀ before stmt after id, file.stmts = before ++ stmt :: after → stmt.binder? = some id →
        (∃ value, Lua.Stmt.assign (.name id.name) value ∈ file.lower .global) ∧
        Names.isReserved id.name = false ∧
        (∀ snippet ∈ support.snippets, ∃ chunk, Lua.parse snippet.source = some chunk ∧
          (id.name ∈ chunk.globals ↔ id.name ∈ snippet.openNames)) ∧
        (id.name = "len" → (.builtin .len ∈ support.snippets ↔
          "len" ∈ Stmt.freeOfList (before ++ [stmt]))) := by
  have hfault := (exists_toLua_eq_ok_iff _ file).1 ⟨text, htext⟩
  have hfile : AllFit file.sites := (fault?_analyse_eq_none_iff _ file).1 hfault
  rw [File.toLua_eq_ok_text _ file hfault] at htext
  refine ⟨_, (Except.ok.inj htext).symm, fun before stmt after id hstmts hbinder => ?_⟩
  have hmem : stmt ∈ file.stmts := by simp [hstmts]
  obtain ⟨pos, value, rfl⟩ := Stmt.exists_eq_of_binder?_eq_some hbinder
  have hreserved : Names.isReserved id.name = false := by
    obtain ⟨place, hsites⟩ := Stmt.exists_sites_subset_sitesOfList .root hmem
    have hsite : (⟨place, .binder id⟩ : Site) ∈ file.sites :=
      hsites (by simp [Stmt.sites, Expr.sitesOfDefined])
    exact (hfile _ hsite).1
  refine ⟨⟨value.lower, Stmt.lower_subset_lowerList rfl hmem List.mem_cons_self⟩, hreserved, ?_, ?_⟩
  · intro snippet _
    obtain ⟨chunk, hchunk, hglobals⟩ := snippet.exists_parse_source
    refine ⟨chunk, hchunk, ?_⟩
    have hclosed : id.name ∉ snippet.closedNames := fun hname => by
      rw [Snippet.isReserved_of_mem_closedNames hname] at hreserved
      cases hreserved
    rw [hglobals, List.mem_append, or_iff_right hclosed]
  · intro hname
    rw [mem_snippets_analyse_iff hfault, File.needs_len_iff, hstmts, ← hname]
    exact Stmt.mem_freeOfList_append_cons hbinder

/-- The open names of all snippets. -/
def takenNames : List String := ["type", "pairs", "string", "getmetatable", "len"]

/-- A loop over the sum of a slice and a length, which needs every snippet, in front of definitions
that take their open names. -/
def takeover : File where
  stmts :=
    .forIn {} none { name := "v" }
        (.binary {} .add (.slice {} (.str {} "ab") none none)
          (.call {} (.ident { name := "len" }) [.str {} "c"])) {} ::
      takenNames.map fun name => .assign {} .define [.ident { name }] [.int {} "0"]

theorem toLua_takeover :
    let options : Options := { globalScope := true }
    ∃ text, takeover.toLua options = .ok text ∧
      ∃ support : Support, text = support.text ++ (takeover.body .global).render options.indent ∧
        (∃ value, Lua.Stmt.assign (.name "len") value ∈ takeover.lower .global) ∧
        Names.isReserved "len" = false ∧
        (∀ snippet ∈ support.snippets, ∃ chunk, Lua.parse snippet.source = some chunk ∧
          ("len" ∈ chunk.globals ↔ "len" ∈ snippet.openNames)) ∧
        (.builtin .len ∈ support.snippets ↔
          "len" ∈ Stmt.freeOfList takeover.stmts) := by
  intro options
  obtain ⟨text, htext⟩ : ∃ text, takeover.toLua options = .ok text := ⟨_, rfl⟩
  obtain ⟨support, hsupport, hclashes⟩ := toLua_global_clashes htext
  obtain ⟨hassign, hreserved, hglobals, hlen⟩ :=
    hclashes (takeover.stmts.take 5) _ [] _ rfl rfl
  exact ⟨text, htext, support, hsupport, hassign, hreserved, hglobals, hlen rfl⟩

/-- Each of the open names can be defined beside a snippet that has it as a global. -/
theorem takeover_defines_globals :
    (∃ text, takeover.toLua { globalScope := true } = .ok text) ∧
      ∀ name ∈ takenNames,
        (∃ value, Lua.Stmt.assign (.name name) value ∈ takeover.lower .global) ∧
        ∃ snippet ∈ (takeover.analyse .global).state.support.snippets,
          ∃ chunk, Lua.parse snippet.source = some chunk ∧ name ∈ chunk.globals := by
  refine ⟨⟨_, rfl⟩, fun name hname => ⟨⟨(Expr.int {} "0").lower, ?_⟩, ?_⟩⟩
  · have hmem : .assign {} .define [.ident { name }] [.int {} "0"] ∈ takeover.stmts :=
      List.mem_cons_of_mem _ (List.mem_map_of_mem hname)
    exact Stmt.lower_subset_lowerList rfl hmem List.mem_cons_self
  · have hsnippets : (takeover.analyse .global).state.support.snippets = Snippet.all := rfl
    have hopen : ∀ name ∈ takenNames, ∃ snippet ∈ Snippet.all, name ∈ snippet.openNames := by
      decide
    obtain ⟨snippet, hsnippet, hname⟩ := hopen name hname
    obtain ⟨chunk, hchunk, hglobals⟩ := snippet.exists_parse_source
    exact ⟨snippet, hsnippets ▸ hsnippet, chunk, hchunk,
      hglobals ▸ List.mem_append_right _ hname⟩

end LuaBackend
