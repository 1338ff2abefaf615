import LuaBackend.Text.Lines
import LuaBackend.Yaml.Basic

/-!
# Reading YAML text

The reader knows block mappings and block sequences with one entry a line, flow collections
within a line, plain and quoted scalars, and comments.  Lines are first arranged into an outline
by their indentation.
-/

namespace LuaBackend.Yaml

namespace Reader

def isBlank (c : Char) : Bool := c == ' ' || c == '\t'

/-- Nothing but blanks and a comment. -/
def isEnd (cs : List Char) : Bool :=
  match cs.dropWhile isBlank with
  | [] => true
  | c :: _ => c == '#'

/-! ## Scalars -/

/-- The text of a scalar in single quotes, from behind the first quote, and what follows it. -/
def singleQuoted? : List Char → Option (List Char × List Char)
  | '\'' :: '\'' :: cs => (singleQuoted? cs).map fun (text, rest) => ('\'' :: text, rest)
  | '\'' :: cs => some ([], cs)
  | c :: cs => (singleQuoted? cs).map fun (text, rest) => (c :: text, rest)
  | [] => none

def escape? : Char → Option Char
  | '0' => some '\x00'
  | 'a' => some '\x07'
  | 'b' => some '\x08'
  | 't' | '\t' => some '\t'
  | 'n' => some '\n'
  | 'v' => some '\x0b'
  | 'f' => some '\x0c'
  | 'r' => some '\r'
  | 'e' => some '\x1b'
  | ' ' => some ' '
  | '"' => some '"'
  | '/' => some '/'
  | '\\' => some '\\'
  | _ => none

/-- The text of a scalar in double quotes, from behind the first quote, and what follows it. -/
def doubleQuoted? : List Char → Option (List Char × List Char)
  | '\\' :: c :: cs =>
    match escape? c with
    | some e => (doubleQuoted? cs).map fun (text, rest) => (e :: text, rest)
    | none => none
  | '"' :: cs => some ([], cs)
  | c :: cs => (doubleQuoted? cs).map fun (text, rest) => (c :: text, rest)
  | [] => none

/-- A scalar in either kind of quotes. -/
def quoted? : List Char → Option (List Char × List Char)
  | '"' :: cs => doubleQuoted? cs
  | '\'' :: cs => singleQuoted? cs
  | _ => none

/-- Whether a plain scalar may begin here. -/
def startsPlain : List Char → Bool
  | [] => false
  | c :: cs =>
    if ['-', '?', ':'].contains c then !isEnd cs && !cs.head?.any isBlank
    else !"\t,[]\x7b\x7d#&*!|>'\"%@`".toList.contains c

/-- The text up to a comment. -/
def beforeComment : List Char → List Char
  | [] => []
  | c :: cs => if isBlank c && cs.head? == some '#' then [] else c :: beforeComment cs

def trimBlanks (cs : List Char) : List Char := (cs.reverse.dropWhile isBlank).reverse

/-- The text before and after the first colon that ends a key. -/
def splitKey? : List Char → Option (List Char × List Char)
  | [] => none
  | c :: cs =>
    if c == ':' && (cs.isEmpty || cs.head?.any isBlank) then some ([], cs)
    else (splitKey? cs).map fun (key, rest) => (c :: key, rest)

/-! ## Flow collections -/

/-- A plain scalar inside a flow collection, and what follows it. -/
def flowPlain : List Char → List Char × List Char
  | [] => ([], [])
  | c :: cs =>
    if ",[]\x7b\x7d".toList.contains c ||
        (c == ':' && (cs.isEmpty || cs.head?.any fun d => isBlank d || ",[]\x7b\x7d".toList.contains d))
    then ([], c :: cs)
    else
      let (text, rest) := flowPlain cs
      (c :: text, rest)

def flowScalar? (cs : List Char) : Option (Yaml × List Char) :=
  if cs.head? == some '"' || cs.head? == some '\'' then
    (quoted? cs).map fun (text, rest) => (.quoted (String.ofList text), rest)
  else
    let (text, rest) := flowPlain cs
    if startsPlain text then some (.plain (String.ofList (trimBlanks text)), rest) else none

mutual

/-- A value inside a flow collection, and what follows it; every value takes one unit of fuel. -/
def flowValue? : Nat → List Char → Option (Yaml × List Char)
  | 0, _ => none
  | fuel + 1, cs =>
    match cs.dropWhile isBlank with
    | '[' :: cs => (flowItems? fuel cs).map fun (items, rest) => (.sequence items, rest)
    | '\x7b' :: cs => (flowEntries? fuel cs).map fun (entries, rest) => (.mapping entries, rest)
    | cs => flowScalar? cs

def flowItems? : Nat → List Char → Option (List Yaml × List Char)
  | 0, _ => none
  | fuel + 1, cs =>
    match cs.dropWhile isBlank with
    | ']' :: cs => some ([], cs)
    | cs => do
      let (item, cs) ← flowValue? fuel cs
      match cs.dropWhile isBlank with
      | ',' :: cs =>
        let (items, rest) ← flowItems? fuel cs
        return (item :: items, rest)
      | ']' :: cs => return ([item], cs)
      | _ => none

def flowEntries? : Nat → List Char → Option (List (String × Yaml) × List Char)
  | 0, _ => none
  | fuel + 1, cs =>
    match cs.dropWhile isBlank with
    | '\x7d' :: cs => some ([], cs)
    | cs => do
      let (key, cs) ← flowScalar? cs
      let name ← key.str?
      let (value, cs) ←
        match cs.dropWhile isBlank with
        | ':' :: cs =>
          match cs.dropWhile isBlank with
          | ',' :: _ | '\x7d' :: _ => some (.plain "", cs)
          | _ => flowValue? fuel cs
        | _ => some (.plain "", cs)
      match cs.dropWhile isBlank with
      | ',' :: cs =>
        let (entries, rest) ← flowEntries? fuel cs
        return ((name, value) :: entries, rest)
      | '\x7d' :: cs => return ([(name, value)], cs)
      | _ => none

end

/-! ## Lines -/

/-- The value that a line holds from here on, or nothing if the line ends. -/
def inline? (cs : List Char) : Option (Option Yaml) :=
  let cs := cs.dropWhile isBlank
  if isEnd cs then some none
  else if cs.head? == some '"' || cs.head? == some '\'' then
    match quoted? cs with
    | some (text, rest) => if isEnd rest then some (some (.quoted (String.ofList text))) else none
    | none => none
  else if cs.head? == some '[' || cs.head? == some '\x7b' then
    match flowValue? (cs.length + 1) cs with
    | some (value, rest) => if isEnd rest then some (some value) else none
    | none => none
  else
    let text := trimBlanks (beforeComment cs)
    if startsPlain text && (splitKey? text).isNone then
      some (some (.plain (String.ofList text)))
    else none

/-- The key at the start of a line, and what follows its colon. -/
def key? (cs : List Char) : Option (String × List Char) :=
  if cs.head? == some '"' || cs.head? == some '\'' then
    match quoted? cs with
    | some (text, rest) =>
      match splitKey? (rest.dropWhile isBlank) with
      | some ([], rest) => some (String.ofList text, rest)
      | _ => none
    | none => none
  else if startsPlain cs then
    match splitKey? cs with
    | some (text, rest) =>
      if (beforeComment text).length == text.length then
        some (String.ofList (trimBlanks text), rest)
      else none
    | none => none
  else none

/-- What follows the dash of a sequence item. -/
def item? : List Char → Option (List Char)
  | '-' :: cs => if cs.isEmpty || cs.head?.any isBlank then some cs else none
  | _ => none

/-- A line that holds more than a comment.  Items of a sequence may stand at the same
indentation as the key they belong to, and so count as further to the right. -/
structure Line where
  text : List Char
  rank : Nat

def Line.ofText? (line : List Char) : Option Line :=
  if isEnd line then none
  else
    let text := line.dropWhile (· == ' ')
    let indent := line.length - text.length
    some ⟨text, 2 * indent + if (item? text).isSome then 1 else 0⟩

/-- A line with the lines that are indented below it. -/
inductive Outline where
  | node (line : Line) (inner : List Outline)

namespace Outline

def line : Outline → Line
  | .node line _ => line

def inner : Outline → List Outline
  | .node _ inner => inner

/-- Puts a line in front of an outline; what is further to the right goes below it. -/
def insert (line : Line) (outline : List Outline) : List Outline :=
  .node line (outline.takeWhile fun node => line.rank < node.line.rank) ::
    outline.dropWhile fun node => line.rank < node.line.rank

def ofLines (lines : List Line) : List Outline := lines.foldr insert []

/-- Whether all lines stand at the same place. -/
def isAligned : List Outline → Bool
  | [] => true
  | first :: others => others.all fun other => other.line.rank == first.line.rank

def items? (nodes : List Outline) : Option (List Yaml) :=
  nodes.mapM fun node =>
    match item? node.line.text, node.inner with
    | some cs, [] => (inline? cs).map fun value => value.getD (.plain "")
    | _, _ => none

/-- The value of an outline whose entries, if it is a mapping, are given. -/
def value? (nodes : List Outline) (entries : Option (List (String × Yaml))) : Option Yaml :=
  if !isAligned nodes then none
  else
    match nodes with
    | [] => none
    | first :: others =>
      if (item? first.line.text).isSome then (items? (first :: others)).map .sequence
      else if (key? first.line.text).isSome then entries.map .mapping
      else if others.isEmpty && first.inner.isEmpty then (inline? first.line.text).bind id
      else none

mutual

/-- The entry of a mapping; a key without a value on its line takes what is below it. -/
def entry? : Outline → Option (String × Yaml)
  | .node line inner =>
    match key? line.text with
    | none => none
    | some (key, cs) =>
      match inline? cs, inner.isEmpty with
      | some (some value), true => some (key, value)
      | some none, true => some (key, .plain "")
      | some none, false => (value? inner (entries? inner)).map fun value => (key, value)
      | _, _ => none

def entries? : List Outline → Option (List (String × Yaml))
  | [] => some []
  | first :: others =>
    match entry? first with
    | none => none
    | some entry => (entries? others).map fun entries => entry :: entries

end

end Outline

end Reader

open Reader

/-- The value that a text writes.  A text without content stands for a value left out. -/
def ofText? (text : String) : Option Yaml :=
  let lines := (Text.split '\n' text.toList).map Text.dropReturn
  match Outline.ofLines (lines.filterMap Line.ofText?) with
  | [] => some (.plain "")
  | nodes => Outline.value? nodes (Outline.entries? nodes)

end LuaBackend.Yaml
