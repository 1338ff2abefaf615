/-!
# The tokens of Lua

How Lua cuts a text into tokens, by the rules of version 5.2: a token is as long as it can be,
blanks, line ends and comments are dropped, and a string stands for the bytes that its escapes and
characters name.  Later versions add operators and escapes and read all other texts in the same way.
-/

namespace LuaBackend.Lua

inductive Keyword where
  | and
  | break
  | do
  | else
  | elseif
  | end
  | false
  | for
  | function
  | goto
  | if
  | in
  | local
  | nil
  | not
  | or
  | repeat
  | return
  | then
  | true
  | until
  | while
deriving DecidableEq, Repr

namespace Keyword

def all : List Keyword :=
  [.and, .break, .do, .else, .elseif, .end, .false, .for, .function, .goto, .if, .in, .local, .nil,
    .not, .or, .repeat, .return, .then, .true, .until, .while]

def spelling : Keyword → String
  | .and => "and"
  | .break => "break"
  | .do => "do"
  | .else => "else"
  | .elseif => "elseif"
  | .end => "end"
  | .false => "false"
  | .for => "for"
  | .function => "function"
  | .goto => "goto"
  | .if => "if"
  | .in => "in"
  | .local => "local"
  | .nil => "nil"
  | .not => "not"
  | .or => "or"
  | .repeat => "repeat"
  | .return => "return"
  | .then => "then"
  | .true => "true"
  | .until => "until"
  | .while => "while"

def ofSpelling? (text : String) : Option Keyword :=
  all.find? fun keyword => keyword.spelling == text

end Keyword

inductive Symbol where
  | plus
  | minus
  | star
  | slash
  | percent
  | caret
  | hash
  | equal
  | notEqual
  | lessEqual
  | greaterEqual
  | less
  | greater
  | assign
  | leftParen
  | rightParen
  | leftBrace
  | rightBrace
  | leftBracket
  | rightBracket
  | doubleColon
  | semicolon
  | colon
  | comma
  | dot
  | concat
  | ellipsis
deriving DecidableEq, Repr

inductive Token where
  | name (text : String)
  | keyword (keyword : Keyword)
  | numeral (text : String)
  | str (bytes : List UInt8)
  | symbol (symbol : Symbol)
deriving DecidableEq, Repr

/-! ## Characters -/

def isBlank (c : Char) : Bool :=
  c == ' ' || c == '\t' || c == '\n' || c == '\r' || c == '\x0b' || c == '\x0c'

def isNameChar (c : Char) : Bool := c.isAlphanum || c == '_'

def isNameStart (c : Char) : Bool := isNameChar c && !c.isDigit

def hexValue? (c : Char) : Option Nat :=
  if c.isDigit then some (c.toNat - '0'.toNat)
  else if 'a' ≤ c && c ≤ 'f' then some (c.toNat - 'a'.toNat + 10)
  else if 'A' ≤ c && c ≤ 'F' then some (c.toNat - 'A'.toNat + 10)
  else none

/-! ## Names and numerals -/

/-- A name of Lua, which no keyword is. -/
def isName (text : String) : Bool :=
  match text.toList with
  | [] => false
  | c :: cs => isNameStart c && cs.all isNameChar && (Keyword.ofSpelling? text).isNone

/-- The characters that are taken as a numeral, and the rest: letters, digits and points, and a sign
behind the mark of an exponent. -/
def numeralRun (isMark : Char → Bool) (afterMark : Bool) : List Char → List Char × List Char
  | [] => ([], [])
  | c :: cs =>
    if isNameChar c || c == '.' || (afterMark && (c == '+' || c == '-')) then
      let (run, rest) := numeralRun isMark (isMark c) cs
      (c :: run, rest)
    else ([], c :: cs)

def isHexadecimal : List Char → Bool
  | c :: next :: _ => c == '0' && (next == 'x' || next == 'X')
  | _ => false

/-- The mark of an exponent: `e`, or `p` in a hexadecimal numeral. -/
def exponentMark (hexadecimal : Bool) (c : Char) : Bool :=
  if hexadecimal then c == 'p' || c == 'P' else c == 'e' || c == 'E'

/-- Digits with at most one point, then perhaps an exponent in decimal digits; `0x` in front of
hexadecimal ones. -/
def hasNumeralForm (hexadecimal : Bool) (cs : List Char) : Bool :=
  let cs := if hexadecimal then cs.drop 2 else cs
  let isDigit := fun c => if hexadecimal then (hexValue? c).isSome else c.isDigit
  let whole := cs.takeWhile isDigit
  let (fraction, rest) :=
    match cs.dropWhile isDigit with
    | '.' :: cs => (cs.takeWhile isDigit, cs.dropWhile isDigit)
    | cs => ([], cs)
  let exponent :=
    match rest with
    | [] => true
    | mark :: cs =>
      let digits :=
        match cs with
        | '+' :: cs | '-' :: cs => cs
        | cs => cs
      exponentMark hexadecimal mark && !digits.isEmpty && digits.all Char.isDigit
  !(whole ++ fraction).isEmpty && exponent

/-- The numeral at the front of a text, if the characters taken for one have the form of one. -/
def numeral? (cs : List Char) : Option (List Char × List Char) :=
  let hexadecimal := isHexadecimal cs
  let (run, rest) := numeralRun (exponentMark hexadecimal) false cs
  if hasNumeralForm hexadecimal run then some (run, rest) else none

/-- A numeral begins here: a digit, or a point and a digit. -/
def startsNumeral : List Char → Bool
  | [] => false
  | c :: cs => c.isDigit || (c == '.' && cs.head?.any Char.isDigit)

/-- The text is one numeral. -/
def isNumeral (text : String) : Bool :=
  startsNumeral text.toList && numeral? text.toList = some (text.toList, [])

/-! ## Strings and comments -/

/-- The bytes that a character is written as. -/
def charBytes (c : Char) : List UInt8 := String.utf8EncodeChar c

/-- The number that decimal digits write. -/
def decimalValue (digits : List Char) : Nat :=
  digits.foldl (fun value c => 10 * value + (c.toNat - '0'.toNat)) 0

def simpleEscape? : Char → Option UInt8
  | 'a' => some 7
  | 'b' => some 8
  | 'f' => some 12
  | 'n' => some 10
  | 'r' => some 13
  | 't' => some 9
  | 'v' => some 11
  | '\\' => some 92
  | '"' => some 34
  | '\x27' => some 39
  | '\n' => some 10
  | _ => none

/-- The bytes that an escape stands for and the number of its characters, given what follows its
backslash. -/
def escape? : List Char → Option (List UInt8 × Nat)
  | [] => none
  | c :: cs =>
    if c = 'x' then do
      let high ← cs.head?.bind hexValue?
      let low ← cs.tail.head?.bind hexValue?
      return ([UInt8.ofNat (16 * high + low)], 3)
    else if c = 'z' then some ([], 1 + (cs.takeWhile isBlank).length)
    else if c.isDigit then
      let digits := ((c :: cs).takeWhile Char.isDigit).take 3
      let value := decimalValue digits
      if value < 256 then some ([UInt8.ofNat value], digits.length) else none
    else (simpleEscape? c).map fun byte => ([byte], 1)

/-- The bytes of a string up to its closing quote, and what follows; some characters at the front
have been read. -/
def stringBody (quote : Char) : Nat → List Char → Option (List UInt8 × List Char)
  | _, [] => none
  | read + 1, _ :: cs => stringBody quote read cs
  | 0, c :: cs =>
    if c = quote then some ([], cs)
    else if c = '\\' then do
      let (bytes, count) ← escape? cs
      let (more, rest) ← stringBody quote count cs
      return (bytes ++ more, rest)
    else if c = '\n' || c = '\r' then none
    else do
      let (bytes, rest) ← stringBody quote 0 cs
      return (charBytes c ++ bytes, rest)

/-- The level of a long bracket, given what follows its first `[`. -/
def longBracket? : List Char → Option (Nat × List Char)
  | '[' :: cs => some (0, cs)
  | '=' :: cs => (longBracket? cs).map fun (level, rest) => (level + 1, rest)
  | _ => none

/-- What stands before the closing bracket of a level, and what follows it. -/
def longBody (level : Nat) : List Char → Option (List Char × List Char)
  | [] => none
  | c :: cs =>
    let close := ']' :: List.replicate level '=' ++ [']']
    if close.isPrefixOf (c :: cs) then some ([], (c :: cs).drop close.length)
    else (longBody level cs).map fun (body, rest) => (c :: body, rest)

/-- What follows a comment, given what follows its `--`. -/
def skipComment (cs : List Char) : Option (List Char) :=
  let line := some (cs.dropWhile fun c => c != '\n')
  match cs with
  | '[' :: cs =>
    match longBracket? cs with
    | some (level, cs) => (longBody level cs).map Prod.snd
    | none => line
  | _ => line

/-! ## The lexer -/

def wordToken (text : String) : Token :=
  match Keyword.ofSpelling? text with
  | some keyword => .keyword keyword
  | none => .name text

/-- A string between long brackets, given what follows its first `[`; a line end at its front does
not count. -/
def longString? (cs : List Char) : Option (List UInt8 × List Char) := do
  let (level, cs) ← longBracket? cs
  let (body, rest) ← longBody level (if cs.head? = some '\n' then cs.tail else cs)
  return (body.flatMap charBytes, rest)

/-- A symbol of two characters. -/
def pairSymbol? (c : Char) (next : Option Char) : Option Symbol :=
  match c with
  | '=' => if next = some '=' then some .equal else none
  | '~' => if next = some '=' then some .notEqual else none
  | '<' => if next = some '=' then some .lessEqual else none
  | '>' => if next = some '=' then some .greaterEqual else none
  | ':' => if next = some ':' then some .doubleColon else none
  | '.' => if next = some '.' then some .concat else none
  | _ => none

def singleSymbol? : Char → Option Symbol
  | '+' => some .plus
  | '-' => some .minus
  | '*' => some .star
  | '/' => some .slash
  | '%' => some .percent
  | '^' => some .caret
  | '#' => some .hash
  | '<' => some .less
  | '>' => some .greater
  | '=' => some .assign
  | '(' => some .leftParen
  | ')' => some .rightParen
  | '\x7b' => some .leftBrace
  | '\x7d' => some .rightBrace
  | '[' => some .leftBracket
  | ']' => some .rightBracket
  | ';' => some .semicolon
  | ':' => some .colon
  | ',' => some .comma
  | '.' => some .dot
  | _ => none

/-- An operator or a bracket at the front of a text, a comment, or a string between long
brackets. -/
def lexSymbol (c : Char) (cs : List Char) : Option (Option Token × List Char) :=
  if c = '-' ∧ cs.head? = some '-' then (skipComment cs.tail).map fun rest => (none, rest)
  else if c = '[' ∧ (cs.head? = some '[' ∨ cs.head? = some '=') then
    (longString? cs).map fun (bytes, rest) => (some (.str bytes), rest)
  else if c = '.' ∧ cs.take 2 = ['.', '.'] then some (some (.symbol .ellipsis), cs.drop 2)
  else
    match pairSymbol? c cs.head? with
    | some symbol => some (some (.symbol symbol), cs.tail)
    | none => (singleSymbol? c).map fun symbol => (some (.symbol symbol), cs)

/-- One step at the front of a text: a token, or nothing for a blank or a comment. -/
def lexStep : List Char → Option (Option Token × List Char)
  | [] => none
  | c :: cs =>
    if isBlank c then some (none, cs)
    else if isNameStart c then
      let word := c :: cs.takeWhile isNameChar
      some (some (wordToken (String.ofList word)), cs.dropWhile isNameChar)
    else if startsNumeral (c :: cs) then
      (numeral? (c :: cs)).map fun (run, rest) => (some (.numeral (String.ofList run)), rest)
    else if c = '"' || c = '\x27' then
      (stringBody c 0 cs).map fun (bytes, rest) => (some (.str bytes), rest)
    else lexSymbol c cs

/-- The tokens of a text that takes at most `count` steps. -/
def lexWithin : Nat → List Char → Option (List Token)
  | _, [] => some []
  | 0, _ :: _ => none
  | count + 1, c :: cs => do
    let (token?, rest) ← lexStep (c :: cs)
    let tokens ← lexWithin count rest
    return token?.toList ++ tokens

/-- The tokens of a text, or nothing if some part of it is no token.  Every step takes a
character. -/
def lex (cs : List Char) : Option (List Token) := lexWithin cs.length cs

end LuaBackend.Lua
