import LuaBackend.Json.Basic

/-!
# Reading JSON text

The reader takes one character at a time.  `Mode` says where it stands inside a token, `Phase`
and the open frames say where it stands inside the value.  A text is one value with blanks
around it; comments, trailing commas, leading zeros and raw control characters are refused.

The size of numbers is not checked.  A number beyond the range of doubles is read like any other,
also where it stands inside a node of a tree; a reader that turns the numbers of a node into
doubles before it looks at them refuses the text there.
-/

namespace LuaBackend.Json

namespace Reader

/-- A container that has been opened and waits for the value being read. -/
inductive Frame where
  | arr (done : List Json)
  | obj (done : List (String × Json)) (key : String)

/-- What may come next, items and fields that are done being held in reverse. -/
inductive Phase where
  | value
  | itemOrClose
  | keyOrClose
  | key (done : List (String × Json))
  | colon (done : List (String × Json)) (key : String)
  | after (value : Json)

inductive Token where
  | openArr
  | closeArr
  | openObj
  | closeObj
  | comma
  | colon
  | scalar (value : Json)

inductive Mode where
  | between
  | word (done : List Char)
  | text (done : List Char)
  | escape (done : List Char)
  /-- Inside the four digits of an escape; `high` is the first half of a pair already read. -/
  | code (done : List Char) (high : Option Nat) (value : Nat) (digits : Nat)
  /-- After the first half of a pair, before the backslash of the second. -/
  | pair (done : List Char) (high : Nat)
  /-- After that backslash. -/
  | pairMark (done : List Char) (high : Nat)

structure State where
  mode : Mode := .between
  phase : Phase := .value
  frames : List Frame := []

def State.feed (s : State) (token : Token) : Option State :=
  match s.phase, token, s.frames with
  | .value, .scalar v, _ | .itemOrClose, .scalar v, _ => some { s with phase := .after v }
  | .value, .openArr, fs | .itemOrClose, .openArr, fs =>
    some { s with phase := .itemOrClose, frames := .arr [] :: fs }
  | .value, .openObj, _ | .itemOrClose, .openObj, _ => some { s with phase := .keyOrClose }
  | .itemOrClose, .closeArr, .arr done :: fs =>
    some { s with phase := .after (.arr done.reverse), frames := fs }
  | .keyOrClose, .closeObj, _ => some { s with phase := .after (.obj []) }
  | .keyOrClose, .scalar (.str k), _ => some { s with phase := .colon [] k }
  | .key done, .scalar (.str k), _ => some { s with phase := .colon done k }
  | .colon done k, .colon, fs => some { s with phase := .value, frames := .obj done k :: fs }
  | .after v, .comma, .arr done :: fs =>
    some { s with phase := .value, frames := .arr (v :: done) :: fs }
  | .after v, .closeArr, .arr done :: fs =>
    some { s with phase := .after (.arr (v :: done).reverse), frames := fs }
  | .after v, .comma, .obj done k :: fs =>
    some { s with phase := .key ((k, v) :: done), frames := fs }
  | .after v, .closeObj, .obj done k :: fs =>
    some { s with phase := .after (.obj ((k, v) :: done).reverse), frames := fs }
  | _, _, _ => none

/-! ## Words: numbers and the three literal names -/

def isBlank (c : Char) : Bool :=
  c == ' ' || c == '\t' || c == '\n' || c == '\r'

def isWordChar (c : Char) : Bool :=
  c.isAlphanum || c == '-' || c == '+' || c == '.'

def decimalValue (digits : List Char) : Nat :=
  digits.foldl (fun n c => 10 * n + (c.toNat - '0'.toNat)) 0

def isDigits (cs : List Char) : Bool :=
  !cs.isEmpty && cs.all Char.isDigit

def isExponent : List Char → Bool
  | [] => true
  | e :: sign :: digits =>
    (e == 'e' || e == 'E') &&
      if sign == '+' || sign == '-' then isDigits digits else isDigits (sign :: digits)
  | _ => false

/-- What may follow the whole part of a number that is no integer. -/
def isFraction : List Char → Bool
  | '.' :: cs => isDigits (cs.takeWhile Char.isDigit) && isExponent (cs.dropWhile Char.isDigit)
  | cs => isExponent cs

def unsigned? (word : List Char) : Option (Nat × List Char) :=
  let whole := word.takeWhile Char.isDigit
  if isDigits whole && (whole == ['0'] || whole.head? != some '0') then
    some (decimalValue whole, word.dropWhile Char.isDigit)
  else none

/-- A number of any size: neither the digits nor the exponent are bounded. -/
def number? (word : List Char) : Option Json :=
  match word with
  | '-' :: digits =>
    match unsigned? digits with
    | some (0, []) => some (.decimal (String.ofList word))
    | some (n, []) => some (.int (-n))
    | some (_, rest) => if isFraction rest then some (.decimal (String.ofList word)) else none
    | none => none
  | _ =>
    match unsigned? word with
    | some (n, []) => some (.int n)
    | some (_, rest) => if isFraction rest then some (.decimal (String.ofList word)) else none
    | none => none

def scalar? (word : List Char) : Option Json :=
  if word == "null".toList then some .null
  else if word == "true".toList then some (.bool true)
  else if word == "false".toList then some (.bool false)
  else number? word

/-! ## Strings -/

def escape? : Char → Option Char
  | '"' => some '"'
  | '\\' => some '\\'
  | '/' => some '/'
  | 'b' => some '\x08'
  | 'f' => some '\x0c'
  | 'n' => some '\n'
  | 'r' => some '\r'
  | 't' => some '\t'
  | _ => none

def hexValue? (c : Char) : Option Nat :=
  if c.isDigit then some (c.toNat - '0'.toNat)
  else if 'a' ≤ c ∧ c ≤ 'f' then some (c.toNat - 'a'.toNat + 10)
  else if 'A' ≤ c ∧ c ≤ 'F' then some (c.toNat - 'A'.toNat + 10)
  else none

/-- The mode after the four digits of an escape: halves of a pair have to stand together. -/
def afterCode (done : List Char) (high : Option Nat) (value : Nat) : Option Mode :=
  match high with
  | none =>
    if 0xD800 ≤ value ∧ value ≤ 0xDBFF then some (.pair done value)
    else if 0xDC00 ≤ value ∧ value ≤ 0xDFFF then none
    else some (.text (Char.ofNat value :: done))
  | some high =>
    if 0xDC00 ≤ value ∧ value ≤ 0xDFFF then
      some (.text (Char.ofNat (0x10000 + (high - 0xD800) * 0x400 + (value - 0xDC00)) :: done))
    else none

/-! ## The machine -/

def punctuation? : Char → Option Token
  | '[' => some .openArr
  | ']' => some .closeArr
  | '\x7b' => some .openObj
  | '\x7d' => some .closeObj
  | ',' => some .comma
  | ':' => some .colon
  | _ => none

def State.outside (s : State) (c : Char) : Option State :=
  if isBlank c then some s
  else if c == '"' then some { s with mode := .text [] }
  else if isWordChar c then some { s with mode := .word [c] }
  else (punctuation? c).bind s.feed

def State.endWord (s : State) (done : List Char) : Option State :=
  (scalar? done.reverse).bind fun v => { s with mode := .between }.feed (.scalar v)

def State.step (s : State) (c : Char) : Option State :=
  match s.mode with
  | .between => s.outside c
  | .word done =>
    if isWordChar c then some { s with mode := .word (c :: done) }
    else (s.endWord done).bind fun s => s.outside c
  | .text done =>
    if c == '"' then
      { s with mode := .between }.feed (.scalar (.str (String.ofList done.reverse)))
    else if c == '\\' then some { s with mode := .escape done }
    else if c < ' ' then none
    else some { s with mode := .text (c :: done) }
  | .escape done =>
    if c == 'u' then some { s with mode := .code done none 0 0 }
    else (escape? c).map fun e => { s with mode := .text (e :: done) }
  | .code done high value digits =>
    (hexValue? c).bind fun h =>
      let value := 16 * value + h
      if digits == 3 then (afterCode done high value).map fun mode => { s with mode := mode }
      else some { s with mode := .code done high value (digits + 1) }
  | .pair done high => if c == '\\' then some { s with mode := .pairMark done high } else none
  | .pairMark done high =>
    if c == 'u' then some { s with mode := .code done (some high) 0 0 } else none

def State.finish? (s : State) : Option Json :=
  match s.mode, s.phase, s.frames with
  | .between, .after v, [] => some v
  | _, _, _ => none

/-- The value of a text that has been read to its end, where a word may still be open. -/
def State.value? (s : State) : Option Json :=
  match s.mode with
  | .word done => (s.endWord done).bind State.finish?
  | _ => s.finish?

end Reader

/-- The value that `text` writes, if it writes exactly one. -/
def ofText? (text : String) : Option Json :=
  (text.toList.foldlM Reader.State.step {}).bind Reader.State.value?

end LuaBackend.Json
