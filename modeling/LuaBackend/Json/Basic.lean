/-!
# JSON values

Objects keep their fields in the order in which they were written.  A number is kept as an
integer when it is written as one and as its text otherwise.
-/

namespace LuaBackend

inductive Json where
  | null
  | bool (value : Bool)
  | int (value : Int)
  /-- A number written with a fraction, an exponent, or as a negative zero. -/
  | decimal (text : String)
  | str (value : String)
  | arr (items : List Json)
  | obj (fields : List (String × Json))
deriving Repr, Inhabited

namespace Json

mutual

/-- How deep arrays and objects nest: a scalar has depth 0, a flat array or object depth 1. -/
def depth : Json → Nat
  | .arr items => depthOfItems items + 1
  | .obj fields => depthOfFields fields + 1
  | _ => 0

def depthOfItems : List Json → Nat
  | [] => 0
  | item :: items => max item.depth (depthOfItems items)

def depthOfFields : List (String × Json) → Nat
  | [] => 0
  | (_, value) :: fields => max value.depth (depthOfFields fields)

end

def bool? : Json → Option Bool
  | .bool value => some value
  | _ => none

def str? : Json → Option String
  | .str value => some value
  | _ => none

/-- A text of exactly one character. -/
def char? : Json → Option Char
  | .str value =>
    match value.toList with
    | [c] => some c
    | _ => none
  | _ => none

/-- An integer that fits in 32 unsigned bits. -/
def uint32? : Json → Option UInt32
  | .int (.ofNat n) => if n < UInt32.size then some (UInt32.ofNat n) else none
  | _ => none

/-- An array, each of whose items is read by `read`. -/
def list? {α : Type} (read : Json → Option α) : Json → Option (List α)
  | .arr items => items.mapM read
  | _ => none

end Json

/-- The named fields of a record, whichever way the record was written. -/
abbrev Json.Record := List (String × Json)

namespace Json

/-- A record is an object, or an array of its leading fields in the order of `names`. -/
def record? (names : List String) : Json → Option Record
  | .obj fields => some fields
  | .arr items => if items.length ≤ names.length then some (names.zip items) else none
  | _ => none

/-- A tagged record holds its tag in the field `type` of an object, or at the head of an array. -/
def tagged? : Json → Option (String × Json)
  | .obj fields =>
    match fields.lookup "type" with
    | some (.str tag) => some (tag, .obj fields)
    | _ => none
  | .arr (.str tag :: items) => some (tag, .arr items)
  | _ => none

namespace Record

variable {α : Type}

/-- A field that has to be there. -/
def required (record : Record) (name : String) (read : Json → Option α) : Option α :=
  (record.lookup name).bind read

/-- A field that stands for `default` when it is left out. -/
def defaulted (record : Record) (name : String) (default : α) (read : Json → Option α) :
    Option α :=
  match record.lookup name with
  | some value => read value
  | none => some default

/-- A field that may be left out or `null`. -/
def optional (record : Record) (name : String) (read : Json → Option α) : Option (Option α) :=
  match record.lookup name with
  | none | some .null => some none
  | some value => (read value).map some

end Record

end Json

end LuaBackend
