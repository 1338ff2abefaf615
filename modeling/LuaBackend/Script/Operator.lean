/-!
# Operators of the script language

Each operator has one spelling, and is recognised by exactly that spelling.
-/

namespace LuaBackend.Script

inductive BinaryOp where
  | add
  | sub
  | mul
  | quo
  | rem
  | equal
  | notEqual
  | less
  | greater
  | lessEq
  | greaterEq
  | logicalAnd
  | logicalOr
  | bitAnd
  | bitOr
  | bitXor
  | bitAndNot
  | shiftLeft
  | shiftRight
deriving DecidableEq, Repr, Inhabited

namespace BinaryOp

def all : List BinaryOp :=
  [.add, .sub, .mul, .quo, .rem, .equal, .notEqual, .less, .greater, .lessEq, .greaterEq,
    .logicalAnd, .logicalOr, .bitAnd, .bitOr, .bitXor, .bitAndNot, .shiftLeft, .shiftRight]

def spelling : BinaryOp → String
  | .add => "+"
  | .sub => "-"
  | .mul => "*"
  | .quo => "/"
  | .rem => "%"
  | .equal => "=="
  | .notEqual => "!="
  | .less => "<"
  | .greater => ">"
  | .lessEq => "<="
  | .greaterEq => ">="
  | .logicalAnd => "&&"
  | .logicalOr => "||"
  | .bitAnd => "&"
  | .bitOr => "|"
  | .bitXor => "^"
  | .bitAndNot => "&^"
  | .shiftLeft => "<<"
  | .shiftRight => ">>"

def ofSpelling? (text : String) : Option BinaryOp :=
  all.find? fun op => op.spelling == text

def isBitwise : BinaryOp → Bool
  | .bitAnd | .bitOr | .bitXor | .bitAndNot | .shiftLeft | .shiftRight => true
  | _ => false

end BinaryOp

inductive UnaryOp where
  | not
  | neg
  | plus
  | complement
deriving DecidableEq, Repr, Inhabited

namespace UnaryOp

def all : List UnaryOp := [.not, .neg, .plus, .complement]

def spelling : UnaryOp → String
  | .not => "!"
  | .neg => "-"
  | .plus => "+"
  | .complement => "^"

def ofSpelling? (text : String) : Option UnaryOp :=
  all.find? fun op => op.spelling == text

end UnaryOp

/-- A definition, a plain assignment, or an assignment through a binary operator. -/
inductive AssignOp where
  | define
  | assign
  | add
  | sub
  | mul
  | quo
  | rem
  | bitAnd
  | bitOr
  | bitXor
  | bitAndNot
  | shiftLeft
  | shiftRight
deriving DecidableEq, Repr, Inhabited

namespace AssignOp

def all : List AssignOp :=
  [.define, .assign, .add, .sub, .mul, .quo, .rem, .bitAnd, .bitOr, .bitXor, .bitAndNot,
    .shiftLeft, .shiftRight]

/-- The binary operator that a compound assignment applies. -/
def operator? : AssignOp → Option BinaryOp
  | .define | .assign => none
  | .add => some .add
  | .sub => some .sub
  | .mul => some .mul
  | .quo => some .quo
  | .rem => some .rem
  | .bitAnd => some .bitAnd
  | .bitOr => some .bitOr
  | .bitXor => some .bitXor
  | .bitAndNot => some .bitAndNot
  | .shiftLeft => some .shiftLeft
  | .shiftRight => some .shiftRight

def spelling (op : AssignOp) : String :=
  match op.operator? with
  | some binary => binary.spelling ++ "="
  | none => if op = .define then ":=" else "="

def ofSpelling? (text : String) : Option AssignOp :=
  all.find? fun op => op.spelling == text

def isBitwise (op : AssignOp) : Bool :=
  op.operator?.any BinaryOp.isBitwise

end AssignOp

inductive IncDecOp where
  | inc
  | dec
deriving DecidableEq, Repr, Inhabited

namespace IncDecOp

def all : List IncDecOp := [.inc, .dec]

def spelling : IncDecOp → String
  | .inc => "++"
  | .dec => "--"

def ofSpelling? (text : String) : Option IncDecOp :=
  all.find? fun op => op.spelling == text

end IncDecOp

inductive BranchOp where
  | break
  | continue
deriving DecidableEq, Repr, Inhabited

namespace BranchOp

def all : List BranchOp := [.break, .continue]

def spelling : BranchOp → String
  | .break => "break"
  | .continue => "continue"

def ofSpelling? (text : String) : Option BranchOp :=
  all.find? fun op => op.spelling == text

end BranchOp

end LuaBackend.Script
