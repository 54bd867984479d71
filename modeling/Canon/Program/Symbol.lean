/-!
# Operators and types

Every operator and every type has two spellings: the symbol that the printed text shows, and the name by which the
exchange format knows it.
-/

namespace Canon

inductive BinaryOp where
  | or | and
  | bitOr | bitAnd | bitXor
  | eq | notEq | gt | gtEq | lt | ltEq
  | add | sub | mul | div | mod
  | range
  deriving DecidableEq, Repr, Inhabited

inductive UnaryOp where
  | neg | not
  deriving DecidableEq, Repr, Inhabited

inductive AssignOp where
  | assign | addAssign | subAssign
  deriving DecidableEq, Repr, Inhabited

/-- The declared type of a variable, a parameter or the result of a function. -/
inductive VarType where
  | invalid | void | double | int | string
  deriving DecidableEq, Repr, Inhabited

/-! ## Symbols -/

def BinaryOp.symbol : BinaryOp → String
  | .or => "||"
  | .and => "&&"
  | .bitOr => "|"
  | .bitAnd => "&"
  | .bitXor => "^"
  | .eq => "=="
  | .notEq => "!="
  | .gt => ">"
  | .gtEq => ">="
  | .lt => "<"
  | .ltEq => "<="
  | .add => "+"
  | .sub => "-"
  | .mul => "*"
  | .div => "/"
  | .mod => "%"
  | .range => ".."

def UnaryOp.symbol : UnaryOp → String
  | .neg => "-"
  | .not => "!"

def AssignOp.symbol : AssignOp → String
  | .assign => "="
  | .addAssign => "+="
  | .subAssign => "-="

def VarType.keyword : VarType → String
  | .invalid => "invalid"
  | .void => "void"
  | .double => "double"
  | .int => "int"
  | .string => "string"

/-! ## Names -/

def BinaryOp.name : BinaryOp → String
  | .or => "or"
  | .and => "and"
  | .bitOr => "bit_or"
  | .bitAnd => "bit_and"
  | .bitXor => "bit_xor"
  | .eq => "eq"
  | .notEq => "not_eq"
  | .gt => "gt"
  | .gtEq => "gt_eq"
  | .lt => "lt"
  | .ltEq => "lt_eq"
  | .add => "add"
  | .sub => "sub"
  | .mul => "mul"
  | .div => "div"
  | .mod => "mod"
  | .range => "range"

def UnaryOp.name : UnaryOp → String
  | .neg => "neg"
  | .not => "not"

def AssignOp.name : AssignOp → String
  | .assign => "assign"
  | .addAssign => "add_assign"
  | .subAssign => "sub_assign"

def VarType.name : VarType → String := VarType.keyword

def BinaryOp.all : List BinaryOp :=
  [.or, .and, .bitOr, .bitAnd, .bitXor, .eq, .notEq, .gt, .gtEq, .lt, .ltEq, .add, .sub, .mul, .div, .mod, .range]

def UnaryOp.all : List UnaryOp := [.neg, .not]

def AssignOp.all : List AssignOp := [.assign, .addAssign, .subAssign]

def VarType.all : List VarType := [.invalid, .void, .double, .int, .string]

def BinaryOp.ofName? (name : String) : Option BinaryOp := BinaryOp.all.find? (·.name = name)

def UnaryOp.ofName? (name : String) : Option UnaryOp := UnaryOp.all.find? (·.name = name)

def AssignOp.ofName? (name : String) : Option AssignOp := AssignOp.all.find? (·.name = name)

def VarType.ofName? (name : String) : Option VarType := VarType.all.find? (·.name = name)

/-! ## A name leads back to what it names -/

theorem BinaryOp.ofName?_name (op : BinaryOp) : BinaryOp.ofName? op.name = some op := by cases op <;> decide

theorem UnaryOp.ofName?_name (op : UnaryOp) : UnaryOp.ofName? op.name = some op := by cases op <;> decide

theorem AssignOp.ofName?_name (op : AssignOp) : AssignOp.ofName? op.name = some op := by cases op <;> decide

theorem VarType.ofName?_name (ty : VarType) : VarType.ofName? ty.name = some ty := by cases ty <;> decide

end Canon
