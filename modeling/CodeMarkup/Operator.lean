namespace CodeMarkup

/-!
# Operators

The operators of expressions, with their spellings.  A spelling determines a binary and an
assignment operator; of the unary ones it determines the form that stands before its operand.
-/

/-- Operators between two operands, loosest first. -/
inductive BinaryOp where
  | or | and | bitOr | xor | bitAnd | equals | notEquals | less | greater | lessEquals
  | greaterEquals | leftShift | signedRightShift | unsignedRightShift | plus | minus | times
  | divide | remainder
  deriving DecidableEq, Repr

/-- Operators with one operand. -/
inductive UnaryOp where
  | plus | minus | not | inverse | preIncrement | preDecrement | postIncrement | postDecrement
  deriving DecidableEq, Repr

/-- Plain and compound assignment. -/
inductive AssignOp where
  | assign | plus | minus | times | divide | remainder | and | or | xor | leftShift
  | signedRightShift | unsignedRightShift
  deriving DecidableEq, Repr

namespace BinaryOp

/-- The spelling of a binary operator. -/
def symbol : BinaryOp → String
  | .or => "||"
  | .and => "&&"
  | .bitOr => "|"
  | .xor => "^"
  | .bitAnd => "&"
  | .equals => "=="
  | .notEquals => "!="
  | .less => "<"
  | .greater => ">"
  | .lessEquals => "<="
  | .greaterEquals => ">="
  | .leftShift => "<<"
  | .signedRightShift => ">>"
  | .unsignedRightShift => ">>>"
  | .plus => "+"
  | .minus => "-"
  | .times => "*"
  | .divide => "/"
  | .remainder => "%"

/-- How tightly an operator binds.  Operators of one power group from the left. -/
def power : BinaryOp → Nat
  | .or => 10
  | .and => 20
  | .bitOr => 30
  | .xor => 40
  | .bitAnd => 50
  | .equals | .notEquals => 60
  | .less | .greater | .lessEquals | .greaterEquals => 70
  | .leftShift | .signedRightShift | .unsignedRightShift => 80
  | .plus | .minus => 90
  | .times | .divide | .remainder => 100

/-- Every binary operator. -/
def all : List BinaryOp :=
  [.or, .and, .bitOr, .xor, .bitAnd, .equals, .notEquals, .less, .greater, .lessEquals,
    .greaterEquals, .leftShift, .signedRightShift, .unsignedRightShift, .plus, .minus, .times,
    .divide, .remainder]

/-- The binary operator with a given spelling. -/
def ofSymbol? (symbol : String) : Option BinaryOp :=
  all.find? (·.symbol == symbol)

/-- Looking up a spelling finds its operator. -/
theorem ofSymbol?_symbol (op : BinaryOp) : ofSymbol? op.symbol = some op := by
  cases op <;> decide

end BinaryOp

namespace UnaryOp

/-- The spelling of a unary operator, the same on either side of the operand. -/
def symbol : UnaryOp → String
  | .plus => "+"
  | .minus => "-"
  | .not => "!"
  | .inverse => "~"
  | .preIncrement | .postIncrement => "++"
  | .preDecrement | .postDecrement => "--"

/-- The operators that stand before their operand. -/
def leading : List UnaryOp :=
  [.plus, .minus, .not, .inverse, .preIncrement, .preDecrement]

/-- Whether the operator follows its operand. -/
def isTrailing : UnaryOp → Bool
  | .postIncrement | .postDecrement => true
  | _ => false

/-- The operator before an operand with a given spelling. -/
def ofLeadingSymbol? (symbol : String) : Option UnaryOp :=
  leading.find? (·.symbol == symbol)

end UnaryOp

namespace AssignOp

/-- The spelling of an assignment operator. -/
def symbol : AssignOp → String
  | .assign => "="
  | .plus => "+="
  | .minus => "-="
  | .times => "*="
  | .divide => "/="
  | .remainder => "%="
  | .and => "&="
  | .or => "|="
  | .xor => "^="
  | .leftShift => "<<="
  | .signedRightShift => ">>="
  | .unsignedRightShift => ">>>="

/-- Every assignment operator. -/
def all : List AssignOp :=
  [.assign, .plus, .minus, .times, .divide, .remainder, .and, .or, .xor, .leftShift,
    .signedRightShift, .unsignedRightShift]

/-- The assignment operator with a given spelling. -/
def ofSymbol? (symbol : String) : Option AssignOp :=
  all.find? (·.symbol == symbol)

/-- Looking up a spelling finds its operator. -/
theorem ofSymbol?_symbol (op : AssignOp) : ofSymbol? op.symbol = some op := by
  cases op <;> decide

end AssignOp

end CodeMarkup
