/-!
The operators of the language: their signs, the families they belong to, and which of them may stand
in front of a single operand.
-/

namespace ScriptFront

/-- An operator, one for each sign. -/
inductive Operator where
  | plus | minus | star | slash | percent | doubleStar
  | equal | notEqual | greater | less | greaterEqual | lessEqual | spaceship | tripleEqual
  | assign | plusAssign | minusAssign | starAssign | slashAssign | percentAssign | doubleStarAssign
  | ampersand | pipe | caret | tilde | shiftLeft | shiftRight
  | doubleAmpersand | doublePipe | bang
  | doubleDot | tripleDot
deriving DecidableEq, Repr

/-- What a group of operators is for. -/
inductive OperatorFamily where
  | arithmetic | comparison | assignment | bitwise | logical | range
deriving DecidableEq, Repr

namespace OperatorFamily

def name : OperatorFamily → String
  | arithmetic => "Arithmetic"
  | comparison => "Comparison"
  | assignment => "Assignment"
  | bitwise => "Bitwise"
  | logical => "Logical"
  | range => "Range"

end OperatorFamily

namespace Operator

/-- Every operator once. -/
def all : List Operator :=
  [plus, minus, star, slash, percent, doubleStar,
    equal, notEqual, greater, less, greaterEqual, lessEqual, spaceship, tripleEqual,
    assign, plusAssign, minusAssign, starAssign, slashAssign, percentAssign, doubleStarAssign,
    ampersand, pipe, caret, tilde, shiftLeft, shiftRight,
    doubleAmpersand, doublePipe, bang,
    doubleDot, tripleDot]

/-- The sign of an operator in a source text. -/
def sign : Operator → String
  | plus => "+"
  | minus => "-"
  | star => "*"
  | slash => "/"
  | percent => "%"
  | doubleStar => "**"
  | equal => "=="
  | notEqual => "!="
  | greater => ">"
  | less => "<"
  | greaterEqual => ">="
  | lessEqual => "<="
  | spaceship => "<=>"
  | tripleEqual => "==="
  | assign => "="
  | plusAssign => "+="
  | minusAssign => "-="
  | starAssign => "*="
  | slashAssign => "/="
  | percentAssign => "%="
  | doubleStarAssign => "**="
  | ampersand => "&"
  | pipe => "|"
  | caret => "^"
  | tilde => "~"
  | shiftLeft => "<<"
  | shiftRight => ">>"
  | doubleAmpersand => "&&"
  | doublePipe => "||"
  | bang => "!"
  | doubleDot => ".."
  | tripleDot => "..."

/-- The name under which an operator appears in printed trees. -/
def name : Operator → String
  | plus => "Plus"
  | minus => "Minus"
  | star => "Star"
  | slash => "Slash"
  | percent => "Percent"
  | doubleStar => "StarStar"
  | equal => "Equal"
  | notEqual => "NotEqual"
  | greater => "Greater"
  | less => "Less"
  | greaterEqual => "GreaterEqual"
  | lessEqual => "LessEqual"
  | spaceship => "Spaceship"
  | tripleEqual => "CaseEqual"
  | assign => "Assign"
  | plusAssign => "PlusAssign"
  | minusAssign => "MinusAssign"
  | starAssign => "StarAssign"
  | slashAssign => "SlashAssign"
  | percentAssign => "PercentAssign"
  | doubleStarAssign => "StarStarAssign"
  | ampersand => "Ampersand"
  | pipe => "Pipe"
  | caret => "Caret"
  | tilde => "Tilde"
  | shiftLeft => "ShiftLeft"
  | shiftRight => "ShiftRight"
  | doubleAmpersand => "AndAnd"
  | doublePipe => "OrOr"
  | bang => "Bang"
  | doubleDot => "DotDot"
  | tripleDot => "DotDotDot"

def family : Operator → OperatorFamily
  | plus | minus | star | slash | percent | doubleStar => .arithmetic
  | equal | notEqual | greater | less | greaterEqual | lessEqual | spaceship | tripleEqual =>
    .comparison
  | assign | plusAssign | minusAssign | starAssign | slashAssign | percentAssign
  | doubleStarAssign => .assignment
  | ampersand | pipe | caret | tilde | shiftLeft | shiftRight => .bitwise
  | doubleAmpersand | doublePipe | bang => .logical
  | doubleDot | tripleDot => .range

/-- Whether the operator may stand before a single operand: the signs, the two negations, and the
marks for spread arguments and for passing a block. -/
def isUnary : Operator → Bool
  | plus | minus | star | ampersand | tilde | bang => true
  | _ => false

theorem mem_all (operator : Operator) : operator ∈ all := by
  cases operator <;> decide

theorem sign_injective {left right : Operator} (same : left.sign = right.sign) : left = right := by
  have pairs : ∀ first ∈ all, ∀ second ∈ all, first.sign = second.sign → first = second := by
    decide +kernel
  exact pairs left (mem_all left) right (mem_all right) same

end Operator

end ScriptFront
