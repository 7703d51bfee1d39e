import SclNarrator.Number.Numeral
import SclNarrator.Text.Basic

/-!
The operators of expressions, and what can go wrong while a text is read, an expression is evaluated
or a value is shown. A fault carries what its message names.

Correspondence (analyzer ↔ here):
  `BinaryOp`, `UnaryOp`              ↔ `BinaryOp`, `UnaryOp`
  `EvaluationError` and its causes   ↔ `Fault`
  the text of the error              ↔ `Fault.message`
-/

namespace SclNarrator

/-! ## Operators

The operators of expressions and their names in messages. -/

inductive BinaryOp where
  | add | sub | mul | div | mod | and | or | eq | ne | gt | ge | lt | le
  deriving DecidableEq, Repr

inductive UnaryOp where
  | neg | not
  deriving DecidableEq, Repr

def BinaryOp.name : BinaryOp → Text
  | .add => "ADD".toText
  | .sub => "SUB".toText
  | .mul => "MUL".toText
  | .div => "DIV".toText
  | .mod => "MOD".toText
  | .and => "AND".toText
  | .or => "OR".toText
  | .eq => "EQ".toText
  | .ne => "NE".toText
  | .gt => "GT".toText
  | .ge => "GE".toText
  | .lt => "LT".toText
  | .le => "LE".toText

def UnaryOp.name : UnaryOp → Text
  | .neg => "NEG".toText
  | .not => "NOT".toText

/-- An operator of either kind, as messages name it. -/
inductive Operator where
  | binary (op : BinaryOp)
  | unary (op : UnaryOp)
  deriving DecidableEq, Repr

def Operator.name : Operator → Text
  | .binary op => "BinaryOp.".toText ++ op.name
  | .unary op => "UnaryOp.".toText ++ op.name

/-! ## Faults

What can go wrong while a text is read, an expression is evaluated or a value is shown, and the
wording of each cause. -/

inductive Fault where
  /-- A text that is no duration. -/
  | badDuration (text : Text)
  /-- A text that is no numeral with a base. -/
  | badBased (text : Text)
  /-- A text that is no decimal numeral, or too long a one. -/
  | badNumeral (fault : Numeral.Fault)
  /-- A whole number that is too long to be written. -/
  | longNumber
  /-- A type that values are not converted to. -/
  | unknownTarget (target : Text)
  /-- A value that has no counterpart in a type. -/
  | notConvertible (shown target : Text)
  /-- A character that starts no token. -/
  | strayChar (c : CodePoint) (position : Nat)
  /-- An expression without tokens. -/
  | emptyExpression
  /-- An expression that ends too early. -/
  | endOfExpression
  /-- A token that had to come and did not. -/
  | expected (token found : Text)
  /-- A token that cannot stand where it stands. -/
  | strayToken (token : Text) (position : Nat)
  /-- An operand that could not be computed before. -/
  | noValue
  /-- An operator on something that is no number. -/
  | needsNumbers (op : Operator) (got : Text)
  /-- An order between a text and something else. -/
  | incomparable (left right : Text)
  /-- A conversion of none or of several values. -/
  | needsOneArgument (name : Text)
  /-- A function that does not exist. -/
  | unknownFunction (name : Text)
  /-- A function on values or on a number of values that it does not take. -/
  | wrongArguments
  /-- A function outside its domain. -/
  | outOfDomain
  /-- A result that is too large. -/
  | tooLarge
  /-- A division by zero, or a negative power of it. -/
  | divisionByZero
  /-- A complex number where a value is to be bound. -/
  | complexBinding
  deriving DecidableEq

/-- Lines that say which fields of a record are refused, and why. -/
def refusal (record : Text) (fields : List (Text × Text)) : Text :=
  Text.join ['\n'] <|
    (Numeral.natText fields.length ++
      (if fields.length = 1 then " validation error for " else " validation errors for ").toText ++
      record) ::
    fields.map fun (field, cause) => field ++ " [".toText ++ cause ++ "]".toText

def Fault.message : Fault → Text
  | .badDuration text => "Invalid TIME literal: ".toText ++ text.quoted
  | .badBased text => "Invalid based literal: ".toText ++ text.quoted
  | .badNumeral fault => fault.message
  | .longNumber =>
    ("Exceeds the limit (4300 digits) for integer string conversion; " ++
      "use sys.set_int_max_str_digits() to increase the limit").toText
  | .unknownTarget target => "Unknown conversion target: ".toText ++ target
  | .notConvertible shown target =>
    "Cannot convert ".toText ++ shown ++ " to ".toText ++ target
  | .strayChar c position =>
    "Unexpected character ".toText ++ Text.quoted [c] ++ " at position ".toText ++
      Numeral.natText position
  | .emptyExpression => "Empty expression".toText
  | .endOfExpression => "Unexpected end of expression".toText
  | .expected token found =>
    "Expected ".toText ++ token.quoted ++ ", found ".toText ++ found.quoted
  | .strayToken token position =>
    "Unexpected token ".toText ++ token.quoted ++ " at position ".toText ++
      Numeral.natText position
  | .noValue => "Operand has no value".toText
  | .needsNumbers op got => op.name ++ " expects numbers, got ".toText ++ got
  | .incomparable left right =>
    "Cannot compare ".toText ++ left ++ " with ".toText ++ right
  | .needsOneArgument name => name ++ " expects exactly one argument".toText
  | .unknownFunction name => "Unknown function: ".toText ++ name
  | .wrongArguments => "Wrong arguments".toText
  | .outOfDomain => "Argument outside the domain".toText
  | .tooLarge => "Result too large".toText
  | .divisionByZero => "Division by zero".toText
  | .complexBinding =>
    refusal "LocalBinding".toText
      [("value.bool".toText, "bool_type".toText), ("value.int".toText, "int_type".toText),
        ("value.float".toText, "float_type".toText), ("value.str".toText, "string_type".toText)]

end SclNarrator
