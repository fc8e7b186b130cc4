import CoreLang.Grammar.Cause
import CoreLang.Grammar.Look
import CoreLang.Tree

/-! Grammar rules as data. A form says which tokens a construct reads and which trees it leaves. -/
namespace CoreLang

/-- The constructs that open a level of nesting. The grammar refers to itself only through them. -/
inductive Nested where
  | expression
  /-- The right operand of a power. -/
  | power
  /-- The operand of a sign or a negation. -/
  | unary
  | block
  /-- An `if` directly after `else`. -/
  | ifStatement
deriving DecidableEq

/-- A rule of the grammar. -/
inductive Form where
  /-- One token of the given kinds, left as a leaf. Any other token is an error of the cause. -/
  | token (kinds : List Kind) (cause : Cause)
  | empty
  | seq (first second : Form)
  /-- The first form where the look holds, and else the second one. -/
  | branch (look : Look) (yes no : Form)
  /-- The body again and again, as long as the look holds before it. -/
  | many (look : Look) (body : Form)
  /-- What the body leaves becomes the children of one node. -/
  | node (production : Production) (body : Form)
  /-- An operand alone, or, where the look holds after it, one node of it and the suffix. -/
  | suffixed (production : Production) (operand : Form) (look : Look) (suffix : Form)
  | nested (construct : Nested)
  /-- Items up to a token of the given kinds or the end marker. A damaged item is left out, and the
  next one is tried where parsing can resume. -/
  | items (stops : List Kind) (item : Form)
  /-- An error that ends the whole parse. -/
  | abandon (cause : Cause)
deriving DecidableEq

/-- The label of a leaf that the grammar leaves for a token of a kind. -/
def leafLabel : Kind → String
  | .identifier => "Identifier"
  | .string => "String"
  | .integerLiteral => "Int"
  | .floatLiteral => "Float"
  | .characterLiteral => "Char"
  | .trueKeyword => "Bool"
  | .falseKeyword => "Bool"
  | .intKeyword => "int"
  | .floatKeyword => "float"
  | .charKeyword => "char"
  | .boolKeyword => "bool"
  | kind => kind.name

namespace Form

def one (kind : Kind) : Form := token [kind] (.expected kind)

/-- The forms one after another. -/
def all : List Form → Form
  | [] => empty
  | [form] => form
  | form :: rest => seq form (all rest)

def optional (look : Look) (form : Form) : Form := branch look form empty

/-- The form of the kind that the current token has, or else the last form. -/
def byKind (last : Form) : List (Kind × Form) → Form
  | [] => last
  | (kind, form) :: rest => branch (.sees 0 [kind]) form (byKind last rest)

def commaSeparated (form : Form) : Form :=
  seq form (many (.sees 0 [.comma]) (seq (one .comma) form))

/-- One level of operators that associate to the left: all operands and operators of a run stand
in one node, and an operand alone stands without a node. -/
def leftAssociative (production : Production) (operators : List Kind) (operand : Form) : Form :=
  let step := seq (token operators .factor) operand
  suffixed production operand (.sees 0 operators) (seq step (many (.sees 0 operators) step))

end Form
end CoreLang
