/-! Kinds of tokens, their names and their classes. -/
namespace CoreLang

/-- Every kind of token. The order is part of the output: a kind's code is its place in it. -/
inductive Kind where
  | leftParenthesis | rightParenthesis | leftBracket | rightBracket | leftBrace | rightBrace
  | comma | semicolon | multiply | exponent | ampersand
  | plus | minus | divide | equal | notEqual | assign
  | less | lessEqual | greater | greaterEqual | not | or | and | modulo
  | identifier | string | integerLiteral | floatLiteral | characterLiteral
  | charKeyword | intKeyword | floatKeyword | boolKeyword | ifKeyword | elseKeyword | forKeyword
  | whileKeyword | returnKeyword | printfKeyword | scanfKeyword | trueKeyword | falseKeyword
  | voidKeyword
  | invalidCharacter | invalidIdentifier
  | endMarker
deriving DecidableEq

namespace Kind

def all : List Kind :=
  [.leftParenthesis, .rightParenthesis, .leftBracket, .rightBracket, .leftBrace, .rightBrace,
   .comma, .semicolon, .multiply, .exponent, .ampersand,
   .plus, .minus, .divide, .equal, .notEqual, .assign,
   .less, .lessEqual, .greater, .greaterEqual, .not, .or, .and, .modulo,
   .identifier, .string, .integerLiteral, .floatLiteral, .characterLiteral,
   .charKeyword, .intKeyword, .floatKeyword, .boolKeyword, .ifKeyword, .elseKeyword, .forKeyword,
   .whileKeyword, .returnKeyword, .printfKeyword, .scanfKeyword, .trueKeyword, .falseKeyword,
   .voidKeyword,
   .invalidCharacter, .invalidIdentifier,
   .endMarker]

def code (k : Kind) : Nat := k.ctorIdx

/-- A kind's code is its index in `all`. -/
theorem all_getElem?_code (k : Kind) : all[k.code]? = some k := by cases k <;> rfl

def name : Kind → String
  | leftParenthesis => "LEFT_PARENTHESIS"
  | rightParenthesis => "RIGHT_PARENTHESIS"
  | leftBracket => "LEFT_BRACKET"
  | rightBracket => "RIGHT_BRACKET"
  | leftBrace => "LEFT_BRACE"
  | rightBrace => "RIGHT_BRACE"
  | comma => "COMMA"
  | semicolon => "SEMICOLON"
  | multiply => "MULTIPLY"
  | exponent => "EXPONENT"
  | ampersand => "AMPERSAND"
  | plus => "PLUS"
  | minus => "MINUS"
  | divide => "DIVIDE"
  | equal => "EQUAL"
  | notEqual => "NOT_EQUAL"
  | assign => "ASSIGN"
  | less => "LESS"
  | lessEqual => "LESS_EQUAL"
  | greater => "GREATER"
  | greaterEqual => "GREATER_EQUAL"
  | not => "NOT"
  | or => "OR"
  | and => "AND"
  | modulo => "MODULO"
  | identifier => "IDENTIFIER"
  | string => "STRING"
  | integerLiteral => "INTEGER_LITERAL"
  | floatLiteral => "FLOAT_LITERAL"
  | characterLiteral => "CHARACTER_LITERAL"
  | charKeyword => "CHAR_KW"
  | intKeyword => "INT_KW"
  | floatKeyword => "FLOAT_KW"
  | boolKeyword => "BOOL_KW"
  | ifKeyword => "IF_KW"
  | elseKeyword => "ELSE_KW"
  | forKeyword => "FOR_KW"
  | whileKeyword => "WHILE_KW"
  | returnKeyword => "RETURN_KW"
  | printfKeyword => "PRINTF_KW"
  | scanfKeyword => "SCANF_KW"
  | trueKeyword => "TRUE_KW"
  | falseKeyword => "FALSE_KW"
  | voidKeyword => "VOID_KW"
  | invalidCharacter => "ERROR_INVALID_CHARACTER"
  | invalidIdentifier => "ERROR_INVALID_IDENTIFIER"
  | endMarker => "TOKEN_EOF"

instance : ToString Kind := ⟨name⟩

def ofName? (s : String) : Option Kind := all.find? (·.name = s)

theorem ofName?_name (k : Kind) : ofName? k.name = some k := by cases k <;> decide

def isKeyword (k : Kind) : Bool := charKeyword.code ≤ k.code && k.code ≤ voidKeyword.code

/-- Kinds that stand for text with a lexical fault. -/
def isError (k : Kind) : Bool := k matches invalidCharacter | invalidIdentifier

/-- The names of the four data types. -/
def dataTypes : List Kind := [intKeyword, floatKeyword, charKeyword, boolKeyword]

def isDataType (k : Kind) : Bool := k ∈ dataTypes

/-- Kinds that the grammar takes for a constant. -/
def constants : List Kind :=
  [integerLiteral, floatLiteral, characterLiteral, trueKeyword, falseKeyword]

def isConstant (k : Kind) : Bool := k ∈ constants

/-- Kinds whose lexeme is a resolved value. Strings are no constants, `true` and `false` no
literals. -/
def isLiteral (k : Kind) : Bool :=
  k matches integerLiteral | floatLiteral | characterLiteral | string

end Kind
end CoreLang
