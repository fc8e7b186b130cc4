import CoreLang.Token

/-! The table of the tokens of a text, one row for each. -/
namespace CoreLang.SymbolTable

/-- Fills a text up with blanks on the right. A text that is too long stays as it is. -/
def padRight (width : Nat) (text : String) : String :=
  text ++ String.ofList (List.replicate (width - text.length) ' ')

def rule : String := String.ofList (List.replicate 128 '_')

/-- The cells of a row, all but the last one padded to the width of their column. -/
def row (code kind line column lexeme : String) : String :=
  " | ".intercalate
    [padRight 15 code, padRight 24 kind, padRight 15 line, padRight 15 column, lexeme]

def header : String := row "TOKEN CODE" "TOKEN" "LINE #" "COLUMN #" "LEXEME"

/-- A lexeme without line breaks or other control characters. -/
def printable (lexeme : String) : String := String.ofList (lexeme.toList.flatMap Text.rowChar)

def tokenRow (t : Token) : String :=
  row (toString t.kind.code) t.kind.name (toString t.position.line) (toString t.position.column)
    (printable t.lexeme)

def lines (tokens : List Token) : List String :=
  [rule, header, rule] ++ tokens.map tokenRow ++ [rule]

/-- The text of the table. Every line of it ends with a line break. -/
def render (tokens : List Token) : String := String.join ((lines tokens).map (· ++ "\n"))

end CoreLang.SymbolTable
