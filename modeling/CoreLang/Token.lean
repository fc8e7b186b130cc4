import CoreLang.Position
import CoreLang.Text.Quoted
import CoreLang.Text.Visible
import CoreLang.Token.Kind

/-! Tokens, their source form and their description. -/
namespace CoreLang

/-- A classified piece of text. The lexeme of a literal is its value: escapes are resolved and the
separators of numerals dropped. -/
structure Token where
  kind : Kind
  lexeme : String
  position : Position
deriving DecidableEq

namespace Token

def endMarker (position : Position) : Token := ⟨.endMarker, "EOF", position⟩

/-- The token written as source text. Strings and characters get their quotes and escapes back. -/
def source (t : Token) : String :=
  match t.kind with
  | .string => String.ofList (Text.quoted .double t.lexeme.toList)
  | .characterLiteral => String.ofList (Text.quoted .single t.lexeme.toList)
  | _ => t.lexeme

/-- The tokens but the end markers, written as one line of source text. -/
def sourceLine (tokens : List Token) : String :=
  " ".intercalate ((tokens.filter (·.kind ≠ .endMarker)).map source)

/-- The token as a message names it. The name of an identifier stands as it is. -/
def describe (t : Token) : String :=
  match t.kind with
  | .endMarker => "end of file"
  | .string => "string literal \"" ++ String.ofList (Text.visible t.lexeme.toList) ++ "\""
  | .identifier => "identifier '" ++ t.lexeme ++ "'"
  | kind => kind.name ++ " '" ++ String.ofList (Text.visible t.lexeme.toList) ++ "'"

/-- All of a token but its position. -/
def content (t : Token) : Kind × String := (t.kind, t.lexeme)

end Token
end CoreLang
