import CoreLang.Parse
import CoreLang.Report.Diagnostic

/-! All that one run over a source text finds. -/
namespace CoreLang

structure Analysis where
  tokens : List Token
  lexicalErrors : List LexicalError
  parse : Parse
deriving DecidableEq

namespace Analysis

def ofSource (source : String) : Analysis :=
  let lexed := Lexed.ofSource source
  ⟨lexed.tokens, lexed.errors, Parse.ofTokens lexed.tokens⟩

/-- No fault in the text and no syntax error. -/
def clean (a : Analysis) : Bool := a.lexicalErrors.isEmpty && a.parse.successful

/-- A line for each error, those of the text before those of the grammar. -/
def lines (style : Style) (a : Analysis) : List String :=
  a.lexicalErrors.map (·.line style) ++ a.parse.errors.map (·.line style)

end Analysis
end CoreLang
