import CoreLang.Token.Kind

/-! The spelling of operators and punctuation. -/
namespace CoreLang.Symbol

/-- Every symbol with its spelling. A spelling that extends another one stands before it. -/
def table : List (List Char × Kind) :=
  [(['=', '='], .equal), (['!', '='], .notEqual), (['<', '='], .lessEqual),
   (['>', '='], .greaterEqual), (['&', '&'], .and), (['|', '|'], .or),
   (['='], .assign), (['!'], .not), (['<'], .less), (['>'], .greater), (['&'], .ampersand),
   (['('], .leftParenthesis), ([')'], .rightParenthesis), (['['], .leftBracket),
   ([']'], .rightBracket), (['\x7b'], .leftBrace), (['\x7d'], .rightBrace), ([','], .comma),
   ([';'], .semicolon), (['+'], .plus), (['-'], .minus), (['*'], .multiply), (['/'], .divide),
   (['^'], .exponent), (['%'], .modulo)]

/-- The symbol at the head of a text, the longest one that fits. -/
def atHead? (text : List Char) : Option (List Char × Kind) :=
  table.find? (·.1.isPrefixOf text)

end CoreLang.Symbol
