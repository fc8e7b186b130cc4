import CoreLang.Token

/-! Conditions on the tokens to come. They decide between the alternatives of the grammar and read
nothing. -/
namespace CoreLang

/-- A condition on the tokens from the current one on. -/
inductive Look where
  /-- The token `ahead` places on has one of the kinds. -/
  | sees (ahead : Nat) (kinds : List Kind)
  | both (a b : Look)
  | not (a : Look)
  /-- A name, or a name and brackets, and then an assignment sign. What the brackets hold does not
  matter here. -/
  | assignment
  /-- A name and an opening bracket, and no closing bracket before the end marker. -/
  | unclosedSubscript
deriving DecidableEq

/-- The kind of the token `n` places on. No token behind an end marker is seen. -/
def kindAhead : Nat → List Token → Kind
  | _, [] => .endMarker
  | 0, t :: _ => t.kind
  | n + 1, t :: rest => if t.kind = .endMarker then .endMarker else kindAhead n rest

/-- The tokens after the first closing bracket, if it comes before the end marker. -/
def afterBracket? : List Token → Option (List Token)
  | [] => none
  | t :: rest =>
    if t.kind = .rightBracket then some rest
    else if t.kind = .endMarker then none
    else afterBracket? rest

namespace Look

def holds (tokens : List Token) : Look → Bool
  | sees ahead kinds => kindAhead ahead tokens ∈ kinds
  | both a b => a.holds tokens && b.holds tokens
  | not a => !a.holds tokens
  | assignment =>
    kindAhead 0 tokens = .identifier &&
      if kindAhead 1 tokens = .leftBracket then
        (afterBracket? (tokens.drop 2)).any (kindAhead 0 · = .assign)
      else kindAhead 1 tokens = .assign
  | unclosedSubscript =>
    kindAhead 0 tokens = .identifier && kindAhead 1 tokens = .leftBracket &&
      (afterBracket? (tokens.drop 2)).isNone

end Look
end CoreLang
