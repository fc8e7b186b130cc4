import CoreLang.Limits
import CoreLang.Token

/-! What the grammar needs at a place, and what is said when something else stands there. -/
namespace CoreLang

/-- Why parsing stopped at a token. -/
inductive Cause where
  /-- One kind of token only. -/
  | expected (kind : Kind)
  | printfArgument
  | dataType
  | factor
  | subscript
  /-- No closing bracket before the end of the text. -/
  | unclosedSubscript
  | tooDeep
deriving DecidableEq

inductive CauseKind where
  | tokenMismatch | missingDataType | unexpectedFactor | malformedSubscript | nestingTooDeep
deriving DecidableEq

def CauseKind.name : CauseKind → String
  | tokenMismatch => "TokenMismatch"
  | missingDataType => "MissingDataType"
  | unexpectedFactor => "UnexpectedFactor"
  | malformedSubscript => "MalformedSubscript"
  | nestingTooDeep => "NestingTooDeep"

namespace Cause

def kind : Cause → CauseKind
  | expected _ | printfArgument => .tokenMismatch
  | dataType => .missingDataType
  | factor => .unexpectedFactor
  | subscript | unclosedSubscript => .malformedSubscript
  | tooDeep => .nestingTooDeep

/-- The kind of token that a message says was expected. -/
def expectedKind? : Cause → Option Kind
  | expected kind => some kind
  | printfArgument => some .string
  | _ => none

theorem isSome_expectedKind? (c : Cause) :
    c.expectedKind?.isSome = true ↔ c.kind = .tokenMismatch := by
  cases c <;> simp [expectedKind?, kind]

def message (found : Token) : Cause → String
  | expected kind => s!"Expected token {kind} but found {found.kind}"
  | printfArgument => s!"Expected String or Identifier but found {found.kind}"
  | dataType => "Expected a data type, found " ++ found.describe
  | factor => "Unexpected token in factor: " ++ found.describe
  | subscript => "Array subscript must be a constant, found " ++ found.describe
  | unclosedSubscript => s!"Expected {Kind.rightBracket} but got {Kind.endMarker}"
  | tooDeep => s!"Nesting exceeds the maximum depth of {Limits.nesting}"

end Cause
end CoreLang
