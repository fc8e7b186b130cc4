import CoreLang.Limits
import CoreLang.Position
import CoreLang.Text.Quoted
import CoreLang.Text.Visible
import CoreLang.Token.Kind

/-! Faults in the pieces of a source text. None of them ends the reading: each one leaves a token
of an error kind and a message. -/
namespace CoreLang
open Text (Quote)

/-- What can be wrong with a piece of source text. -/
inductive Fault where
  | invalidCharacter (c : Char)
  | invalidEscape (quote : Quote) (c : Char)
  | unterminated (quote : Quote)
  | emptyCharacter
  | longCharacter
  | badGrouping (numeral : List Char)
  | longIdentifier
deriving DecidableEq

/-- The classes that faults are told apart by. -/
inductive FaultKind where
  | invalidCharacter | invalidEscape | unterminatedString | unterminatedCharacter
  | malformedCharacter | invalidNumericGrouping | identifierTooLong
deriving DecidableEq

def FaultKind.name : FaultKind → String
  | invalidCharacter => "InvalidCharacter"
  | invalidEscape => "InvalidEscape"
  | unterminatedString => "UnterminatedString"
  | unterminatedCharacter => "UnterminatedCharacter"
  | malformedCharacter => "MalformedCharacter"
  | invalidNumericGrouping => "InvalidNumericGrouping"
  | identifierTooLong => "IdentifierTooLong"

namespace Fault

def kind : Fault → FaultKind
  | invalidCharacter _ => .invalidCharacter
  | invalidEscape _ _ => .invalidEscape
  | unterminated .double => .unterminatedString
  | unterminated .single => .unterminatedCharacter
  | emptyCharacter | longCharacter => .malformedCharacter
  | badGrouping _ => .invalidNumericGrouping
  | longIdentifier => .identifierTooLong

def message : Fault → String
  | invalidCharacter c => "Invalid character: '" ++ String.ofList (Text.visibleChar true c) ++ "'"
  | invalidEscape .double c => "Invalid escape sequence: \\" ++ c.toString
  | invalidEscape .single c => "Invalid escape sequence in character literal: \\" ++ c.toString
  | unterminated .double => "Unterminated string"
  | unterminated .single => "Unterminated character literal"
  | emptyCharacter => "Invalid character literal: empty"
  | longCharacter => "Invalid character literal: more than one character"
  | badGrouping numeral =>
    "Invalid noise separator in '" ++ String.ofList numeral ++
      s!"': each separator must be followed by exactly {Limits.groupLength} digits"
  | longIdentifier =>
    s!"Invalid identifier: exceeds maximum length of {Limits.identifierLength} characters"

/-- The kind of the token that stands for the faulty piece. -/
def tokenKind : Fault → Kind
  | longIdentifier => .invalidIdentifier
  | _ => .invalidCharacter

/-- Whether the token stands where the fault is found and not where its piece begins. -/
def movesToken : Fault → Bool
  | badGrouping _ => true
  | _ => false

end Fault

structure LexicalError where
  fault : Fault
  position : Position
deriving DecidableEq

namespace LexicalError

def kind (e : LexicalError) : FaultKind := e.fault.kind

def message (e : LexicalError) : String := e.fault.message

instance : ToString LexicalError := ⟨fun e => s!"Lexer error at {e.position}: {e.message}"⟩

end LexicalError
end CoreLang
