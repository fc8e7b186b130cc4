import CoreLang.Source.Pull

/-! Reading tokens from a feed, as often as one likes. -/
namespace CoreLang.Source

/-- A reader of one feed. The text ends at the first end that the feed reports. -/
structure Session where
  /-- The feed as the session found it. -/
  feed : Feed
  cursor : Cursor Feed := .ofSupply feed

namespace Session

/-- The faults found so far. -/
def errors (s : Session) : List LexicalError := s.cursor.errors

/-- All tokens of the text. Asked again, a session has only the end marker left. A feed ends, so there
always is an answer. -/
def tokens (s : Session) : List Token × Session :=
  match Pull.tokens.run s.cursor with
  | some (tokens, cursor) => (tokens, { s with cursor })
  | none => ([], s)

end Session
end CoreLang.Source
