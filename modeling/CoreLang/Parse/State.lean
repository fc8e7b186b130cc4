import CoreLang.Grammar.Cause

/-! The state of a parser: the tokens still to be read, and what has been found wrong. -/
namespace CoreLang

/-- An error, the token at which parsing stopped, and the number of tokens before it. -/
structure SyntaxError where
  cause : Cause
  found : Token
  index : Nat
deriving DecidableEq

namespace SyntaxError

def kind (e : SyntaxError) : CauseKind := e.cause.kind

def message (e : SyntaxError) : String := e.cause.message e.found

def expected? (e : SyntaxError) : Option Kind := e.cause.expectedKind?

instance : ToString SyntaxError :=
  ⟨fun e => s!"Parse error at {e.found.position}: {e.message}"⟩

end SyntaxError

/-- A parser at its current token. -/
structure ParserState where
  current : Token
  /-- The tokens after the current one. -/
  rest : List Token
  /-- The number of tokens before the current one. -/
  index : Nat := 0
  /-- Set while the parser has not found back from an error. -/
  panic : Bool := false
  errors : List SyntaxError := []
deriving DecidableEq

namespace ParserState

/-- The tokens from the current one on. -/
def tokens (s : ParserState) : List Token := s.current :: s.rest

/-- A parser at the first of its tokens. A list that does not close with an end marker gets one,
one column after its last token or at the start of the text. -/
def ofTokens (tokens : List Token) : ParserState :=
  let marker :=
    match tokens.getLast? with
    | none => [Token.endMarker .start]
    | some t =>
      if t.kind = .endMarker then []
      else [Token.endMarker ⟨t.position.line, t.position.column + 1⟩]
  match tokens ++ marker with
  | [] => ⟨.endMarker .start, [], 0, false, []⟩
  | t :: rest => ⟨t, rest, 0, false, []⟩

def atEnd (s : ParserState) : Bool := s.current.kind = .endMarker

/-- Goes to the next token. An end marker is never passed. -/
def advance (s : ParserState) : ParserState :=
  if s.atEnd then s
  else match s.rest with
    | [] => s
    | t :: rest => { s with current := t, rest := rest, index := s.index + 1 }

def error (s : ParserState) (cause : Cause) : SyntaxError := ⟨cause, s.current, s.index⟩

def record (s : ParserState) (e : SyntaxError) : ParserState := { s with errors := s.errors ++ [e] }

def resumeKinds : List Kind :=
  [.semicolon, .intKeyword, .floatKeyword, .charKeyword, .boolKeyword, .returnKeyword,
   .whileKeyword, .forKeyword, .leftBrace]

/-- Goes on to the next token at which parsing can resume, the current one included, or else to the
end marker. -/
def seek (s : ParserState) : ParserState := go s.rest s
where
  go : List Token → ParserState → ParserState
  | [], s => s
  | t :: rest, s =>
    if s.atEnd ∨ s.current.kind ∈ resumeKinds then s
    else go rest { s with current := t, rest := rest, index := s.index + 1 }

/-- Passes over damaged text: one token at least, and then up to where parsing can resume. The
panic lasts if that is the end. -/
def resume (s : ParserState) : ParserState :=
  let s := s.advance.seek
  { s with panic := s.atEnd }

/-- Gives up at an error that ends the parse: all tokens but the last are passed over. -/
def giveUp (s : ParserState) (e : SyntaxError) : ParserState :=
  let last := s.rest.getLastD s.current
  { s.record e with
    current := last, rest := [], index := s.index + s.rest.length, panic := true }

end ParserState
end CoreLang
