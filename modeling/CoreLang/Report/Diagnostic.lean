import CoreLang.Parse.State
import CoreLang.Source.Fault

/-! Errors as lines for a terminal. -/
namespace CoreLang

inductive Color where
  | rgb (red green blue : Nat)
  | green
  | red
deriving DecidableEq

/-- How text is set off in the lines for a terminal. -/
structure Style where
  bold : Color → String → String
  tinted : Color → String → String

namespace Style

def plain : Style := ⟨fun _ text => text, fun _ text => text⟩

/-- A control sequence of the terminal: escape, bracket and a code that ends with `m`. -/
def sequence (code : String) : String := "\x1b[" ++ code ++ "m"

def foreground : Color → String
  | .rgb red green blue => sequence s!"38;2;{red};{green};{blue}"
  | .green => sequence "38;5;10"
  | .red => sequence "38;5;9"

/-- Text with the codes of a terminal around it. What is bold ends with a reset of everything, what
is not with a reset of the colour. -/
def colored : Style where
  bold color text := foreground color ++ sequence "1" ++ text ++ sequence "0"
  tinted color text := foreground color ++ text ++ sequence "39"

def errorColor : Color := .rgb 243 139 168

def locationColor : Color := .rgb 108 112 134

def line (style : Style) (tag message : String) (position : Position) : String :=
  style.bold errorColor tag ++ ": " ++ message ++ " " ++
    style.tinted locationColor s!"({position})"

end Style

def LexicalError.line (style : Style) (e : LexicalError) : String :=
  style.line "error[lexical]" e.message e.position

/-- The line of a syntax error also names the expected kind, if there is one, and the kind that was
found. -/
def SyntaxError.line (style : Style) (e : SyntaxError) : String :=
  let expected :=
    match e.expected? with
    | none => ""
    | some kind => s!", expected {kind}"
  style.line "error[syntax]" (e.message ++ expected ++ s!", found {e.found.kind}")
    e.found.position

end CoreLang
