import CoreLang.Text.Class

/-! Text made visible on one line, for messages and for tables. -/
namespace CoreLang.Text

/-- The code of a character in lower-case hexadecimal, in braces after a backslash and `u`. -/
def codeEscape (c : Char) : List Char :=
  '\\' :: 'u' :: '\x7b' :: (Nat.toDigits 16 c.toNat ++ ['\x7d'])

/-- A character as a message shows it. An extending character needs its escape only where it would
attach to the message's own text, which `attaches` says. -/
def visibleChar (attaches : Bool) (c : Char) : List Char :=
  match c with
  | '\x00' => ['\\', '0']
  | '\t' => ['\\', 't']
  | '\r' => ['\\', 'r']
  | '\n' => ['\\', 'n']
  | '"' => ['\\', '"']
  | '\'' => ['\\', '\'']
  | '\\' => ['\\', '\\']
  | c => if (attaches && isExtending c) || !isPrintable c then codeEscape c else [c]

/-- A text as a message shows it: only its first character can attach to what stands before. -/
def visible : List Char → List Char
  | [] => []
  | c :: rest => visibleChar true c ++ rest.flatMap (visibleChar false)

/-- A character as a table row shows it: control characters are escaped, all others stay. -/
def rowChar (c : Char) : List Char :=
  match c with
  | '\n' => ['\\', 'n']
  | '\t' => ['\\', 't']
  | '\r' => ['\\', 'r']
  | c => if isControl c then codeEscape c else [c]

end CoreLang.Text
