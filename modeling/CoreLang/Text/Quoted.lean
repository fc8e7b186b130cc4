/-! Text between quotes. A backslash announces the quote itself, a backslash, a line feed, a tab or
a carriage return; every other character stands for itself. -/
namespace CoreLang.Text

/-- Strings stand between double quotes, characters between single ones. -/
inductive Quote where
  | double
  | single
deriving DecidableEq

def Quote.char : Quote → Char
  | double => '"'
  | single => '\''

/-- A character as it is written between two quotes. -/
def escapeIn (quote : Quote) (c : Char) : List Char :=
  if c = quote.char then ['\\', c]
  else match c with
    | '\n' => ['\\', 'n']
    | '\t' => ['\\', 't']
    | '\r' => ['\\', 'r']
    | '\\' => ['\\', '\\']
    | c => [c]

/-- The character that a backslash and `e` stand for between two quotes. -/
def unescape? (quote : Quote) (e : Char) : Option Char :=
  match e with
  | 'n' => some '\n'
  | 't' => some '\t'
  | 'r' => some '\r'
  | '\\' => some '\\'
  | e => if e = quote.char then some e else none

/-- An escape reads back as the character that it was written for. -/
theorem unescape?_of_escapeIn {quote : Quote} {c e : Char} (h : escapeIn quote c = ['\\', e]) :
    unescape? quote e = some c := by
  unfold escapeIn at h
  split at h
  · next hc =>
    obtain rfl : c = e := by simpa using h
    cases quote <;> subst hc <;> rfl
  · split at h <;> simp_all [unescape?]
    all_goals subst h; rfl

def quoted (quote : Quote) (text : List Char) : List Char :=
  quote.char :: (text.flatMap (escapeIn quote) ++ [quote.char])

end CoreLang.Text
