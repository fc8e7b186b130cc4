import CoreLang.Source.Scan
import CoreLang.Token.Keyword

/-! Words: keywords and identifiers. -/
namespace CoreLang.Source.Word

def startsAt (c : Char) : Bool := Text.isAlphabetic c || c = '_'

def isMember (c : Char) : Bool := Text.isAlphanumeric c || c = '_'

/-- The reading of a whole word. -/
def read (word : List Char) : Reading :=
  if Limits.identifierLength < word.length then .fault .longIdentifier 0
  else .token ((Keyword.ofWord? word).getD .identifier) word

/-- The word at the head of a text, as long as it goes. -/
def scan (text : List Char) : Scan :=
  ⟨text.takeWhile isMember, read (text.takeWhile isMember), text.dropWhile isMember⟩

theorem isMember_of_startsAt {c : Char} (h : startsAt c = true) : isMember c = true := by
  simp only [startsAt, isMember, Text.isAlphanumeric, Bool.or_eq_true] at h ⊢
  rcases h with h | h
  · exact .inl (.inl h)
  · exact .inr h

theorem scan_tiles {c : Char} (rest : List Char) (h : startsAt c = true) :
    (scan (c :: rest)).Tiles (c :: rest) :=
  ⟨by simp [scan, isMember_of_startsAt h], List.takeWhile_append_dropWhile⟩

end CoreLang.Source.Word
