import CoreLang.Text.Class

/-! Gaps between tokens: blanks, and comments from two slashes to the end of the line. -/
namespace CoreLang.Source

/-- Splits a text into the gap at its head and what follows. Inside a comment only a line feed
ends the comment, and it belongs to the gap as a blank. -/
def splitGap (comment : Bool) : List Char → List Char × List Char
  | [] => ([], [])
  | c :: rest =>
    if comment then
      let (gap, after) := splitGap (c ≠ '\n') rest
      (c :: gap, after)
    else if Text.isBlank c then
      let (gap, after) := splitGap false rest
      (c :: gap, after)
    else if c = '/' ∧ rest.head? = some '/' then
      let (gap, after) := splitGap true rest
      (c :: gap, after)
    else ([], c :: rest)

theorem splitGap_append (comment : Bool) (text : List Char) :
    (splitGap comment text).1 ++ (splitGap comment text).2 = text := by
  induction text generalizing comment with
  | nil => rfl
  | cons c rest ih =>
    unfold splitGap
    split
    · simp [ih]
    · split
      · simp [ih]
      · split
        · simp [ih]
        · rfl

end CoreLang.Source
