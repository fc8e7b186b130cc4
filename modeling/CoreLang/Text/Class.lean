import CoreLang.Text.Alphabetic
import CoreLang.Text.Blank
import CoreLang.Text.Extending
import CoreLang.Text.Ignorable
import CoreLang.Text.Numeric
import CoreLang.Text.Unprintable

/-! Classes of characters, over all of Unicode unless the name says otherwise. -/
namespace CoreLang.Text

def isBlank (c : Char) : Bool := blankRanges.covers c.toNat

def isAlphabetic (c : Char) : Bool := alphabeticRanges.covers c.toNat

def isAlphanumeric (c : Char) : Bool := isAlphabetic c || numericRanges.covers c.toNat

/-- Control characters: the general category Cc. -/
def isControl (c : Char) : Bool := c.toNat < 0x20 || (0x7F ≤ c.toNat && c.toNat < 0xA0)

/-- The halfwidth sound marks. They extend the character before them, but in a cell of their own. -/
def isSoundMark (c : Char) : Bool := c = '\uFF9E' || c = '\uFF9F'

/-- Characters that attach to the one before them and share its place. -/
def isExtending (c : Char) : Bool := extendingRanges.covers c.toNat && !isSoundMark c

/-- Characters that a reader can see. A character may have a category with a visible form and still
be one that is shown as nothing. -/
def isPrintable (c : Char) : Bool :=
  !unprintableRanges.covers c.toNat && !ignorableRanges.covers c.toNat

theorem isAlphanumeric_of_isDigit {c : Char} (h : c.isDigit = true) : isAlphanumeric c = true := by
  rw [isAlphanumeric, Bool.or_eq_true, Ranges.covers_iff numericRanges_ordered]
  obtain ⟨hfirst, hlast⟩ := Bool.and_eq_true_iff.1 h
  exact .inr ⟨(0x30, 0x39), by decide, of_decide_eq_true hfirst, of_decide_eq_true hlast⟩

end CoreLang.Text
