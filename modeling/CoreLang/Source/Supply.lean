/-! Supplies, which hand out a text one character at a time. -/
namespace CoreLang.Source

/-- A supply answers each pull with a character or with the end of the text. What it answers after
an end is its own affair. -/
class Supply (σ : Type) where
  pull : σ → Option Char × σ

/-- A feed of characters. An entry `none` answers one pull with the end of the text, and later
pulls go on with the next entry. After the last entry every pull answers with the end. -/
structure Feed where
  pending : List (Option Char)
  /-- The number of pulls so far. -/
  pulls : Nat := 0
deriving DecidableEq

def Feed.pull (f : Feed) : Option Char × Feed :=
  match f.pending with
  | [] => (none, { f with pulls := f.pulls + 1 })
  | c :: rest => (c, ⟨rest, f.pulls + 1⟩)

instance : Supply Feed := ⟨Feed.pull⟩

end CoreLang.Source
