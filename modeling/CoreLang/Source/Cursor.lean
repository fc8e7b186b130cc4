import CoreLang.Source.Fault
import CoreLang.Source.Supply

/-! A cursor in a text that a supply hands out. It knows the character that it stands on and, once it
has looked ahead, the one after it. -/
namespace CoreLang.Source

structure Cursor (σ : Type) where
  supply : σ
  /-- The character under the cursor, and none before the text or behind it. -/
  current : Option Char := none
  /-- The answer to a pull that was made to look ahead, also when it is the end of the text. -/
  ahead : Option (Option Char) := none
  /-- The place of the character under the cursor. A line feed has column 0 of the line it opens. -/
  place : Position := ⟨1, 0⟩
  errors : List LexicalError := []

namespace Cursor
variable {σ : Type} [Supply σ]

/-- What comes after the character under the cursor, and the supply then. -/
def next (c : Cursor σ) : Option Char × σ :=
  match c.ahead with
  | some answer => (answer, c.supply)
  | none => Supply.pull c.supply

def peek (c : Cursor σ) : Option Char × Cursor σ :=
  let (answer, supply) := c.next
  (answer, { c with supply, ahead := some answer })

/-- The end of the text has the place of the last character. -/
def advance (c : Cursor σ) : Cursor σ :=
  let (answer, supply) := c.next
  let place := match answer with
    | some '\n' => ⟨c.place.line + 1, 0⟩
    | some _ => ⟨c.place.line, c.place.column + 1⟩
    | none => c.place
  { c with supply, current := answer, ahead := none, place }

/-- A cursor on the first character of a text. -/
def ofSupply (supply : σ) : Cursor σ := advance { supply }

end Cursor

/-- What is read at a cursor, with the cursor behind it. Nothing is, if the text never ends. -/
abbrev Pull (σ α : Type) := StateT (Cursor σ) Option α

namespace Pull
variable {σ α β : Type} [Supply σ]

def current : Pull σ (Option Char) := do return (← get).current

def place : Pull σ Position := do return (← get).place

def peek : Pull σ (Option Char) := modifyGet Cursor.peek

def advance : Pull σ Unit := modify Cursor.advance

def report (e : LexicalError) : Pull σ Unit := modify fun c => { c with errors := c.errors ++ [e] }

def gatherOne (step : Pull σ (α ⊕ β)) (items : List α) : Pull σ (List α ⊕ List α × β) := do
  match ← step with
  | .inl item => return .inl (items ++ [item])
  | .inr last => return .inr (items, last)

/-- What a step yields each time, until it comes to something else. -/
def gather [Nonempty β] (step : Pull σ (α ⊕ β)) : Pull σ (List α × β) := repeatM (gatherOne step) []

/-- The next character, if it is one of the class. -/
def takeOne (p : Char → Bool) : Pull σ (Char ⊕ Unit) := do
  match ← current with
  | none => return .inr ()
  | some c =>
    if p c then
      advance
      return .inl c
    else return .inr ()

def takeWhile (p : Char → Bool) : Pull σ (List Char) := do
  let (read, _) ← gather (takeOne p)
  return read

def takeUpTo (p : Char → Bool) : Nat → Pull σ (List Char)
  | 0 => return []
  | n + 1 => do
    match ← current with
    | none => return []
    | some c =>
      if p c then
        advance
        return c :: (← takeUpTo p n)
      else return []

end Pull
end CoreLang.Source
