import CoreLang.Source.Scan

/-! Numerals: decimal digits, at most one point, and separators before groups of three digits. -/
namespace CoreLang.Source.Numeral

def isSeparator (c : Char) : Bool := c = '\'' || c = '\x60'

/-- The characters that a numeral may hold, sound or not. -/
def isMember (c : Char) : Bool := c.isDigit || c = '.' || isSeparator c

/-- Exactly one group of digits comes next. -/
def groupFollows (text : List Char) : Bool :=
  (text.takeWhile Char.isDigit).length = Limits.groupLength

/-- The end of the sound part of a numeral. -/
structure Split where
  read : List Char
  /-- False when the sound part ends at a separator that no group follows. -/
  sound : Bool
  rest : List Char
deriving DecidableEq

def Split.cons (c : Char) (s : Split) : Split := { s with read := c :: s.read }

/-- Reads a numeral as far as it is sound. A point after the first one ends it; `point` says
whether there was one. -/
def split (point : Bool) : List Char → Split
  | [] => ⟨[], true, []⟩
  | c :: rest =>
    if c.isDigit then (split point rest).cons c
    else if c = '.' ∧ point = false then (split true rest).cons c
    else if isSeparator c then
      if groupFollows rest then (split point rest).cons c else ⟨[], false, c :: rest⟩
    else ⟨[], true, c :: rest⟩

/-- A point is given a digit on both sides. -/
def pad (digits : List Char) : List Char :=
  let led := if digits.head? = some '.' then '0' :: digits else digits
  if led.getLast? = some '.' then led ++ ['0'] else led

def value (raw : List Char) : List Char := pad (raw.filter (!isSeparator ·))

def kind (raw : List Char) : Kind := if '.' ∈ raw then .floatLiteral else .integerLiteral

/-- The numeral at the head of a text. One that is not sound takes in all characters that a numeral
may hold, and its fault is the separator that no group follows. -/
def scan (text : List Char) : Scan :=
  let s := split false text
  if s.sound then ⟨s.read, .token (kind s.read) (value s.read), s.rest⟩
  else
    let raw := s.read ++ s.rest.takeWhile isMember
    ⟨raw, .fault (.badGrouping raw) s.read.length, s.rest.dropWhile isMember⟩

/-- Where a numeral begins: at a digit, or at a point before a digit. -/
def startsAt (c : Char) (rest : List Char) : Bool :=
  c.isDigit || (c = '.' && rest.head?.any Char.isDigit)

theorem split_append (point : Bool) (text : List Char) :
    (split point text).read ++ (split point text).rest = text := by
  induction text generalizing point with
  | nil => rfl
  | cons c rest ih =>
    unfold split
    split
    · simp [Split.cons, ih]
    · split
      · simp [Split.cons, ih]
      · split
        · split
          · simp [Split.cons, ih]
          · rfl
        · rfl

theorem read_ne_nil {c : Char} {rest : List Char} (h : startsAt c rest = true) :
    (split false (c :: rest)).read ≠ [] := by
  unfold split
  by_cases hc : c.isDigit = true
  · simp [hc, Split.cons]
  · have : c = '.' := by simp_all [startsAt]
    simp [this, Split.cons]

theorem scan_tiles {c : Char} {rest : List Char} (h : startsAt c rest = true) :
    (scan (c :: rest)).Tiles (c :: rest) := by
  have hread := read_ne_nil h
  have happend := split_append false (c :: rest)
  unfold scan
  dsimp only
  split
  · exact ⟨hread, happend⟩
  · refine ⟨by simp [hread], ?_⟩
    simpa only [List.append_assoc, List.takeWhile_append_dropWhile] using happend

end CoreLang.Source.Numeral
