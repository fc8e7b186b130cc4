/-! Paths as text: names between slashes. -/
namespace CoreLang.Command

def splitSlashes : List Char → List (List Char)
  | [] => [[]]
  | c :: rest =>
    if c = '/' then [] :: splitSlashes rest
    else match splitSlashes rest with
      | [] => [[c]]
      | name :: more => (c :: name) :: more

/-- The names of a path, with an empty name wherever two slashes meet or one ends the path. -/
def names (path : String) : List String := (splitSlashes path.toList).map String.ofList

/-- A name that leads somewhere else: neither empty nor the dot of the directory itself. -/
def leads (name : String) : Bool := name ≠ "" ∧ name ≠ "."

def properNames (path : String) : List String := (names path).filter leads

/-- Whether names lead from the top: a slash stands before all others. -/
def fromTop : List String → Bool
  | "" :: _ :: _ => true
  | _ => false

/-- The beginnings of a path, the longest first, down to its first name. -/
def beginnings (path : List String) : List (List String) :=
  ((List.range path.length).map fun n => path.take (n + 1)).reverse

/-- What stands before the names of a path that leads from the top. -/
def lead (ns : List String) : List String := if fromTop ns then [""] else []

/-- The directories around that of a path, the innermost one first. -/
def around (path : String) : List (List String) :=
  ((beginnings (properNames path)).drop 1).map (lead (names path) ++ ·)

def inDirectory (dir file : String) : String :=
  if dir = "" ∨ dir.toList.getLast? = some '/' then dir ++ file else dir ++ "/" ++ file

def sourceExtension : String := "core"

/-- Whether the last name of a path is a source file's: something, a point and the extension. -/
def isSourcePath (path : String) : Bool :=
  match (properNames path).getLast? with
  | none => false
  | some name =>
    let ending := '.' :: sourceExtension.toList
    ending.isSuffixOf name.toList && ending.length < name.length

end CoreLang.Command
