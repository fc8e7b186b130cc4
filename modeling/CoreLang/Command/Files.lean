import CoreLang.Command.Path

/-! A tree of files and directories, with the operations that the command needs of it. -/
namespace CoreLang.Command

/-- An error of the system, by its number, its class and its text. -/
structure SystemError where
  code : Nat
  kind : String
  message : String
deriving DecidableEq

namespace SystemError

def notFound : SystemError := ⟨2, "NotFound", "No such file or directory"⟩

def alreadyExists : SystemError := ⟨17, "AlreadyExists", "File exists"⟩

def notADirectory : SystemError := ⟨20, "NotADirectory", "Not a directory"⟩

def isADirectory : SystemError := ⟨21, "IsADirectory", "Is a directory"⟩

def details (e : SystemError) : String :=
  "Os \x7b code: " ++ toString e.code ++ ", kind: " ++ e.kind ++ ", message: \"" ++ e.message ++
    "\" \x7d"

end SystemError

inductive ReadError where
  | system (error : SystemError)
  | notText
deriving DecidableEq

instance : ToString ReadError where
  toString
    | .system e => s!"{e.message} (os error {e.code})"
    | .notText => "stream did not contain valid UTF-8"

inductive Entry where
  | directory
  | file (content : ByteArray)

/-- All files and directories, each by the names that lead to it from the top. The working directory
and all that is above it are always there. -/
structure Files where
  entries : List (List String × Entry) := []
  /-- The working directory. -/
  here : List String := []

namespace Files

def entry? (f : Files) (place : List String) : Option Entry :=
  if place.isPrefixOf f.here then some .directory else f.entries.lookup place

def hasDirectory (f : Files) (place : List String) : Bool := f.entry? place matches some .directory

def put (f : Files) (place : List String) (entry : Entry) : Files :=
  { f with entries := (place, entry) :: f.entries.filter (·.1 ≠ place) }

/-- The place to which names lead from a directory. Every name is looked up in a directory. -/
def follow (f : Files) (place : List String) : List String → Except SystemError (List String)
  | [] => .ok place
  | name :: rest =>
    if !f.hasDirectory place then .error .notADirectory
    else if name = "" ∨ name = "." then f.follow place rest
    else if name = ".." then f.follow place.dropLast rest
    else if (f.entry? (place ++ [name])).isNone then .error .notFound
    else f.follow (place ++ [name]) rest

/-- Where a path starts: at the top or in the working directory. -/
def origin (f : Files) (path : List String) : List String := if fromTop path then [] else f.here

def locate (f : Files) (path : List String) : Except SystemError (List String) :=
  f.follow (f.origin path) path

/-- The place of a path, which need not be there yet, in a directory that is. A path that does not
end with a proper name leads to something that is there. -/
def target (f : Files) (path : List String) : Except SystemError (List String) := do
  let parent ← f.follow (f.origin path) path.dropLast
  if !f.hasDirectory parent then throw .notADirectory
  let name := path.getLastD ""
  if name = "" ∨ name = "." ∨ name = ".." then throw .alreadyExists
  return parent ++ [name]

def isDirectory (f : Files) (path : List String) : Bool :=
  match f.locate path with
  | .ok place => f.hasDirectory place
  | .error _ => false

def read (f : Files) (path : String) : Except ReadError String :=
  match f.locate (names path) with
  | .error e => .error (.system e)
  | .ok place =>
    match f.entry? place with
    | none => .error (.system .notFound)
    | some .directory => .error (.system .isADirectory)
    | some (.file content) =>
      match String.fromUTF8? content with
      | none => .error .notText
      | some text => .ok text

/-- Makes one directory, in a directory that is there. Slashes at the end do not count. -/
def makeDirectory (f : Files) (path : List String) : Except SystemError Files := do
  let place ← f.target (path.reverse.dropWhile (· = "")).reverse
  if (f.entry? place).isSome then throw .alreadyExists
  return f.put place .directory

def write (f : Files) (path text : String) : Except SystemError Files := do
  let place ← f.target (names path)
  if f.hasDirectory place then throw .isADirectory
  return f.put place (.file text.toUTF8)

/-- A working directory with files at paths of proper names, and the directories that hold them. -/
def ofList (here : List String) (files : List (String × ByteArray)) : Files :=
  files.foldl (fun f (path, content) =>
    let place := properNames path
    let f := (beginnings place).tail.foldl (fun f dir => f.put (here ++ dir) .directory) f
    f.put (here ++ place) (.file content)) { here }

/-- The files below the working directory with their paths from there, without the directories. -/
def toList (f : Files) : List (String × ByteArray) :=
  f.entries.filterMap fun (place, entry) =>
    match entry with
    | .directory => none
    | .file content =>
      if f.here.isPrefixOf place then
        some ("/".intercalate (place.drop f.here.length), content)
      else none

end Files
end CoreLang.Command
