import CoreLang.Command.Files

/-! The system that the command runs on, by the calls that the command makes of it. -/
namespace CoreLang.Command

structure Host (m : Type → Type) where
  read : String → ExceptT ReadError m String
  /-- Makes one directory, in a directory that is there. -/
  makeDirectory : List String → ExceptT SystemError m Unit
  isDirectory : List String → m Bool
  write : String → String → ExceptT SystemError m Unit
  /-- Prints on the standard output. -/
  print : String → m Unit
  /-- Prints on the standard error output. -/
  note : String → m Unit

namespace Host
variable {m : Type → Type} [Monad m] (host : Host m)

def noteLines (lines : List String) : m Unit :=
  host.note (String.join (lines.map (· ++ "\n")))

/-- An error is none where the directory is there. -/
def unlessDirectory (path : List String) (e : SystemError) : ExceptT SystemError m Unit := do
  if ← host.isDirectory path then return else throw e

/-- Makes a directory, and before it those around it that are missing. A path is tried as it stands;
what is around it is given from its end to its start. What has been made stays, also where an error
comes later. -/
def makeAll : List (List String) → ExceptT SystemError m Unit
  | [] => return
  | path :: outer =>
    tryCatch (host.makeDirectory path) fun e => do
      if e = .notFound then
        makeAll outer
        tryCatch (host.makeDirectory path) (host.unlessDirectory path)
      else host.unlessDirectory path e

def makeDirectories (path : String) : ExceptT SystemError m Unit :=
  if path = "" then return else host.makeAll (names path :: around path)

end Host
end CoreLang.Command
