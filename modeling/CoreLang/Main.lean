import CoreLang.Command.Run

/-! The command on the system's own files. -/
namespace CoreLang.Command

def SystemError.ofIO (e : IO.Error) : SystemError :=
  match e with
  | .noFileOrDirectory _ _ _ => .notFound
  | .alreadyExists _ _ _ => .alreadyExists
  | .permissionDenied _ code details => ⟨code.toNat, "PermissionDenied", details⟩
  | .inappropriateType _ code details => ofCode code details
  | .otherError code details => ofCode code details
  | e => ⟨0, "Uncategorized", e.toString⟩
where
  ofCode (code : UInt32) (details : String) : SystemError :=
    if code = 20 then .notADirectory
    else if code = 21 then .isADirectory
    else ⟨code.toNat, "Uncategorized", details⟩

def attempt {α : Type} (action : IO α) : ExceptT SystemError IO α :=
  ExceptT.mk do
    match ← action.toBaseIO with
    | .ok a => return .ok a
    | .error e => return .error (.ofIO e)

def systemHost : Host IO where
  read path := ExceptT.mk do
    match ← (attempt (IO.FS.readBinFile path)).run with
    | .error e => return .error (.system e)
    | .ok content =>
      match String.fromUTF8? content with
      | none => return .error .notText
      | some text => return .ok text
  makeDirectory path := attempt (IO.FS.createDir ("/".intercalate path))
  isDirectory path := do
    match ← (IO.FS.realPath ("/".intercalate path)).toBaseIO with
    | .ok place => place.isDir
    | .error _ => return false
  write path text := attempt (IO.FS.writeFile path text)
  print text := IO.print text
  note text := IO.eprint text

end CoreLang.Command

def main (arguments : List String) : IO UInt32 := do
  let style := if ← (← IO.getStderr).isTty then .colored else .plain
  let exit ← CoreLang.Command.run CoreLang.Command.systemHost .corefront style arguments
  return exit.code
