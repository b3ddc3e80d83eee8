import Schemata.CommandLine.Basic

namespace Schemata.CommandLine

/-! The program. Its plan is made from the files as they are, and its steps are
taken one by one. -/

private def fileError : IO.Error → FileError
  | .noFileOrDirectory .. => .notFound
  | .permissionDenied .. => .notPermitted
  | .alreadyExists .. => .alreadyThere
  | .inappropriateType _ code _ => if code = 21 then .isFolder else .notFolder
  | _ => .notText

private def attempt (action : IO α) : IO (Except FileError α) := do
  try return .ok (← action)
  catch error => return .error (fileError error)

private def fail (failure : Failure) : IO UInt32 := do
  IO.eprint (String.ofList failure.report)
  return 1

private def take : List Step → IO UInt32
  | [] => return 0
  | .print text :: rest => do
      IO.print (String.ofList text)
      take rest
  | .report text :: rest => do
      IO.eprint (String.ofList text)
      take rest
  | .makeFolders path purpose :: rest => do
      let folder := if path.isEmpty then "." else path
      match ← attempt (IO.FS.createDirAll folder) with
      | .ok () => take rest
      | .error error => fail (.ofFile ("create " ++ purpose) path error)
  | .write path content :: rest => do
      match ← attempt (IO.FS.writeFile path content) with
      | .ok () => take rest
      | .error error => fail (.ofFile "write" path error)

def runProgram (arguments : List String) : IO UInt32 := do
  match Command.parse? arguments with
  | none =>
      IO.eprint Outcome.usageText
      return 2
  | some command =>
      match ← (command.plan fun path => attempt (IO.FS.readFile path)).run with
      | .ok steps => take steps
      | .error failure => fail failure

end Schemata.CommandLine

def main (arguments : List String) : IO UInt32 :=
  Schemata.CommandLine.runProgram arguments
