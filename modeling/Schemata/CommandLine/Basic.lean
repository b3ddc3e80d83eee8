import Schemata.CommandLine.Plan

namespace Schemata.CommandLine

/-! Running the program in a workspace. -/

structure Outcome where
  status : Nat
  output : List Char
  errors : List Char
  deriving DecidableEq

namespace Outcome

def success : Outcome := ⟨0, [], []⟩

def usageText : String := "usage: typegen generate|validate|inspect|init [options]\n"

def misuse : Outcome := ⟨2, [], usageText.toList⟩

def failure (failure : Failure) : Outcome := ⟨1, [], failure.report⟩

def withOutput (text : List Char) (outcome : Outcome) : Outcome :=
  { outcome with output := text ++ outcome.output }

def withErrors (text : List Char) (outcome : Outcome) : Outcome :=
  { outcome with errors := text ++ outcome.errors }

end Outcome

def perform (workspace : Workspace) : List Step → Outcome × Workspace
  | [] => (.success, workspace)
  | .print text :: rest =>
      let (outcome, workspace) := perform workspace rest
      (outcome.withOutput text, workspace)
  | .report text :: rest =>
      let (outcome, workspace) := perform workspace rest
      (outcome.withErrors text, workspace)
  | .makeFolders path purpose :: rest =>
      match workspace.makeFolders path with
      | .ok workspace => perform workspace rest
      | .error error =>
          (.failure (.ofFile ("create " ++ purpose) path error), workspace)
  | .write path content :: rest =>
      match workspace.write path content with
      | .ok workspace => perform workspace rest
      | .error error => (.failure (.ofFile "write" path error), workspace)

def reader (workspace : Workspace) : FileReader Id := workspace.read

def run (arguments : List String) (workspace : Workspace) : Outcome × Workspace :=
  match Command.parse? arguments with
  | none => (.misuse, workspace)
  | some command =>
      match (command.plan (reader workspace)).run with
      | .ok steps => perform workspace steps
      | .error error => (.failure error, workspace)

end Schemata.CommandLine
