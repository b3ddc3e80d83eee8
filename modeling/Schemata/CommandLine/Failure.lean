import Schemata.CompileError
import Schemata.Workspace.Basic

namespace Schemata.CommandLine

/-! Reports of failed commands. -/

/-- What stands behind a failure. The first of several causes is numbered, and the
others are not told. -/
inductive Cause where
  | only (text : String)
  | firstOfSeveral (text : String)
  deriving DecidableEq

structure Failure where
  message : String
  cause : Option Cause
  deriving DecidableEq

/-- Every line after the first begins with a margin. -/
private def withMargin (margin text : List Char) : List Char :=
  text.flatMap fun char => if char = '\n' then '\n' :: margin else [char]

def Cause.report : Cause → List Char
  | only text => "    ".toList ++ withMargin "    ".toList text.toList
  | firstOfSeveral text =>
      "    0: ".toList ++ withMargin "       ".toList text.toList

namespace Failure

def report (failure : Failure) : List Char :=
  let cause :=
    match failure.cause with
    | some cause => "\n\nCaused by:\n".toList ++ cause.report
    | none => []
  "Error: ".toList ++ failure.message.toList ++ cause ++ ['\n']

def ofMessage (message : String) : Failure := ⟨message, none⟩

def ofFile (action path : String) (error : FileError) : Failure :=
  ⟨"failed to " ++ action ++ " " ++ path, some (.only error.message)⟩

/-- Only a syntax error has a cause of its own. -/
def ofCompilation (path : String) (error : CompileError) : Failure :=
  let cause :=
    match error with
    | .load .notYaml | .load .notJson => Cause.firstOfSeveral error.message
    | error => Cause.only error.message
  ⟨error.kindName ++ " in " ++ path, some cause⟩

end Failure

end Schemata.CommandLine
