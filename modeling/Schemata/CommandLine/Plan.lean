import Schemata.CommandLine.Arguments
import Schemata.CommandLine.Failure
import Schemata.Compilation
import Schemata.Inspection
import Schemata.Json.Printer
import Schemata.Settings.Reading
import Schemata.TypeScript.Module
import Schemata.Yaml.Printer

namespace Schemata.CommandLine

/-! What a command does. All that can go wrong with its input goes wrong before
its first step. -/

inductive Step where
  | print (text : List Char)
  | report (text : List Char)
  | makeFolders (path purpose : String)
  | write (path content : String)
  deriving DecidableEq

/-- A way to read files, which may have effects of its own. -/
abbrev FileReader (m : Type → Type) := String → m (Except FileError String)

section

variable {m : Type → Type} [Monad m] (read : FileReader m)

def reportLine (text : String) : Step :=
  .report (text.toList ++ ['\n'])

/-- Settings that are not there are standard. Where they are not understood, the path and the
words of the YAML reader would follow in the message. -/
def readSettings : ExceptT Failure m Settings := do
  match ← read Settings.fileName with
  | .ok content =>
      match Settings.parse? content with
      | some settings => return settings
      | none => throw (.ofMessage "failed to parse config")
  | .error .notFound => return .standard
  | .error error =>
      throw <| .ofMessage <|
        "failed to read config " ++ Settings.fileName ++ ": " ++ error.message

/-- The model of a document. A file whose extension says so holds JSON, every
other file YAML. -/
def readModel (path : String) : ExceptT Failure m Model := do
  match ← read path with
  | .error error => throw (.ofFile "read" path error)
  | .ok content =>
      let compiled :=
        if Path.extension? path = some "json" then compileJson content
        else compileYaml content
      match compiled with
      | .ok model => return model
      | .error error => throw (.ofCompilation path error)

end

def sourceFiles (settings : Settings) (target : Target) (model : Model) :
    Except PureScript.InvalidModuleName (List SourceFile) :=
  let typescript :=
    if target.includesTypeScript then
      [TypeScript.generate settings.emit TypeScript.standardFileName model]
    else []
  if target.includesPureScript then
    (PureScript.generate settings.emit settings.moduleName model).map fun file =>
      typescript ++ [file]
  else .ok typescript

def writeSteps (folder : String) (file : SourceFile) : List Step :=
  let path := Path.join folder file.path
  [.makeFolders (Path.parent path) "directory",
    .write path (String.ofList file.content),
    reportLine ("  wrote " ++ path)]

private def counted (count : Nat) : String :=
  String.ofList (naturalText count)

def generationSteps (target : Target) (folder : String) (files : List SourceFile)
    (typeCount : Nat) : List Step :=
  [reportLine ("Generating " ++ target.title ++ " → " ++ folder),
    .makeFolders folder "output directory"] ++
  files.flatMap (writeSteps folder) ++
  [reportLine ("Generated " ++ counted files.length ++ " files (" ++
    counted typeCount ++ " types) in " ++ folder)]

def validationSteps (path : String) (model : Model) : List Step :=
  ["Valid schema document: " ++ path, "  Types: " ++ counted model.size] ++
    (model.kindCounts.map fun (kind, count) =>
      "    " ++ kind ++ ": " ++ counted count) ++
    ["Validation successful."]
  |>.map reportLine

def SummaryFormat.text (summary : List (String × Json)) : SummaryFormat → List Char
  | yaml => Yaml.render summary
  | json => (Json.object summary).pretty ++ ['\n']

def versionText : String := "typegen 0.3.0\n"

section

variable {m : Type → Type} [Monad m] (read : FileReader m)

def planGeneration (input output : Option String) (target : Option Target) :
    ExceptT Failure m (List Step) := do
  let settings ← readSettings read
  let target := target.getD settings.target
  let folder := output.getD settings.output
  let model ← readModel read (input.getD settings.input)
  match sourceFiles settings target model with
  | .ok files => return generationSteps target folder files model.size
  | .error error => throw (.ofMessage error.message)

def planInit (force : Bool) : ExceptT Failure m (List Step) := do
  match force, ← read Settings.fileName with
  | true, _ | false, .error .notFound =>
      return [.write Settings.fileName Settings.template,
        reportLine ("Created " ++ Settings.fileName)]
  | _, _ =>
      throw <| .ofMessage <|
        Settings.fileName ++ " already exists. Use --force to overwrite."

def Command.plan : Command → ExceptT Failure m (List Step)
  | version => return [.print versionText.toList]
  | generate input output target => planGeneration read input output target
  | validate input => do return validationSteps input (← readModel read input)
  | inspect input format => do
      return [.print (format.text (← readModel read input).summary)]
  | init force => planInit read force

end

end Schemata.CommandLine
