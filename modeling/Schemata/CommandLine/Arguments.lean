import Schemata.Settings.Basic

namespace Schemata.CommandLine

/-! Commands as they are written on the command line. -/

inductive SummaryFormat where
  | yaml
  | json
  deriving DecidableEq

inductive Command where
  | version
  | generate (input output : Option String) (target : Option Target)
  | validate (input : String)
  | inspect (input : String) (format : SummaryFormat)
  | init (force : Bool)
  deriving DecidableEq

structure OptionName where
  name : String
  letter : Option Char
  takesValue : Bool
  deriving DecidableEq

/-- Options with the values they are given. A flag has none. -/
abbrev OptionValues := List (String × Option String)

/-- An argument that can be the value of the option before it: a lone hyphen or a
text that does not begin with one. -/
def isValue (argument : String) : Bool :=
  argument == "-" || argument.toList.head? != some '-'

def splitEquals (text : List Char) : List Char × Option (List Char) :=
  match text.span (· != '=') with
  | (name, _ :: value) => (name, some value)
  | (name, []) => (name, none)

/-- The value that is attached to a letter. An equals sign only sets it off. -/
def attached? : List Char → Option String
  | [] => none
  | '=' :: value => some (String.ofList value)
  | value => some (String.ofList value)

inductive Argument where
  | separator
  | named (name : String) (value : Option String)
  | lettered (letter : Char) (attached : Option String)
  | other

def Argument.read (argument : String) : Argument :=
  match argument.toList with
  | ['-', '-'] => .separator
  | '-' :: '-' :: text =>
      let (name, value) := splitEquals text
      .named (String.ofList name) (value.map String.ofList)
  | '-' :: letter :: text => .lettered letter (attached? text)
  | _ => .other

def Argument.option? (options : List OptionName) :
    Argument → Option (OptionName × Option String)
  | named name value =>
      (options.find? (·.name == name)).map fun option => (option, value)
  | lettered letter value =>
      (options.find? (·.letter == some letter)).map fun option => (option, value)
  | _ => none

/-- Reads options in any order. Nothing may follow a separator. -/
def readOptions (options : List OptionName) : List String → Option OptionValues
  | [] => some []
  | argument :: rest =>
      match Argument.read argument with
      | .separator => if rest.isEmpty then some [] else none
      | argument =>
          match argument.option? options, rest with
          | some (⟨name, _, true⟩, some value), rest => do
              return (name, some value) :: (← readOptions options rest)
          | some (⟨name, _, true⟩, none), value :: rest =>
              if isValue value then do
                return (name, some value) :: (← readOptions options rest)
              else none
          | some (⟨name, _, false⟩, none), rest => do
              return (name, none) :: (← readOptions options rest)
          | _, _ => none

def inputOption : OptionName := ⟨"input", some 'i', true⟩

def outputOption : OptionName := ⟨"output", some 'o', true⟩

def targetOption : OptionName := ⟨"target", some 't', true⟩

def formatOption : OptionName := ⟨"format", none, true⟩

def forceOption : OptionName := ⟨"force", none, false⟩

/-- No option is given twice. -/
def isDistinct (values : OptionValues) : Bool :=
  decide (values.map Prod.fst).Nodup

def value? (option : OptionName) (values : OptionValues) : Option String :=
  (values.lookup option.name).join

/-- A path is not empty. -/
def path? (option : OptionName) (values : OptionValues) :
    Option (Option String) :=
  match value? option values with
  | some "" => none
  | path => some path

def choice? (option : OptionName) (choices : List (String × α))
    (values : OptionValues) : Option (Option α) :=
  match value? option values with
  | some text => (choices.lookup text).map some
  | none => some none

def distinctOptions (options : List OptionName) (arguments : List String) :
    Option OptionValues :=
  (readOptions options arguments).filter isDistinct

def generateOptions : List OptionName :=
  [inputOption, outputOption, targetOption]

def readGenerate (arguments : List String) : Option Command := do
  let values ← distinctOptions generateOptions arguments
  return .generate (← path? inputOption values) (← path? outputOption values)
    (← choice? targetOption Target.choices values)

def readValidate (arguments : List String) : Option Command := do
  let values ← distinctOptions [inputOption] arguments
  return .validate (← (← path? inputOption values))

def readInspect (arguments : List String) : Option Command := do
  let values ← distinctOptions [inputOption, formatOption] arguments
  let input ← (← path? inputOption values)
  let format ← choice? formatOption [("yaml", .yaml), ("json", .json)] values
  return .inspect input (format.getD .yaml)

def readInit (arguments : List String) : Option Command := do
  let values ← distinctOptions [forceOption] arguments
  return .init !values.isEmpty

/-- Asking for the version makes all that follows irrelevant. -/
private def asksVersion (argument : String) : Bool :=
  argument == "--version" || ['-', 'V'].isPrefixOf argument.toList

/-- The command that the arguments spell, if they are in order. Requests for help and for the
completions of a shell are not commands here: they print texts about the program itself, and
count as misspelled. -/
def Command.parse? : List String → Option Command
  | "generate" :: arguments => readGenerate arguments
  | "validate" :: arguments => readValidate arguments
  | "inspect" :: arguments => readInspect arguments
  | "init" :: arguments => readInit arguments
  | argument :: _ => if asksVersion argument then some .version else none
  | [] => none

end Schemata.CommandLine
