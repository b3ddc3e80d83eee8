import Schemata.Workspace.Path

namespace Schemata

/-! The folder that a program works in. Places outside of it hold nothing and
cannot be written. -/

inductive FileError where
  | notFound
  | notPermitted
  | alreadyThere
  | notFolder
  | isFolder
  | notText
  deriving DecidableEq

def FileError.message : FileError → String
  | notFound => "No such file or directory (os error 2)"
  | notPermitted => "Permission denied (os error 13)"
  | alreadyThere => "File exists (os error 17)"
  | notFolder => "Not a directory (os error 20)"
  | isFolder => "Is a directory (os error 21)"
  | notText => "stream did not contain valid UTF-8"

inductive FileEntry where
  | file (content : String)
  /-- A file whose content is no text. -/
  | binary (content : List UInt8)
  | folder
  deriving DecidableEq

/-- A place by the names on the way to it. -/
abbrev Place := List String

structure Workspace where
  entries : List (Place × FileEntry)

namespace Workspace

def empty : Workspace := ⟨[]⟩

def entry? (workspace : Workspace) (place : Place) : Option FileEntry :=
  if place.isEmpty then some .folder else workspace.entries.lookup place

def putEntry (place : Place) (entry : FileEntry) :
    List (Place × FileEntry) → List (Place × FileEntry)
  | [] => [(place, entry)]
  | (other, held) :: rest =>
      if other = place then (place, entry) :: rest
      else (other, held) :: putEntry place entry rest

def put (place : Place) (entry : FileEntry) (workspace : Workspace) : Workspace :=
  ⟨putEntry place entry workspace.entries⟩

def files (workspace : Workspace) : List (Place × String) :=
  workspace.entries.filterMap fun (place, entry) =>
    match entry with
    | .file content => some (place, content)
    | .binary _ | .folder => none

def isAbsolute (path : String) : Bool :=
  path.toList.head? == some '/'

/-- The place that the parts of a path lead to, where only the last one may be
missing. -/
def follow (workspace : Workspace) (outside : FileError) :
    Place → List String → Except FileError Place
  | place, [] => .ok place
  | place, part :: rest =>
      match workspace.entry? place with
      | none => .error .notFound
      | some (.file _) | some (.binary _) => .error .notFolder
      | some .folder =>
          if Path.staysIn part then follow workspace outside place rest
          else if part = ".." then
            if place.isEmpty then .error outside
            else follow workspace outside place.dropLast rest
          else follow workspace outside (place ++ [part]) rest

/-- The place of a path. Nothing beyond the workspace is open, so a path that is absolute or
leads out by `..` fails in the way that is asked for. -/
def locate (workspace : Workspace) (outside : FileError) (path : String) :
    Except FileError Place :=
  if path.isEmpty then .error .notFound
  else if isAbsolute path then .error outside
  else follow workspace outside [] (Path.parts path)

def read (workspace : Workspace) (path : String) : Except FileError String := do
  match workspace.entry? (← locate workspace .notFound path) with
  | some (.file content) => return content
  | some (.binary _) => throw .notText
  | some .folder => throw .isFolder
  | none => throw .notFound

def write (path content : String) (workspace : Workspace) :
    Except FileError Workspace := do
  let place ← locate workspace .notPermitted path
  match workspace.entry? place with
  | some .folder => throw .isFolder
  | _ => return workspace.put place (.file content)

def makeFoldersFrom : Place → List String → Workspace →
    Except FileError Workspace
  | _, [], workspace => .ok workspace
  | place, part :: rest, workspace =>
      if Path.staysIn part then makeFoldersFrom place rest workspace
      else if part = ".." then
        if place.isEmpty then .error .notPermitted
        else makeFoldersFrom place.dropLast rest workspace
      else
        let next := place ++ [part]
        match workspace.entry? next with
        | some .folder => makeFoldersFrom next rest workspace
        | some (.file _) | some (.binary _) =>
            .error (if rest.all Path.staysIn then .alreadyThere else .notFolder)
        | none => makeFoldersFrom next rest (workspace.put next .folder)

def makeFolders (path : String) (workspace : Workspace) :
    Except FileError Workspace :=
  if isAbsolute path then .error .notPermitted
  else makeFoldersFrom [] (Path.parts path) workspace

def ofFiles (files : List (String × String)) : Except FileError Workspace :=
  files.foldlM (fun workspace (path, content) => do
    write path content (← makeFolders (Path.parent path) workspace)) empty

/-- The files of a workspace that were not in another one with the same content,
in the order of their paths. -/
def changedFiles (before after : Workspace) : List (String × String) :=
  let changed := after.files.filter fun (place, content) =>
    before.entry? place != some (.file content)
  let named := changed.map fun (place, content) => ("/".intercalate place, content)
  named.mergeSort fun left right => !(right.1 < left.1)

end Workspace

end Schemata
