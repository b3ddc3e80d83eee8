import Schemata.Text.Split

namespace Schemata.Path

/-! Paths as they are written, with slashes between their parts. -/

def parts (path : String) : List String :=
  (Text.splitWhere (· == '/') path.toList).map String.ofList

/-- Parts that stay where they are. -/
def staysIn (part : String) : Bool :=
  part == "" || part == "."

def fileName? (path : String) : Option String :=
  ((parts path).filter (!staysIn ·)).getLast?.filter (· != "..")

/-- What follows the last point of a file name, unless the name begins there. -/
def extension? (path : String) : Option String := do
  let pieces := Text.splitWhere (· == '.') (← fileName? path).toList
  match pieces with
  | [_] | [[], _] => none
  | pieces => pieces.getLast?.map String.ofList

/-- A path below a folder. The empty path is the folder one is in. -/
def join (folder path : String) : String :=
  if folder.isEmpty || folder.toList.getLast? == some '/' then folder ++ path
  else folder ++ "/" ++ path

/-- The folder of a file, without slashes at its end. -/
def parent (path : String) : String :=
  let folder := (path.toList.reverse.dropWhile (· != '/')).dropWhile (· == '/')
  String.ofList folder.reverse

end Schemata.Path
