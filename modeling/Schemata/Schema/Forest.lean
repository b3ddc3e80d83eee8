import Schemata.Schema.Reading

namespace Schemata.Forest

/-! The declared schemas of a whole document. -/

def section? (document : Node) : Option Node :=
  Reference.Section.all.findSome? fun section_ =>
    section_.keys.foldlM (fun node key => node.get? key) document

def empty : Forest where
  roots := []
  distinct := List.nodup_nil

/-- A document without a section for schemas declares none. -/
def ofDocument (document : Node) : Except CompileError Forest :=
  if document.entries?.isNone then
    Keyword.malformed document.location .documentNotMapping
  else
    match section? document with
    | none => .ok empty
    | some declared =>
        match declared.entries? with
        | none => Keyword.malformed declared.location .sectionNotMapping
        | some entries => do
            return ofList <| ← entries.mapM fun (name, node) => do
              return (name, ← Schema.ofNode node)

end Schemata.Forest
