import Schemata.Resolution.Stop

namespace Schemata.Resolution

/-! The walk over all roots of a forest. Roots are entered in order, and a
reference to a root that has not been entered yet enters it on the spot. -/

/-- The stops of a root. A root that is a reference must lead to another shape in
the end. -/
def rootStops (forest : Forest) (root : String) (schema : Schema) : List Stop :=
  let stops := definitionStops ⟨root, []⟩ schema
  match schema with
  | .reference info _ =>
      match aliasCycle? forest (forest.roots.length + 1) [] root with
      | some target =>
          .failure (.malformed info.location (.aliasCycle target)) :: stops
      | none => stops
  | _ => stops

/-- Takes stops one after the other. `enter` continues after a root has been
entered, with the stops that are pending then. -/
def follow (forest : Forest)
    (enter : (unvisited : List String) → List Stop →
      List (Except CompileError Promotion))
    (unvisited : List String) :
    List Stop → List (Except CompileError Promotion)
  | [] => []
  | .promotion promotion :: rest =>
      .ok promotion :: follow forest enter unvisited rest
  | .failure error :: _ => [.error error]
  | .reference target location :: rest =>
      match forest.roots.lookup target with
      | none => [.error (.unresolvedReference location target)]
      | some schema =>
          if target ∈ unvisited then
            enter (unvisited.erase target) (rootStops forest target schema ++ rest)
          else follow forest enter unvisited rest

/-- A walk that enters at most `bound` roots. -/
def walk (forest : Forest) : (bound : Nat) → (unvisited : List String) →
    List Stop → List (Except CompileError Promotion)
  | 0 => follow forest fun _ _ => []
  | bound + 1 => follow forest (walk forest bound)

/-- The promotions of a forest in the order in which they are met, up to the first
fault. -/
def promotions (forest : Forest) : List (Except CompileError Promotion) :=
  walk forest forest.roots.length (forest.roots.map Prod.fst)
    (forest.roots.map fun (root, schema) => .reference root schema.location)

end Schemata.Resolution
