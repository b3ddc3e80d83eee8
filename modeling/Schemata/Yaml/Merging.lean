import Schemata.Yaml.Value

namespace Schemata.Yaml.Value

/-! Merge keys. The value under the key `<<` of a mapping gives the mapping entries
that it lacks. -/

private def isMergeKey (key : Value) : Bool :=
  key.sameAs (.string "<<")

def addMissing (entries additions : List (Value × Value)) : List (Value × Value) :=
  additions.foldl (fun held addition =>
    if hasKey addition.1 held then held else held ++ [addition]) entries

/-- The entries that a merged value gives: those of a mapping or of all mappings in
a sequence. -/
def additions? : Value → Option (List (Value × Value))
  | .mapping entries => some entries
  | .sequence items => do
      let entries ← items.mapM fun item =>
        match item with
        | .mapping entries => some entries
        | _ => none
      return entries.flatten
  | _ => none

/-- The value under the merge key and the other entries. The last entry takes the
place of the one removed. -/
private def splitMergeKey : List (Value × Value) →
    Option (Value × List (Value × Value))
  | [] => none
  | (key, value) :: rest =>
      if key.isMergeKey then some (value, rest.getLast?.toList ++ rest.dropLast)
      else (splitMergeKey rest).map fun (merged, rest) =>
        (merged, (key, value) :: rest)

private def mergedEntries? (entries : List (Value × Value)) :
    Option (List (Value × Value)) :=
  match splitMergeKey entries with
  | some (merged, entries) => do return addMissing entries (← additions? merged)
  | none => some entries

/-- Merges in the mappings of the upper levels of a value, from the outside in. An
entry that comes from a merged mapping is not merged again in its new place. -/
private def mergedTo? : (levels : Nat) → Value → Option Value
  | levels + 1, .mapping entries => do
      let entries ← (← mergedEntries? entries).mapM fun (key, value) => do
        return (key, ← mergedTo? levels value)
      return .mapping entries
  | levels + 1, .sequence items => do
      return .sequence (← items.mapM (mergedTo? levels))
  | levels + 1, .tagged tag value => do
      return .tagged tag (← mergedTo? levels value)
  | _, value => some value

def merged? (value : Value) : Option Value :=
  mergedTo? value.height value

/-- No mapping has the merge key, at any depth. -/
inductive Unmerged : Value → Prop
  | null : Unmerged .null
  | bool (value : Bool) : Unmerged (.bool value)
  | number (value : ExtendedNumber) : Unmerged (.number value)
  | string (value : String) : Unmerged (.string value)
  | sequence {items : List Value} (each : ∀ item ∈ items, Unmerged item) :
      Unmerged (.sequence items)
  | mapping {entries : List (Value × Value)}
      (absent : ∀ entry ∈ entries, entry.1.sameAs (.string "<<") = false)
      (each : ∀ entry ∈ entries, Unmerged entry.2) : Unmerged (.mapping entries)
  | tagged (tag : String) {value : Value} (inner : Unmerged value) :
      Unmerged (.tagged tag value)

private theorem mapM_eq_some {α : Type} {step : α → Option α} {items : List α}
    (each : ∀ item ∈ items, step item = some item) : items.mapM step = some items := by
  induction items with
  | nil => rfl
  | cons item rest induction =>
      obtain ⟨here, later⟩ := List.forall_mem_cons.mp each
      rw [List.mapM_cons, here, induction later]
      rfl

private theorem mergedEntries?_of_absent {entries : List (Value × Value)}
    (absent : ∀ entry ∈ entries, entry.1.sameAs (.string "<<") = false) :
    mergedEntries? entries = some entries := by
  have unsplit : splitMergeKey entries = none := by
    induction entries with
    | nil => rfl
    | cons entry rest induction =>
        obtain ⟨here, later⟩ := List.forall_mem_cons.mp absent
        rw [splitMergeKey, isMergeKey, here, induction later]
        rfl
  rw [mergedEntries?, unsplit]

private theorem mergedTo?_of_unmerged {value : Value} (unmerged : value.Unmerged)
    (levels : Nat) : mergedTo? levels value = some value := by
  induction unmerged generalizing levels with
  | null | bool | number | string => cases levels <;> rfl
  | sequence _ induction =>
      cases levels with
      | zero => rfl
      | succ levels =>
          rw [mergedTo?, mapM_eq_some fun item member => induction item member levels]
          rfl
  | mapping absent _ induction =>
      cases levels with
      | zero => rfl
      | succ levels =>
          rw [mergedTo?, mergedEntries?_of_absent absent, Option.bind_eq_bind,
            Option.bind_some, mapM_eq_some]
          · rfl
          · rintro ⟨key, inner⟩ member
            have kept : mergedTo? levels inner = some inner := induction _ member levels
            dsimp only
            rw [kept]
            rfl
  | tagged tag _ induction =>
      cases levels with
      | zero => rfl
      | succ levels =>
          rw [mergedTo?, induction levels]
          rfl

theorem merged?_of_unmerged {value : Value} (unmerged : value.Unmerged) :
    value.merged? = some value :=
  mergedTo?_of_unmerged unmerged value.height

end Schemata.Yaml.Value
