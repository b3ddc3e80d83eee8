import Schemata.Proofs.Resolution.Closure
import Schemata.Proofs.Text.Casing

namespace Schemata

/-! Every type name is an identifier: those made from keys and contexts, those with a number
after them, and so all names of a resolved model. -/

/-- Of the ASCII characters only letters and digits, and at the beginning no small letter
and no digit. -/
structure IsTypeName (name : String) : Prop where
  nonempty : name.toList ≠ []
  letters : Text.IsWordText name.toList
  initial : Text.Begins (fun char => char.toNat < 128 → char.isUpper = true) name.toList

theorem isTypeName_typeName (context : String) : IsTypeName (typeName context) := by
  have form := Text.isCapitalForm_pascalCase context
  unfold typeName
  dsimp only
  split
  · refine ⟨?_, ?_, ?_⟩
    · rw [String.toList_append]
      exact List.cons_ne_nil _ _
    · rw [String.toList_append]
      have letter : Text.IsWordText "T".toList := by decide
      exact List.forall_mem_append.mpr ⟨letter, form.letters⟩
    · rw [String.toList_append]
      rintro _ ⟨⟩
      decide
  · next other =>
    refine ⟨form.nonempty, form.letters, fun char first ascii => ?_⟩
    rcases form.initial char first ascii with upper | digit
    · exact upper
    · exact absurd (by rw [Option.mem_def.mp first]; exact digit) other

theorem IsTypeName.not_digit {name : String} (named : IsTypeName name) :
    Text.Begins (·.isDigit = false) name.toList := by
  intro first begins
  rw [Bool.eq_false_iff]
  intro digit
  have upper := named.initial first begins (Text.ascii_of_isDigit digit)
  rw [Text.not_upper_of_isDigit digit] at upper
  cases upper

theorem IsTypeName.append {base : String} (named : IsTypeName base) {more : String}
    (letters : Text.IsWordText more.toList) :
    IsTypeName (base ++ more) := by
  obtain ⟨char, rest, split⟩ := List.exists_cons_of_ne_nil named.nonempty
  have text : (base ++ more).toList = char :: (rest ++ more.toList) := by
    rw [String.toList_append, split, List.cons_append]
  refine ⟨?_, ?_, ?_⟩
  · rw [text]
    exact List.cons_ne_nil _ _
  · rw [String.toList_append]
    exact List.forall_mem_append.mpr ⟨named.letters, letters⟩
  · have initial := named.initial
    rw [split] at initial
    rw [text]
    exact initial

theorem IsTypeName.suffixed {base : String} (named : IsTypeName base) (number : Nat) :
    IsTypeName (suffixed base number) := by
  apply named.append
  rw [String.toList_ofList]
  exact Text.isWordText_naturalText number

/-! Names of a model. -/

theorem Registry.isTypeName_of_synthesize {registry next : Registry} {base name : String}
    {location : Location} (named : IsTypeName base)
    (made : registry.synthesize base location = .ok (name, next)) : IsTypeName name := by
  rcases isNumbered_of_synthesize made with rfl | ⟨number, -, -, rfl⟩
  · exact named
  · exact named.suffixed number

namespace Resolution

/-- All names that are given are type names. -/
def Assignment.GivesTypeNames (assignment : Assignment) : Prop :=
  ∀ entry ∈ assignment.names, IsTypeName entry.2

theorem Assignment.GivesTypeNames.promoteAll {assignment next : Assignment}
    {events : List (Except CompileError Promotion)} (gives : assignment.GivesTypeNames)
    (promoted : assignment.promoteAll events = .ok next) : next.GivesTypeNames := by
  induction events generalizing assignment with
  | nil =>
      cases promoted
      exact gives
  | cons event rest induction =>
      obtain ⟨middle, first, later⟩ := Outcome.bind_eq_ok_iff.mp promoted
      obtain ⟨promotion, rfl, made⟩ := Outcome.bind_eq_ok_iff.mp first
      obtain ⟨name, registry, found, rfl⟩ := promote_eq_ok_iff.mp made
      refine induction (fun entry member => ?_) later
      rcases List.mem_cons.mp member with rfl | earlier
      · exact Registry.isTypeName_of_synthesize (isTypeName_typeName _) found
      · exact gives entry earlier

theorem givesTypeNames_of_ofForest {forest : Forest} {assignment : Assignment}
    (assigned : Assignment.ofForest forest = .ok assignment) :
    assignment.GivesTypeNames := by
  obtain ⟨declared, declares, promotes⟩ := Assignment.ofForest_eq_ok_iff.mp assigned
  obtain ⟨-, names⟩ := Assignment.names_of_declareAll Assignment.sound_empty declares
  refine Assignment.GivesTypeNames.promoteAll (fun entry member => ?_) promotes
  have declaration : entry ∈ forest.roots.map Assignment.declaredName := by
    simpa [names, Assignment.empty] using member
  obtain ⟨root, -, rfl⟩ := List.mem_map.mp declaration
  simp only [Assignment.declaredName]
  exact isTypeName_typeName root.1

end Resolution

theorem isTypeName_of_resolve {forest : Forest} {model : Model}
    (succeeds : forest.resolve = .ok model) :
    ∀ declaration ∈ model.declarations, IsTypeName declaration.name := by
  obtain ⟨assignment, assigned, resolved⟩ := Resolution.assigned_of_ok succeeds
  intro declaration member
  obtain ⟨root, declared, node, within, name, -⟩ := resolved.node_of_mem member
  rw [name]
  exact Resolution.givesTypeNames_of_ofForest assigned _
    (resolved.named.mem_names (Resolution.mem_positions_of_named declared within))

/-- The types that are mentioned are declared ones, so their names are type names too. -/
theorem isTypeName_of_mentioned {forest : Forest} {model : Model}
    (succeeds : forest.resolve = .ok model) :
    ∀ declaration ∈ model.declarations, ∀ name ∈ declaration.definition.names,
      IsTypeName name := by
  intro declaration member name mentioned
  obtain ⟨target, declared, rfl⟩ :=
    declared_of_mentioned succeeds declaration member name mentioned
  exact isTypeName_of_resolve succeeds target declared

end Schemata
