import Schemata.Proofs.PureScript.Scope
import Schemata.Proofs.TypeScript.Scope

namespace Schemata

/-! Declarations that are named like built-in types. Nothing keeps a declaration from such a
name, and where the built-in type is in use it is the declaration that its word stands for. -/

/-- In either language words stand for what they are meant to stand for exactly if no
declaration is named like a built-in type that the declarations use. -/
theorem emission_hygienic_iff {forest : Forest} {model : Model} (options : EmitOptions)
    (succeeds : forest.resolve = .ok model) :
    (TypeScript.Hygienic options model ↔
      ∀ word ∈ TypeScript.builtIns,
        Sense.Calls (TypeScript.allSenses options model) word →
        word ∉ TypeScript.scope options model) ∧
    (PureScript.Hygienic options model ↔
      ∀ word ∈ PureScript.allBuiltIns,
        Sense.Calls (PureScript.allSenses options model) word →
        word ∉ PureScript.scope options model) :=
  ⟨TypeScript.hygienic_iff options succeeds, PureScript.hygienic_iff options succeeds⟩

/-- Binary data under the name that the languages have for it. -/
def Forest.blob : Forest where
  roots := [("blob", .primitive ⟨false, .empty, ⟨["blob"]⟩⟩ .binary)]
  distinct := by decide

theorem emission_hygienic_iff_samples :
    (∃ model, Forest.blob.resolve = .ok model ∧
      ¬ TypeScript.Hygienic .standard model ∧ ¬ PureScript.Hygienic .standard model) ∧
    (∃ model, Forest.shelter.resolve = .ok model ∧
      TypeScript.Hygienic .standard model ∧ PureScript.Hygienic .standard model) := by
  constructor
  · obtain ⟨model, succeeds, read⟩ : ∃ model, Forest.blob.resolve = .ok model ∧
        ((TypeScript.allSenses .standard model, TypeScript.scope .standard model),
          PureScript.allSenses .standard model, PureScript.scope .standard model) =
        (([[.builtIn "Blob".toList]], ["Blob".toList]),
          [[.builtIn "Blob".toList]], ["Blob".toList]) :=
      Forest.exists_model_of_read (by decide +kernel)
    simp only [Prod.mk.injEq] at read
    obtain ⟨⟨typeScript, file⟩, pureScript, unit⟩ := read
    obtain ⟨left, right⟩ := emission_hygienic_iff .standard succeeds
    rw [typeScript, file] at left
    rw [pureScript, unit] at right
    have called : Sense.Calls [[.builtIn "Blob".toList]] "Blob".toList :=
      ⟨_, List.mem_singleton_self _, List.mem_singleton_self _⟩
    refine ⟨model, succeeds, fun hygienic => ?_, fun hygienic => ?_⟩
    · exact left.mp hygienic "Blob".toList (by decide) called (List.mem_singleton_self _)
    · exact right.mp hygienic "Blob".toList (by decide) called (List.mem_singleton_self _)
  · obtain ⟨model, succeeds, names⟩ := Forest.resolve_shelter
    obtain ⟨left, right⟩ := emission_hygienic_iff .standard succeeds
    rw [TypeScript.scope_eq] at left
    rw [PureScript.scope_eq] at right
    have scope : model.declarations.map (·.name.toList) =
        ["PetOwner2", "PetTagVariant2", "PetTag", "Pet", "PetOwner", "HouseValue",
          "House"].map String.toList := by
      rw [← names, List.map_map]
      rfl
    have free : ∀ word ∈ TypeScript.builtIns ++ PureScript.allBuiltIns,
        word ∉ model.declarations.map (·.name.toList) := by
      rw [scope]
      decide
    obtain ⟨file, unit⟩ := List.forall_mem_append.mp free
    exact ⟨model, succeeds, left.mpr fun word known _ => file word known,
      right.mpr fun word known _ => unit word known⟩

end Schemata
