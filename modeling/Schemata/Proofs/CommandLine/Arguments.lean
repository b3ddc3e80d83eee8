import Schemata.Proofs.CommandLine.Spelling

namespace Schemata.CommandLine

/-! The commands that arguments can spell. -/

section

variable {arguments : List String} {command : Command} {values : OptionValues}

theorem exists_of_readGenerate (reads : readGenerate arguments = some command) :
    ∃ input output target, command = .generate input output target := by
  simp only [readGenerate, Option.bind_eq_bind, Option.bind_eq_some_iff, Option.pure_def,
    Option.some.injEq] at reads
  obtain ⟨-, -, input, -, output, -, target, -, rfl⟩ := reads
  exact ⟨input, output, target, rfl⟩

theorem exists_of_readValidate (reads : readValidate arguments = some command) :
    ∃ input, command = .validate input := by
  simp only [readValidate, Option.bind_eq_bind, Option.bind_eq_some_iff, Option.pure_def,
    Option.some.injEq] at reads
  obtain ⟨-, -, -, -, input, -, rfl⟩ := reads
  exact ⟨input, rfl⟩

theorem exists_of_readInspect (reads : readInspect arguments = some command) :
    ∃ input format, command = .inspect input format := by
  simp only [readInspect, Option.bind_eq_bind, Option.bind_eq_some_iff, Option.pure_def,
    Option.some.injEq] at reads
  obtain ⟨-, -, -, -, input, -, format, -, rfl⟩ := reads
  exact ⟨input, _, rfl⟩

/-- The only option of `init` is to force it, and that has to be asked for. -/
theorem force_of_spells (spells : Spells [forceOption] values arguments) (given : values ≠ []) :
    "--force" ∈ arguments := by
  cases spells with
  | nil | separator => exact absurd rfl given
  | cons among gives =>
      obtain rfl := List.mem_singleton.mp among
      cases gives with
      | attached takes | next takes => cases takes
      | flag _ shown =>
          cases shown with
          | name => exact List.mem_cons_self
          | letter own => cases own

theorem force_of_readInit (reads : readInit arguments = some command) :
    ∃ force, command = .init force ∧ (force = true → "--force" ∈ arguments) := by
  simp only [readInit, distinctOptions, Option.bind_eq_bind, Option.bind_eq_some_iff,
    Option.pure_def, Option.some.injEq, Option.filter_eq_some_iff] at reads
  obtain ⟨values, ⟨reads, -⟩, rfl⟩ := reads
  refine ⟨_, rfl, fun forced => force_of_spells (spells_of_readOptions reads) ?_⟩
  simpa using forced

end

end Schemata.CommandLine
