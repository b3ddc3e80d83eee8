import Schemata.Proofs.CommandLine.Arguments
import Schemata.Proofs.CommandLine.Plan
import Schemata.Proofs.CommandLine.Steps
import Schemata.Proofs.PureScript.ModulePath

namespace Schemata.CommandLine

open Workspace

/-! What the commands leave in the workspace. -/

/-- The paths of the files with their contents. -/
def outputs (folder : String) (files : List SourceFile) : List (String × String) :=
  files.map fun file => (Path.join folder file.path, String.ofList file.content)

/-- The folder of all files, and that of each. -/
def outputFolders (folder : String) (files : List SourceFile) : List String :=
  folder :: files.map fun file => Path.parent (Path.join folder file.path)

/-- The command fails and leaves everything as it was. -/
def Refuses (workspace : Workspace) (ending : Outcome × Workspace) : Prop :=
  ending.1.status ≠ 0 ∧ ending.2 = workspace

/-- Whatever is new or changed is a folder on the way to one of the files or such a file with
just its content. The command succeeds if there is room for all of them, and then all of them
can be read. -/
structure Deposits (workspace : Workspace) (folder : String) (files : List SourceFile)
    (ending : Outcome × Workspace) : Prop where
  confined : Spreads ((outputFolders folder files).flatMap Path.waypoints)
    (placed (outputs folder files)) workspace ending.2
  succeeds_iff : ending.1.status = 0 ↔
    workspace.HasRoom (outputFolders folder files) ((outputs folder files).map Prod.fst)
  readable : ending.1.status = 0 →
    ∀ output ∈ outputs folder files, ending.2.read output.1 = .ok output.2

/-- The paths of the files for a target. -/
def outputPaths (settings : Settings) (target : Target) : List String :=
  (if target.includesTypeScript then [TypeScript.standardFileName] else []) ++
    if target.includesPureScript then (PureScript.modulePath? settings.moduleName).toList else []

/-- A generation leaves what its generators return, or nothing if it is not prepared. -/
structure LeavesWhole (workspace : Workspace) (input output : Option String)
    (target : Option Target) (ending : Outcome × Workspace) : Prop where
  refuses : (∀ settings model, ¬Prepared workspace input target settings model) →
    Refuses workspace ending
  named : ∀ settings model, Prepared workspace input target settings model →
    (generated settings (target.getD settings.target) model).map (·.path) =
      outputPaths settings (target.getD settings.target)
  deposits : ∀ settings model, Prepared workspace input target settings model →
    Deposits workspace (output.getD settings.output)
      (generated settings (target.getD settings.target) model) ending

section

variable {workspace : Workspace} {folder : String} {files : List SourceFile}
  {target : Target} {count : Nat} {settings : Settings} {model : Model} {file : SourceFile}

/-! Steps of a generation. -/

theorem foldersOf_generationSteps :
    foldersOf (generationSteps target folder files count) = outputFolders folder files := by
  have made : (files.flatMap (writeSteps folder)).flatMap Step.folders =
      files.map fun file => Path.parent (Path.join folder file.path) := by
    rw [List.flatMap_assoc, List.map_eq_flatMap]
    rfl
  simp only [foldersOf, generationSteps, List.flatMap_append, made]
  exact congrArg (folder :: ·) (List.append_nil _)

theorem filesOf_generationSteps :
    filesOf (generationSteps target folder files count) = outputs folder files := by
  have written : (files.flatMap (writeSteps folder)).flatMap Step.files =
      outputs folder files := by
    rw [List.flatMap_assoc, outputs, List.map_eq_flatMap]
    rfl
  simp only [filesOf, generationSteps, List.flatMap_append, written]
  exact List.append_nil _

theorem hasRoomFor_generationSteps_iff :
    HasRoomFor workspace (generationSteps target folder files count) ↔
      workspace.HasRoom (outputFolders folder files) ((outputs folder files).map Prod.fst) := by
  rw [HasRoomFor, foldersOf_generationSteps, filesOf_generationSteps]

theorem succeeds_generationSteps_iff
    (ends : ∀ file ∈ files, ∃ name, Path.EndsIn file.path name) :
    Succeeds workspace (generationSteps target folder files count) ↔
      HasRoomFor workspace (generationSteps target folder files count) := by
  refine ⟨hasRoomFor_of_succeeds, fun room => ?_⟩
  rw [generationSteps, List.append_assoc, List.cons_append, List.cons_append,
    List.nil_append] at room ⊢
  have roomToMake := (hasRoomFor_cons_iff rfl).mp room
  obtain ⟨opened, made⟩ := apply_makeFolders roomToMake
  obtain ⟨next, -, finishes⟩ := exists_after_files ends ((hasRoomFor_cons_iff made).mp roomToMake)
  have reported (text : String) : Succeeds next [reportLine text] :=
    succeeds_cons_iff.mpr ⟨next, rfl, succeeds_nil next⟩
  exact succeeds_cons_iff.mpr ⟨workspace, rfl,
    succeeds_cons_iff.mpr ⟨opened, made, finishes (reported _)⟩⟩

theorem deposits_generationSteps (ends : ∀ file ∈ files, ∃ name, Path.EndsIn file.path name)
    (apart : Apart (outputs folder files)) :
    Deposits workspace folder files
      (perform workspace (generationSteps target folder files count)) where
  confined := by
    have spreads := spreads_perform (generationSteps target folder files count) workspace
    rwa [foldersOf_generationSteps, filesOf_generationSteps] at spreads
  succeeds_iff := (succeeds_generationSteps_iff ends).trans hasRoomFor_generationSteps_iff
  readable := by
    intro succeeds output member
    obtain ⟨file, among, rfl⟩ := List.mem_map.mp member
    obtain ⟨name, ends⟩ := ends file among
    have written : filesOf (generationSteps target folder files count) = outputs folder files :=
      filesOf_generationSteps
    rw [← written] at apart member
    obtain ⟨place, leads, stands⟩ := file_of_succeeds succeeds apart member
    refine read_eq_ok (locate_eq_ok (ends.join folder) (folder_of_succeeds succeeds ?_) leads)
      stands
    rw [foldersOf_generationSteps]
    exact List.mem_cons_of_mem _ (List.mem_map_of_mem among)

/-! The files of the generators. -/

theorem endsIn_standardFileName :
    Path.EndsIn TypeScript.standardFileName TypeScript.standardFileName where
  split := .inl rfl
  free := by decide
  leaves := by decide
  forward := by decide

theorem paths_generated :
    (generated settings target model).map (·.path) = outputPaths settings target := by
  rw [generated, outputPaths, List.map_append]
  congr 1
  · cases target.includesTypeScript <;> rfl
  · cases target.includesPureScript with
    | false => rfl
    | true =>
        unfold PureScript.generate PureScript.modulePath
        cases PureScript.modulePath? settings.moduleName <;> rfl

theorem endsIn_of_mem_generated (member : file ∈ generated settings target model) :
    ∃ name, Path.EndsIn file.path name := by
  have path : file.path ∈ outputPaths settings target := by
    rw [← paths_generated]
    exact List.mem_map_of_mem member
  obtain typescript | purescript := List.mem_append.mp path
  · split at typescript
    · rw [List.mem_singleton.mp typescript]
      exact ⟨_, endsIn_standardFileName⟩
    · cases typescript
  · split at purescript
    · obtain ⟨last, -, ends⟩ := PureScript.endsIn_modulePath (Option.mem_toList.mp purescript)
      exact ⟨_, ends⟩
    · cases purescript

theorem apart_generated : Apart (outputs folder (generated settings target model)) := by
  suffices (outputPaths settings target).Pairwise fun path other =>
      ∀ place, Path.place? (Path.join folder path) = some place →
        Path.place? (Path.join folder other) ≠ some place by
    rw [← paths_generated, List.pairwise_map] at this
    rwa [Apart, outputs, List.pairwise_map]
  rw [outputPaths, List.pairwise_append]
  refine ⟨?_, ?_, ?_⟩
  · split
    · exact List.pairwise_singleton _ _
    · exact .nil
  · split
    · cases PureScript.modulePath? settings.moduleName with
      | none => exact .nil
      | some path => exact List.pairwise_singleton _ _
    · exact .nil
  -- The names differ in their extensions, wherever the folder leads.
  · intro path typescript other purescript place leads
    split at typescript
    · split at purescript
      · obtain rfl := List.mem_singleton.mp typescript
        obtain ⟨last, -, ends⟩ := PureScript.endsIn_modulePath (Option.mem_toList.mp purescript)
        refine (endsIn_standardFileName.join folder).place?_ne (ends.join folder) ?_ leads
        intro same
        have suffix : ".purs".toList <:+ TypeScript.standardFileName.toList := by
          rw [same]
          exact ⟨last, String.toList_ofList.symm⟩
        exact absurd suffix (by decide)
      · cases purescript
    · cases typescript

/-! Runs of the program. -/

section

variable {arguments : List String} {command : Command} {steps : List Step}
  {input output : Option String} {asked : Option Target}

theorem run_of_none (misspelled : Command.parse? arguments = none) :
    Refuses workspace (run arguments workspace) := by
  rw [run, misspelled]
  exact ⟨nofun, rfl⟩

theorem run_of_planned (spelled : Command.parse? arguments = some command)
    (planned : (command.plan (reader workspace)).run = .ok steps) :
    run arguments workspace = perform workspace steps := by
  simp only [run, spelled, planned]

theorem run_of_unplanned (spelled : Command.parse? arguments = some command)
    (unplanned : ∀ steps, (command.plan (reader workspace)).run ≠ .ok steps) :
    Refuses workspace (run arguments workspace) := by
  rw [run, spelled]
  dsimp only
  split
  · next planned => exact absurd planned (unplanned _)
  · exact ⟨nofun, rfl⟩

theorem leavesWhole_of_parse?
    (spelled : Command.parse? arguments = some (.generate input output asked)) :
    LeavesWhole workspace input output asked (run arguments workspace) where
  refuses := by
    intro unprepared
    refine run_of_unplanned spelled fun steps planned => ?_
    obtain ⟨settings, model, prepared, -⟩ := planGeneration_eq_ok_iff.mp planned
    exact unprepared settings model prepared
  named _ _ _ := paths_generated
  deposits := by
    intro settings model prepared
    rw [run_of_planned spelled (planGeneration_eq_ok_iff.mpr ⟨settings, model, prepared, rfl⟩)]
    exact deposits_generationSteps (fun file => endsIn_of_mem_generated) apart_generated

theorem run_unchanged
    (silent : ∀ command steps, Command.parse? arguments = some command →
      (command.plan (reader workspace)).run = .ok steps → ∀ step ∈ steps, step.IsSilent) :
    (run arguments workspace).2 = workspace := by
  cases spelled : Command.parse? arguments with
  | none => exact (run_of_none spelled).2
  | some command =>
      by_cases planned : ∃ steps, (command.plan (reader workspace)).run = .ok steps
      · obtain ⟨steps, planned⟩ := planned
        rw [run_of_planned spelled planned]
        exact perform_of_silent (silent command steps spelled planned)
      · exact (run_of_unplanned spelled (not_exists.mp planned)).2

theorem run_validate_unchanged : (run ("validate" :: arguments) workspace).2 = workspace := by
  refine run_unchanged fun command steps spelled planned step member => ?_
  obtain ⟨input, rfl⟩ := exists_of_readValidate spelled
  obtain ⟨model, -, told⟩ := bind_eq_ok_iff.mp planned
  obtain rfl := return_eq_ok_iff.mp told
  obtain ⟨line, -, rfl⟩ := List.mem_map.mp member
  exact fun _ => rfl

theorem run_inspect_unchanged : (run ("inspect" :: arguments) workspace).2 = workspace := by
  refine run_unchanged fun command steps spelled planned step member => ?_
  obtain ⟨input, format, rfl⟩ := exists_of_readInspect spelled
  obtain ⟨model, -, told⟩ := bind_eq_ok_iff.mp planned
  obtain rfl := return_eq_ok_iff.mp told
  obtain rfl := List.mem_singleton.mp member
  exact fun _ => rfl

theorem read_settings_ne_notFound (stands : workspace.entry? [Settings.fileName] ≠ none) :
    workspace.read Settings.fileName ≠ .error .notFound := by
  have ends : Path.EndsIn Settings.fileName Settings.fileName :=
    ⟨.inl rfl, by decide, by decide, by decide⟩
  have onTheWay : Path.waypoints (Path.parent Settings.fileName) = [] := by decide
  have located : locate workspace .notFound Settings.fileName = .ok [Settings.fileName] := by
    refine locate_eq_ok ends ?_ (by decide)
    rw [onTheWay]
    nofun
  rw [Workspace.read, located]
  cases held : workspace.entry? [Settings.fileName] with
  | none => exact absurd held stands
  | some entry =>
      simp only [bind, Except.bind, held]
      intro missing
      cases entry <;> cases missing

theorem run_init_refuses (unforced : "--force" ∉ arguments)
    (stands : workspace.entry? [Settings.fileName] ≠ none) :
    Refuses workspace (run ("init" :: arguments) workspace) := by
  cases spelled : Command.parse? ("init" :: arguments) with
  | none => exact run_of_none spelled
  | some command =>
      refine run_of_unplanned spelled fun steps planned => ?_
      obtain ⟨force, rfl, forced⟩ := force_of_readInit spelled
      cases force with
      | true => exact unforced (forced rfl)
      | false =>
          simp only [Command.plan, planInit, bind_eq_ok_iff, ExceptT.run_monadLift, monadLift_self,
            reader_eq_ok_iff, exists_eq_left'] at planned
          have other := read_settings_ne_notFound stands
          split at planned
          · contradiction
          · contradiction
          · cases planned

/-- No output is left by half. A generation that is misspelled or cannot be prepared, because the
settings do not load, the input cannot be read or does not compile or the name of the PureScript
module is invalid, fails and changes nothing. One that is prepared only leaves what the generators
return, and all of it where there is room. The other commands change nothing, but for settings
that are new or asked to be overwritten.

The workspace is all that is open to the program: absolute paths and ways out by `..` are taken to
be closed, and are refused like any other place without permission. -/
theorem output_never_partial (arguments : List String) (workspace : Workspace) :
    (Command.parse? ("generate" :: arguments) = none ∧
        (∀ input output target, ¬AsksFor arguments input output target) ∧
        Refuses workspace (run ("generate" :: arguments) workspace) ∨
      ∃ input output target,
        Command.parse? ("generate" :: arguments) = some (.generate input output target) ∧
          AsksFor arguments input output target ∧
          LeavesWhole workspace input output target
            (run ("generate" :: arguments) workspace)) ∧
      (run ("validate" :: arguments) workspace).2 = workspace ∧
      (run ("inspect" :: arguments) workspace).2 = workspace ∧
      ("--force" ∉ arguments → workspace.entry? [Settings.fileName] ≠ none →
        Refuses workspace (run ("init" :: arguments) workspace)) := by
  refine ⟨?_, run_validate_unchanged, run_inspect_unchanged, run_init_refuses⟩
  cases spelled : Command.parse? ("generate" :: arguments) with
  | none =>
      refine .inl ⟨rfl, fun input output target asks => ?_, run_of_none spelled⟩
      rw [parse?_generate_iff.mpr asks] at spelled
      cases spelled
  | some command =>
      obtain ⟨input, output, target, rfl⟩ := exists_of_readGenerate spelled
      exact .inr ⟨input, output, target, rfl, parse?_generate_iff.mp spelled,
        leavesWhole_of_parse? spelled⟩

example :
    let workspace : Workspace :=
      ⟨[(["a.json"], .file "\x7b\"$defs\":\x7b\"A\":\x7b\"type\":\"string\"\x7d\x7d\x7d")]⟩
    let ending := run ["generate", "-ia.json", "--target", "all"] workspace
    ending.1.status = 0 ∧ ending.2.entries.map Prod.fst =
      [["a.json"], ["src"], ["src", "generated"], ["src", "generated", "types.ts"],
        ["src", "generated", "Api"], ["src", "generated", "Api", "Types.purs"]] := by
  decide +kernel

end

end

end Schemata.CommandLine
