import Mathlib.Control.Lawful
import Mathlib.Control.Traversable.Basic
import Schemata.CommandLine.Basic

namespace Schemata.CommandLine

/-! What is planned, by what is in the workspace. -/

/-- The settings of the file, or the standard ones where there is no file. -/
def LoadsSettings (workspace : Workspace) (settings : Settings) : Prop :=
  (∃ content, workspace.read Settings.fileName = .ok content ∧
    Settings.parse? content = some settings) ∨
  workspace.read Settings.fileName = .error .notFound ∧ settings = .standard

/-- There is a text at the path, and it compiles, as JSON or YAML by the extension. -/
def CompilesTo (workspace : Workspace) (path : String) (model : Model) : Prop :=
  ∃ content, workspace.read path = .ok content ∧
    (if Path.extension? path = some "json" then compileJson content
      else compileYaml content) = .ok model

/-- All that a generation needs: settings that load, an input that compiles, and the name of
a module where PureScript is generated. -/
structure Prepared (workspace : Workspace) (input : Option String) (target : Option Target)
    (settings : Settings) (model : Model) : Prop where
  loads : LoadsSettings workspace settings
  compiles : CompilesTo workspace (input.getD settings.input) model
  named : (target.getD settings.target).includesPureScript = true →
    (PureScript.modulePath? settings.moduleName).isSome = true

/-- What the generators of the target return. -/
def generated (settings : Settings) (target : Target) (model : Model) : List SourceFile :=
  (if target.includesTypeScript then
    [TypeScript.generate settings.emit TypeScript.standardFileName model]
  else []) ++
  if target.includesPureScript then
    (PureScript.generate settings.emit settings.moduleName model).toOption.toList
  else []

section

variable {workspace : Workspace} {α β : Type}

theorem bind_eq_ok_iff {plan : ExceptT Failure Id α} {next : α → ExceptT Failure Id β}
    {result : β} :
    (plan >>= next).run = .ok result ↔
      ∃ value, plan.run = .ok value ∧ (next value).run = .ok result := by
  obtain ⟨error⟩ | ⟨value⟩ := plan
  · exact ⟨nofun, nofun⟩
  · exact ⟨fun reaches => ⟨value, rfl, reaches⟩, fun ⟨_, same, reaches⟩ => by
      cases same
      exact reaches⟩

theorem return_eq_ok_iff {value result : α} :
    (pure (.ok value) : Id (Except Failure α)) = .ok result ↔ value = result := by
  constructor
  · rintro ⟨⟩
    rfl
  · rintro rfl
    rfl

theorem reader_eq_ok_iff {path : String} {found : Except FileError String} :
    (Except.ok <$> reader workspace path : Id (Except Failure (Except FileError String))) =
      .ok found ↔ workspace.read path = found :=
  return_eq_ok_iff

theorem readSettings_eq_ok_iff {settings : Settings} :
    (readSettings (reader workspace)).run = .ok settings ↔
      LoadsSettings workspace settings := by
  simp only [readSettings, bind_eq_ok_iff, ExceptT.run_monadLift, monadLift_self,
    reader_eq_ok_iff, exists_eq_left', LoadsSettings]
  cases workspace.read Settings.fileName with
  | ok content =>
      cases read : Settings.parse? content with
      | none => simp [read]
      | some held => simp [read, return_eq_ok_iff]
  | error error =>
      cases error with
      | notFound => simpa using return_eq_ok_iff.trans eq_comm
      | _ => simp

theorem readModel_eq_ok_iff {path : String} {model : Model} :
    (readModel (reader workspace) path).run = .ok model ↔
      CompilesTo workspace path model := by
  simp only [readModel, bind_eq_ok_iff, ExceptT.run_monadLift, monadLift_self,
    reader_eq_ok_iff, exists_eq_left', CompilesTo]
  cases workspace.read path with
  | error error => simp
  | ok content =>
      simp only [Except.ok.injEq, exists_eq_left']
      cases (if Path.extension? path = some "json" then compileJson content
        else compileYaml content) with
      | error error => simp
      | ok compiled => simp [return_eq_ok_iff]

theorem sourceFiles_eq_ok_iff {settings : Settings} {target : Target} {model : Model}
    {files : List SourceFile} :
    sourceFiles settings target model = .ok files ↔
      (target.includesPureScript = true →
        (PureScript.modulePath? settings.moduleName).isSome = true) ∧
      generated settings target model = files := by
  unfold sourceFiles generated PureScript.generate PureScript.modulePath
  cases target.includesPureScript with
  | false => simp
  | true =>
      cases PureScript.modulePath? settings.moduleName with
      | none => simp [bind, Except.bind, Except.map]
      | some path => simp [bind, Except.bind, Except.map, pure, Except.pure, Except.toOption]

theorem planGeneration_eq_ok_iff {input output : Option String} {target : Option Target}
    {steps : List Step} :
    (planGeneration (reader workspace) input output target).run = .ok steps ↔
      ∃ settings model, Prepared workspace input target settings model ∧
        generationSteps (target.getD settings.target) (output.getD settings.output)
          (generated settings (target.getD settings.target) model) model.size = steps := by
  unfold planGeneration
  simp only [bind_eq_ok_iff, readSettings_eq_ok_iff, readModel_eq_ok_iff]
  refine exists_congr fun settings => ?_
  constructor
  · rintro ⟨loads, model, compiles, planned⟩
    cases rendered : sourceFiles settings (target.getD settings.target) model with
    | error error =>
        rw [rendered] at planned
        cases planned
    | ok files =>
        obtain ⟨named, rfl⟩ := sourceFiles_eq_ok_iff.mp rendered
        rw [rendered] at planned
        cases planned
        exact ⟨model, ⟨loads, compiles, named⟩, rfl⟩
  · rintro ⟨model, ⟨loads, compiles, named⟩, rfl⟩
    refine ⟨loads, model, compiles, ?_⟩
    rw [sourceFiles_eq_ok_iff.mpr ⟨named, rfl⟩]
    rfl

end

end Schemata.CommandLine
