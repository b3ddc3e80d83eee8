import Mathlib.Data.List.Basic
import Schemata.CommandLine.Basic
import Schemata.Proofs.Workspace.Effect

namespace Schemata

/-! Steps in a workspace: what they leave behind, and when all of them succeed. -/

/-- There is room for folders and files at these paths: no path leaves the workspace, nothing
but folders stands where folders are needed, and where a file is to be written there is no
folder and none is needed. -/
structure Workspace.HasRoom (workspace : Workspace) (folders paths : List String) : Prop where
  inside : ∀ path ∈ folders ++ paths, (Path.place? path).isSome = true
  enterable : ∀ folder ∈ folders, ∀ place ∈ Path.waypoints folder, workspace.Enterable place
  vacant : ∀ path ∈ paths, ∀ place, Path.place? path = some place →
    workspace.entry? place ≠ some .folder ∧
      ∀ folder ∈ folders, place ∉ Path.waypoints folder

/-- Files with their places instead of their paths. -/
def Workspace.placed (files : List (String × String)) : List (Place × String) :=
  files.filterMap fun file => (Path.place? file.1).map fun place => (place, file.2)

theorem Workspace.mem_placed {files : List (String × String)} {place : Place}
    {content : String} :
    (place, content) ∈ placed files ↔
      ∃ path, (path, content) ∈ files ∧ Path.place? path = some place := by
  simp only [placed, List.mem_filterMap, Option.map_eq_some_iff, Prod.exists, Prod.mk.injEq]
  constructor
  · rintro ⟨path, _, member, _, leads, rfl, rfl⟩
    exact ⟨path, member, leads⟩
  · rintro ⟨path, member, leads⟩
    exact ⟨path, content, member, place, leads, rfl, rfl⟩

namespace CommandLine

open Workspace

namespace Step

def folders : Step → List String
  | makeFolders path _ => [path]
  | _ => []

def files : Step → List (String × String)
  | write path content => [(path, content)]
  | _ => []

def apply (workspace : Workspace) : Step → Except FileError Workspace
  | print _ | report _ => .ok workspace
  | makeFolders path _ => workspace.makeFolders path
  | write path content => workspace.write path content

end Step

/-- The folders that steps make. -/
def foldersOf (steps : List Step) : List String :=
  steps.flatMap (·.folders)

/-- The files that steps write. -/
def filesOf (steps : List Step) : List (String × String) :=
  steps.flatMap (·.files)

/-- All of the steps can be taken. -/
def Succeeds (workspace : Workspace) (steps : List Step) : Prop :=
  (perform workspace steps).1.status = 0

section

variable {workspace next : Workspace} {step : Step} {steps rest : List Step}
  {error : FileError}

theorem perform_of_apply (applied : step.apply workspace = .ok next) :
    (perform workspace (step :: rest)).1.status = (perform next rest).1.status ∧
      (perform workspace (step :: rest)).2 = (perform next rest).2 := by
  cases step with
  | print | report =>
      cases applied
      exact ⟨rfl, rfl⟩
  | makeFolders | write =>
      rw [Step.apply] at applied
      simp only [perform, applied, and_self]

theorem perform_of_stuck (stuck : step.apply workspace = .error error) :
    (perform workspace (step :: rest)).1.status = 1 ∧
      (perform workspace (step :: rest)).2 = workspace := by
  cases step with
  | print | report => cases stuck
  | makeFolders | write =>
      rw [Step.apply] at stuck
      simp only [perform, stuck, Outcome.failure, and_self]

theorem succeeds_nil (workspace : Workspace) : Succeeds workspace [] :=
  rfl

theorem succeeds_cons_iff :
    Succeeds workspace (step :: rest) ↔
      ∃ next, step.apply workspace = .ok next ∧ Succeeds next rest := by
  cases applied : step.apply workspace with
  | error error => simp [Succeeds, (perform_of_stuck applied).1]
  | ok next => simp [Succeeds, (perform_of_apply applied).1]

/-! What a step leaves behind, and so what a run does. -/

theorem spreads_apply (applied : step.apply workspace = .ok next) :
    Spreads (step.folders.flatMap Path.waypoints) (placed step.files) workspace next := by
  cases step with
  | print | report =>
      cases applied
      exact .refl _ _ _
  | makeFolders path purpose =>
      rw [Step.folders, List.flatMap_singleton]
      exact spreads_makeFolders applied
  | write path content =>
      obtain ⟨place, leads, -⟩ := entry?_write applied
      exact (spreads_write applied leads).mono (List.nil_subset _)
        (List.cons_subset.mpr
          ⟨mem_placed.mpr ⟨path, List.mem_singleton_self _, leads⟩, List.nil_subset _⟩)

theorem placed_append (files others : List (String × String)) :
    placed (files ++ others) = placed files ++ placed others :=
  List.filterMap_append

theorem spreads_perform (steps : List Step) (workspace : Workspace) :
    Spreads ((foldersOf steps).flatMap Path.waypoints) (placed (filesOf steps)) workspace
      (perform workspace steps).2 := by
  induction steps generalizing workspace with
  | nil => exact .refl _ _ _
  | cons step rest induction =>
      rw [foldersOf, filesOf, List.flatMap_cons, List.flatMap_cons, List.flatMap_append,
        placed_append]
      cases applied : step.apply workspace with
      | error error =>
          rw [(perform_of_stuck applied).2]
          exact .refl _ _ _
      | ok next =>
          rw [(perform_of_apply applied).2]
          -- What the first step leaves is among what all of them may leave, and so is the rest.
          have first := (spreads_apply applied).mono
            (List.subset_append_left _ ((foldersOf rest).flatMap Path.waypoints))
            (List.subset_append_left _ (placed (filesOf rest)))
          have later := (induction next).mono
            (List.subset_append_right (step.folders.flatMap Path.waypoints) _)
            (List.subset_append_right (placed step.files) _)
          exact first.trans later

/-- The step only tells something. -/
def Step.IsSilent (step : Step) : Prop :=
  ∀ workspace, step.apply workspace = .ok workspace

theorem perform_of_silent (silent : ∀ step ∈ steps, step.IsSilent) :
    (perform workspace steps).2 = workspace := by
  induction steps with
  | nil => rfl
  | cons step rest induction =>
      obtain ⟨here, later⟩ := List.forall_mem_cons.mp silent
      rw [(perform_of_apply (here workspace)).2, induction later]

/-! Room for steps is room for the first and room for the others after it. -/

/-- There is room for all that the steps make and write. -/
def HasRoomFor (workspace : Workspace) (steps : List Step) : Prop :=
  workspace.HasRoom (foldersOf steps) ((filesOf steps).map Prod.fst)

theorem hasRoom_cons_folder {folder : String} {folders paths : List String}
    (made : workspace.makeFolders folder = .ok next) :
    workspace.HasRoom (folder :: folders) paths ↔ next.HasRoom folders paths := by
  obtain ⟨inside, enterable, -⟩ := makeFolders_eq_ok_iff.mp made
  have entry := entry?_makeFolders made
  constructor
  · intro room
    refine ⟨fun path member => room.inside path (List.mem_cons_of_mem _ member), ?_, ?_⟩
    · intro other member place way
      rw [Enterable, entry]
      split
      · exact .inr rfl
      · exact room.enterable other (List.mem_cons_of_mem _ member) place way
    · intro path member place leads
      obtain ⟨noFolder, unneeded⟩ := room.vacant path member place leads
      obtain ⟨here, later⟩ := List.forall_mem_cons.mp unneeded
      rw [entry, if_neg here]
      exact ⟨noFolder, later⟩
  · intro room
    refine ⟨List.forall_mem_cons.mpr ⟨inside, room.inside⟩, ?_, ?_⟩
    · refine List.forall_mem_cons.mpr ⟨enterable, fun other member place way => ?_⟩
      exact (spreads_makeFolders made).enterable (room.enterable other member place way)
    · intro path member place leads
      obtain ⟨noFolder, later⟩ := room.vacant path member place leads
      have here : place ∉ Path.waypoints folder :=
        fun way => noFolder (by rw [entry, if_pos way])
      rw [entry, if_neg here] at noFolder
      exact ⟨noFolder, List.forall_mem_cons.mpr ⟨here, later⟩⟩

theorem hasRoom_cons_path {path content : String} {folders paths : List String}
    (written : workspace.write path content = .ok next) :
    workspace.HasRoom folders (path :: paths) ↔ next.HasRoom folders paths := by
  obtain ⟨target, leads, noFolder, stands, others⟩ := entry?_write written
  constructor
  · intro room
    obtain ⟨-, unneeded⟩ := room.vacant path List.mem_cons_self target leads
    refine ⟨fun other member => room.inside other ?_, ?_, ?_⟩
    · simp only [List.mem_append, List.mem_cons] at member ⊢
      exact member.imp_right .inr
    · intro folder member place way
      have different : place ≠ target := fun same => unneeded folder member (same ▸ way)
      rw [Enterable, others place different]
      exact room.enterable folder member place way
    · intro other member place leadsThere
      obtain ⟨noFolder, later⟩ :=
        room.vacant other (List.mem_cons_of_mem _ member) place leadsThere
      refine ⟨?_, later⟩
      by_cases same : place = target
      · rw [same, stands]
        intro folder
        cases folder
      · rwa [others place same]
  · intro room
    refine ⟨fun other member => ?_, ?_, List.forall_mem_cons.mpr ⟨?_, ?_⟩⟩
    · simp only [List.mem_append, List.mem_cons] at member
      obtain folder | rfl | later := member
      · exact room.inside other (List.mem_append_left _ folder)
      · rw [leads]
        rfl
      · exact room.inside other (List.mem_append_right _ later)
    · intro folder member place way
      exact (spreads_write written leads).enterable (room.enterable folder member place way)
    · rintro place leadsThere
      obtain rfl := Option.some.inj (leads.symm.trans leadsThere)
      refine ⟨noFolder, fun folder member way => ?_⟩
      obtain absent | folder := room.enterable folder member target way
      · rw [stands] at absent
        cases absent
      · rw [stands] at folder
        cases folder
    · intro other member place leadsThere
      obtain ⟨noFolder, later⟩ := room.vacant other member place leadsThere
      refine ⟨?_, later⟩
      by_cases same : place = target
      · rwa [same]
      · rwa [← others place same]

theorem hasRoomFor_cons_iff (applied : step.apply workspace = .ok next) :
    HasRoomFor workspace (step :: rest) ↔ HasRoomFor next rest := by
  cases step with
  | print | report =>
      cases applied
      exact Iff.rfl
  | makeFolders path purpose => exact hasRoom_cons_folder applied
  | write path content => exact hasRoom_cons_path applied

theorem hasRoomFor_of_succeeds (succeeds : Succeeds workspace steps) :
    HasRoomFor workspace steps := by
  induction steps generalizing workspace with
  | nil => exact ⟨nofun, nofun, nofun⟩
  | cons step rest induction =>
      obtain ⟨next, applied, later⟩ := succeeds_cons_iff.mp succeeds
      exact (hasRoomFor_cons_iff applied).mpr (induction later)

/-! What stands in the workspace when all steps have been taken. -/

theorem folder_of_succeeds (succeeds : Succeeds workspace steps) {folder : String}
    (made : folder ∈ foldersOf steps) :
    ∀ place ∈ Path.waypoints folder,
      Workspace.entry? (perform workspace steps).2 place = some .folder := by
  induction steps generalizing workspace with
  | nil => cases made
  | cons step rest induction =>
      obtain ⟨next, applied, later⟩ := succeeds_cons_iff.mp succeeds
      rw [(perform_of_apply applied).2]
      rw [foldersOf, List.flatMap_cons, List.mem_append] at made
      obtain here | there := made
      · cases step with
        | print | report | write => cases here
        | makeFolders path purpose =>
            obtain rfl := List.mem_singleton.mp here
            intro place way
            refine (spreads_perform rest next).folder ?_
            rw [entry?_makeFolders applied, if_pos way]
      · exact induction later there

/-- No two files are for one place. -/
def Apart (files : List (String × String)) : Prop :=
  files.Pairwise fun file other =>
    ∀ place, Path.place? file.1 = some place → Path.place? other.1 ≠ some place

theorem file_of_succeeds (succeeds : Succeeds workspace steps) (apart : Apart (filesOf steps))
    {path content : String} (written : (path, content) ∈ filesOf steps) :
    ∃ place, Path.place? path = some place ∧
      Workspace.entry? (perform workspace steps).2 place = some (.file content) := by
  induction steps generalizing workspace with
  | nil => cases written
  | cons step rest induction =>
      obtain ⟨next, applied, later⟩ := succeeds_cons_iff.mp succeeds
      rw [(perform_of_apply applied).2]
      rw [filesOf, List.flatMap_cons] at apart
      rw [filesOf, List.flatMap_cons, List.mem_append] at written
      obtain ⟨-, restApart, separate⟩ := List.pairwise_append.mp apart
      obtain here | there := written
      · cases step with
        | print | report | makeFolders => cases here
        | write other text =>
            obtain ⟨rfl, rfl⟩ := Prod.mk.inj (List.mem_singleton.mp here)
            obtain ⟨place, leads, -, stands, -⟩ := entry?_write applied
            refine ⟨place, leads, ?_⟩
            -- The later steps keep the file, since none of theirs is for its place.
            obtain same | ⟨-, absent, -⟩ | ⟨_, member, -⟩ := spreads_perform rest next place
            · rw [same, stands]
            · rw [stands] at absent
              cases absent
            · obtain ⟨another, among, leadsThere⟩ := mem_placed.mp member
              exact absurd leadsThere (separate _ here _ among place leads)
      · exact induction later restApart there

/-! Steps that make the folder of a file before they write the file. -/

theorem apply_makeFolders {folder purpose : String}
    (room : HasRoomFor workspace (.makeFolders folder purpose :: rest)) :
    ∃ next, (Step.makeFolders folder purpose).apply workspace = .ok next := by
  have member : folder ∈ foldersOf (.makeFolders folder purpose :: rest) :=
    List.mem_cons_self
  exact ⟨_, makeFolders_eq_ok_iff.mpr
    ⟨room.inside folder (List.mem_append_left _ member), room.enterable folder member, rfl⟩⟩

theorem apply_write {path content name : String} (ends : Path.EndsIn path name)
    (folders : ∀ place ∈ Path.waypoints (Path.parent path),
      workspace.entry? place = some .folder)
    (room : HasRoomFor workspace (.write path content :: rest)) :
    ∃ next, (Step.write path content).apply workspace = .ok next := by
  have member : path ∈ (filesOf (.write path content :: rest)).map Prod.fst :=
    List.mem_cons_self
  obtain ⟨place, leads⟩ :=
    Option.isSome_iff_exists.mp (room.inside path (List.mem_append_right _ member))
  exact ⟨_, write_eq_ok_iff.mpr
    ⟨place, locate_eq_ok ends folders leads, (room.vacant path member place leads).1, rfl⟩⟩

theorem exists_after_writeSteps {folder name : String} {file : SourceFile}
    (ends : Path.EndsIn file.path name)
    (room : HasRoomFor workspace (writeSteps folder file ++ rest)) :
    ∃ next, HasRoomFor next rest ∧
      (Succeeds next rest → Succeeds workspace (writeSteps folder file ++ rest)) := by
  obtain ⟨middle, made⟩ := apply_makeFolders room
  have roomToWrite := (hasRoomFor_cons_iff made).mp room
  have folders : ∀ place ∈ Path.waypoints (Path.parent (Path.join folder file.path)),
      middle.entry? place = some .folder := by
    intro place way
    rw [entry?_makeFolders made, if_pos way]
  obtain ⟨next, written⟩ := apply_write (ends.join folder) folders roomToWrite
  have roomToReport := (hasRoomFor_cons_iff written).mp roomToWrite
  refine ⟨next, (hasRoomFor_cons_iff rfl).mp roomToReport, fun succeeds => ?_⟩
  exact succeeds_cons_iff.mpr ⟨middle, made, succeeds_cons_iff.mpr
    ⟨next, written, succeeds_cons_iff.mpr ⟨next, rfl, succeeds⟩⟩⟩

theorem exists_after_files {folder : String} {files : List SourceFile}
    (ends : ∀ file ∈ files, ∃ name, Path.EndsIn file.path name)
    (room : HasRoomFor workspace (files.flatMap (writeSteps folder) ++ rest)) :
    ∃ next, HasRoomFor next rest ∧
      (Succeeds next rest →
        Succeeds workspace (files.flatMap (writeSteps folder) ++ rest)) := by
  induction files generalizing workspace with
  | nil => exact ⟨workspace, room, id⟩
  | cons file others induction =>
      obtain ⟨⟨name, here⟩, later⟩ := List.forall_mem_cons.mp ends
      rw [List.flatMap_cons, List.append_assoc] at room ⊢
      obtain ⟨middle, roomForOthers, first⟩ := exists_after_writeSteps here room
      obtain ⟨next, roomForRest, second⟩ := induction later roomForOthers
      exact ⟨next, roomForRest, fun succeeds => first (second succeeds)⟩

end

end CommandLine

end Schemata
