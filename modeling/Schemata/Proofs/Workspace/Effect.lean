import Mathlib.Data.String.Basic
import Schemata.Proofs.Workspace.Path

namespace Schemata.Workspace

/-! What is in a workspace after folders are made and files are written. -/

section

variable {workspace : Workspace} {place other : Place} {entry : FileEntry}

theorem entry?_root (workspace : Workspace) : workspace.entry? [] = some .folder :=
  rfl

theorem lookup_putEntry_self (entries : List (Place × FileEntry)) :
    (putEntry place entry entries).lookup place = some entry := by
  induction entries with
  | nil => rw [putEntry, List.lookup_cons, beq_self_eq_true]
  | cons first rest induction =>
      simp only [putEntry]
      split
      · rw [List.lookup_cons, beq_self_eq_true]
      · next different =>
        rw [List.lookup_cons, beq_eq_false_iff_ne.mpr (Ne.symm different), induction]

theorem lookup_putEntry_other (different : other ≠ place)
    (entries : List (Place × FileEntry)) :
    (putEntry place entry entries).lookup other = entries.lookup other := by
  have unequal := beq_eq_false_iff_ne.mpr different
  induction entries with
  | nil => rw [putEntry, List.lookup_cons, unequal]
  | cons first rest induction =>
      simp only [putEntry]
      split
      · next same => rw [List.lookup_cons, List.lookup_cons, same, unequal]
      · rw [List.lookup_cons, List.lookup_cons, induction]

theorem entry?_put_self (inside : place ≠ []) :
    entry? (workspace.put place entry) place = some entry := by
  unfold entry?
  rw [if_neg (by simpa using inside)]
  exact lookup_putEntry_self workspace.entries

theorem entry?_put_other (different : other ≠ place) :
    entry? (workspace.put place entry) other = workspace.entry? other := by
  unfold entry?
  simp only [put, lookup_putEntry_other different]

end

/-- Nothing but a folder stands at the place, if anything does. -/
def Enterable (workspace : Workspace) (place : Place) : Prop :=
  workspace.entry? place = none ∨ workspace.entry? place = some .folder

/-- From one workspace to another, the new folders are among these, and the new or changed
files among these with these contents. -/
def Spreads (folders : List Place) (files : List (Place × String))
    (before after : Workspace) : Prop :=
  ∀ place, after.entry? place = before.entry? place ∨
    (place ∈ folders ∧ before.entry? place = none ∧ after.entry? place = some .folder) ∨
    ∃ content, (place, content) ∈ files ∧ before.entry? place ≠ some .folder ∧
      after.entry? place = some (.file content)

namespace Spreads

variable {folders more : List Place} {files others : List (Place × String)}
  {before middle after : Workspace} {place : Place}

theorem refl (folders : List Place) (files : List (Place × String)) (workspace : Workspace) :
    Spreads folders files workspace workspace :=
  fun _ => .inl rfl

theorem mono (spreads : Spreads folders files before after) (moreFolders : folders ⊆ more)
    (moreFiles : files ⊆ others) : Spreads more others before after := by
  intro place
  obtain same | ⟨member, new⟩ | ⟨content, member, new⟩ := spreads place
  · exact .inl same
  · exact .inr (.inl ⟨moreFolders member, new⟩)
  · exact .inr (.inr ⟨content, moreFiles member, new⟩)

theorem trans (first : Spreads folders files before middle)
    (second : Spreads folders files middle after) : Spreads folders files before after := by
  intro place
  obtain same | ⟨member, absent, made⟩ | ⟨content, member, file, written⟩ := second place
  · rw [same]
    exact first place
  · obtain kept | ⟨_, _, made'⟩ | ⟨content, _, _, written⟩ := first place
    · exact .inr (.inl ⟨member, kept ▸ absent, made⟩)
    · rw [made'] at absent
      cases absent
    · rw [written] at absent
      cases absent
  · refine .inr (.inr ⟨content, member, fun folder => ?_, written⟩)
    obtain kept | ⟨_, absent, _⟩ | ⟨_, _, noFolder, _⟩ := first place
    · exact file (kept.trans folder)
    · rw [absent] at folder
      cases folder
    · exact noFolder folder

/-- Folders stay. -/
theorem folder (spreads : Spreads folders files before after)
    (stands : before.entry? place = some .folder) : after.entry? place = some .folder := by
  obtain same | ⟨_, absent, _⟩ | ⟨_, _, other, _⟩ := spreads place
  · rw [same, stands]
  · rw [stands] at absent
    cases absent
  · exact absurd stands other

/-- What cannot be entered will not be entered later. -/
theorem enterable (spreads : Spreads folders files before after)
    (later : after.Enterable place) : before.Enterable place := by
  obtain same | ⟨_, absent, _⟩ | ⟨_, _, _, written⟩ := spreads place
  · rwa [Enterable, same] at later
  · exact .inl absent
  · rw [Enterable, written] at later
    obtain no | no := later <;> cases no

end Spreads

/-! Making folders. -/

/-- The workspace with a folder at a place that can be entered. -/
def enter (workspace : Workspace) (place : Place) : Workspace :=
  if workspace.entry? place = some .folder then workspace else workspace.put place .folder

section

variable {workspace after : Workspace} {place other : Place} {part : String}
  {parts rest : List String}

theorem entry?_enter_self (workspace : Workspace) (place : Place) :
    entry? (workspace.enter place) place = some .folder := by
  unfold enter
  split
  · assumption
  · next missing =>
    refine entry?_put_self ?_
    rintro rfl
    exact missing (entry?_root workspace)

theorem entry?_enter_other (different : other ≠ place) :
    entry? (workspace.enter place) other = workspace.entry? other := by
  unfold enter
  split
  · rfl
  · exact entry?_put_other different

theorem enterable_enter_iff (enterable : workspace.Enterable place) :
    (workspace.enter place).Enterable other ↔ workspace.Enterable other := by
  by_cases same : other = place
  · subst same
    exact iff_of_true (.inr (entry?_enter_self workspace other)) enterable
  · rw [Enterable, entry?_enter_other same, Enterable]

theorem entry?_foldl_enter (places : List Place) (workspace : Workspace) (place : Place) :
    entry? (places.foldl enter workspace) place =
      if place ∈ places then some .folder else workspace.entry? place := by
  induction places generalizing workspace with
  | nil => rfl
  | cons first rest induction =>
      rw [List.foldl_cons, induction]
      by_cases same : place = first
      · subst same
        simp [entry?_enter_self]
      · simp [entry?_enter_other same, same]

theorem makeFoldersFrom_cons_eq_ok_iff (leaves : Path.staysIn part = false)
    (forward : part ≠ "..") :
    makeFoldersFrom place (part :: rest) workspace = .ok after ↔
      workspace.Enterable (place ++ [part]) ∧
        makeFoldersFrom (place ++ [part]) rest (workspace.enter (place ++ [part])) =
          .ok after := by
  rw [makeFoldersFrom, if_neg (by simp [leaves]), if_neg forward]
  cases stands : workspace.entry? (place ++ [part]) with
  | none => simp [Enterable, enter, stands]
  | some entry => cases entry <;> simp [Enterable, enter, stands]

/-- Folders are made exactly if the path stays in the workspace and nothing but folders
stands on the way. -/
theorem makeFoldersFrom_eq_ok_iff :
    makeFoldersFrom place parts workspace = .ok after ↔
      (Path.walk? place (parts.filter (!Path.staysIn ·))).isSome = true ∧
        (∀ entered ∈ Path.entered place (parts.filter (!Path.staysIn ·)),
          workspace.Enterable entered) ∧
        (Path.entered place (parts.filter (!Path.staysIn ·))).foldl enter workspace =
          after := by
  induction parts generalizing place workspace with
  | nil => simp [makeFoldersFrom, Path.walk?, Path.entered]
  | cons part rest induction =>
      cases leaves : Path.staysIn part with
      | true =>
          rw [makeFoldersFrom, if_pos leaves, induction,
            List.filter_cons_of_neg (by simp [leaves])]
      | false =>
          rw [List.filter_cons_of_pos (by simp [leaves]), Path.walk?, Path.entered]
          by_cases up : part = ".."
          · rw [makeFoldersFrom, if_neg (by simp [leaves]), if_pos up, if_pos up, if_pos up]
            by_cases root : place.isEmpty = true
            · simp [root]
            · rw [if_neg root, if_neg root, induction]
          · rw [if_neg up, if_neg up, makeFoldersFrom_cons_eq_ok_iff leaves up, induction,
              List.forall_mem_cons, List.foldl_cons]
            constructor
            · rintro ⟨enterable, walks, later, made⟩
              exact ⟨walks, ⟨enterable, fun entered member =>
                (enterable_enter_iff enterable).mp (later entered member)⟩, made⟩
            · rintro ⟨walks, ⟨enterable, later⟩, made⟩
              exact ⟨enterable, walks, fun entered member =>
                (enterable_enter_iff enterable).mpr (later entered member), made⟩

theorem makeFolders_eq_ok_iff {path : String} :
    workspace.makeFolders path = .ok after ↔
      (Path.place? path).isSome = true ∧
        (∀ entered ∈ Path.waypoints path, workspace.Enterable entered) ∧
        (Path.waypoints path).foldl enter workspace = after := by
  unfold makeFolders Path.place? Path.waypoints
  split
  · simp
  · exact makeFoldersFrom_eq_ok_iff

theorem entry?_makeFolders {path : String} (made : workspace.makeFolders path = .ok after)
    (place : Place) :
    after.entry? place =
      if place ∈ Path.waypoints path then some .folder else workspace.entry? place := by
  obtain ⟨-, -, rfl⟩ := makeFolders_eq_ok_iff.mp made
  exact entry?_foldl_enter _ workspace place

theorem spreads_makeFolders {path : String} (made : workspace.makeFolders path = .ok after) :
    Spreads (Path.waypoints path) [] workspace after := by
  obtain ⟨-, enterable, -⟩ := makeFolders_eq_ok_iff.mp made
  intro place
  rw [entry?_makeFolders made]
  split
  · next member =>
    obtain absent | folder := enterable place member
    · exact .inr (.inl ⟨member, absent, rfl⟩)
    · exact .inl folder.symm
  · exact .inl rfl

end

/-! Writing files. -/

section

variable {workspace after : Workspace} {outside : FileError} {place target : Place}
  {parts first second : List String} {path content name : String}

theorem follow_append :
    follow workspace outside place (first ++ second) =
      (follow workspace outside place first).bind
        (follow workspace outside · second) := by
  induction first generalizing place with
  | nil => rfl
  | cons part rest induction =>
      simp only [List.cons_append, follow]
      split
      · rfl
      · rfl
      · rfl
      · split_ifs
        · exact induction
        · rfl
        · exact induction
        · exact induction

theorem walk?_of_follow (follows : follow workspace outside place parts = .ok target) :
    Path.walk? place (parts.filter (!Path.staysIn ·)) = some target := by
  induction parts generalizing place with
  | nil =>
      cases follows
      rfl
  | cons part rest induction =>
      simp only [follow] at follows
      split at follows
      · cases follows
      · cases follows
      · cases follows
      · cases leaves : Path.staysIn part with
        | true =>
            rw [if_pos leaves] at follows
            rw [List.filter_cons_of_neg (by simp [leaves])]
            exact induction follows
        | false =>
            rw [if_neg (by simp [leaves])] at follows
            rw [List.filter_cons_of_pos (by simp [leaves]), Path.walk?]
            split_ifs at follows ⊢
            · exact induction follows
            · exact induction follows

/-- A path is followed where folders stand on all of the way. -/
theorem follow_eq_ok (above : ∀ other, other <+: place → workspace.entry? other = some .folder)
    (folders : ∀ entered ∈ Path.entered place (parts.filter (!Path.staysIn ·)),
      workspace.entry? entered = some .folder)
    (walks : Path.walk? place (parts.filter (!Path.staysIn ·)) = some target) :
    follow workspace outside place parts = .ok target ∧
      workspace.entry? target = some .folder := by
  induction parts generalizing place with
  | nil =>
      cases walks
      exact ⟨rfl, above _ (List.prefix_refl _)⟩
  | cons part rest induction =>
      simp only [follow, above place (List.prefix_refl place)]
      cases leaves : Path.staysIn part with
      | true =>
          rw [List.filter_cons_of_neg (by simp [leaves])] at folders walks
          exact induction above folders walks
      | false =>
          rw [List.filter_cons_of_pos (by simp [leaves])] at folders walks
          rw [Path.entered] at folders
          rw [Path.walk?] at walks
          rw [if_neg (by simp)]
          split_ifs at folders walks ⊢
          · refine induction (fun other within => above other ?_) folders walks
            exact within.trans (List.dropLast_prefix _)
          · obtain ⟨here, later⟩ := List.forall_mem_cons.mp folders
            refine induction (fun other within => ?_) later walks
            obtain whole | earlier := List.prefix_concat_iff.mp within
            · exact whole ▸ here
            · exact above other earlier

theorem place?_of_locate (located : locate workspace outside path = .ok target) :
    Path.place? path = some target := by
  unfold locate at located
  split_ifs at located with empty absolute
  rw [Path.place?, if_neg absolute]
  exact walk?_of_follow located

/-- A path that ends in a name is located when there are folders all the way to its
parent. -/
theorem locate_eq_ok (ends : Path.EndsIn path name)
    (folders : ∀ entered ∈ Path.waypoints (Path.parent path),
      workspace.entry? entered = some .folder)
    (leads : Path.place? path = some target) :
    locate workspace outside path = .ok target := by
  obtain ⟨above, parts, same⟩ := ends.parts_eq
  obtain ⟨folder, walks, rfl⟩ := ends.exists_place_eq leads
  unfold Path.place? at leads
  split_ifs at leads with absolute
  rw [← same] at walks
  rw [Path.waypoints, ← same] at folders
  have root : ∀ other : Place, other <+: [] → workspace.entry? other = some .folder := by
    intro other within
    rw [List.prefix_nil.mp within]
    rfl
  have reached : follow workspace outside [] above = .ok folder ∧
      workspace.entry? folder = some .folder := follow_eq_ok root folders walks
  obtain ⟨follows, stands⟩ := reached
  rw [locate, if_neg (by simpa using ends.nonempty), if_neg absolute, parts, follow_append,
    follows]
  simp only [Except.bind, follow, stands, ends.leaves, ends.forward, if_false,
    Bool.false_eq_true]

theorem write_eq_ok_iff :
    workspace.write path content = .ok after ↔
      ∃ place, locate workspace .notPermitted path = .ok place ∧
        workspace.entry? place ≠ some .folder ∧
        workspace.put place (.file content) = after := by
  unfold write
  cases locate workspace .notPermitted path with
  | error error => simp [bind, Except.bind]
  | ok place =>
      simp only [bind, Except.bind, Except.ok.injEq, exists_eq_left']
      split
      · next folder => simp [folder, throw, throwThe, MonadExceptOf.throw]
      · next other =>
        simp only [pure, Except.pure, Except.ok.injEq]
        exact (and_iff_right other).symm

theorem entry?_write (written : workspace.write path content = .ok after) :
    ∃ place, Path.place? path = some place ∧ workspace.entry? place ≠ some .folder ∧
      after.entry? place = some (.file content) ∧
      ∀ other ≠ place, after.entry? other = workspace.entry? other := by
  obtain ⟨place, located, noFolder, rfl⟩ := write_eq_ok_iff.mp written
  have inside : place ≠ [] := by
    rintro rfl
    exact noFolder (entry?_root workspace)
  exact ⟨place, place?_of_locate located, noFolder, entry?_put_self inside,
    fun other different => entry?_put_other different⟩

theorem spreads_write {place : Place} (written : workspace.write path content = .ok after)
    (leads : Path.place? path = some place) :
    Spreads [] [(place, content)] workspace after := by
  obtain ⟨target, leadsThere, noFolder, stands, others⟩ := entry?_write written
  obtain rfl := Option.some.inj (leads.symm.trans leadsThere)
  intro other
  by_cases same : other = place
  · subst same
    exact .inr (.inr ⟨content, List.mem_singleton_self _, noFolder, stands⟩)
  · exact .inl (others other same)

theorem read_eq_ok {place : Place} (located : locate workspace .notFound path = .ok place)
    (stands : workspace.entry? place = some (.file content)) :
    workspace.read path = .ok content := by
  simp only [read, located, bind, Except.bind, stands]
  rfl

end

end Schemata.Workspace
