import Schemata.PureScript.Module
import Schemata.Proofs.Emission.Layout
import Schemata.Proofs.Text.ProperName
import Schemata.Proofs.Workspace.Path

namespace Schemata.PureScript

/-! Paths of modules. Names that are made of proper names have one, and it leads to a file
below whatever folder it is joined to. -/

theorem modulePath?_eq_some_iff {moduleName path : String} :
    modulePath? moduleName = some path ↔
      (∀ segment ∈ moduleSegments moduleName, IsModuleSegment segment) ∧
        path.toList = ['/'].intercalate (moduleSegments moduleName) ++ ".purs".toList := by
  unfold modulePath?
  dsimp only
  split
  · next valid =>
    rw [Option.some.injEq, ← String.toList_inj, String.toList_ofList, eq_comm]
    exact (and_iff_right valid).symm
  · next invalid => simp [invalid]

theorem exists_segments_eq (moduleName : String) :
    ∃ above last, moduleSegments moduleName = above ++ [last] :=
  (List.eq_nil_or_concat' _).resolve_left (Text.splitWhere_ne_nil _ _)

/-- A module path ends in the name of a file, which is the last segment with the extension. -/
theorem endsIn_modulePath {moduleName path : String}
    (valid : modulePath? moduleName = some path) :
    ∃ last ∈ moduleSegments moduleName,
      Path.EndsIn path (String.ofList (last ++ ".purs".toList)) := by
  obtain ⟨segments, spelled⟩ := modulePath?_eq_some_iff.mp valid
  obtain ⟨above, last, split⟩ := exists_segments_eq moduleName
  have member : last ∈ moduleSegments moduleName := by
    rw [split]
    exact List.mem_append_right _ (List.mem_singleton_self _)
  obtain ⟨capital, letters⟩ := segments last member
  obtain ⟨first, begins, upper⟩ := (Option.any_eq_true _ _).mp capital
  have other : ∀ text : String, text.toList.head? ≠ some first →
      String.ofList (last ++ ".purs".toList) ≠ text := by
    rintro _ different rfl
    rw [String.toList_ofList, List.head?_append, begins] at different
    exact different rfl
  have named : (String.ofList (last ++ ".purs".toList)).toList = last ++ ".purs".toList :=
    String.toList_ofList
  refine ⟨last, member, ?_, ?_, ?_, other _ ?_⟩
  · rw [split] at spelled
    obtain rfl | ⟨front, segment, rfl⟩ := List.eq_nil_or_concat' above
    · refine .inl (String.toList_inj.mp ?_)
      rw [spelled, named, List.nil_append, List.intercalate_singleton]
    · refine .inr ⟨front.flatMap (· ++ ['/']) ++ segment, ?_⟩
      rw [spelled, intercalate_append ['/'] (List.cons_ne_nil _ _), named]
      simp
  · rw [named, List.mem_append, not_or]
    refine ⟨fun slash => ?_, by decide⟩
    exact absurd (List.all_eq_true.mp letters '/' slash) (by decide)
  · rw [Path.staysIn, Bool.or_eq_false_iff, beq_eq_false_iff_ne, beq_eq_false_iff_ne]
    refine ⟨other _ (by simp), other _ ?_⟩
    rintro ⟨⟩
    exact absurd upper (by decide)
  · rintro ⟨⟩
    exact absurd upper (by decide)

/-! The segments of a path. -/

theorem isModuleSegment_iff {segment : List Char} :
    IsModuleSegment segment ↔ Text.IsProperName segment :=
  Text.isProperName_iff.symm

theorem moduleSegments_eq_splitOn (moduleName : String) :
    moduleSegments moduleName = moduleName.toList.splitOn '.' :=
  Text.splitWhere_eq_splitOnP _ _

theorem splitOn_dot_injective {moduleName other : String}
    (same : moduleName.toList.splitOn '.' = other.toList.splitOn '.') : moduleName = other := by
  have joined : ['.'].intercalate (moduleName.toList.splitOn '.') = moduleName.toList :=
    List.intercalate_splitOn '.'
  rw [← String.toList_inj, ← joined, same, List.intercalate_splitOn]

theorem modulePath_eq_ok_iff {moduleName path : String} :
    modulePath moduleName = .ok path ↔ modulePath? moduleName = some path := by
  unfold modulePath
  cases modulePath? moduleName <;> simp

theorem generate_of_unnamed {moduleName : String} (unnamed : modulePath? moduleName = none)
    (options : EmitOptions) (model : Model) :
    generate options moduleName model = .error ⟨moduleName⟩ := by
  rw [generate, modulePath, unnamed]
  rfl

/-- The last of the pieces has the extension of a source file. -/
def IsExtended (pieces segments : List (List Char)) : Prop :=
  ∃ above last, pieces = above ++ [last] ∧ segments = above ++ [last ++ ".purs".toList]

theorem IsExtended.injective {pieces others segments : List (List Char)}
    (extended : IsExtended pieces segments) (also_ : IsExtended others segments) :
    pieces = others := by
  obtain ⟨above, last, rfl, rfl⟩ := extended
  obtain ⟨front, final, rfl, same⟩ := also_
  obtain ⟨rfl, ends⟩ := List.append_inj' same rfl
  rw [List.append_cancel_right (List.cons.inj ends).1]

theorem IsExtended.forall_mem {pieces segments : List (List Char)}
    (extended : IsExtended pieces segments) {property : List Char → Prop}
    (plain : ∀ piece ∈ pieces, property piece)
    (longer : ∀ piece ∈ pieces, property (piece ++ ".purs".toList)) :
    ∀ segment ∈ segments, property segment := by
  obtain ⟨above, last, rfl, rfl⟩ := extended
  obtain ⟨others, -⟩ := List.forall_mem_append.mp plain
  exact List.forall_mem_append.mpr ⟨others, List.forall_mem_singleton.mpr
    (longer last (List.mem_append_right _ (List.mem_singleton_self _)))⟩

theorem isExtended_modulePath {moduleName path : String}
    (valid : modulePath? moduleName = some path) :
    IsExtended (moduleName.toList.splitOn '.') (path.toList.splitOn '/') := by
  obtain ⟨segments, spelled⟩ := modulePath?_eq_some_iff.mp valid
  obtain ⟨above, last, split⟩ := exists_segments_eq moduleName
  have joined : path.toList = ['/'].intercalate (above ++ [last ++ ".purs".toList]) := by
    rw [spelled, split, intercalate_append ['/'] (List.cons_ne_nil last []),
      intercalate_append ['/'] (List.cons_ne_nil _ []), List.intercalate_singleton,
      List.intercalate_singleton, List.append_assoc]
  have extended : IsExtended (moduleSegments moduleName) (above ++ [last ++ ".purs".toList]) :=
    ⟨above, last, split, rfl⟩
  have free : ∀ segment ∈ above ++ [last ++ ".purs".toList], '/' ∉ segment := by
    have named : ∀ piece ∈ moduleSegments moduleName, '/' ∉ piece := fun piece member =>
      (isModuleSegment_iff.mp (segments piece member)).not_mem (by decide)
    refine extended.forall_mem named fun piece member => ?_
    rw [List.mem_append, not_or]
    exact ⟨named piece member, by decide⟩
  rw [joined, List.splitOn_intercalate '/' free (List.append_ne_nil_of_right_ne_nil _
    (List.cons_ne_nil _ _)), ← moduleSegments_eq_splitOn]
  exact extended

theorem isDownward_modulePath {moduleName path : String}
    (valid : modulePath? moduleName = some path) : Path.IsDownward path := by
  have proper : ∀ piece ∈ moduleName.toList.splitOn '.', Text.IsProperName piece := by
    rw [← moduleSegments_eq_splitOn]
    exact fun piece member =>
      isModuleSegment_iff.mp ((modulePath?_eq_some_iff.mp valid).1 piece member)
  have begins : ∀ segment ∈ path.toList.splitOn '/', segment ≠ [] ∧ segment.head? ≠ some '.' := by
    refine (isExtended_modulePath valid).forall_mem (fun piece member => ?_) fun piece member => ?_
    · exact ⟨(proper piece member).ne_nil, (proper piece member).head_ne (by decide)⟩
    · have named := proper piece member
      rw [List.head?_append_of_ne_nil _ named.ne_nil]
      exact ⟨List.append_ne_nil_of_left_ne_nil named.ne_nil _, named.head_ne (by decide)⟩
  intro segment member
  obtain ⟨nonempty, other⟩ := begins segment member
  refine ⟨nonempty, ?_, ?_⟩ <;> rintro rfl <;> exact other rfl

/-- The path is made of the pieces. It is relative, all of its segments lead down, and so it
stays below every folder that it is joined to. -/
structure Spells (path : String) (pieces : List (List Char)) : Prop where
  segments : IsExtended pieces (path.toList.splitOn '/')
  relative : Workspace.isAbsolute path = false
  downward : Path.IsDownward path
  below : ∀ folder, Path.place? (Path.join folder path) =
    (Path.place? folder).map (· ++ (path.toList.splitOn '/').map String.ofList)

theorem spells_modulePath {moduleName path : String}
    (valid : modulePath? moduleName = some path) :
    Spells path (moduleName.toList.splitOn '.') where
  segments := isExtended_modulePath valid
  relative := (isDownward_modulePath valid).relative
  downward := isDownward_modulePath valid
  below := (isDownward_modulePath valid).place?_join

/-- Exactly the names that are made of proper names have paths. Different names have different
paths, and none of them leaves the folder of the output. With another name nothing is
generated, whatever the model is. -/
theorem module_paths_stay_below (moduleName : String) :
    ((∃ path, modulePath moduleName = .ok path) ↔
      ∀ piece ∈ moduleName.toList.splitOn '.', Text.IsProperName piece) ∧
    (∀ path, modulePath moduleName = .ok path →
      Spells path (moduleName.toList.splitOn '.') ∧
        ∀ other, modulePath other = .ok path → other = moduleName) ∧
    ((∃ piece ∈ moduleName.toList.splitOn '.', ¬Text.IsProperName piece) →
      ∀ options model, generate options moduleName model = .error ⟨moduleName⟩) := by
  have accepted : (∃ path, modulePath moduleName = .ok path) ↔
      ∀ piece ∈ moduleName.toList.splitOn '.', Text.IsProperName piece := by
    simp only [modulePath_eq_ok_iff, ← moduleSegments_eq_splitOn, ← isModuleSegment_iff]
    constructor
    · rintro ⟨path, valid⟩
      exact (modulePath?_eq_some_iff.mp valid).1
    · intro segments
      exact ⟨_, if_pos segments⟩
  refine ⟨accepted, fun path valid => ⟨?_, fun other valid' => ?_⟩, ?_⟩
  · exact spells_modulePath (modulePath_eq_ok_iff.mp valid)
  · have pieces := isExtended_modulePath (modulePath_eq_ok_iff.mp valid)
    have pieces' := isExtended_modulePath (modulePath_eq_ok_iff.mp valid')
    exact splitOn_dot_injective (pieces'.injective pieces)
  · rintro ⟨piece, member, improper⟩
    refine generate_of_unnamed (Option.eq_none_iff_forall_ne_some.mpr fun path valid => ?_)
    exact improper (accepted.mp ⟨path, modulePath_eq_ok_iff.mpr valid⟩ piece member)

theorem module_paths_stay_below_samples :
    (modulePath "Api.Types_2" = .ok "Api/Types_2.purs" ∧
      Spells "Api/Types_2.purs" ["Api".toList, "Types_2".toList]) ∧
    (∃ piece ∈ "Api..Etc".toList.splitOn '.', ¬Text.IsProperName piece) ∧
      ∀ options model, generate options "Api..Etc" model = .error ⟨"Api..Etc"⟩ := by
  have valid : modulePath "Api.Types_2" = .ok "Api/Types_2.purs" :=
    modulePath_eq_ok_iff.mpr (by decide +kernel)
  have pieces : "Api.Types_2".toList.splitOn '.' = ["Api".toList, "Types_2".toList] := by
    decide +kernel
  have empty : ∃ piece ∈ "Api..Etc".toList.splitOn '.', ¬Text.IsProperName piece := by
    decide +kernel
  refine ⟨⟨valid, ?_⟩, empty, (module_paths_stay_below "Api..Etc").2.2 empty⟩
  rw [← pieces]
  exact ((module_paths_stay_below "Api.Types_2").2.1 _ valid).1

end Schemata.PureScript
