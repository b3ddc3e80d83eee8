import Schemata.Proofs.Resolution.AliasCycle
import Schemata.Proofs.Resolution.Assignment

namespace Schemata.Resolution

/-! What a complete assignment of names guarantees: one name for every position of a
declaration, no name twice, type names for the roots, and no reference to nowhere. -/

structure Named (forest : Forest) (assignment : Assignment) : Prop where
  positions_perm : (assignment.names.map Prod.fst).Perm (positions forest)
  distinct : (assignment.names.map Prod.snd).Nodup
  declared : ∀ root ∈ forest.roots,
    Assignment.declaredName root ∈ assignment.names

theorem positions_perm (forest : Forest) :
    ((forest.roots.flatMap fun root =>
        (shapesWithin ⟨root.1, []⟩ root.2).map Prod.fst) ++
      forest.roots.map fun root => (⟨root.1, []⟩ : Position)).Perm
      (positions forest) := by
  rw [List.map_eq_flatMap]
  refine (List.flatMap_append_perm _ _ _).trans (List.Perm.of_eq ?_)
  simp only [positions, namedNodes, List.map_append, List.map_cons, List.map_nil]

/-- The positions that a clean walk names and those named before it are all there are. -/
theorem perm_promoted_declared {forest : Forest} {declared : Assignment}
    (clean : ∀ error, .error error ∉ promotions forest)
    (declares : Assignment.empty.declareAll forest.roots = .ok declared) :
    (((promotions forest).filterMap Except.toOption).map (·.position) ++
      declared.names.map Prod.fst).Perm (positions forest) := by
  obtain ⟨-, names⟩ :=
    Assignment.names_of_declareAll Assignment.sound_empty declares
  refine List.Perm.trans ?_ (positions_perm forest)
  refine (perm_promoted_positions clean).append ?_
  simp [names, Assignment.empty, Assignment.declaredName, Function.comp_def,
    List.reverse_perm]

theorem named_of_ofForest {forest : Forest} {assignment : Assignment}
    (assigned : Assignment.ofForest forest = .ok assignment) :
    Named forest assignment := by
  obtain ⟨declared, declares, promotes⟩ :=
    Assignment.ofForest_eq_ok_iff.mp assigned
  obtain ⟨declaredSound, declaredNames⟩ :=
    Assignment.names_of_declareAll Assignment.sound_empty declares
  obtain ⟨sound, keeps, names⟩ :=
    Assignment.names_of_promoteAll declaredSound promotes
  have clean := Assignment.clean_of_promoteAll promotes
  constructor
  · rw [names]
    exact ((List.reverse_perm _).append_right _).trans
      (perm_promoted_declared clean declares)
  · exact sound.agrees ▸ sound.distinct
  · intro root member
    refine keeps.subset ?_
    rw [declaredNames]
    exact List.mem_append_left _
      (List.mem_reverse.mpr (List.mem_map.mpr ⟨root, member, rfl⟩))

namespace Named

variable {forest : Forest} {assignment : Assignment}

theorem nodup_positions (named : Named forest assignment) :
    (assignment.names.map Prod.fst).Nodup :=
  named.positions_perm.nodup_iff.mpr (Resolution.nodup_positions forest)

theorem nameOf_eq (named : Named forest assignment) {position : Position}
    {name : String} (member : (position, name) ∈ assignment.names) :
    assignment.nameOf position = name := by
  have found := (Entries.lookup_eq_some_iff named.nodup_positions).mpr member
  simp only [Assignment.nameOf, found, Option.getD_some]

theorem follows_nameOf (named : Named forest assignment) :
    Assignment.Follows assignment.nameOf assignment.names :=
  fun _ given => (named.nameOf_eq given).symm

theorem nameOf_root (named : Named forest assignment) {root : String}
    (member : root ∈ forest.roots.map Prod.fst) :
    assignment.nameOf ⟨root, []⟩ = typeName root := by
  obtain ⟨entry, declared, rfl⟩ := List.mem_map.mp member
  exact named.nameOf_eq (named.declared entry declared)

theorem mem_names (named : Named forest assignment) {position : Position}
    (member : position ∈ positions forest) :
    (position, assignment.nameOf position) ∈ assignment.names := by
  obtain ⟨⟨_, name⟩, given, rfl⟩ :=
    List.mem_map.mp (named.positions_perm.mem_iff.mpr member)
  exact (named.nameOf_eq given).symm ▸ given

theorem nameOf_inj (named : Named forest assignment) {left right : Position}
    (leftMember : left ∈ positions forest) (rightMember : right ∈ positions forest)
    (same : assignment.nameOf left = assignment.nameOf right) : left = right := by
  have entries := List.inj_on_of_nodup_map named.distinct
    (named.mem_names leftMember) (named.mem_names rightMember) same
  exact congrArg Prod.fst entries

theorem nodup_names (named : Named forest assignment) :
    ((positions forest).map assignment.nameOf).Nodup :=
  (Resolution.nodup_positions forest).map_on fun _ left _ right same =>
    named.nameOf_inj left right same

end Named

end Schemata.Resolution
