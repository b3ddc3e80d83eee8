import Mathlib.Data.List.Nodup
import Mathlib.Logic.Relation
import Schemata.Proofs.Resolution.Visit

namespace Schemata

/-! Roots that are references, and the search for a chain of them that comes back to
where it was. -/

/-- A root that is declared as a reference to the target. -/
def Forest.Alias (forest : Forest) (root target : String) : Prop :=
  ∃ info, (root, Schema.reference info target) ∈ forest.roots

namespace Resolution

open Relation

variable {forest : Forest} {root target other : String}

theorem lookup_of_alias (alias_ : forest.Alias root target) :
    ∃ info, forest.roots.lookup root = some (.reference info target) := by
  obtain ⟨info, declared⟩ := alias_
  exact ⟨info, lookup_eq_some_iff.mpr declared⟩

theorem alias_of_lookup {info : SchemaInfo}
    (found : forest.roots.lookup root = some (.reference info target)) :
    forest.Alias root target :=
  ⟨info, lookup_eq_some_iff.mp found⟩

theorem alias_unique (left : forest.Alias root target)
    (right : forest.Alias root other) : target = other := by
  obtain ⟨_, leftFound⟩ := lookup_of_alias left
  obtain ⟨_, rightFound⟩ := lookup_of_alias right
  have same := Option.some.inj (leftFound.symm.trans rightFound)
  exact (Schema.reference.inj same).2

theorem mem_roots_of_alias (alias_ : forest.Alias root target) :
    root ∈ forest.roots.map Prod.fst := by
  obtain ⟨info, declared⟩ := alias_
  exact List.mem_map.mpr ⟨_, declared, rfl⟩

theorem cycle_of_alias (alias_ : forest.Alias root target)
    (cycle : TransGen forest.Alias root root) :
    TransGen forest.Alias target target := by
  obtain ⟨next, first, rest⟩ := TransGen.head'_iff.mp cycle
  rw [alias_unique first alias_] at rest
  exact TransGen.tail' rest alias_

/-- The search reports cycles only. The names seen so far all lead to the one at
hand. -/
theorem cycle_of_aliasCycle? {bound : Nat} {seen : List String}
    (leads : ∀ name ∈ seen, TransGen forest.Alias name root)
    (reported : aliasCycle? forest bound seen root = some target) :
    TransGen forest.Alias target target := by
  induction bound generalizing seen root with
  | zero => cases reported
  | succ bound induction =>
      simp only [aliasCycle?] at reported
      split at reported
      · next info next found =>
        have alias_ := alias_of_lookup found
        split at reported
        · next again =>
          cases reported
          exact cycle_of_alias alias_ (leads root again)
        · refine induction ?_ reported
          intro name member
          rcases List.mem_cons.mp member with rfl | earlier
          · exact .single alias_
          · exact (leads name earlier).tail alias_
      · cases reported

/-- The search does not miss a cycle: it cannot see more names than there are roots
without a repetition. -/
theorem aliasCycle?_of_cycle {bound : Nat} {seen : List String}
    (distinct : seen.Nodup) (declared : seen ⊆ forest.roots.map Prod.fst)
    (bounded : forest.roots.length < seen.length + bound)
    (cycle : TransGen forest.Alias root root) :
    ∃ target, aliasCycle? forest bound seen root = some target := by
  induction bound generalizing seen root with
  | zero =>
      have few := (List.subperm_of_subset distinct declared).length_le
      rw [List.length_map] at few
      omega
  | succ bound induction =>
      obtain ⟨next, alias_, _⟩ := TransGen.head'_iff.mp cycle
      obtain ⟨info, found⟩ := lookup_of_alias alias_
      simp only [aliasCycle?, found]
      by_cases again : root ∈ seen
      · exact ⟨next, if_pos again⟩
      · rw [if_neg again]
        refine induction (List.nodup_cons.mpr ⟨again, distinct⟩) ?_ ?_
          (cycle_of_alias alias_ cycle)
        · exact List.cons_subset.mpr ⟨mem_roots_of_alias alias_, declared⟩
        · simp only [List.length_cons]
          omega

theorem failure_mem_rootStops_of_cycle (alias_ : forest.Alias root target)
    (cycle : TransGen forest.Alias root root) {schema : Schema}
    (found : forest.roots.lookup root = some schema) :
    ∃ error, .failure error ∈ rootStops forest root schema := by
  obtain ⟨info, aliasFound⟩ := lookup_of_alias alias_
  cases Option.some.inj (found.symm.trans aliasFound)
  have bounded : forest.roots.length <
      ([] : List String).length + (forest.roots.length + 1) := by
    simp
  obtain ⟨met, reported⟩ := aliasCycle?_of_cycle List.nodup_nil
    (List.nil_subset _) bounded cycle
  simp only [rootStops, reported]
  exact ⟨_, List.mem_cons_self⟩

theorem mem_rootStops {schema : Schema} {stop : Stop}
    (member : stop ∈ rootStops forest root schema) :
    (∃ target, stop = .failure (.malformed schema.location (.aliasCycle target)) ∧
      TransGen forest.Alias target target) ∨
      stop ∈ definitionStops ⟨root, []⟩ schema := by
  unfold rootStops at member
  split at member
  · split at member
    · next target reported =>
      rcases List.mem_cons.mp member with rfl | inner
      · exact .inl ⟨target, rfl, cycle_of_aliasCycle? (by simp) reported⟩
      · exact .inr inner
    · exact .inr member
  · exact .inr member

theorem definitionStops_subset_rootStops (schema : Schema) :
    definitionStops ⟨root, []⟩ schema ⊆ rootStops forest root schema := by
  unfold rootStops
  split
  · split
    · exact List.subset_cons_self _ _
    · exact List.Subset.refl _
  · exact List.Subset.refl _

end Resolution

end Schemata
