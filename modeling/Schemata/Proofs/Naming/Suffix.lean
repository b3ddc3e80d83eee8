import Mathlib.Data.List.Nodup
import Mathlib.Data.List.Perm.Subperm
import Schemata.Proofs.Naming.Registry

namespace Schemata

/-! The search for a free number. It always ends with one: there are more candidates than
names in use. -/

/-- The base with the least number from two on that makes it an unused name. -/
structure IsFirstFree (used : List String) (base name : String) : Prop where
  free : name ∉ used
  least : ∃ number, 2 ≤ number ∧ name = suffixed base number ∧
    ∀ smaller, 2 ≤ smaller → smaller < number → suffixed base smaller ∈ used

private theorem exists_free_number (used : List String) (base : String) :
    ∃ number ∈ List.range' 2 (used.length + 1), suffixed base number ∉ used := by
  by_contra taken
  push Not at taken
  have distinct : ((List.range' 2 (used.length + 1)).map (suffixed base)).Nodup :=
    (List.nodup_range' : (List.range' 2 (used.length + 1)).Nodup).map
      (suffixed_injective base)
  have inUse : (List.range' 2 (used.length + 1)).map (suffixed base) ⊆ used := by
    intro name member
    obtain ⟨number, among, rfl⟩ := List.mem_map.mp member
    exact taken number among
  have few := (List.subperm_of_subset distinct inUse).length_le
  simp only [List.length_map, List.length_range'] at few
  omega

theorem isFirstFree_freeSuffixed (used : List String) (base : String) :
    IsFirstFree used base (freeSuffixed used base) := by
  obtain ⟨free, among, unused⟩ := exists_free_number used base
  unfold freeSuffixed
  cases found : (List.range' 2 (used.length + 1)).findSome? fun number =>
      let candidate := suffixed base number
      if candidate ∈ used then none else some candidate with
  | none =>
      have taken := List.findSome?_eq_none_iff.mp found free among
      simp only [if_neg unused, reduceCtorEq] at taken
  | some name =>
      obtain ⟨before, number, after, split, reads, earlier⟩ :=
        List.findSome?_eq_some_iff.mp found
      obtain ⟨count, _, rfl, rest⟩ := List.range'_eq_append_iff.mp split
      obtain ⟨rfl, _, _⟩ := List.range'_eq_cons_iff.mp rest.symm
      rw [Option.ite_none_left_eq_some, Option.some.injEq] at reads
      obtain ⟨unused, rfl⟩ := reads
      refine ⟨unused, _, by omega, rfl, ?_⟩
      intro smaller start below
      have skipped := earlier smaller (List.mem_range'_1.mpr ⟨start, by omega⟩)
      simpa using skipped

/-! The same search number by number. -/

/-- Counting up from a number ends at the first that makes an unused name. -/
inductive Search (used : List String) (base : String) : Nat → Nat → Prop
  | found {number : Nat} (free : suffixed base number ∉ used) : Search used base number number
  | next {number last : Nat} (taken : suffixed base number ∈ used)
      (later : Search used base (number + 1) last) : Search used base number last

variable {used : List String} {base name : String}

theorem Search.le {number last : Nat} (search : Search used base number last) :
    number ≤ last := by
  induction search with
  | found => exact Nat.le_refl _
  | next _ _ induction => exact Nat.le_of_succ_le induction

theorem Search.free {number last : Nat} (search : Search used base number last) :
    suffixed base last ∉ used := by
  induction search with
  | found free => exact free
  | next _ _ induction => exact induction

theorem search_of_taken {number count : Nat}
    (taken : ∀ step < count, suffixed base (number + step) ∈ used)
    (free : suffixed base (number + count) ∉ used) :
    Search used base number (number + count) := by
  induction count generalizing number with
  | zero => exact .found free
  | succ count induction =>
      refine .next (taken 0 (Nat.succ_pos count)) ?_
      rw [Nat.add_comm count, ← Nat.add_assoc] at free ⊢
      refine induction (fun step below => ?_) free
      have here := taken (step + 1) (Nat.succ_lt_succ below)
      rwa [Nat.add_comm step, ← Nat.add_assoc] at here

/-- The search from two on ends, at the number of the first free name. -/
theorem IsFirstFree.exists_search (first : IsFirstFree used base name) :
    ∃ last, Search used base 2 last ∧ name = suffixed base last := by
  obtain ⟨number, start, rfl, taken⟩ := first.least
  obtain ⟨count, rfl⟩ := Nat.exists_eq_add_of_le start
  exact ⟨_, search_of_taken (fun step below => taken _ (by omega) (by omega)) first.free, rfl⟩

end Schemata
