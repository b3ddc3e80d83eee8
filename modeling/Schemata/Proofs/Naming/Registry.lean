import Mathlib.Data.List.Nodup
import Mathlib.Data.List.Perm.Subperm
import Schemata.Entries
import Schemata.Naming.Registry

namespace Schemata

/-! Names that a registry gives out: each is new, and as long as fewer names are in use
than there are candidates, one is found for every shape. -/

theorem naturalText_injective : Function.Injective naturalText := by
  intro left right same
  have read := congrArg (Nat.ofDigitChars 10 · 0) same
  simpa only [naturalText, Nat.ofDigitChars_ten_toDigits] using read

theorem suffixed_injective (base : String) :
    Function.Injective (suffixed base) := by
  intro left right same
  have suffixes := congrArg String.toList same
  simp only [suffixed, String.toList_append, String.toList_ofList,
    List.append_cancel_left_eq] at suffixes
  exact naturalText_injective suffixes

theorem suffixed_ne_base (base : String) (number : Nat) :
    suffixed base number ≠ base := by
  intro same
  have suffix := congrArg String.toList same
  simp only [suffixed, String.toList_append, String.toList_ofList,
    List.append_right_eq_self, naturalText] at suffix
  exact Nat.toDigits_ne_nil suffix

/-- A name, or the name with one of the numbers after it that make names different. -/
def IsNumbered (base name : String) : Prop :=
  name = base ∨ ∃ number, 2 ≤ number ∧ number ≤ 999 ∧ name = suffixed base number

namespace Registry

def names (registry : Registry) : List String :=
  registry.assigned.map Prod.fst

theorem length_names (registry : Registry) :
    registry.names.length = registry.size :=
  List.length_map _

theorem owner?_eq_none_iff {registry : Registry} {name : String} :
    registry.owner? name = none ↔ name ∉ registry.names :=
  Entries.lookup_eq_none_iff

structure Gives (registry : Registry) (location : Location) (name : String)
    (next : Registry) : Prop where
  fresh : name ∉ registry.names
  next_eq : next = registry.add name location

variable {registry next : Registry} {location : Location} {base name : String}
  {error : CompileError}

theorem Gives.names_eq (gives : registry.Gives location name next) :
    next.names = name :: registry.names := by
  rw [gives.next_eq]
  rfl

theorem Gives.size_eq (gives : registry.Gives location name next) :
    next.size = registry.size + 1 := by
  rw [gives.next_eq]
  rfl

theorem claim_of_fresh (fresh : base ∉ registry.names) :
    registry.claim base location = .ok (base, registry.add base location) := by
  simp only [claim, owner?_eq_none_iff.mpr fresh]

theorem gives_of_claim (claimed : registry.claim base location = .ok (name, next)) :
    name = base ∧ registry.Gives location name next := by
  unfold claim at claimed
  split at claimed
  · cases claimed
  · next free =>
    cases claimed
    exact ⟨rfl, owner?_eq_none_iff.mp free, rfl⟩

theorem error_of_claim (failed : registry.claim base location = .error error) :
    ∃ existing, (base, existing) ∈ registry.assigned ∧
      error = .nameCollision location base existing := by
  unfold claim at failed
  split at failed
  · next existing held =>
    cases failed
    exact ⟨existing, Entries.mem_of_lookup held, rfl⟩
  · cases failed

theorem gives_of_synthesize
    (made : registry.synthesize base location = .ok (name, next)) :
    registry.Gives location name next := by
  unfold synthesize at made
  split at made
  · next free =>
    cases made
    exact ⟨owner?_eq_none_iff.mp free, rfl⟩
  · split at made
    · next found =>
      cases made
      have free := List.find?_some found
      exact ⟨owner?_eq_none_iff.mp (Option.isNone_iff_eq_none.mp free), rfl⟩
    · cases made

theorem isNone_owner? (registry : Registry) (name : String) :
    (registry.owner? name).isNone = decide (name ∉ registry.names) := by
  rw [Bool.eq_iff_iff, Option.isNone_iff_eq_none, owner?_eq_none_iff,
    decide_eq_true_iff]

/-- The name made up is the first unused one among the base and its candidates. -/
theorem synthesize_eq_ok_iff :
    registry.synthesize base location = .ok (name, next) ↔
      (base :: candidates base).find? (decide <| · ∉ registry.names) = some name ∧
        next = registry.add name location := by
  rw [List.find?_cons, ← isNone_owner?, synthesize]
  simp only [← isNone_owner?]
  cases registry.owner? base with
  | none =>
      simp only [Option.isNone_none, Except.ok.injEq, Prod.mk.injEq,
        Option.some.injEq]
      constructor <;> rintro ⟨rfl, rfl⟩ <;> exact ⟨rfl, rfl⟩
  | some existing =>
      simp only [Option.isNone_some]
      cases (candidates base).find? fun name => (registry.owner? name).isNone with
      | none => simp
      | some found =>
          simp only [Except.ok.injEq, Prod.mk.injEq, Option.some.injEq]
          constructor <;> rintro ⟨rfl, rfl⟩ <;> exact ⟨rfl, rfl⟩

theorem isNumbered_of_synthesize
    (made : registry.synthesize base location = .ok (name, next)) :
    IsNumbered base name := by
  obtain ⟨found, -⟩ := synthesize_eq_ok_iff.mp made
  rcases List.mem_cons.mp (List.mem_of_find?_eq_some found) with same | candidate
  · exact .inl same
  · obtain ⟨number, among, same⟩ := List.mem_map.mp candidate
    obtain ⟨start, last⟩ := List.mem_range'_1.mp among
    rw [lastSuffix] at last
    exact .inr ⟨number, start, by omega, same.symm⟩

theorem synthesize_of_fresh (fresh : base ∉ registry.names) :
    registry.synthesize base location =
      .ok (base, registry.add base location) := by
  refine synthesize_eq_ok_iff.mpr ⟨List.find?_cons_of_pos ?_, rfl⟩
  simpa using fresh

/-- One more name in use makes no difference to a search that ends with another: what
comes before the name that is found is in use anyway. -/
theorem synthesize_beside {wider : Registry} {held : String}
    (made : registry.synthesize base location = .ok (name, next))
    (different : name ≠ held)
    (names : ∀ known, known ∈ wider.names ↔
      known = held ∨ known ∈ registry.names) :
    wider.synthesize base location = .ok (name, wider.add name location) := by
  refine synthesize_eq_ok_iff.mpr ⟨?_, rfl⟩
  obtain ⟨found, -⟩ := synthesize_eq_ok_iff.mp made
  obtain ⟨free, before, after, split, used⟩ :=
    List.find?_eq_some_iff_append.mp found
  refine List.find?_eq_some_iff_append.mpr
    ⟨?_, before, after, split, fun earlier member => ?_⟩
  · simpa [names, different] using free
  · have inUse : earlier ∈ registry.names := by simpa using used earlier member
    simp [names, inUse]

theorem error_of_synthesize
    (failed : registry.synthesize base location = .error error) :
    ∃ existing, (base, existing) ∈ registry.assigned ∧
      error = .nameCollision location base existing := by
  unfold synthesize at failed
  split at failed
  · cases failed
  · next existing held =>
    split at failed
    · cases failed
    · cases failed
      exact ⟨existing, Entries.mem_of_lookup held, rfl⟩

theorem nodup_candidates (base : String) : (base :: candidates base).Nodup := by
  refine List.nodup_cons.mpr ⟨?_, ?_⟩
  · intro member
    obtain ⟨number, _, same⟩ := List.mem_map.mp member
    exact suffixed_ne_base base number same
  · have numbers : (List.range' 2 (lastSuffix - 1)).Nodup := List.nodup_range'
    exact numbers.map (suffixed_injective base)

theorem length_candidates (base : String) :
    (base :: candidates base).length = lastSuffix := by
  simp [candidates, lastSuffix]

/-- The base and its candidates are more names than a small registry has. -/
theorem synthesize_of_size_lt (small : registry.size < lastSuffix) :
    ∃ name next, registry.synthesize base location = .ok (name, next) := by
  unfold synthesize
  split
  · exact ⟨base, _, rfl⟩
  · next existing taken =>
    split
    · next name _ => exact ⟨name, _, rfl⟩
    · next exhausted =>
      have used : base :: candidates base ⊆ registry.names := by
        refine List.cons_subset.mpr ⟨?_, fun candidate member => ?_⟩
        · by_contra free
          rw [owner?_eq_none_iff.mpr free] at taken
          cases taken
        · by_contra free
          have unused := List.find?_eq_none.mp exhausted candidate member
          rw [owner?_eq_none_iff.mpr free] at unused
          exact unused rfl
      have few := (List.subperm_of_subset (nodup_candidates base) used).length_le
      rw [length_candidates, length_names] at few
      omega

end Registry

end Schemata
