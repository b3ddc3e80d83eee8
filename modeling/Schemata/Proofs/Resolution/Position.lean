import Mathlib.Data.List.Nodup
import Schemata.Resolution.Stop

namespace Schemata.Resolution.Position

/-! Positions below one another. Children with different indices have nothing below
them in common. -/

theorem path_child_ne_nil (position : Position) {index : Nat} :
    (position.child index).path ≠ [] :=
  List.append_ne_nil_of_right_ne_nil _ (List.cons_ne_nil _ _)

/-- A child of the owner or a position below that child. -/
def Beneath (owner : Position) (index : Nat) (position : Position) : Prop :=
  ∃ rest, position = ⟨owner.root, owner.path ++ index :: rest⟩

variable {owner position : Position} {index other : Nat}

theorem beneath_child (owner : Position) (index : Nat) :
    Beneath owner index (owner.child index) :=
  ⟨[], rfl⟩

theorem Beneath.of_child (beneath : Beneath (owner.child index) other position) :
    Beneath owner index position := by
  obtain ⟨rest, rfl⟩ := beneath
  exact ⟨other :: rest, by simp [child]⟩

theorem Beneath.index_eq (left : Beneath owner index position)
    (right : Beneath owner other position) : index = other := by
  obtain ⟨_, rfl⟩ := left
  obtain ⟨_, same⟩ := right
  have paths := congrArg path same
  exact (List.cons.inj (List.append_cancel_left paths)).1

theorem Beneath.root_eq (beneath : Beneath owner index position) :
    position.root = owner.root := by
  obtain ⟨_, rfl⟩ := beneath
  rfl

theorem Beneath.length_lt (beneath : Beneath owner index position) :
    owner.path.length < position.path.length := by
  obtain ⟨rest, rfl⟩ := beneath
  simp only [List.length_append, List.length_cons]
  omega

theorem Beneath.ne_owner (beneath : Beneath owner index position) :
    position ≠ owner := by
  rintro rfl
  exact Nat.lt_irrefl _ beneath.length_lt

/-- Below the owner, at or after the child of an index. -/
def From (owner : Position) (index : Nat) (position : Position) : Prop :=
  ∃ other, index ≤ other ∧ owner.Beneath other position

theorem Beneath.start (beneath : Beneath owner index position) :
    From owner index position :=
  ⟨index, Nat.le_refl _, beneath⟩

theorem From.of_succ (later : From owner (index + 1) position) :
    From owner index position := by
  obtain ⟨other, after, beneath⟩ := later
  exact ⟨other, Nat.le_of_succ_le after, beneath⟩

theorem From.beneath (inside : From (owner.child index) other position) :
    Beneath owner index position := by
  obtain ⟨_, _, beneath⟩ := inside
  exact beneath.of_child

theorem From.not_beneath (later : From owner (index + 1) position) :
    ¬ Beneath owner index position := by
  intro beneath
  obtain ⟨other, after, laterBeneath⟩ := later
  have same := beneath.index_eq laterBeneath
  omega

theorem From.ne_owner (inside : From owner index position) :
    position ≠ owner := by
  obtain ⟨_, _, beneath⟩ := inside
  exact beneath.ne_owner

structure Spread (region : Position → Prop) (positions : List Position) : Prop where
  distinct : positions.Nodup
  inside : ∀ position ∈ positions, region position

theorem spread_nil (region : Position → Prop) : Spread region [] :=
  ⟨List.nodup_nil, by simp⟩

theorem Spread.mono {region wider : Position → Prop} {positions : List Position}
    (spread : Spread region positions)
    (widens : ∀ position, region position → wider position) :
    Spread wider positions :=
  ⟨spread.distinct, fun position member => widens _ (spread.inside position member)⟩

theorem Spread.append {left right region : Position → Prop}
    {first second : List Position} (leftSpread : Spread left first)
    (rightSpread : Spread right second)
    (apart : ∀ position, left position → ¬ right position)
    (leftInside : ∀ position, left position → region position)
    (rightInside : ∀ position, right position → region position) :
    Spread region (first ++ second) := by
  constructor
  · refine List.nodup_append'.mpr
      ⟨leftSpread.distinct, rightSpread.distinct, ?_⟩
    intro position leftMember rightMember
    exact apart position (leftSpread.inside position leftMember)
      (rightSpread.inside position rightMember)
  · intro position member
    rcases List.mem_append.mp member with leftMember | rightMember
    · exact leftInside position (leftSpread.inside position leftMember)
    · exact rightInside position (rightSpread.inside position rightMember)

end Schemata.Resolution.Position
