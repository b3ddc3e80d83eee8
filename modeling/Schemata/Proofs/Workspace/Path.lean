import Mathlib.Data.List.Induction
import Mathlib.Data.List.TakeWhile
import Mathlib.Data.Option.Basic
import Schemata.Proofs.Text.Lines
import Schemata.Workspace.Basic

namespace Schemata

/-! Where paths lead, whatever stands there. -/

namespace Path

/-- The parts of a path that leave the place where one is. -/
def stepsOf (text : List Char) : List String :=
  ((Text.splitWhere (· == '/') text).map String.ofList).filter (!staysIn ·)

def steps (path : String) : List String :=
  stepsOf path.toList

/-- The place to which steps lead, unless they leave the workspace. -/
def walk? : Place → List String → Option Place
  | place, [] => some place
  | place, step :: rest =>
      if step = ".." then
        if place.isEmpty then none else walk? place.dropLast rest
      else walk? (place ++ [step]) rest

/-- The places that are entered by their names. -/
def entered : Place → List String → List Place
  | _, [] => []
  | place, step :: rest =>
      if step = ".." then entered place.dropLast rest
      else (place ++ [step]) :: entered (place ++ [step]) rest

/-- The place of a path. Nothing outside of the workspace has one. -/
def place? (path : String) : Option Place :=
  if Workspace.isAbsolute path then none else walk? [] (steps path)

/-- The places on the way of a path, with the one where it ends. -/
def waypoints (path : String) : List Place :=
  entered [] (steps path)

theorem walk?_append {place : Place} {first second : List String} :
    walk? place (first ++ second) = (walk? place first).bind (walk? · second) := by
  induction first generalizing place with
  | nil => rfl
  | cons step rest induction =>
      simp only [List.cons_append, walk?, induction]
      split_ifs <;> rfl

/-! Steps of paths that are made of others. -/

section

variable (left right text : List Char)

theorem stepsOf_append_slash :
    stepsOf (left ++ '/' :: right) = stepsOf left ++ stepsOf right := by
  rw [stepsOf, Text.splitWhere_append_separator rfl, List.map_append, List.filter_append]
  rfl

theorem stepsOf_nil : stepsOf [] = [] :=
  rfl

/-- A path without the slashes at its end. -/
def trimSlashes : List Char :=
  (text.reverse.dropWhile (· == '/')).reverse

theorem stepsOf_trimSlashes : stepsOf (trimSlashes text) = stepsOf text := by
  induction text using List.reverseRecOn with
  | nil => rfl
  | append_singleton front last induction =>
      by_cases slash : last = '/'
      · subst slash
        rw [stepsOf_append_slash, stepsOf_nil, List.append_nil, ← induction]
        simp [trimSlashes]
      · simp [trimSlashes, slash]

def parentOf : List Char :=
  ((text.reverse.dropWhile (· != '/')).dropWhile (· == '/')).reverse

theorem parent_eq (path : String) : (parent path).toList = parentOf path.toList := by
  rw [parent, String.toList_ofList]
  rfl

end

section

variable {text front name : List Char}

theorem not_slash_of_free (free : '/' ∉ name) :
    ∀ char ∈ name.reverse, (char != '/') = true := by
  intro char member
  rw [bne_iff_ne]
  rintro rfl
  exact free (List.mem_reverse.mp member)

theorem parentOf_of_free (free : '/' ∉ name) : parentOf name = [] := by
  rw [parentOf, List.dropWhile_eq_nil_iff.mpr (not_slash_of_free free)]
  rfl

theorem parentOf_append_slash (free : '/' ∉ name) :
    parentOf (front ++ '/' :: name) = trimSlashes front := by
  have reversed : (front ++ '/' :: name).reverse = name.reverse ++ '/' :: front.reverse := by
    simp
  rw [parentOf, reversed, List.dropWhile_append_of_pos (not_slash_of_free free)]
  rfl

end

theorem join_cases (folder path : String) :
    join folder path = path ∨
      ∃ front, (join folder path).toList = front ++ '/' :: path.toList := by
  unfold join
  split
  · next bare =>
    obtain empty | slash := Bool.or_eq_true_iff.mp bare
    · exact .inl (by rw [String.isEmpty_iff.mp empty, String.empty_append])
    · obtain ⟨front, ends⟩ := List.getLast?_eq_some_iff.mp (beq_iff_eq.mp slash)
      refine .inr ⟨front, ?_⟩
      rw [String.toList_append, ends, List.append_assoc]
      rfl
  · refine .inr ⟨folder.toList, ?_⟩
    rw [String.toList_append, String.toList_append, List.append_assoc]
    rfl

/-- The path follows on the folder. -/
theorem steps_join (folder path : String) :
    steps (join folder path) = steps folder ++ steps path := by
  unfold join
  split
  · next bare =>
    obtain empty | slash := Bool.or_eq_true_iff.mp bare
    · rw [String.isEmpty_iff.mp empty, String.empty_append]
      rfl
    · obtain ⟨front, ends⟩ := List.getLast?_eq_some_iff.mp (beq_iff_eq.mp slash)
      rw [steps, steps, steps, String.toList_append, ends, List.append_assoc,
        List.singleton_append, stepsOf_append_slash, stepsOf_append_slash, stepsOf_nil,
        List.append_nil]
  · have text : (folder ++ "/" ++ path).toList = folder.toList ++ '/' :: path.toList := by
      rw [String.toList_append, String.toList_append, List.append_assoc]
      rfl
    rw [steps, text, stepsOf_append_slash]
    rfl

theorem isAbsolute_join {path : String} (relative : Workspace.isAbsolute path = false)
    (folder : String) :
    Workspace.isAbsolute (join folder path) = Workspace.isAbsolute folder := by
  by_cases empty : folder = ""
  · subst empty
    have itself : join "" path = path := String.empty_append
    rw [itself, relative]
    rfl
  · have present : folder.toList ≠ [] := fun none => empty (String.toList_eq_nil_iff.mp none)
    unfold join Workspace.isAbsolute
    split <;> simp only [String.toList_append, List.append_assoc,
      List.head?_append_of_ne_nil _ present]

/-- Steps that do not go up end below the place where they begin. -/
theorem walk?_of_forward {place : Place} {steps : List String}
    (forward : ".." ∉ steps) : walk? place steps = some (place ++ steps) := by
  induction steps generalizing place with
  | nil => rw [walk?, List.append_nil]
  | cons step rest induction =>
      obtain ⟨here, later⟩ := not_or.mp (List.mem_cons.not.mp forward)
      rw [walk?, if_neg (Ne.symm here), induction later, List.append_assoc,
        List.singleton_append]

/-- All segments are names, so none is empty and none leads upwards or nowhere. -/
def IsDownward (path : String) : Prop :=
  ∀ segment ∈ path.toList.splitOn '/',
    segment ≠ [] ∧ segment ≠ ".".toList ∧ segment ≠ "..".toList

namespace IsDownward

variable {path : String} (downward : IsDownward path)

include downward

theorem relative : Workspace.isAbsolute path = false := by
  rw [Workspace.isAbsolute, beq_eq_false_iff_ne]
  intro slash
  obtain ⟨rest, text⟩ := List.head?_eq_some_iff.mp slash
  have first : [] ∈ path.toList.splitOn '/' := by
    have cut : ('/' :: rest).splitOn '/' = [] :: rest.splitOn '/' :=
      List.splitOnP_append_cons [] rest (beq_self_eq_true '/')
    rw [text, cut]
    exact List.mem_cons_self
  exact (downward [] first).1 rfl

theorem steps_eq : steps path = (path.toList.splitOn '/').map String.ofList := by
  rw [steps, stepsOf, Text.splitWhere_eq_splitOnP]
  refine List.filter_eq_self.mpr (List.forall_mem_map.mpr fun segment member => ?_)
  obtain ⟨nonempty, dot, -⟩ := downward segment member
  have other : ∀ text : String, segment ≠ text.toList → String.ofList segment ≠ text := by
    rintro _ different rfl
    exact different String.toList_ofList.symm
  rw [staysIn, Bool.not_eq_true', Bool.or_eq_false_iff, beq_eq_false_iff_ne,
    beq_eq_false_iff_ne]
  exact ⟨other "" nonempty, other "." dot⟩

/-- Such a path leads below any folder, wherever that is. -/
theorem place?_join (folder : String) :
    place? (join folder path) =
      (place? folder).map (· ++ (path.toList.splitOn '/').map String.ofList) := by
  have forward : ".." ∉ steps path := by
    rw [downward.steps_eq, List.mem_map]
    rintro ⟨segment, member, same⟩
    refine (downward segment member).2.2 ?_
    rw [← same, String.toList_ofList]
  rw [place?, place?, isAbsolute_join downward.relative, steps_join, walk?_append]
  split
  · rfl
  · cases walk? [] (steps folder) with
    | none => rfl
    | some place =>
        rw [Option.bind_some, walk?_of_forward forward, downward.steps_eq]
        rfl

end IsDownward

/-! Paths that end in a name. -/

/-- The path leads to something of the name in the place of its parent. -/
structure EndsIn (path name : String) : Prop where
  split : path = name ∨ ∃ front, path.toList = front ++ '/' :: name.toList
  free : '/' ∉ name.toList
  leaves : staysIn name = false
  forward : name ≠ ".."

namespace EndsIn

variable {path name : String}

theorem parts_eq (ends : EndsIn path name) :
    ∃ above, parts path = above ++ [name] ∧
      above.filter (!staysIn ·) = steps (parent path) := by
  have single : (Text.splitWhere (· == '/') name.toList).map String.ofList = [name] := by
    rw [Text.splitWhere_of_free, List.map_singleton, String.ofList_toList]
    intro char member
    rw [beq_eq_false_iff_ne]
    rintro rfl
    exact ends.free member
  obtain rfl | ⟨front, split⟩ := ends.split
  · refine ⟨[], single, ?_⟩
    rw [steps, parent_eq, parentOf_of_free ends.free]
    rfl
  · refine ⟨(Text.splitWhere (· == '/') front).map String.ofList, ?_, ?_⟩
    · rw [parts, split, Text.splitWhere_append_separator rfl, List.map_append, single]
    · rw [steps, parent_eq, split, parentOf_append_slash ends.free, stepsOf_trimSlashes]
      rfl

theorem steps_eq (ends : EndsIn path name) : steps path = steps (parent path) ++ [name] := by
  obtain ⟨above, parts, same⟩ := ends.parts_eq
  have whole : steps path = (above ++ [name]).filter (!staysIn ·) := by
    rw [← parts]
    rfl
  rw [whole, List.filter_append, same, List.filter_singleton, ends.leaves]
  rfl

theorem join (ends : EndsIn path name) (folder : String) :
    EndsIn (Path.join folder path) name where
  split := by
    obtain joined | ⟨front, joined⟩ := join_cases folder path
    · rw [joined]
      exact ends.split
    · obtain rfl | ⟨middle, split⟩ := ends.split
      · exact .inr ⟨front, joined⟩
      · exact .inr ⟨front ++ '/' :: middle, by rw [joined, split, List.append_assoc]; rfl⟩
  free := ends.free
  leaves := ends.leaves
  forward := ends.forward

theorem exists_place_eq (ends : EndsIn path name) {place : Place}
    (leads : place? path = some place) :
    ∃ folder, walk? [] (steps (parent path)) = some folder ∧ place = folder ++ [name] := by
  unfold place? at leads
  split_ifs at leads
  rw [ends.steps_eq, walk?_append] at leads
  obtain ⟨folder, walks, last⟩ := Option.bind_eq_some_iff.mp leads
  rw [walk?, if_neg ends.forward, walk?] at last
  exact ⟨folder, walks, (Option.some.inj last).symm⟩

/-- Paths that end in different names lead to different places. -/
theorem place?_ne {other title : String} (ends : EndsIn path name) (ends' : EndsIn other title)
    (different : name ≠ title) {place : Place} (leads : place? path = some place) :
    place? other ≠ some place := by
  intro leads'
  obtain ⟨folder, -, rfl⟩ := ends.exists_place_eq leads
  obtain ⟨_, -, same⟩ := ends'.exists_place_eq leads'
  exact different (List.cons.inj (List.append_inj_right' same rfl)).1

theorem nonempty (ends : EndsIn path name) : path ≠ "" := by
  rintro rfl
  obtain rfl | ⟨front, split⟩ := ends.split
  · exact absurd ends.leaves (by decide)
  · exact List.append_ne_nil_of_right_ne_nil front (List.cons_ne_nil _ _) split.symm

end EndsIn

end Path

end Schemata
