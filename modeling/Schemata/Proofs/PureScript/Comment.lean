import Mathlib.Data.List.Forall2
import Schemata.PureScript.Module
import Schemata.Proofs.Emission.Layout
import Schemata.Proofs.Json.Printer
import Schemata.Proofs.Text.Lines

namespace Schemata

/-! What stands above a declaration, line by line. -/

def Docs.descriptionLines (docs : Docs) : List (List Char) :=
  match docs.description with
  | some text => (Text.lines (Text.trim text.toList)).map Text.trimEnd
  | none => []

theorem Docs.lines_eq (docs : Docs) :
    docs.lines = docs.descriptionLines ++
      docs.sample.toList.map (fun value => "Example - ".toList ++ value.compact) ++
      docs.format.toList.map (fun format => "Format - ".toList ++ format.toList) := by
  obtain ⟨description, sample, format⟩ := docs
  cases description <;> cases sample <;> cases format <;> rfl

theorem Docs.not_mem_of_mem_descriptionLines {docs : Docs} {line : List Char}
    (member : line ∈ docs.descriptionLines) : '\n' ∉ line := by
  rw [descriptionLines] at member
  split at member
  · obtain ⟨whole, among, rfl⟩ := List.mem_map.mp member
    exact fun feed => Text.not_mem_of_mem_lines among (Text.trimEnd_subset whole feed)
  · cases member

namespace PureScript

def marker : List Char := "-- |".toList

/-- All lines that are ended are marked as comments. -/
def Commented (ends : Char → Bool) (text : List Char) : Prop :=
  ∀ line ∈ Text.endedLines ends text, marker <+: line

instance (ends : Char → Bool) (text : List Char) : Decidable (Commented ends text) :=
  List.decidableBAll _ _

/-- What the text has behind an end of a line is marked as a comment by the text itself. -/
def StaysInside (ends : Char → Bool) (text : List Char) : Prop :=
  ∀ piece ∈ (Text.splitWhere ends text).tail, marker <+: piece

instance (ends : Char → Bool) (text : List Char) : Decidable (StaysInside ends text) :=
  List.decidableBAll _ _

/-- A line feed ends a line, and so may other control characters. -/
structure EndsLines (ends : Char → Bool) : Prop where
  feed : ends '\n' = true
  controls : ∀ char, 32 ≤ char.toNat → ends char = false

theorem endsLines_isLineFeed : EndsLines Text.isLineFeed where
  feed := rfl
  controls char visible := by
    rw [Text.isLineFeed, beq_eq_false_iff_ne]
    rintro rfl
    exact absurd visible (by decide)

theorem endsLines_isLineEnd : EndsLines Text.isLineEnd where
  feed := rfl
  controls char visible := by
    rw [Text.isLineEnd, Bool.or_eq_false_iff, beq_eq_false_iff_ne, beq_eq_false_iff_ne]
    constructor <;> rintro rfl <;> exact absurd visible (by decide)

section

variable {ends : Char → Bool}

theorem staysInside_of_free {text : List Char} (free : ∀ char ∈ text, ends char = false) :
    StaysInside ends text := by
  rw [StaysInside, Text.tail_splitWhere_of_free free]
  nofun

theorem EndsLines.free (ending : EndsLines ends) {text : List Char}
    (controlFree : IsControlFree text) : ∀ char ∈ text, ends char = false :=
  fun char member => ending.controls char (controlFree char member)

theorem EndsLines.staysInside_append (ending : EndsLines ends) {label text : List Char}
    (controlFree : IsControlFree label) :
    StaysInside ends (label ++ text) ↔ StaysInside ends text := by
  rw [StaysInside, Text.tail_splitWhere_append (ending.free controlFree), StaysInside]

/-- Only the first of the lines that a line makes has a marker put before it. -/
theorem EndsLines.marked_iff (ending : EndsLines ends) (line : List Char) :
    (∀ piece ∈ Text.splitWhere ends (commentLine marker line), marker <+: piece) ↔
      StaysInside ends line := by
  have unmarked : IsControlFree marker := by decide
  cases line with
  | nil =>
      have single : Text.splitWhere ends (commentLine marker []) = [marker] :=
        Text.splitWhere_of_free (ending.free unmarked)
      rw [single]
      exact iff_of_true (List.forall_mem_singleton.mpr (List.prefix_refl _))
        (staysInside_of_free nofun)
  | cons char rest =>
      obtain ⟨first, more, pieces⟩ :=
        List.exists_cons_of_ne_nil (Text.splitWhere_ne_nil ends (char :: rest))
      have cut : commentLine marker (char :: rest) = (marker ++ [' ']) ++ char :: rest := by
        rw [List.append_assoc]
        rfl
      have blank : IsControlFree (marker ++ [' ']) := by decide
      rw [cut, Text.splitWhere_append (ending.free blank) pieces, List.forall_mem_cons,
        StaysInside, pieces, List.tail_cons, List.append_assoc]
      exact and_iff_right (List.prefix_append _ _)

/-- An example is printed on one line, so only descriptions and formats matter. -/
theorem EndsLines.commented_docs_iff (ending : EndsLines ends) (docs : Docs) :
    Commented ends (unlines (comment docs)) ↔
      (∀ line ∈ docs.descriptionLines, StaysInside ends line) ∧
        ∀ format ∈ docs.format, StaysInside ends format.toList := by
  have lines : Commented ends (unlines (comment docs)) ↔
      ∀ line ∈ docs.lines, StaysInside ends line := by
    rw [Commented, Text.endedLines_unlines ending.feed, comment, List.flatMap_map,
      List.forall_mem_flatMap]
    exact forall₂_congr fun line _ => ending.marked_iff line
  have samples : ∀ line ∈ docs.sample.toList.map
      (fun value => "Example - ".toList ++ value.compact), StaysInside ends line := by
    refine List.forall_mem_map.mpr fun value _ => ?_
    rw [ending.staysInside_append (by decide)]
    exact staysInside_of_free (ending.free (Json.isControlFree_compact value))
  have formats : (∀ line ∈ docs.format.toList.map
      (fun format => "Format - ".toList ++ format.toList), StaysInside ends line) ↔
        ∀ format ∈ docs.format, StaysInside ends format.toList := by
    simp only [List.forall_mem_map, Option.mem_toList]
    exact forall₂_congr fun format _ => ending.staysInside_append (by decide)
  rw [lines, Docs.lines_eq, List.forall_mem_append, List.forall_mem_append, formats]
  exact and_congr_left fun _ => and_iff_left samples

end

/-! The declaration itself begins with its keyword, below the comment. -/

def keywords : List (List Char) :=
  ["newtype".toList, "data".toList, "type".toList]

theorem visible_of_mem_keywords {keyword : List Char} (member : keyword ∈ keywords) :
    ∃ front last, keyword = front ++ [last] ∧ Text.isBlank last = false := by
  simp only [keywords, List.mem_cons, List.not_mem_nil, or_false] at member
  obtain rfl | rfl | rfl := member
  · exact ⟨"newtyp".toList, 'e', rfl, rfl⟩
  · exact ⟨"dat".toList, 'a', rfl, rfl⟩
  · exact ⟨"typ".toList, 'e', rfl, rfl⟩

theorem Body.exists_lines_eq (name : List Char) (body : Body) :
    ∃ keyword ∈ keywords, ∃ first rest, body.lines name = (keyword ++ first) :: rest := by
  cases body with
  | newtype nullable fields =>
      refine ⟨"newtype".toList, by decide, ?_⟩
      cases fields with
      | nil => exact ⟨_, _, rfl⟩
      | cons => exact ⟨_, _, rfl⟩
  | data constructors => exact ⟨"data".toList, by decide, _, _, rfl⟩
  | synonym type => exact ⟨"type".toList, by decide, _, _, rfl⟩

theorem Declaration.text_eq (declaration : Declaration) :
    ∃ statement, declaration.text = unlines (comment declaration.docs) ++ statement ∧
      ∃ keyword ∈ keywords, keyword <+: statement := by
  obtain ⟨keyword, member, first, rest, lines⟩ :=
    declaration.body.exists_lines_eq declaration.name.toList
  obtain ⟨front, last, rfl, visible⟩ := visible_of_mem_keywords member
  refine ⟨joinLines ((front ++ [last] ++ first) :: rest), ?_, front ++ [last], member, ?_⟩
  · rw [Declaration.text, lines]
    exact joinLines_append ⟨_, List.mem_cons_self, last, by simp, visible⟩
  · refine Text.isPrefix_trimEnd visible ?_
    cases rest with
    | nil =>
        rw [List.intercalate_singleton]
        exact List.prefix_append _ _
    | cons =>
        rw [List.intercalate_cons_cons, List.append_assoc, List.append_assoc]
        exact List.prefix_append _ _

theorem docs_ofModelFrom (options : EmitOptions) (constructors : Constructors)
    (declarations : List Schemata.Declaration) :
    List.Forall₂ (fun declaration printed => printed.docs = declaration.docs)
      declarations (Declaration.ofModelFrom options constructors declarations) := by
  induction declarations generalizing constructors with
  | nil => exact .nil
  | cons declaration rest induction => exact .cons rfl (induction _)

/-- Where line feeds end lines, nothing but a format can leave the comment, and a format
does exactly if it has a line feed that no marker follows. Where carriage returns end lines
too, a line of the description can leave it in the same way. -/
theorem commented_iff (options : EmitOptions) (model : Model) :
    List.Forall₂ (fun declaration source =>
        (∃ statement, source.text = unlines (comment declaration.docs) ++ statement ∧
          ∃ keyword ∈ keywords, keyword <+: statement) ∧
        (Commented Text.isLineFeed (unlines (comment declaration.docs)) ↔
          ∀ format ∈ declaration.docs.format,
            StaysInside Text.isLineFeed format.toList) ∧
        (Commented Text.isLineEnd (unlines (comment declaration.docs)) ↔
          (∀ line ∈ declaration.docs.descriptionLines, StaysInside Text.isLineEnd line) ∧
            ∀ format ∈ declaration.docs.format, StaysInside Text.isLineEnd format.toList))
      model.declarations (emit options model) := by
  refine List.forall₂_map_right_iff.mpr ?_
  refine (docs_ofModelFrom options _ model.declarations).imp fun declaration printed same => ?_
  refine ⟨same ▸ printed.text_eq, ?_, endsLines_isLineEnd.commented_docs_iff declaration.docs⟩
  rw [endsLines_isLineFeed.commented_docs_iff, and_iff_right_iff_imp]
  intro _ line member
  refine staysInside_of_free fun char inside => ?_
  rw [Text.isLineFeed, beq_eq_false_iff_ne]
  rintro rfl
  exact Docs.not_mem_of_mem_descriptionLines member inside

example : ¬Commented Text.isLineFeed (unlines (comment ⟨none, none, some "a\nb"⟩)) := by
  decide

end PureScript

end Schemata
