import Mathlib.Data.List.Forall2
import Schemata.Compilation
import Schemata.Proofs.Document.Section
import Schemata.Proofs.Resolution.Plain
import Schemata.Proofs.Schema.Undocumented

namespace Schemata

/-! Descriptions and examples have no influence on the types of a document. -/

namespace Forest

section

variable (change : Node → Node) (document : Node)

theorem below?_modify_other {section_ other : Reference.Section}
    (different : other ≠ section_) :
    (document.modify change section_.keys).below? other.keys =
      document.below? other.keys := by
  cases section_ <;> cases other
  all_goals first
    | exact absurd rfl different
    | exact Node.below?_modify_other change _ _ (by decide) document _

theorem isSome_below?_modify (section_ other : Reference.Section) :
    ((document.modify change section_.keys).below? other.keys).isSome =
      (document.below? other.keys).isSome := by
  by_cases same : other = section_
  · rw [same, Node.below?_modify, Option.isSome_map]
  · rw [below?_modify_other change document same]

theorem located?_modify (section_ : Reference.Section) :
    located? (document.modify change section_.keys) = located? document := by
  simp only [located?, isSome_below?_modify]

end

end Forest

/-- The document without the descriptions and examples of its schemas. -/
def Document.undocumented (marks : Bool) (document : Node) : Node :=
  match Forest.located? document with
  | none => document
  | some section_ => document.modify (Node.undocumented marks .entries) section_.keys

namespace Forest

theorem section?_undocumented (marks : Bool) (document : Node) :
    Forest.section? (Document.undocumented marks document) =
      (Forest.section? document).map (Node.undocumented marks .entries) := by
  rw [section?_eq_below?, section?_eq_below?, Document.undocumented]
  cases found : located? document with
  | none =>
      rw [found]
      rfl
  | some section_ =>
      rw [located?_modify, found]
      exact Node.below?_modify _ _ document

theorem location_undocumented (marks : Bool) (document : Node) :
    (Document.undocumented marks document).location = document.location := by
  rw [Document.undocumented]
  cases located? document with
  | none => rfl
  | some section_ => cases section_ <;> exact Node.location_modify _ _ _ document

theorem isNone_entries?_undocumented (marks : Bool) (document : Node) :
    (Document.undocumented marks document).entries?.isNone =
      document.entries?.isNone := by
  rw [Document.undocumented]
  cases located? document with
  | none => rfl
  | some section_ => cases section_ <;> exact Node.isNone_entries?_modify _ _ _ document

theorem plain_ofList {roots others : List (String × Schema)}
    (alike : List.Forall₂ (fun root other =>
      root.1 = other.1 ∧ root.2.plain = other.2.plain) roots others) :
    (ofList roots).plain = (ofList others).plain := by
  have same : roots.map (fun root => (root.1, root.2.plain)) =
      others.map fun other => (other.1, other.2.plain) := by
    induction alike with
    | nil => rfl
    | cons first _ induction =>
        rw [List.map_cons, List.map_cons, first.1, first.2, induction]
  ext1
  simp only [plain, ofList, Entries.map_ofList Schema.plain, same]

theorem ofDocument_undocumented (document : Node) :
    Outcome.Agree (fun forest other => forest.plain = other.plain)
      (ofDocument document) (ofDocument (Document.undocumented true document)) := by
  rw [ofDocument, ofDocument, section?_undocumented, isNone_entries?_undocumented,
    location_undocumented]
  split
  · exact .error _
  · cases section? document with
    | none => exact .ok rfl
    | some declared =>
        cases declared with
        | scalar | sequence => exact .error _
        | mapping location entries =>
            rw [Option.map_some, Node.undocumented_entries]
            refine Outcome.Agree.bind ?_ fun roots others alike =>
              .ok (plain_ofList alike)
            refine Outcome.Agree.mapM (List.forall₂_map_right_iff.mpr
              (List.forall₂_same.mpr fun entry _ => ?_))
            have alike := (Reading.alike_undocumented entry.2 .schema).schema .schema
            exact alike.bind fun schema other met => .ok ⟨rfl, met⟩

end Forest

/-- Documents that differ in descriptions and examples only fail alike or have models
that differ in descriptions and examples only. -/
theorem compile_agree_of_undocumented {document edited : Node}
    (same : Document.undocumented true document =
      Document.undocumented true edited) :
    Outcome.Agree (fun model other => model.plain = other.plain)
      (compile document) (compile edited) := by
  have forests := Forest.ofDocument_undocumented document
  rw [same] at forests
  have met := forests.trans (Forest.ofDocument_undocumented edited).symm
    fun first second => first.trans second.symm
  exact met.bind fun forest other => Forest.resolve_agree_of_plain_eq

/-- A property may have the name `description`. -/
theorem compile_agree_of_undocumented_pet : ∃ document edited,
    Document.loadJson
      "\x7b\"$defs\":\x7b\"Pet\":\x7b\"properties\":\x7b\"description\":\x7b\"type\":\"string\",\"example\":\"Rex\"\x7d\x7d\x7d\x7d\x7d" =
        .ok document ∧
    Document.loadJson
      "\x7b\"$defs\":\x7b\"Pet\":\x7b\"description\":\"An animal\",\"properties\":\x7b\"description\":\x7b\"type\":\"string\"\x7d\x7d\x7d\x7d\x7d" =
        .ok edited ∧
    Document.undocumented true document = Document.undocumented true edited ∧
    Outcome.Agree (fun model other => model.plain = other.plain)
      (compile document) (compile edited) := by
  refine ⟨.mapping ⟨[]⟩ [("$defs", .mapping ⟨["$defs"]⟩ [("Pet",
      .mapping ⟨["$defs", "Pet"]⟩ [("properties",
        .mapping ⟨["$defs", "Pet", "properties"]⟩ [("description",
          .mapping ⟨["$defs", "Pet", "properties", "description"]⟩
            [("type", .scalar ⟨["$defs", "Pet", "properties", "description", "type"]⟩
                (.string "string")),
              ("example",
                .scalar ⟨["$defs", "Pet", "properties", "description", "example"]⟩
                  (.string "Rex"))])])])])],
    .mapping ⟨[]⟩ [("$defs", .mapping ⟨["$defs"]⟩ [("Pet",
      .mapping ⟨["$defs", "Pet"]⟩
        [("description", .scalar ⟨["$defs", "Pet", "description"]⟩
            (.string "An animal")),
          ("properties", .mapping ⟨["$defs", "Pet", "properties"]⟩ [("description",
            .mapping ⟨["$defs", "Pet", "properties", "description"]⟩
              [("type",
                .scalar ⟨["$defs", "Pet", "properties", "description", "type"]⟩
                  (.string "string"))])])])])], ?_, ?_, ?_, ?_⟩
  · decide +kernel
  · decide +kernel
  · rfl
  · exact compile_agree_of_undocumented rfl

/-- Only an empty mapping under `additionalProperties` allows any value, so a
description makes it a schema that lacks a type. -/
theorem not_agree_of_opened : ∃ document edited,
    Document.loadJson "\x7b\"$defs\":\x7b\"A\":\x7b\"additionalProperties\":\x7b\x7d\x7d\x7d\x7d" =
        .ok document ∧
    Document.loadJson
      "\x7b\"$defs\":\x7b\"A\":\x7b\"additionalProperties\":\x7b\"description\":\"x\"\x7d\x7d\x7d\x7d" =
        .ok edited ∧
    Forest.located? document = some .defs ∧
    Document.undocumented false document = Document.undocumented false edited ∧
    ¬Outcome.Agree (fun model other => model.plain = other.plain)
      (compile document) (compile edited) := by
  refine ⟨.mapping ⟨[]⟩ [("$defs", .mapping ⟨["$defs"]⟩ [("A",
      .mapping ⟨["$defs", "A"]⟩ [("additionalProperties",
        .mapping ⟨["$defs", "A", "additionalProperties"]⟩ [])])])],
    .mapping ⟨[]⟩ [("$defs", .mapping ⟨["$defs"]⟩ [("A",
      .mapping ⟨["$defs", "A"]⟩ [("additionalProperties",
        .mapping ⟨["$defs", "A", "additionalProperties"]⟩
          [("description",
            .scalar ⟨["$defs", "A", "additionalProperties", "description"]⟩
              (.string "x"))])])])], ?_, ?_, ?_, ?_, ?_⟩
  · decide +kernel
  · decide +kernel
  · rfl
  · rfl
  · intro agree
    exact absurd agree.isOk_eq (by decide +kernel)

end Schemata
