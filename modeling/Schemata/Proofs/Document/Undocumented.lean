import Schemata.Proofs.Document.Node
import Schemata.Schema.Forest

namespace Schemata

/-! Documents without the documentation of their schemas. A description is documentation
where a schema stands, and elsewhere a name like every other. -/

namespace Keyword

def IsDocumentation (keyword : String) : Prop :=
  keyword ∈ ["description", "example", "examples"]

instance (keyword : String) : Decidable (IsDocumentation keyword) :=
  inferInstanceAs (Decidable (_ ∈ _))

end Keyword

/-- What a node is read as. -/
inductive Role where
  | schema
  /-- Under `additionalProperties`, where a mapping is a schema unless it is empty. -/
  | additional
  /-- Schemas by name. -/
  | entries
  /-- Schemas in a list. -/
  | members
  | other

inductive Role.ReadsSchema : Role → Prop
  | schema : ReadsSchema .schema
  | additional : ReadsSchema .additional

/-- What stands in a schema under the keyword. -/
def Role.under : String → Role
  | "properties" => .entries
  | "additionalProperties" => .additional
  | "items" => .schema
  | "oneOf" | "anyOf" | "allOf" => .members
  | _ => .other

namespace Node

/-- What remains of documentation: with marks, a blank description where without it a
mapping would become empty. -/
def blank (marks : Bool) (entries : List (String × Node)) : List (String × Node) :=
  if marks ∧ entries ≠ [] ∧ ∀ entry ∈ entries, Keyword.IsDocumentation entry.1 then
    [("description", .scalar .root .null)]
  else []

mutual
/-- The node without the descriptions and examples of its schemas. With marks, what
stands under `additionalProperties` stays empty or not. -/
def undocumented (marks : Bool) : Role → Node → Node
  | .schema, .mapping location entries =>
      .mapping location (undocumentedSchema marks entries)
  | .additional, .mapping location entries =>
      .mapping location (undocumentedSchema marks entries ++ blank marks entries)
  | .entries, .mapping location entries =>
      .mapping location (undocumentedEntries marks entries)
  | .members, .sequence location items =>
      .sequence location (undocumentedItems marks items)
  | _, node => node

private def undocumentedSchema (marks : Bool) :
    List (String × Node) → List (String × Node)
  | [] => []
  | (keyword, value) :: rest =>
      if Keyword.IsDocumentation keyword then undocumentedSchema marks rest
      else (keyword, value.undocumented marks (.under keyword)) ::
        undocumentedSchema marks rest

private def undocumentedEntries (marks : Bool) :
    List (String × Node) → List (String × Node)
  | [] => []
  | (name, value) :: rest =>
      (name, value.undocumented marks .schema) :: undocumentedEntries marks rest

private def undocumentedItems (marks : Bool) : List Node → List Node
  | [] => []
  | item :: rest =>
      item.undocumented marks .schema :: undocumentedItems marks rest
end

section

variable (marks : Bool) (location : Location)

private theorem undocumentedSchema_eq (entries : List (String × Node)) :
    undocumentedSchema marks entries =
      (entries.filter (¬Keyword.IsDocumentation ·.1)).map fun entry =>
        (entry.1, entry.2.undocumented marks (.under entry.1)) := by
  induction entries with
  | nil => rfl
  | cons entry rest induction =>
      rw [undocumentedSchema, induction]
      split
      · next documentation =>
        rw [List.filter_cons_of_neg (by simpa using documentation)]
      · next other =>
        rw [List.filter_cons_of_pos (by simpa using other), List.map_cons]

theorem undocumented_schema (entries : List (String × Node)) :
    (mapping location entries).undocumented marks .schema =
      .mapping location
        ((entries.filter (¬Keyword.IsDocumentation ·.1)).map fun entry =>
          (entry.1, entry.2.undocumented marks (.under entry.1))) := by
  rw [undocumented, undocumentedSchema_eq]

theorem undocumented_additional (entries : List (String × Node)) :
    (mapping location entries).undocumented marks .additional =
      .mapping location
        ((entries.filter (¬Keyword.IsDocumentation ·.1)).map (fun entry =>
          (entry.1, entry.2.undocumented marks (.under entry.1))) ++
            blank marks entries) := by
  rw [undocumented, undocumentedSchema_eq]

theorem undocumented_entries (entries : List (String × Node)) :
    (mapping location entries).undocumented marks .entries =
      .mapping location
        (entries.map fun entry => (entry.1, entry.2.undocumented marks .schema)) := by
  rw [undocumented]
  congr 1
  induction entries with
  | nil => rfl
  | cons entry rest induction => rw [undocumentedEntries, induction, List.map_cons]

theorem undocumented_members (items : List Node) :
    (sequence location items).undocumented marks .members =
      .sequence location (items.map (·.undocumented marks .schema)) := by
  rw [undocumented]
  congr 1
  induction items with
  | nil => rfl
  | cons item rest induction => rw [undocumentedItems, induction, List.map_cons]

theorem undocumented_additional_nil :
    (mapping location []).undocumented marks .additional = .mapping location [] := by
  rw [undocumented_additional, blank, if_neg fun blanked => blanked.2.1 rfl]
  rfl

/-- The mark keeps a mapping from becoming empty. -/
theorem undocumented_additional_cons (entry : String × Node)
    (entries : List (String × Node)) :
    ∃ first rest, (mapping location (entry :: entries)).undocumented true .additional =
      .mapping location (first :: rest) := by
  rw [undocumented_additional]
  cases kept : (entry :: entries).filter (¬Keyword.IsDocumentation ·.1) with
  | cons first rest => exact ⟨_, _, rfl⟩
  | nil =>
      have all : ∀ entry_ ∈ entry :: entries, Keyword.IsDocumentation entry_.1 := by
        simpa only [List.filter_eq_nil_iff, decide_not, Bool.not_eq_true',
          decide_eq_false_iff_not, Decidable.not_not] using kept
      rw [blank, if_pos ⟨rfl, List.cons_ne_nil _ _, all⟩]
      exact ⟨_, _, rfl⟩

@[simp] theorem undocumented_other (node : Node) :
    node.undocumented marks .other = node := by
  cases node <;> rfl

@[simp] theorem undocumented_scalar (role : Role) (value : Scalar) :
    (scalar location value).undocumented marks role = .scalar location value := by
  cases role <;> rfl

theorem lookup_blank {keyword : String}
    (other : ¬Keyword.IsDocumentation keyword) (entries : List (String × Node)) :
    (blank marks entries).lookup keyword = none := by
  rw [blank]
  split
  · refine Entries.lookup_eq_none_iff.mpr fun member => other ?_
    simp only [List.map_cons, List.map_nil, List.mem_singleton] at member
    rw [member]
    decide
  · rfl

theorem lookup_kept {keyword : String}
    (other : ¬Keyword.IsDocumentation keyword) (entries : List (String × Node)) :
    ((entries.filter (¬Keyword.IsDocumentation ·.1)).map fun entry =>
      (entry.1, entry.2.undocumented marks (.under entry.1))).lookup keyword =
        (entries.lookup keyword).map (undocumented marks (.under keyword)) := by
  rw [Entries.lookup_map fun keyword => undocumented marks (.under keyword),
    Entries.lookup_filter (¬Keyword.IsDocumentation ·) (by simpa using other)]

/-- Whatever is no documentation stays under its keyword. -/
theorem get?_undocumented {role : Role} (reads : role.ReadsSchema) {keyword : String}
    (other : ¬Keyword.IsDocumentation keyword) (node : Node) :
    (node.undocumented marks role).get? keyword =
      (node.get? keyword).map (undocumented marks (.under keyword)) := by
  cases node with
  | scalar => rw [undocumented_scalar]; rfl
  | sequence => cases reads <;> rfl
  | mapping location entries =>
      cases reads with
      | schema =>
          simp only [undocumented_schema, get?, entries?, Option.bind_some,
            lookup_kept marks other]
      | additional =>
          simp only [undocumented_additional, get?, entries?, Option.bind_some,
            List.lookup_append, lookup_blank marks other, Option.or_none,
            lookup_kept marks other]

theorem get?_undocumented_other {role : Role} (reads : role.ReadsSchema)
    {keyword : String} (other : ¬Keyword.IsDocumentation keyword)
    (whole : Role.under keyword = .other) (node : Node) :
    (node.undocumented marks role).get? keyword = node.get? keyword := by
  rw [get?_undocumented marks reads other, whole]
  cases node.get? keyword with
  | none => rfl
  | some held => rw [Option.map_some, undocumented_other]

theorem undocumented_mapping {role : Role} (reads : role.ReadsSchema)
    (entries : List (String × Node)) :
    ∃ kept, (mapping location entries).undocumented marks role =
      .mapping location kept := by
  cases reads with
  | schema => exact ⟨_, undocumented_schema marks location entries⟩
  | additional => exact ⟨_, undocumented_additional marks location entries⟩

@[simp] theorem location_undocumented (role : Role) (node : Node) :
    (node.undocumented marks role).location = node.location := by
  cases role <;> cases node <;> rfl

@[simp] theorem isNone_entries?_undocumented (role : Role) (node : Node) :
    (node.undocumented marks role).entries?.isNone = node.entries?.isNone := by
  cases role <;> cases node <;> rfl

@[simp] theorem isNone_items?_undocumented (role : Role) (node : Node) :
    (node.undocumented marks role).items?.isNone = node.items?.isNone := by
  cases role <;> cases node <;> rfl

end

end Node

end Schemata
