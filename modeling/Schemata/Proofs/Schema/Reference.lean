import Schemata.Proofs.Document.Pointer
import Schemata.Proofs.Text.Replacement

namespace Schemata

open Text

/-! Pointers to schemas are read back as the names they are made from, and nothing else is
read. -/

namespace Reference

/-- Only slashes are new, so a zero that comes first has come first before. -/
theorem exists_zero_of_replaceAll {segment more : List Char}
    (begins : replaceAll ['~', '1'] ['/'] segment = '0' :: more) :
    ∃ rest, segment = '0' :: rest := by
  cases segment with
  | nil => cases begins
  | cons char rest =>
      cases occurs : ['~', '1'].isPrefixOf (char :: rest) with
      | true =>
          rw [replaceAll, replacedAfter, if_pos occurs] at begins
          cases begins
      | false =>
          rw [replaceAll_cons occurs] at begins
          injection begins with zero
          exact ⟨rest, by rw [zero]⟩

/-- The escapes are undone by putting back first the slashes and then the tildes. What the
first replacement leaves has no escapes that were not there before. -/
theorem unescape_eq_replaceAll (segment : List Char) :
    unescape segment = replaceAll ['~', '0'] ['~'] (replaceAll ['~', '1'] ['/'] segment) := by
  induction segment using unescape.induct with
  | case1 rest induction =>
      have kept : replaceAll ['~', '1'] ['/'] ('~' :: '0' :: rest) =
          '~' :: '0' :: replaceAll ['~', '1'] ['/'] rest :=
        (replaceAll_cons rfl).trans (congrArg _ (replaceAll_cons rfl))
      rw [unescape, induction, kept]
      exact (replaceAll_pattern '~' ['0'] ['~'] _).symm
  | case2 rest induction =>
      have slash : replaceAll ['~', '1'] ['/'] ('~' :: '1' :: rest) =
          '/' :: replaceAll ['~', '1'] ['/'] rest :=
        replaceAll_pattern '~' ['1'] ['/'] rest
      rw [unescape, induction, slash, replaceAll_cons rfl]
  | case3 char rest tilde slash induction =>
      have unescaped : ['~', '1'].isPrefixOf (char :: rest) = false := by
        rw [Bool.eq_false_iff, Ne, List.isPrefixOf_iff_prefix, List.cons_prefix_cons]
        rintro ⟨rfl, others, rfl⟩
        exact slash others rfl rfl
      have alone : ['~', '0'].isPrefixOf
          (char :: replaceAll ['~', '1'] ['/'] rest) = false := by
        rw [Bool.eq_false_iff, Ne, List.isPrefixOf_iff_prefix, List.cons_prefix_cons]
        rintro ⟨rfl, others, split⟩
        obtain ⟨more, rfl⟩ := exists_zero_of_replaceAll split.symm
        exact tilde more rfl rfl
      rw [replaceAll_cons unescaped, replaceAll_cons alone, ← induction, unescape]
      · exact tilde
      · exact slash
  | case4 => rfl

theorem unescape_escape (name : List Char) : unescape (Location.escape name) = name :=
  Pointer.unescape_of_unescape? (Pointer.unescape?_escape name)

/-- What the pointers into the sections begin with. -/
def stems : List String :=
  ["#/components/schemas/", "#/$defs/", "#/definitions/"]

theorem map_toList_stems : stems.map String.toList = Section.all.map Section.stem := by
  decide

theorem exists_section_of_mem_stems {stem : String} (member : stem ∈ stems) :
    ∃ section_ : Section, stem.toList = section_.stem := by
  have among : stem.toList ∈ stems.map String.toList := List.mem_map_of_mem member
  rw [map_toList_stems] at among
  obtain ⟨section_, -, same⟩ := List.mem_map.mp among
  exact ⟨section_, same.symm⟩

theorem Section.exists_mem_stems (section_ : Section) :
    ∃ stem ∈ stems, stem.toList = section_.stem := by
  have among : section_.stem ∈ Section.all.map Section.stem :=
    List.mem_map_of_mem (by cases section_ <;> decide)
  rw [← map_toList_stems] at among
  exact List.mem_map.mp among

/-- A stem with one segment after it. -/
def IsLocal (pointer : String) : Prop :=
  ∃ stem ∈ stems, ∃ segment, pointer = stem ++ segment ∧ segment ≠ "" ∧
    '/' ∉ segment.toList

theorem read_below (section_ : Section) {pointer : String} {segment : List Char}
    (below : pointer.toList = section_.stem ++ segment) (proper : segment ≠ [])
    (free : '/' ∉ segment) (at_ : Location) :
    read pointer at_ = .ok (String.ofList (unescape segment)) := by
  rw [read, below, target?_below section_ proper free]

theorem read_append {stem segment : String} (member : stem ∈ stems) (proper : segment ≠ "")
    (free : '/' ∉ segment.toList) (at_ : Location) :
    read (stem ++ segment) at_ = .ok (String.ofList (unescape segment.toList)) := by
  obtain ⟨section_, begins⟩ := exists_section_of_mem_stems member
  refine read_below section_ ?_ (mt String.toList_eq_nil_iff.mp proper) free at_
  rw [String.toList_append, begins]

theorem isLocal_of_read {pointer name : String} {at_ : Location}
    (reads : read pointer at_ = .ok name) : IsLocal pointer := by
  obtain ⟨section_, segment, whole, proper, free, -⟩ := below_of_read reads
  obtain ⟨stem, member, begins⟩ := section_.exists_mem_stems
  refine ⟨stem, member, String.ofList segment, ?_, ?_, ?_⟩
  · rw [← String.toList_inj, String.toList_append, String.toList_ofList, begins, whole]
  · rw [← String.toList_inj.ne, String.toList_ofList]
    exact proper
  · rw [String.toList_ofList]
    exact free

theorem read_of_not_isLocal {pointer : String} (elsewhere : ¬IsLocal pointer)
    (at_ : Location) :
    read pointer at_ = .error (.malformed at_ (.unsupportedReference pointer)) := by
  cases found : target? pointer.toList with
  | none => rw [read, found]
  | some name =>
      have reads : read pointer at_ = .ok (String.ofList name) := by
        rw [read, found]
      exact absurd (isLocal_of_read reads) elsewhere

/-- The pointer to what a section holds under a name. -/
theorem pointer_child (section_ : Section) (name : String) :
    ((section_.keys.foldl Location.child .root).child name).pointer =
      section_.stem ++ Location.escape name.toList := by
  have here : section_.keys.foldl Location.child .root = ⟨section_.keys⟩ := by
    cases section_ <;> rfl
  rw [here, Section.stem, Location.child, Location.pointer, Location.pointer,
    List.flatMap_append, List.flatMap_singleton, List.append_assoc, List.singleton_append,
    List.cons_append]

theorem read_child (section_ : Section) {name : String} (proper : name ≠ "")
    (at_ : Location) :
    read ((section_.keys.foldl Location.child .root).child name).text at_ = .ok name := by
  have escaped : Location.escape name.toList ≠ [] := by
    intro empty
    have same := unescape_escape name.toList
    rw [empty] at same
    exact proper (String.toList_eq_nil_iff.mp same.symm)
  have below : ((section_.keys.foldl Location.child .root).child name).text.toList =
      section_.stem ++ Location.escape name.toList := by
    rw [Location.text, String.toList_ofList, pointer_child]
  rw [read_below section_ below escaped (Pointer.slash_not_mem_escape _), unescape_escape,
    String.ofList_toList]

/-- Reading undoes the making of pointers into the sections. Exactly the pointers to one
segment below a section are read, with the escapes of the segment undone, and any other is an
error at the given location. -/
theorem local_pointers_read :
    (∀ (section_ : Section) (name : String) (at_ : Location), name ≠ "" →
      read ((section_.keys.foldl Location.child .root).child name).text at_ = .ok name) ∧
    (∀ (pointer : String) (at_ : Location),
      ((∃ name, read pointer at_ = .ok name) ↔ IsLocal pointer) ∧
      (¬IsLocal pointer →
        read pointer at_ = .error (.malformed at_ (.unsupportedReference pointer)))) ∧
    ∀ stem ∈ stems, ∀ (segment : String) (at_ : Location), segment ≠ "" →
      '/' ∉ segment.toList → read (stem ++ segment) at_ = .ok (String.ofList
        (replaceAll ['~', '0'] ['~'] (replaceAll ['~', '1'] ['/'] segment.toList))) := by
  refine ⟨fun section_ name at_ proper => read_child section_ proper at_, ?_, ?_⟩
  · intro pointer at_
    refine ⟨⟨?_, ?_⟩, fun elsewhere => read_of_not_isLocal elsewhere at_⟩
    · rintro ⟨name, reads⟩
      exact isLocal_of_read reads
    · rintro ⟨stem, member, segment, rfl, proper, free⟩
      exact ⟨_, read_append member proper free at_⟩
  · intro stem member segment at_ proper free
    rw [← unescape_eq_replaceAll]
    exact read_append member proper free at_

/-- A name that looks like escapes, a segment with a stray tilde, and a pointer to a node deeper
in the document. -/
theorem local_pointers_read_samples :
    read ((Section.keys .components).foldl Location.child .root |>.child "~01/~1").text
      .root = .ok "~01/~1" ∧
    read "#/definitions/~~10" .root = .ok "~/0" ∧
    ¬IsLocal "#/$defs/Pet/items" ∧
    read "#/$defs/Pet/items" .root =
      .error (.malformed .root (.unsupportedReference "#/$defs/Pet/items")) := by
  obtain ⟨undoes, exactly, unescapes⟩ := local_pointers_read
  have elsewhere : ¬IsLocal "#/$defs/Pet/items" := by
    rw [← (exactly "#/$defs/Pet/items" .root).1]
    rintro ⟨name, reads⟩
    cases reads
  refine ⟨undoes .components "~01/~1" .root (by decide), ?_, elsewhere,
    (exactly "#/$defs/Pet/items" .root).2 elsewhere⟩
  exact unescapes "#/definitions/" (by decide) "~~10" .root (by decide) (by decide)

end Reference

end Schemata
