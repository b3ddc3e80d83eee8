import Schemata.Proofs.Json.Quoted
import Schemata.Proofs.Naming.Suffix
import Schemata.PureScript.Declaration

namespace Schemata.PureScript

/-! Labels of a record. Bare labels and quoted ones denote strings of one kind, so they compete
for them: all labels of a record denote different ones, and a property loses its own label only
to an earlier one that denotes the same. -/

/-- What a printed label denotes: the string that it quotes, or else its own text. -/
def denotation? (text : List Char) : Option (List Char) :=
  if text.head? = some '"' then Json.Quoted.decode text else some text

namespace Label

/-- A bare label begins like an identifier and is no reserved word. -/
def IsUsable : Label → Prop
  | bare word =>
      (word.toList.head?.any fun char => char.isLower || char == '_') = true ∧
        word ∉ reservedWords
  | quoted _ => True

theorem denotation?_text {label : Label} (usable : label.IsUsable) :
    denotation? label.text = some label.denoted.toList := by
  cases label with
  | bare word =>
      have unquoted : word.toList.head? ≠ some '"' := by
        intro quote
        rw [IsUsable, quote] at usable
        exact absurd usable.1 (by decide)
      exact if_neg unquoted
  | quoted text => exact Json.Quoted.decode_encode text.toList

theorem isUsable_ofName (name : String) : (ofName name).IsUsable := by
  unfold ofName
  dsimp only
  split
  · next begins =>
    split
    · next reserved =>
      have apart : ∀ word ∈ reservedWords, word ++ "_" ∉ reservedWords := by decide
      refine ⟨?_, apart _ reserved⟩
      rw [String.toList_append, List.head?_append_of_ne_nil]
      · exact begins
      · intro empty
        rw [empty] at begins
        cases begins
    · next free => exact ⟨begins, free⟩
  · trivial

/-- No reserved word ends in a digit. -/
theorem isUsable_withDenoted {label : Label} (usable : label.IsUsable) (number : Nat) :
    (label.withDenoted (suffixed label.denoted number)).IsUsable := by
  cases label with
  | bare word =>
      obtain ⟨begins, -⟩ := usable
      have text : (suffixed word number).toList = word.toList ++ naturalText number := by
        rw [suffixed, String.toList_append, String.toList_ofList]
      constructor
      · show (suffixed word number).toList.head?.any _ = true
        rw [text, List.head?_append_of_ne_nil]
        · exact begins
        · intro empty
          rw [empty] at begins
          cases begins
      · intro reserved
        have digitless : reservedWords.all (·.toList.all (!·.isDigit)) = true := by decide
        obtain ⟨digit, member⟩ :=
          List.exists_mem_of_ne_nil _ (Nat.toDigits_ne_nil : naturalText number ≠ [])
        have within := List.all_eq_true.mp digitless _ reserved
        have plain := List.all_eq_true.mp within digit (text ▸ List.mem_append_right _ member)
        rw [Nat.isDigit_of_mem_toDigits (by decide) (by decide) member] at plain
        cases plain
  | quoted => trivial

/-- The label for a name where some strings are denoted already. -/
inductive Chosen (used : List String) (name : String) : Label → Prop
  | preferred (free : (ofName name).denoted ∉ used) : Chosen used name (ofName name)
  | original (taken : (ofName name).denoted ∈ used) (free : name ∉ used) :
      Chosen used name (quoted name)
  | numbered {numbered : String} (taken : (ofName name).denoted ∈ used)
      (taken_too : name ∈ used) (first : IsFirstFree used (ofName name).denoted numbered) :
      Chosen used name ((ofName name).withDenoted numbered)

theorem denoted_withDenoted (label : Label) (text : String) :
    (label.withDenoted text).denoted = text := by
  cases label <;> rfl

section

variable {used : List String} {name : String} {label : Label}

theorem Chosen.fresh (chosen : Chosen used name label) : label.denoted ∉ used := by
  cases chosen with
  | preferred free => exact free
  | original _ free => exact free
  | numbered _ _ first => rw [denoted_withDenoted]; exact first.free

theorem Chosen.isUsable (chosen : Chosen used name label) : label.IsUsable := by
  cases chosen with
  | preferred => exact isUsable_ofName name
  | original => trivial
  | numbered _ _ first =>
      obtain ⟨number, -, rfl, -⟩ := first.least
      exact isUsable_withDenoted (isUsable_ofName name) number

theorem Chosen.eq_ofName (chosen : Chosen used name label)
    (free : (ofName name).denoted ∉ used) : label = ofName name := by
  cases chosen with
  | preferred => rfl
  | original taken | numbered taken => exact absurd taken free

end

theorem chosen_unused (used : List String) (name : String) :
    Chosen used name (unused used name) := by
  unfold unused
  dsimp only
  split
  · next free => exact .preferred free
  · next taken =>
    split
    · next free => exact .original (not_not.mp taken) free
    · next taken_too =>
      exact .numbered (not_not.mp taken) (not_not.mp taken_too)
        (isFirstFree_freeSuffixed _ _)

/-! Labels one after the other. -/

theorem ofNamesFrom_append (used before after : List String) :
    ofNamesFrom used (before ++ after) =
      ofNamesFrom used before ++
        ofNamesFrom (((ofNamesFrom used before).map denoted).reverse ++ used) after := by
  induction before generalizing used with
  | nil => rfl
  | cons name rest induction =>
      simp only [List.cons_append, ofNamesFrom, induction, List.map_cons, List.reverse_cons,
        List.append_assoc, List.nil_append]

/-- A label is chosen with regard to the strings that earlier ones denote. -/
theorem ofNames_split (before after : List String) (name : String) :
    ∃ label later, ofNames (before ++ name :: after) = ofNames before ++ label :: later ∧
      Chosen ((ofNames before).map denoted).reverse name label := by
  have split := ofNamesFrom_append [] before (name :: after)
  rw [List.append_nil] at split
  exact ⟨_, _, split, chosen_unused _ _⟩

theorem isUsable_of_mem {used names : List String} :
    ∀ label ∈ ofNamesFrom used names, label.IsUsable := by
  induction names generalizing used with
  | nil => exact List.forall_mem_nil _
  | cons name rest induction =>
      exact List.forall_mem_cons.mpr ⟨(chosen_unused used name).isUsable, induction⟩

theorem nodup_denoted (used names : List String) :
    ((ofNamesFrom used names).map denoted).Nodup ∧
      ∀ label ∈ ofNamesFrom used names, label.denoted ∉ used := by
  induction names generalizing used with
  | nil => exact ⟨List.nodup_nil, nofun⟩
  | cons name rest induction =>
      obtain ⟨distinct, fresh⟩ := induction ((unused used name).denoted :: used)
      constructor
      · refine List.nodup_cons.mpr ⟨fun again => ?_, distinct⟩
        obtain ⟨label, later, same⟩ := List.mem_map.mp again
        exact fresh label later (same ▸ List.mem_cons_self)
      · refine List.forall_mem_cons.mpr ⟨(chosen_unused used name).fresh, fun label later => ?_⟩
        exact fun known => fresh label later (List.mem_cons_of_mem _ known)

/-- What a record needs of the labels of its properties. -/
structure Serve (names : List String) (labels : List Label) : Prop where
  one_each : labels.length = names.length
  denote : ∀ label ∈ labels, denotation? label.text = some label.denoted.toList
  distinct : (labels.map fun label => denotation? label.text).Nodup
  unreserved : ∀ word, bare word ∈ labels → word ∉ reservedWords
  /-- Only a label of an earlier property takes a name its own label away, and then a free
  string is found. -/
  chosen : ∀ before name after, names = before ++ name :: after →
    ∃ earlier label later, labels = earlier ++ label :: later ∧
      earlier.length = before.length ∧
      Chosen (earlier.map denoted).reverse name label ∧
      ((∀ other ∈ earlier, other.denoted ≠ (ofName name).denoted) → label = ofName name)

theorem serve_ofNames (names : List String) : Serve names (ofNames names) := by
  have denote : ∀ label ∈ ofNames names, denotation? label.text = some label.denoted.toList :=
    fun label member => denotation?_text (isUsable_of_mem label member)
  constructor
  case one_each => exact length_ofNamesFrom [] names
  case denote => exact denote
  case distinct =>
    have texts : (ofNames names).map (fun label => denotation? label.text) =
        ((ofNames names).map denoted).map fun text => some text.toList := by
      rw [List.map_map]
      exact List.map_congr_left denote
    rw [texts]
    refine (nodup_denoted [] names).1.map fun left right same => ?_
    exact String.toList_inj.mp (Option.some.inj same)
  case unreserved => exact fun word member => (isUsable_of_mem (bare word) member).2
  case chosen =>
    rintro before name after rfl
    obtain ⟨label, later, split, chosen⟩ := ofNames_split before after name
    refine ⟨_, label, later, split, length_ofNamesFrom [] before, chosen, fun free => ?_⟩
    refine chosen.eq_ofName fun taken => ?_
    obtain ⟨other, member, same⟩ := List.mem_map.mp (List.mem_reverse.mp taken)
    exact free other member same

end Label

/-- Every list of names has labels that serve it, and a record is printed with those of its
fields. -/
theorem labels_serve (names : List String) :
    Label.Serve names (Label.ofNames names) ∧
      ∀ (options : EmitOptions) (fields : List Field),
        (recordFields options fields).map (·.label) =
          Label.ofNames (fields.map (·.name)) := by
  refine ⟨Label.serve_ofNames names, fun options fields => ?_⟩
  have lengths := Label.length_ofNamesFrom [] (fields.map (·.name))
  rw [List.length_map] at lengths
  rw [recordFields, ← List.map_uncurry_zip_eq_zipWith, List.map_map]
  exact List.map_fst_zip (Nat.le_of_eq lengths)

end Schemata.PureScript
