import Schemata.Proofs.Resolution.Closure

namespace Schemata

/-! What the words of written types stand for. In a file that declares a word, the word stands
for the declaration, whatever it is meant to be. -/

inductive Sense where
  /-- A type of the target language or an imported one. -/
  | builtIn (word : List Char)
  | declared (name : List Char)
  deriving DecidableEq

namespace Sense

def word : Sense → List Char
  | builtIn word => word
  | declared name => name

/-- The sense of a word where the scope is declared. -/
def within (scope : List (List Char)) (word : List Char) : Sense :=
  if word ∈ scope then declared word else builtIn word

variable {scope : List (List Char)}

theorem map_within_eq_iff {senses : List Sense}
    (known : ∀ name, declared name ∈ senses → name ∈ scope) :
    (senses.map word).map (within scope) = senses ↔
      ∀ word, builtIn word ∈ senses → word ∉ scope := by
  induction senses with
  | nil => simp
  | cons sense rest induction =>
      have here := known
      have later := induction fun name member => known name (List.mem_cons_of_mem _ member)
      simp only [List.map_cons, List.cons.injEq, later, List.mem_cons, or_imp, forall_and]
      refine and_congr_left fun _ => ?_
      cases sense with
      | builtIn held => by_cases declares : held ∈ scope <;> simp [word, within, declares]
      | declared name =>
          have declares := known name List.mem_cons_self
          simp [word, within, declares]

theorem words_of_each {α : Type} {items : List α} {text : α → List Char}
    {words : List Char → List (List Char)} {senses : α → List Sense}
    (each : ∀ item ∈ items, words (text item) = (senses item).map word) :
    (items.map text).flatMap words = (items.flatMap senses).map word := by
  rw [List.flatMap_map, List.map_flatMap]
  exact List.flatMap_congr each

/-! What the senses of a definition can be. -/

/-- A word of some kind, or one of the names. -/
def IsOf (kind : List Char → Prop) (names : List String) : Sense → Prop
  | builtIn word => kind word
  | declared name => ∃ mentioned ∈ names, mentioned.toList = name

theorem IsOf.mono {kind : List Char → Prop} {names wider : List String} {sense : Sense}
    (isOf : sense.IsOf kind names) (widens : names ⊆ wider) : sense.IsOf kind wider := by
  cases sense with
  | builtIn word => exact isOf
  | declared name =>
      obtain ⟨mentioned, member, same⟩ := isOf
      exact ⟨mentioned, widens member, same⟩

/-! Senses of a whole file. -/

/-- A word that is meant to be a built-in type somewhere. -/
def Calls (senses : List (List Sense)) (word : List Char) : Prop :=
  ∃ meant ∈ senses, builtIn word ∈ meant

/-- The words of each declaration, read in the scope, are what is meant. -/
def ReadAs (scope : List (List Char)) (words : List (List (List Char)))
    (senses : List (List Sense)) : Prop :=
  words.map (List.map (within scope)) = senses

theorem readAs_iff {senses : List (List Sense)}
    (known : ∀ meant ∈ senses, ∀ name, declared name ∈ meant → name ∈ scope) :
    ReadAs scope (senses.map (List.map word)) senses ↔
      ∀ word, Calls senses word → word ∉ scope := by
  have pointwise := List.map_inj_left (l := senses)
    (f := List.map (within scope) ∘ List.map word) (g := id)
  rw [List.map_id] at pointwise
  rw [ReadAs, List.map_map, pointwise]
  constructor
  · rintro same word ⟨meant, member, called⟩
    exact (map_within_eq_iff (known meant member)).mp (same meant member) word called
  · intro free meant member
    exact (map_within_eq_iff (known meant member)).mpr fun word called =>
      free word ⟨meant, member, called⟩

/-- A file is read as it is meant exactly if it declares none of the words that are meant
to be built-in types there. Only some of these can be declared at all. -/
theorem readAs_iff_of_resolve {forest : Forest} {model : Model}
    (succeeds : forest.resolve = .ok model)
    {senses : Declaration → List Sense} {kind : List Char → Prop}
    (isOf : ∀ source, ∀ sense ∈ senses source, sense.IsOf kind source.definition.names)
    (declares : scope = model.declarations.map (·.name.toList))
    {builtIns : List (List Char)}
    (others : ∀ word, kind word → word ∈ builtIns ∨ word ∉ scope) :
    ReadAs scope ((model.declarations.map senses).map (List.map word))
        (model.declarations.map senses) ↔
      ∀ word ∈ builtIns, Calls (model.declarations.map senses) word → word ∉ scope := by
  have closed := declared_of_mentioned succeeds
  rw [readAs_iff]
  · constructor
    · exact fun free word _ called => free word called
    · rintro free word ⟨_, member, called⟩
      obtain ⟨source, among, rfl⟩ := List.mem_map.mp member
      rcases others word (isOf source _ called) with builtIn | undeclared
      · exact free word builtIn ⟨_, member, called⟩
      · exact undeclared
  · intro _ member name named
    obtain ⟨source, among, rfl⟩ := List.mem_map.mp member
    obtain ⟨mentioned, inside, rfl⟩ := isOf source _ named
    obtain ⟨target, kept, rfl⟩ := closed source among mentioned inside
    rw [declares]
    exact List.mem_map_of_mem kept

end Sense

end Schemata
