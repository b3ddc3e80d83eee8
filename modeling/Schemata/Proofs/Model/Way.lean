import Schemata.Model.Declaration
import Schemata.Proofs.Text.Casing
import Schemata.Resolution.Stop

namespace Schemata

/-! The ways from a definition to the names in it. A way is a list of segments: the Pascal
casing of a field name, or a word for an element, a value or a variant. -/

section

variable {segment name : String} {way : List String}

/-- Ways that begin with one more segment. -/
def below (segment : String) (ways : List (List String × String)) :
    List (List String × String) :=
  ways.map fun entry => (segment :: entry.1, entry.2)

theorem mem_below {ways : List (List String × String)} :
    (way, name) ∈ below segment ways ↔
      ∃ rest, way = segment :: rest ∧ (rest, name) ∈ ways := by
  simp only [below, List.mem_map, Prod.exists, Prod.mk.injEq]
  constructor
  · rintro ⟨rest, _, member, rfl, rfl⟩
    exact ⟨rest, rfl, member⟩
  · rintro ⟨rest, rfl, member⟩
    exact ⟨rest, name, member, rfl, rfl⟩

@[simp] theorem map_snd_below (ways : List (List String × String)) :
    (below segment ways).map Prod.snd = ways.map Prod.snd :=
  List.map_map

end

open Resolution in
def TypeRef.ways : TypeRef → List (List String × String)
  | primitive _ | untypedMap => []
  | named name => [([], name)]
  | array element => below itemWay element.ways
  | map values => below valueWay values.ways
  | nullable inner => inner.ways

namespace Definition

open Resolution

def fieldWays (fields : List Field) : List (List String × String) :=
  fields.flatMap fun field => below (Text.pascalCase field.name) field.type.ways

def variantWays (index : Nat) : List TypeRef → List (List String × String)
  | [] => []
  | variant :: rest =>
      below (variantWay index) variant.ways ++ variantWays (index + 1) rest

def ways : Definition → List (List String × String)
  | primitive _ | enum _ | untypedMap => []
  | object fields => fieldWays fields
  | array element => below itemWay element.ways
  | map values => below valueWay values.ways
  | union variants => variantWays 0 variants
  | reference target => target.ways

end Definition

/-! The ways lead to all names. -/

theorem TypeRef.map_snd_ways (type : TypeRef) : type.ways.map Prod.snd = type.names := by
  induction type with
  | primitive | untypedMap | named => rfl
  | array _ induction | map _ induction => exact (map_snd_below _).trans induction
  | nullable _ induction => exact induction

theorem Definition.map_snd_variantWays (index : Nat) (variants : List TypeRef) :
    (variantWays index variants).map Prod.snd = variants.flatMap (·.names) := by
  induction variants generalizing index with
  | nil => rfl
  | cons variant rest induction =>
      simp only [variantWays, List.map_append, map_snd_below, TypeRef.map_snd_ways,
        induction, List.flatMap_cons]

theorem Definition.map_snd_ways (definition : Definition) :
    definition.ways.map Prod.snd = definition.names := by
  cases definition with
  | primitive | enum | untypedMap => rfl
  | object fields =>
      simp only [ways, fieldWays, List.map_flatMap, map_snd_below, TypeRef.map_snd_ways,
        names, types, List.flatMap_map]
  | array element | map element =>
      simp only [ways, map_snd_below, TypeRef.map_snd_ways, names, types,
        List.flatMap_cons, List.flatMap_nil, List.append_nil]
  | union variants => exact map_snd_variantWays 0 variants
  | reference target =>
      simp only [ways, TypeRef.map_snd_ways, names, types, List.flatMap_cons,
        List.flatMap_nil, List.append_nil]

theorem Definition.exists_way {definition : Definition} {name : String}
    (mentioned : name ∈ definition.names) : ∃ way, (way, name) ∈ definition.ways := by
  rw [← map_snd_ways] at mentioned
  obtain ⟨⟨way, _⟩, member, rfl⟩ := List.mem_map.mp mentioned
  exact ⟨way, member⟩

/-! The segments are words. -/

def IsWordWay (way : List String) : Prop :=
  ∀ segment ∈ way, Text.IsWordText segment.toList

theorem IsWordWay.toList_join {way : List String} (wordy : IsWordWay way) :
    Text.IsWordText (String.join way).toList := by
  rw [String.toList_join]
  intro char member
  obtain ⟨segment, among, inside⟩ := List.mem_flatMap.mp member
  exact wordy segment among char inside

theorem isWordWay_below {segment : String} {ways : List (List String × String)}
    (letters : Text.IsWordText segment.toList) (wordy : ∀ entry ∈ ways, IsWordWay entry.1) :
    ∀ entry ∈ below segment ways, IsWordWay entry.1 := by
  rintro ⟨way, name⟩ member
  obtain ⟨rest, rfl, inner⟩ := mem_below.mp member
  exact List.forall_mem_cons.mpr ⟨letters, wordy (rest, name) inner⟩

theorem isWordText_variantWay (index : Nat) :
    Text.IsWordText (Resolution.variantWay index).toList := by
  rw [Resolution.variantWay, String.toList_append]
  have letters : Text.IsWordText "Variant".toList := by decide
  refine List.forall_mem_append.mpr ⟨letters, ?_⟩
  rw [String.toList_ofList]
  exact Text.isWordText_naturalText (index + 1)

theorem TypeRef.isWordWay_ways (type : TypeRef) : ∀ entry ∈ type.ways, IsWordWay entry.1 := by
  induction type with
  | primitive | untypedMap => nofun
  | named => exact List.forall_mem_singleton.mpr nofun
  | array _ induction => exact isWordWay_below (by decide) induction
  | map _ induction => exact isWordWay_below (by decide) induction
  | nullable _ induction => exact induction

theorem Definition.isWordWay_variantWays (index : Nat) (variants : List TypeRef) :
    ∀ entry ∈ variantWays index variants, IsWordWay entry.1 := by
  induction variants generalizing index with
  | nil => nofun
  | cons variant rest induction =>
      exact List.forall_mem_append.mpr
        ⟨isWordWay_below (isWordText_variantWay index) variant.isWordWay_ways,
          induction (index + 1)⟩

theorem Definition.isWordWay_ways (definition : Definition) :
    ∀ entry ∈ definition.ways, IsWordWay entry.1 := by
  cases definition with
  | primitive | enum | untypedMap => nofun
  | object fields =>
      intro entry member
      obtain ⟨field, -, inside⟩ := List.mem_flatMap.mp member
      exact isWordWay_below (Text.isCapitalForm_pascalCase field.name).letters
        field.type.isWordWay_ways entry inside
  | array element => exact isWordWay_below (by decide) element.isWordWay_ways
  | map values => exact isWordWay_below (by decide) values.isWordWay_ways
  | union variants => exact isWordWay_variantWays 0 variants
  | reference target => exact target.isWordWay_ways

end Schemata
