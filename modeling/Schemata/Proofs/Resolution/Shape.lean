import Mathlib.Data.List.Nodup
import Mathlib.Data.List.Perm.Basic
import Schemata.Proofs.Resolution.Position
import Schemata.Proofs.Schema.Nodes

namespace Schemata.Resolution

/-! The anonymous shapes inside a schema with their positions, in the order of
their declarations. -/

def ownShape (position : Position) (schema : Schema) : List (Position × Schema) :=
  if schema.NeedsName then [(position, schema)] else []

mutual
def shapesWithin (position : Position) : Schema → List (Position × Schema)
  | .reference .. | .primitive .. | .enum .. | .untypedMap _ => []
  | .array _ items =>
      shapesWithin (position.child 0) items ++ ownShape (position.child 0) items
  | .map _ values =>
      shapesWithin (position.child 0) values ++ ownShape (position.child 0) values
  | .object _ properties => propertyShapes position 0 properties
  | .union _ variants => variantShapes position 0 variants

def propertyShapes (owner : Position) (index : Nat) :
    List (Property Schema) → List (Position × Schema)
  | [] => []
  | ⟨_, _, schema⟩ :: rest =>
      shapesWithin (owner.child index) schema ++
        ownShape (owner.child index) schema ++
        propertyShapes owner (index + 1) rest

def variantShapes (owner : Position) (index : Nat) :
    List Schema → List (Position × Schema)
  | [] => []
  | variant :: rest =>
      shapesWithin (owner.child index) variant ++
        ownShape (owner.child index) variant ++
        variantShapes owner (index + 1) rest
end

/-- The shapes inside a schema and the schema itself, if it is one. -/
def shapesAt (position : Position) (schema : Schema) : List (Position × Schema) :=
  shapesWithin position schema ++ ownShape position schema

theorem shapesAt_array (position : Position) (info : SchemaInfo) (items : Schema) :
    shapesAt position (.array info items) = shapesAt (position.child 0) items :=
  List.append_nil _

theorem shapesAt_map (position : Position) (info : SchemaInfo) (values : Schema) :
    shapesAt position (.map info values) = shapesAt (position.child 0) values :=
  List.append_nil _

theorem shapesAt_object (position : Position) (info : SchemaInfo)
    (properties : List (Property Schema)) :
    shapesAt position (.object info properties) =
      propertyShapes position 0 properties ++
        [(position, .object info properties)] :=
  rfl

theorem shapesAt_union (position : Position) (info : SchemaInfo)
    (variants : List Schema) :
    shapesAt position (.union info variants) =
      variantShapes position 0 variants ++ [(position, .union info variants)] :=
  rfl

theorem propertyShapes_cons (owner : Position) (index : Nat) (name : String)
    (required : Bool) (schema : Schema) (rest : List (Property Schema)) :
    propertyShapes owner index (⟨name, required, schema⟩ :: rest) =
      shapesAt (owner.child index) schema ++
        propertyShapes owner (index + 1) rest :=
  rfl

theorem variantShapes_cons (owner : Position) (index : Nat) (variant : Schema)
    (rest : List Schema) :
    variantShapes owner index (variant :: rest) =
      shapesAt (owner.child index) variant ++
        variantShapes owner (index + 1) rest :=
  rfl

private theorem shapesWithin_subset_at {position : Position} {schema : Schema}
    (inner : ∀ node ∈ shapesWithin position schema,
      shapesWithin node.1 node.2 ⊆ shapesWithin position schema) :
    ∀ node ∈ shapesAt position schema,
      shapesWithin node.1 node.2 ⊆ shapesAt position schema := by
  intro node member
  refine List.subset_append_of_subset_left _ ?_
  rcases List.mem_append.mp member with deeper | own
  · exact inner node deeper
  · unfold ownShape at own
    split at own
    · rw [List.mem_singleton.mp own]
      exact List.Subset.refl _
    · cases own

mutual
theorem shapesWithin_subset : (position : Position) → (schema : Schema) →
    ∀ node ∈ shapesWithin position schema,
      shapesWithin node.1 node.2 ⊆ shapesWithin position schema
  | _, .reference .. | _, .primitive .. | _, .enum .. | _, .untypedMap _ => nofun
  | position, .array _ items | position, .map _ items =>
      shapesWithin_subset_at (shapesWithin_subset (position.child 0) items)
  | position, .object _ properties => propertyShapes_subset position 0 properties
  | position, .union _ variants => variantShapes_subset position 0 variants

theorem propertyShapes_subset : (owner : Position) → (index : Nat) →
    (properties : List (Property Schema)) →
    ∀ node ∈ propertyShapes owner index properties,
      shapesWithin node.1 node.2 ⊆ propertyShapes owner index properties
  | _, _, [] => nofun
  | owner, index, ⟨_, _, schema⟩ :: rest => by
      intro node member
      rw [propertyShapes_cons] at member ⊢
      rcases List.mem_append.mp member with here | later
      · have inner := shapesWithin_subset (owner.child index) schema
        exact List.subset_append_of_subset_left _
          (shapesWithin_subset_at inner node here)
      · exact List.subset_append_of_subset_right _
          (propertyShapes_subset owner (index + 1) rest node later)

theorem variantShapes_subset : (owner : Position) → (index : Nat) →
    (variants : List Schema) →
    ∀ node ∈ variantShapes owner index variants,
      shapesWithin node.1 node.2 ⊆ variantShapes owner index variants
  | _, _, [] => nofun
  | owner, index, variant :: rest => by
      intro node member
      rw [variantShapes_cons] at member ⊢
      rcases List.mem_append.mp member with here | later
      · have inner := shapesWithin_subset (owner.child index) variant
        exact List.subset_append_of_subset_left _
          (shapesWithin_subset_at inner node here)
      · exact List.subset_append_of_subset_right _
          (variantShapes_subset owner (index + 1) rest node later)
end

theorem map_snd_ownShape (position : Position) (schema : Schema) :
    (ownShape position schema).map Prod.snd =
      [schema].filter (·.NeedsName) := by
  unfold ownShape
  split <;> simp [*]

mutual
theorem map_snd_shapesWithin : (position : Position) → (schema : Schema) →
    (shapesWithin position schema).map Prod.snd =
      schema.within.filter (·.NeedsName)
  | _, .reference .. | _, .primitive .. | _, .enum .. | _, .untypedMap _ => rfl
  | position, .array _ items | position, .map _ items => by
      simp only [shapesWithin, Schema.within, List.map_append,
        List.filter_append, map_snd_ownShape, map_snd_shapesWithin _ items]
  | position, .object _ properties => by
      simp only [shapesWithin, Schema.within, map_snd_propertyShapes]
  | position, .union _ variants => by
      simp only [shapesWithin, Schema.within, map_snd_variantShapes]

theorem map_snd_propertyShapes : (owner : Position) → (index : Nat) →
    (properties : List (Property Schema)) →
    (propertyShapes owner index properties).map Prod.snd =
      (Schema.withinProperties properties).filter (·.NeedsName)
  | _, _, [] => rfl
  | owner, index, ⟨_, _, schema⟩ :: rest => by
      rw [Schema.withinProperties, List.append_cons]
      simp only [propertyShapes, List.map_append, List.filter_append,
        map_snd_ownShape, map_snd_shapesWithin _ schema,
        map_snd_propertyShapes _ _ rest]

theorem map_snd_variantShapes : (owner : Position) → (index : Nat) →
    (variants : List Schema) →
    (variantShapes owner index variants).map Prod.snd =
      (Schema.withinVariants variants).filter (·.NeedsName)
  | _, _, [] => rfl
  | owner, index, variant :: rest => by
      rw [Schema.withinVariants, List.append_cons]
      simp only [variantShapes, List.map_append, List.filter_append,
        map_snd_ownShape, map_snd_shapesWithin _ variant,
        map_snd_variantShapes _ _ rest]
end

theorem length_shapesWithin (position : Position) (schema : Schema) :
    (shapesWithin position schema).length =
      (schema.within.filter (·.NeedsName)).length := by
  rw [← map_snd_shapesWithin position schema, List.length_map]

/-- What stands inside a schema is apart from the schema itself. -/
theorem spread_shapesAt {owner : Position} {index : Nat} {schema : Schema}
    (inside : Position.Spread ((owner.child index).From 0)
      ((shapesWithin (owner.child index) schema).map Prod.fst)) :
    Position.Spread (owner.Beneath index)
      ((shapesAt (owner.child index) schema).map Prod.fst) := by
  have own : Position.Spread (· = owner.child index)
      ((ownShape (owner.child index) schema).map Prod.fst) := by
    unfold ownShape
    split <;> constructor <;> simp
  rw [shapesAt, List.map_append]
  refine inside.append own (fun _ below => below.ne_owner)
    (fun _ below => below.beneath) ?_
  rintro _ rfl
  exact owner.beneath_child index

private theorem spread_child {position : Position} {schema : Schema}
    (inside : Position.Spread ((position.child 0).From 0)
      ((shapesWithin (position.child 0) schema).map Prod.fst)) :
    Position.Spread (position.From 0)
      ((shapesAt (position.child 0) schema).map Prod.fst) :=
  (spread_shapesAt inside).mono fun _ beneath => beneath.start

private theorem spread_sibling {owner : Position} {index : Nat} {schema : Schema}
    {later : List (Position × Schema)}
    (inside : Position.Spread ((owner.child index).From 0)
      ((shapesWithin (owner.child index) schema).map Prod.fst))
    (rest : Position.Spread (owner.From (index + 1)) (later.map Prod.fst)) :
    Position.Spread (owner.From index)
      ((shapesAt (owner.child index) schema ++ later).map Prod.fst) := by
  rw [List.map_append]
  exact (spread_shapesAt inside).append rest
    (fun _ beneath after => after.not_beneath beneath)
    (fun _ beneath => beneath.start) (fun _ after => after.of_succ)

mutual
theorem spread_shapesWithin : (position : Position) → (schema : Schema) →
    Position.Spread (position.From 0)
      ((shapesWithin position schema).map Prod.fst)
  | _, .reference .. | _, .primitive .. | _, .enum .. | _, .untypedMap _ =>
      Position.spread_nil _
  | position, .array _ items | position, .map _ items =>
      spread_child (spread_shapesWithin (position.child 0) items)
  | position, .object _ properties => spread_propertyShapes position 0 properties
  | position, .union _ variants => spread_variantShapes position 0 variants

theorem spread_propertyShapes : (owner : Position) → (index : Nat) →
    (properties : List (Property Schema)) →
    Position.Spread (owner.From index)
      ((propertyShapes owner index properties).map Prod.fst)
  | _, _, [] => Position.spread_nil _
  | owner, index, ⟨_, _, schema⟩ :: rest =>
      spread_sibling (spread_shapesWithin (owner.child index) schema)
        (spread_propertyShapes owner (index + 1) rest)

theorem spread_variantShapes : (owner : Position) → (index : Nat) →
    (variants : List Schema) →
    Position.Spread (owner.From index)
      ((variantShapes owner index variants).map Prod.fst)
  | _, _, [] => Position.spread_nil _
  | owner, index, variant :: rest =>
      spread_sibling (spread_shapesWithin (owner.child index) variant)
        (spread_variantShapes owner (index + 1) rest)
end

theorem path_ne_nil {root : String × Schema} {shape : Position × Schema}
    (within : shape ∈ shapesWithin ⟨root.1, []⟩ root.2) : shape.1.path ≠ [] := by
  obtain ⟨_, _, _, below⟩ := (spread_shapesWithin ⟨root.1, []⟩ root.2).inside
    shape.1 (List.mem_map_of_mem within)
  rw [below]
  exact List.append_ne_nil_of_right_ne_nil _ (List.cons_ne_nil _ _)

/-- The nodes of a root that are declared, in the order of their declarations. -/
def namedNodes (root : String × Schema) : List (Position × Schema) :=
  shapesWithin ⟨root.1, []⟩ root.2 ++ [(⟨root.1, []⟩, root.2)]

theorem root_mem_namedNodes (root : String × Schema) :
    (⟨root.1, []⟩, root.2) ∈ namedNodes root :=
  List.mem_append_right _ (List.mem_singleton_self _)

theorem shapesWithin_subset_of_named {root : String × Schema}
    {node : Position × Schema} (member : node ∈ namedNodes root) :
    shapesWithin node.1 node.2 ⊆ shapesWithin ⟨root.1, []⟩ root.2 := by
  rcases List.mem_append.mp member with shape | own
  · exact shapesWithin_subset _ _ node shape
  · rw [List.mem_singleton.mp own]
    exact List.Subset.refl _

theorem mem_nodes_of_named {root : String × Schema} {node : Position × Schema}
    (member : node ∈ namedNodes root) : node.2 ∈ root.2.nodes := by
  rcases List.mem_append.mp member with shape | own
  · have among : node.2 ∈ (shapesWithin ⟨root.1, []⟩ root.2).map Prod.snd :=
      List.mem_map_of_mem shape
    rw [map_snd_shapesWithin] at among
    exact List.mem_append_left _ (List.mem_of_mem_filter among)
  · rw [List.mem_singleton.mp own]
    exact List.mem_append_right _ (List.mem_singleton_self _)

def positions (forest : Forest) : List Position :=
  forest.roots.flatMap fun root => (namedNodes root).map Prod.fst

theorem root_of_mem_namedNodes {root : String × Schema} {position : Position}
    (member : position ∈ (namedNodes root).map Prod.fst) :
    position.root = root.1 := by
  rw [namedNodes, List.map_append] at member
  rcases List.mem_append.mp member with inside | own
  · obtain ⟨_, _, beneath⟩ :=
      (spread_shapesWithin ⟨root.1, []⟩ root.2).inside position inside
    exact beneath.root_eq
  · rw [List.mem_singleton.mp own]

theorem nodup_namedNodes (root : String × Schema) :
    ((namedNodes root).map Prod.fst).Nodup := by
  have inside := spread_shapesWithin ⟨root.1, []⟩ root.2
  rw [namedNodes, List.map_append]
  refine List.nodup_append'.mpr
    ⟨inside.distinct, List.nodup_singleton _, ?_⟩
  intro position member own
  exact (inside.inside position member).ne_owner (List.mem_singleton.mp own)

theorem nodup_positions (forest : Forest) : (positions forest).Nodup := by
  refine List.nodup_flatMap.mpr ⟨fun root _ => nodup_namedNodes root, ?_⟩
  refine (List.pairwise_map.mp forest.distinct).imp ?_
  intro left right different position leftMember rightMember
  exact different
    ((root_of_mem_namedNodes leftMember).symm.trans
      (root_of_mem_namedNodes rightMember))

theorem mem_positions_of_named {forest : Forest} {root : String × Schema}
    (declared : root ∈ forest.roots) {node : Position × Schema}
    (member : node ∈ namedNodes root) : node.1 ∈ positions forest :=
  List.mem_flatMap.mpr
    ⟨root, declared, List.mem_map.mpr ⟨node, member, rfl⟩⟩

theorem root_of_mem_positions {forest : Forest} {position : Position}
    (member : position ∈ positions forest) :
    position.root ∈ forest.roots.map Prod.fst := by
  obtain ⟨root, declared, inside⟩ := List.mem_flatMap.mp member
  exact List.mem_map.mpr ⟨root, declared, (root_of_mem_namedNodes inside).symm⟩

theorem root_mem_positions {forest : Forest} {root : String}
    (declared : root ∈ forest.roots.map Prod.fst) :
    (⟨root, []⟩ : Position) ∈ positions forest := by
  obtain ⟨entry, member, rfl⟩ := List.mem_map.mp declared
  exact mem_positions_of_named member (root_mem_namedNodes entry)

end Schemata.Resolution
