import Schemata.Proofs.Resolution.Block
import Schemata.Proofs.Resolution.Stop

namespace Schemata.Resolution

/-! Which declarations a definition mentions. Every anonymous shape is mentioned once,
by a definition that comes later; all other mentions are the references. -/

def inlineMentions (position : Position) : Schema → List Position
  | .reference _ target => [⟨target, []⟩]
  | .primitive .. | .untypedMap _ => []
  | .array _ items => inlineMentions (position.child 0) items
  | .map _ values => inlineMentions (position.child 0) values
  | .enum .. | .object .. | .union .. => [position]

def propertyMentions (owner : Position) (index : Nat) :
    List (Property Schema) → List Position
  | [] => []
  | ⟨_, _, schema⟩ :: rest =>
      inlineMentions (owner.child index) schema ++
        propertyMentions owner (index + 1) rest

def variantMentions (owner : Position) (index : Nat) :
    List Schema → List Position
  | [] => []
  | variant :: rest =>
      inlineMentions (owner.child index) variant ++
        variantMentions owner (index + 1) rest

def mentions (position : Position) : Schema → List Position
  | .reference _ target => [⟨target, []⟩]
  | .primitive .. | .untypedMap _ | .enum .. => []
  | .array _ items => inlineMentions (position.child 0) items
  | .map _ values => inlineMentions (position.child 0) values
  | .object _ properties => propertyMentions position 0 properties
  | .union _ variants => variantMentions position 0 variants

def mentionsOf (node : Position × Schema) : List Position :=
  mentions node.1 node.2

/-! Names in definitions are the names of the mentioned positions. -/

section

variable {nameOf : Position → String}

/-- References are written with the type names of their targets. -/
def WritesRoots (nameOf : Position → String) (mentioned : List Position) : Prop :=
  ∀ target, ⟨target, []⟩ ∈ mentioned → nameOf ⟨target, []⟩ = typeName target

private theorem WritesRoots.left {first second : List Position}
    (writes : WritesRoots nameOf (first ++ second)) : WritesRoots nameOf first :=
  fun target member => writes target (List.mem_append_left _ member)

private theorem WritesRoots.right {first second : List Position}
    (writes : WritesRoots nameOf (first ++ second)) : WritesRoots nameOf second :=
  fun target member => writes target (List.mem_append_right _ member)

@[simp] theorem names_elementType (schema : Schema) (type : TypeRef) :
    (elementType schema type).names = type.names := by
  unfold elementType
  split <;> rfl

theorem names_inlineType : (position : Position) → (schema : Schema) →
    WritesRoots nameOf (inlineMentions position schema) →
    (inlineType nameOf position schema).result.names =
      (inlineMentions position schema).map nameOf
  | _, .reference _ target, writes =>
      congrArg ([·]) (writes target (List.mem_singleton_self _)).symm
  | _, .primitive .., _ | _, .untypedMap _, _ | _, .enum .., _
  | _, .object .., _ | _, .union .., _ => rfl
  | position, .array _ items, writes | position, .map _ items, writes => by
      rw [inlineMentions, ← names_inlineType (position.child 0) items writes]
      simp [inlineType, TypeRef.names]

theorem names_fieldsOf : (owner : Position) → (index : Nat) →
    (properties : List (Property Schema)) →
    WritesRoots nameOf (propertyMentions owner index properties) →
    (fieldsOf nameOf owner index properties).result.flatMap (·.type.names) =
      (propertyMentions owner index properties).map nameOf
  | _, _, [], _ => rfl
  | owner, index, ⟨_, _, schema⟩ :: rest, writes => by
      rw [propertyMentions, List.map_append,
        ← names_inlineType (owner.child index) schema writes.left,
        ← names_fieldsOf owner (index + 1) rest writes.right]
      rfl

theorem names_variantTypes : (owner : Position) → (index : Nat) →
    (variants : List Schema) →
    WritesRoots nameOf (variantMentions owner index variants) →
    (variantTypes nameOf owner index variants).result.flatMap (·.names) =
      (variantMentions owner index variants).map nameOf
  | _, _, [], _ => rfl
  | owner, index, variant :: rest, writes => by
      rw [variantMentions, List.map_append,
        ← names_inlineType (owner.child index) variant writes.left,
        ← names_variantTypes owner (index + 1) rest writes.right]
      simp [variantTypes]

theorem names_definitionOf (position : Position) (schema : Schema)
    (writes : WritesRoots nameOf (mentions position schema)) :
    (definitionOf nameOf position schema).result.names =
      (mentions position schema).map nameOf := by
  cases schema with
  | reference _ target =>
      exact congrArg ([·]) (writes target (List.mem_singleton_self _)).symm
  | primitive | untypedMap | enum => rfl
  | array _ items | map _ items =>
      rw [mentions, ← names_inlineType (position.child 0) items writes]
      simp [definitionOf, Definition.names, Definition.types]
  | object _ properties =>
      rw [mentions, ← names_fieldsOf position 0 properties writes]
      simp [definitionOf, Definition.names, Definition.types, List.flatMap_map]
  | union _ variants =>
      rw [mentions, ← names_variantTypes position 0 variants writes]
      rfl

end

/-! Everything mentioned by some nodes and by what surrounds them: the nodes, once
each, and the targets of the references. No node is mentioned by an earlier one. -/

def targetsOf (references : List (String × Location)) : List Position :=
  references.map fun reference => ⟨reference.1, []⟩

/-- Every node is mentioned by a later one or from outside. -/
def Followed (outer : List Position) : List (Position × Schema) → Prop
  | [] => True
  | node :: later =>
      (node.1 ∈ outer ∨ ∃ owner ∈ later, node.1 ∈ mentionsOf owner) ∧
        Followed outer later

structure Accounted (nodes : List (Position × Schema)) (outer : List Position)
    (references : List (String × Location)) : Prop where
  mentioned : (nodes.flatMap mentionsOf ++ outer).Perm
    (nodes.map Prod.fst ++ targetsOf references)
  followed : Followed outer nodes

section

variable {left right nodes earlier later : List (Position × Schema)}
  {leftOuter rightOuter outer wider : List Position}
  {leftReferences rightReferences references : List (String × Location)}

theorem Followed.append (leftFollowed : Followed leftOuter left)
    (rightFollowed : Followed outer right)
    (passes : ∀ position ∈ leftOuter,
      position ∈ outer ∨ ∃ owner ∈ right, position ∈ mentionsOf owner) :
    Followed outer (left ++ right) := by
  induction left with
  | nil => exact rightFollowed
  | cons node later induction =>
      obtain ⟨mentioned, laterFollowed⟩ := leftFollowed
      refine ⟨?_, induction laterFollowed⟩
      rcases mentioned with outside | ⟨owner, member, mentioned⟩
      · rcases passes _ outside with outside | ⟨owner, member, mentioned⟩
        · exact .inl outside
        · exact .inr ⟨owner, List.mem_append_right _ member, mentioned⟩
      · exact .inr ⟨owner, List.mem_append_left _ member, mentioned⟩

theorem Followed.mono (followed : Followed outer nodes) (widens : outer ⊆ wider) :
    Followed wider nodes := by
  have nothing : Followed wider [] := trivial
  have extended := followed.append nothing fun _ member => .inl (widens member)
  rwa [List.append_nil] at extended

theorem Followed.at_split {node : Position × Schema}
    (followed : Followed outer (earlier ++ node :: later)) :
    node.1 ∈ outer ∨ ∃ owner ∈ later, node.1 ∈ mentionsOf owner := by
  induction earlier with
  | nil => exact followed.1
  | cons _ _ induction => exact induction followed.2

namespace Accounted

private theorem perm_exchange (first second third fourth : List Position) :
    ((first ++ second) ++ (third ++ fourth)).Perm
      ((first ++ third) ++ (second ++ fourth)) := by
  rw [List.append_assoc, List.append_assoc]
  refine List.Perm.append_left first ?_
  rw [← List.append_assoc, ← List.append_assoc]
  exact List.perm_append_comm.append_right fourth

theorem empty (references : List (String × Location)) :
    Accounted [] (targetsOf references) references :=
  ⟨List.Perm.refl _, trivial⟩

theorem append (leftAccounted : Accounted left leftOuter leftReferences)
    (rightAccounted : Accounted right rightOuter rightReferences) :
    Accounted (left ++ right) (leftOuter ++ rightOuter)
      (leftReferences ++ rightReferences) := by
  constructor
  · rw [targetsOf, List.flatMap_append, List.map_append, List.map_append]
    refine (perm_exchange _ _ _ _).trans ?_
    refine (leftAccounted.mentioned.append rightAccounted.mentioned).trans ?_
    exact perm_exchange _ _ _ _
  · have rightFollowed := rightAccounted.followed.mono
      (List.subset_append_right leftOuter rightOuter)
    exact leftAccounted.followed.append rightFollowed fun _ outside =>
      .inl (List.mem_append_left _ outside)

/-- What a node mentions becomes a mention of the node. -/
theorem own {position : Position} (schema : Schema)
    (inner : Accounted nodes (mentions position schema) references) :
    Accounted (nodes ++ [(position, schema)]) [position] references := by
  constructor
  · have mentioned : (nodes ++ [(position, schema)]).flatMap mentionsOf =
        nodes.flatMap mentionsOf ++ mentions position schema := by
      simp [mentionsOf]
    rw [mentioned, List.map_append]
    refine (inner.mentioned.append_right [position]).trans ?_
    rw [List.append_assoc, List.append_assoc]
    exact List.perm_append_comm.append_left _
  · have last : Followed [position] [(position, schema)] :=
      ⟨.inl (List.mem_singleton_self _), trivial⟩
    exact inner.followed.append last fun _ mentioned =>
      .inr ⟨(position, schema), List.mem_singleton_self _, mentioned⟩

end Accounted

end

mutual
theorem accounted_shapesAt : (position : Position) → (schema : Schema) →
    Accounted (shapesAt position schema) (inlineMentions position schema)
      schema.references
  | _, .reference info target => Accounted.empty [(target, info.location)]
  | _, .primitive .. | _, .untypedMap _ => Accounted.empty []
  | position, .enum info values =>
      Accounted.own (.enum info values) (Accounted.empty [])
  | position, .array info items => by
      rw [shapesAt_array, Schema.references_array]
      exact accounted_shapesAt (position.child 0) items
  | position, .map info values => by
      rw [shapesAt_map, Schema.references_map]
      exact accounted_shapesAt (position.child 0) values
  | position, .object info properties => by
      rw [shapesAt_object, Schema.references_object]
      exact Accounted.own (.object info properties)
        (accounted_propertyShapes position 0 properties)
  | position, .union info variants => by
      rw [shapesAt_union, Schema.references_union]
      exact Accounted.own (.union info variants)
        (accounted_variantShapes position 0 variants)

theorem accounted_propertyShapes : (owner : Position) → (index : Nat) →
    (properties : List (Property Schema)) →
    Accounted (propertyShapes owner index properties)
      (propertyMentions owner index properties)
      (Schema.referencesAmong (Schema.withinProperties properties))
  | _, _, [] => Accounted.empty []
  | owner, index, ⟨_, _, schema⟩ :: rest => by
      rw [propertyShapes_cons, propertyMentions, Schema.references_properties]
      exact (accounted_shapesAt (owner.child index) schema).append
        (accounted_propertyShapes owner (index + 1) rest)

theorem accounted_variantShapes : (owner : Position) → (index : Nat) →
    (variants : List Schema) →
    Accounted (variantShapes owner index variants)
      (variantMentions owner index variants)
      (Schema.referencesAmong (Schema.withinVariants variants))
  | _, _, [] => Accounted.empty []
  | owner, index, variant :: rest => by
      rw [variantShapes_cons, variantMentions, Schema.references_variants]
      exact (accounted_shapesAt (owner.child index) variant).append
        (accounted_variantShapes owner (index + 1) rest)
end

theorem accounted_shapesWithin (position : Position) (schema : Schema) :
    Accounted (shapesWithin position schema) (mentions position schema)
      schema.references := by
  cases schema with
  | reference info target => exact Accounted.empty [(target, info.location)]
  | primitive | untypedMap | enum => exact Accounted.empty []
  | array info items =>
      rw [Schema.references_array]
      exact accounted_shapesAt (position.child 0) items
  | map info values =>
      rw [Schema.references_map]
      exact accounted_shapesAt (position.child 0) values
  | object info properties =>
      rw [Schema.references_object]
      exact accounted_propertyShapes position 0 properties
  | union info variants =>
      rw [Schema.references_union]
      exact accounted_variantShapes position 0 variants

/-- The definitions of a root mention each shape inside it once, and nothing else but
the targets of its references. -/
theorem perm_mentions_namedNodes (root : String × Schema) :
    ((namedNodes root).flatMap mentionsOf).Perm
      ((shapesWithin ⟨root.1, []⟩ root.2).map Prod.fst ++
        targetsOf root.2.references) := by
  rw [namedNodes, List.flatMap_append]
  simpa [mentionsOf] using (accounted_shapesWithin ⟨root.1, []⟩ root.2).mentioned

theorem mentioned_later {root : String × Schema}
    {earlier later : List (Position × Schema)} {shape : Position × Schema}
    (split : shapesWithin ⟨root.1, []⟩ root.2 = earlier ++ shape :: later) :
    ∃ owner ∈ later ++ [(⟨root.1, []⟩, root.2)], shape.1 ∈ mentionsOf owner := by
  have followed := (accounted_shapesWithin ⟨root.1, []⟩ root.2).followed
  rw [split] at followed
  rcases followed.at_split with outside | ⟨owner, member, mentioned⟩
  · exact ⟨_, List.mem_append_right _ (List.mem_singleton_self _), outside⟩
  · exact ⟨owner, List.mem_append_left _ member, mentioned⟩

/-! Mentions of anything but a root lead down. -/

theorem depth_inlineMentions : (position : Position) → (schema : Schema) →
    ∀ mentioned ∈ inlineMentions position schema, mentioned.path = [] ∨
      position.path.length ≤ mentioned.path.length
  | _, .reference .. => fun _ member => .inl (List.mem_singleton.mp member ▸ rfl)
  | _, .primitive .. | _, .untypedMap _ => nofun
  | _, .enum .. | _, .object .. | _, .union .. => fun _ member =>
      .inr (List.mem_singleton.mp member ▸ Nat.le_refl _)
  | position, .array _ items | position, .map _ items => by
      intro mentioned member
      refine (depth_inlineMentions (position.child 0) items mentioned member).imp_right
        fun deeper => ?_
      simp only [Position.child, List.length_append] at deeper
      omega

private theorem depth_child {owner : Position} {index : Nat} {schema : Schema}
    {mentioned : Position}
    (member : mentioned ∈ inlineMentions (owner.child index) schema) :
    mentioned.path = [] ∨ owner.path.length < mentioned.path.length := by
  refine (depth_inlineMentions _ schema mentioned member).imp_right fun deeper => ?_
  simp only [Position.child, List.length_append, List.length_singleton] at deeper
  omega

theorem depth_propertyMentions (owner : Position) (index : Nat)
    (properties : List (Property Schema)) :
    ∀ mentioned ∈ propertyMentions owner index properties,
      mentioned.path = [] ∨ owner.path.length < mentioned.path.length := by
  induction properties generalizing index with
  | nil => exact nofun
  | cons property rest induction =>
      intro mentioned member
      rcases List.mem_append.mp member with here | later
      · exact depth_child here
      · exact induction (index + 1) mentioned later

theorem depth_variantMentions (owner : Position) (index : Nat)
    (variants : List Schema) :
    ∀ mentioned ∈ variantMentions owner index variants,
      mentioned.path = [] ∨ owner.path.length < mentioned.path.length := by
  induction variants generalizing index with
  | nil => exact nofun
  | cons variant rest induction =>
      intro mentioned member
      rcases List.mem_append.mp member with here | later
      · exact depth_child here
      · exact induction (index + 1) mentioned later

theorem depth_mentionsOf {node : Position × Schema} {mentioned : Position}
    (member : mentioned ∈ mentionsOf node) :
    mentioned.path = [] ∨ node.1.path.length < mentioned.path.length := by
  obtain ⟨position, schema⟩ := node
  cases schema with
  | reference => exact .inl (List.mem_singleton.mp member ▸ rfl)
  | primitive | untypedMap | enum => cases member
  | array | map => exact depth_child member
  | object _ properties => exact depth_propertyMentions _ 0 properties _ member
  | union _ variants => exact depth_variantMentions _ 0 variants _ member

end Schemata.Resolution
