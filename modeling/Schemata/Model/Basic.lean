import Schemata.Model.Declaration

namespace Schemata

/-! The resolved model: declarations in order, each under its own name. -/

structure Model where
  declarations : List Declaration
  distinct : (declarations.map (·.name)).Nodup

namespace Model

def empty : Model where
  declarations := []
  distinct := List.nodup_nil

/-- A declaration takes the place of an earlier one of its name. -/
private def place (declaration : Declaration) :
    List Declaration → List Declaration
  | [] => [declaration]
  | held :: rest =>
      if held.name = declaration.name then declaration :: rest
      else held :: place declaration rest

private theorem mem_names_place {declaration : Declaration}
    {declarations : List Declaration} {name : String} :
    name ∈ (place declaration declarations).map (·.name) ↔
      name = declaration.name ∨ name ∈ declarations.map (·.name) := by
  induction declarations with
  | nil => simp [place]
  | cons held rest induction =>
      simp only [place]
      split
      · next same =>
        simp only [List.map_cons, List.mem_cons, same, or_self_left]
      · simp only [List.map_cons, List.mem_cons, induction, or_left_comm]

private theorem nodup_names_place {declaration : Declaration}
    {declarations : List Declaration}
    (distinct : (declarations.map (·.name)).Nodup) :
    ((place declaration declarations).map (·.name)).Nodup := by
  induction declarations with
  | nil => simp [place]
  | cons held rest induction =>
      simp only [List.map_cons, List.nodup_cons] at distinct
      simp only [place]
      split
      · next same =>
        simpa only [List.map_cons, List.nodup_cons, ← same] using distinct
      · next different =>
        simp only [List.map_cons, List.nodup_cons, mem_names_place, not_or]
        exact ⟨⟨different, distinct.1⟩, induction distinct.2⟩

private theorem place_of_fresh {declaration : Declaration}
    {declarations : List Declaration}
    (fresh : declaration.name ∉ declarations.map (·.name)) :
    place declaration declarations = declarations ++ [declaration] := by
  induction declarations with
  | nil => rfl
  | cons held rest induction =>
      simp only [List.map_cons, List.mem_cons, not_or] at fresh
      rw [place, if_neg (Ne.symm fresh.1), induction fresh.2, List.cons_append]

def insert (declaration : Declaration) (model : Model) : Model where
  declarations := place declaration model.declarations
  distinct := nodup_names_place model.distinct

def ofDeclarations (declarations : List Declaration) : Model :=
  declarations.foldl (fun model declaration => model.insert declaration) empty

def get? (model : Model) (name : String) : Option Declaration :=
  model.declarations.find? (·.name = name)

def size (model : Model) : Nat :=
  model.declarations.length

/-- The mentioned names that are not declared, each where it first occurs. -/
def danglingNames (model : Model) : List String :=
  ((model.declarations.flatMap (·.definition.names)).filter fun name =>
    (model.get? name).isNone).eraseDups

/-- Declarations with different names are all kept, in their order. -/
theorem declarations_ofDeclarations {declarations : List Declaration}
    (distinct : (declarations.map (·.name)).Nodup) :
    (ofDeclarations declarations).declarations = declarations := by
  suffices general : ∀ model : Model,
      ((model.declarations ++ declarations).map (·.name)).Nodup →
      (declarations.foldl (fun model declaration => model.insert declaration)
        model).declarations = model.declarations ++ declarations from
    general empty distinct
  clear distinct
  induction declarations with
  | nil => exact fun model _ => (List.append_nil _).symm
  | cons declaration rest induction =>
      intro model distinct
      have fresh : declaration.name ∉ model.declarations.map (·.name) := by
        rw [List.map_append, List.nodup_append] at distinct
        intro member
        exact distinct.2.2 _ member _ (by simp) rfl
      have inserted : (model.insert declaration).declarations =
          model.declarations ++ [declaration] := place_of_fresh fresh
      have later := induction (model.insert declaration)
        (by rwa [inserted, List.append_assoc])
      rw [List.foldl_cons, later, inserted, List.append_assoc]
      rfl

theorem get?_eq_some_iff {model : Model} {name : String}
    {declaration : Declaration} :
    model.get? name = some declaration ↔
      declaration ∈ model.declarations ∧ declaration.name = name := by
  obtain ⟨declarations, distinct⟩ := model
  simp only [get?]
  induction declarations with
  | nil => simp
  | cons held rest induction =>
      simp only [List.map_cons, List.nodup_cons] at distinct
      by_cases same : held.name = name
      · subst same
        have absent : ¬ (declaration ∈ rest ∧ declaration.name = held.name) :=
          fun found => distinct.1 (List.mem_map.mpr ⟨_, found⟩)
        simp only [List.find?_cons, decide_true, Option.some.injEq,
          List.mem_cons]
        constructor
        · rintro rfl
          exact ⟨.inl rfl, rfl⟩
        · rintro ⟨rfl | member, named⟩
          · rfl
          · exact absurd ⟨member, named⟩ absent
      · rw [List.find?_cons_of_neg (by simpa using same), induction distinct.2]
        constructor
        · exact fun found => ⟨List.mem_cons_of_mem _ found.1, found.2⟩
        · rintro ⟨member, named⟩
          rcases List.mem_cons.mp member with rfl | later
          · exact absurd named same
          · exact ⟨later, named⟩

end Model

end Schemata
