import Mathlib.Data.List.Forall2
import Mathlib.Data.List.Nodup
import Schemata.Proofs.Naming.Suffix
import Schemata.PureScript.Declaration

namespace Schemata.PureScript

/-! Data constructors share one namespace in a module. All of them are different, each
value and variant has one, and a value loses its preferred name only to another user of
that name. -/

namespace Constructors

/-- The name that answers a request when some names are in use. -/
inductive Granted (used : List String) : String × String → String → Prop
  | preferred {preferred qualified : String} (free : preferred ∉ used) :
      Granted used (preferred, qualified) preferred
  | qualified {preferred qualified : String} (taken : preferred ∈ used)
      (free : qualified ∉ used) : Granted used (preferred, qualified) qualified
  | numbered {preferred qualified name : String} (taken : preferred ∈ used)
      (taken_too : qualified ∈ used) (first : IsFirstFree used qualified name) :
      Granted used (preferred, qualified) name

section

variable {used : List String} {request : String × String} {name : String}

theorem Granted.fresh (granted : Granted used request name) : name ∉ used := by
  cases granted with
  | preferred free => exact free
  | qualified _ free => exact free
  | numbered _ _ first => exact first.free

theorem Granted.taken (granted : Granted used request name)
    (different : name ≠ request.1) : request.1 ∈ used := by
  cases granted with
  | preferred => exact absurd rfl different
  | qualified taken | numbered taken => exact taken

end

variable (constructors : Constructors)

theorem granted_claim (request : String × String) :
    Granted constructors.used request (constructors.claim request.1 request.2).1 := by
  obtain ⟨preferred, qualified⟩ := request
  unfold claim
  dsimp only
  split
  · next free => exact .preferred free
  · next taken =>
    split
    · next free => exact .qualified (not_not.mp taken) free
    · next taken_too =>
      exact .numbered (not_not.mp taken) (not_not.mp taken_too)
        (isFirstFree_freeSuffixed _ _)

theorem claimAll_cons (request : String × String) (rest : List (String × String)) :
    constructors.claimAll (request :: rest) =
      let (name, next) := constructors.claim request.1 request.2
      (name :: (next.claimAll rest).1, (next.claimAll rest).2) :=
  rfl

theorem claimAll_append (left right : List (String × String)) :
    constructors.claimAll (left ++ right) =
      ((constructors.claimAll left).1 ++
          ((constructors.claimAll left).2.claimAll right).1,
        ((constructors.claimAll left).2.claimAll right).2) := by
  induction left generalizing constructors with
  | nil => rfl
  | cons request rest induction =>
      simp only [List.cons_append, claimAll_cons, induction]

theorem used_claimAll (requests : List (String × String)) :
    (constructors.claimAll requests).2.used =
      (constructors.claimAll requests).1.reverse ++ constructors.used := by
  induction requests generalizing constructors with
  | nil => rfl
  | cons request rest induction =>
      simp only [claimAll_cons, induction, List.reverse_cons, List.append_assoc]
      rfl

theorem fresh_claimAll (requests : List (String × String)) :
    (constructors.claimAll requests).1.Nodup ∧
      ∀ name ∈ (constructors.claimAll requests).1, name ∉ constructors.used := by
  induction requests generalizing constructors with
  | nil => exact ⟨List.nodup_nil, nofun⟩
  | cons request rest induction =>
      obtain ⟨distinct, fresh⟩ :=
        induction (constructors.claim request.1 request.2).2
      rw [claimAll_cons]
      constructor
      · refine List.nodup_cons.mpr ⟨fun again => ?_, distinct⟩
        exact fresh _ again List.mem_cons_self
      · intro name member
        rcases List.mem_cons.mp member with rfl | later
        · exact (constructors.granted_claim request).fresh
        · exact fun known => fresh name later (List.mem_cons_of_mem _ known)

theorem granted_claimAll (requests : List (String × String)) :
    List.Forall₂ (fun request name => ∃ used, Granted used request name)
      requests (constructors.claimAll requests).1 := by
  induction requests generalizing constructors with
  | nil => exact .nil
  | cons request rest induction =>
      exact .cons ⟨_, constructors.granted_claim request⟩ (induction _)

/-- A request is answered with regard to the names that were used at first and those
given since. -/
theorem claimAll_split (before after : List (String × String))
    (request : String × String) :
    ∃ name rest,
      (constructors.claimAll (before ++ request :: after)).1 =
        (constructors.claimAll before).1 ++ name :: rest ∧
      Granted ((constructors.claimAll before).1.reverse ++ constructors.used)
        request name := by
  rw [claimAll_append, claimAll_cons, ← used_claimAll]
  exact ⟨_, _, rfl, granted_claim _ request⟩

end Constructors

/-! The constructors of one declaration. -/

def Declaration.constructors (declaration : Declaration) : List String :=
  match declaration.body with
  | .newtype .. => [declaration.name]
  | .data constructors => constructors.map (·.name)
  | .synonym _ => []

theorem map_name_dataConstructors (names : List String)
    (arguments : List (List Char)) :
    (dataConstructors names arguments).map (·.name) = names := by
  apply List.ext_getElem
  · simp [dataConstructors]
  · intro index _ _
    simp [dataConstructors]

/-- Names beyond the arguments are those of constructors without one. -/
theorem dataConstructors_append (names more : List String)
    (arguments : List (List Char)) (fit : arguments.length ≤ names.length) :
    dataConstructors (names ++ more) arguments =
      dataConstructors names arguments ++ more.map (⟨·, none⟩) := by
  rw [dataConstructors, List.mapIdx_append, dataConstructors]
  congr 1
  apply List.ext_getElem
  · simp
  · intro index _ _
    simp only [List.getElem_mapIdx, List.getElem_map, DataConstructor.mk.injEq,
      true_and, List.getElem?_eq_none_iff]
    omega

theorem forall₂_dataConstructors {α : Type} {items : List α} {names : List String}
    {arguments : List (List Char)} {related : α → String → Prop}
    {carried : α → Option (List Char)}
    (granted : List.Forall₂ related items names)
    (carries : ∀ index (inside : index < items.length),
      arguments[index]? = carried items[index]) :
    List.Forall₂ (fun item constructor =>
        related item constructor.name ∧ constructor.argument = carried item)
      items (dataConstructors names arguments) := by
  rw [List.forall₂_iff_get] at granted ⊢
  obtain ⟨lengths, each⟩ := granted
  refine ⟨by simpa [dataConstructors] using lengths, ?_⟩
  intro index inside _
  have named := each index inside (lengths ▸ inside)
  simpa [dataConstructors, carries index inside] using named

/-! All declarations of a module. -/

def IsObject (source : Schemata.Declaration) : Prop :=
  ∃ fields, source.definition = .object fields

namespace Declaration

variable (options : EmitOptions) (constructors : Constructors)

def ofSource (source : Schemata.Declaration) : Declaration where
  docs := source.docs
  name := source.name
  body := bodyOf options source.nullable
    (constructors.claimAll (constructorRequests source)).1 source.definition

theorem ofModelFrom_cons (source : Schemata.Declaration)
    (rest : List Schemata.Declaration) :
    ofModelFrom options constructors (source :: rest) =
      ofSource options constructors source ::
        ofModelFrom options
          (constructors.claimAll (constructorRequests source)).2 rest :=
  rfl

theorem ofModelFrom_append (earlier later : List Schemata.Declaration) :
    ofModelFrom options constructors (earlier ++ later) =
      ofModelFrom options constructors earlier ++
        ofModelFrom options
          (constructors.claimAll (earlier.flatMap constructorRequests)).2 later := by
  induction earlier generalizing constructors with
  | nil => rfl
  | cons source rest induction =>
      rw [List.cons_append, ofModelFrom_cons, ofModelFrom_cons, induction,
        List.flatMap_cons, Constructors.claimAll_append, List.cons_append]

theorem constructors_of_object {source : Schemata.Declaration}
    (object : IsObject source) :
    (ofSource options constructors source).constructors = [source.name] ∧
      constructorRequests source = [] := by
  obtain ⟨fields, shape⟩ := object
  simp [Declaration.constructors, ofSource, bodyOf, constructorRequests, shape]

theorem constructors_of_not_object {source : Schemata.Declaration}
    (other : ¬ IsObject source) :
    (ofSource options constructors source).constructors =
      (constructors.claimAll (constructorRequests source)).1 := by
  cases shape : source.definition with
  | object fields => exact absurd ⟨fields, shape⟩ other
  | enum | union =>
      simp only [Declaration.constructors, ofSource, bodyOf, shape,
        map_name_dataConstructors]
  | primitive | array | map | untypedMap | reference =>
      simp only [Declaration.constructors, ofSource, bodyOf, shape,
        constructorRequests]
      rfl

theorem claimed_subset (sources : List Schemata.Declaration) :
    (constructors.claimAll (sources.flatMap constructorRequests)).1 ⊆
      (ofModelFrom options constructors sources).flatMap (·.constructors) := by
  induction sources generalizing constructors with
  | nil => exact List.Subset.refl _
  | cons source rest induction =>
      rw [ofModelFrom_cons, List.flatMap_cons, List.flatMap_cons,
        Constructors.claimAll_append]
      refine List.append_subset.mpr ⟨?_, ?_⟩
      · apply List.subset_append_of_subset_left
        by_cases object : IsObject source
        · rw [(constructors_of_object options constructors object).2]
          exact List.nil_subset _
        · rw [constructors_of_not_object options constructors object]
          exact List.Subset.refl _
      · exact List.subset_append_of_subset_right _ (induction _)

/-- One declaration takes names that nothing before it has, its own name apart if it is
an object, and leaves all of them in use. -/
theorem constructors_of_source {source : Schemata.Declaration}
    (seeded : IsObject source → source.name ∈ constructors.used) :
    (ofSource options constructors source).constructors.Nodup ∧
      ∀ name ∈ (ofSource options constructors source).constructors,
        (IsObject source ∧ source.name = name ∨ name ∉ constructors.used) ∧
          name ∈ (constructors.claimAll (constructorRequests source)).2.used := by
  rw [Constructors.used_claimAll]
  by_cases object : IsObject source
  · rw [(constructors_of_object options constructors object).1]
    refine ⟨List.nodup_singleton _, fun name member => ?_⟩
    obtain rfl := List.mem_singleton.mp member
    exact ⟨.inl ⟨object, rfl⟩, List.mem_append_right _ (seeded object)⟩
  · rw [constructors_of_not_object options constructors object]
    obtain ⟨distinct, fresh⟩ :=
      constructors.fresh_claimAll (constructorRequests source)
    refine ⟨distinct, fun name member => ⟨.inr (fresh name member), ?_⟩⟩
    exact List.mem_append_left _ (List.mem_reverse.mpr member)

/-- The names of the objects are in use from the start, so no other declaration takes
one, and what has been given once is not given again. -/
theorem nodup_constructors {sources : List Schemata.Declaration}
    (distinct : (sources.map (·.name)).Nodup)
    (seeded : ∀ source ∈ sources, IsObject source → source.name ∈ constructors.used) :
    ((ofModelFrom options constructors sources).flatMap (·.constructors)).Nodup ∧
      ∀ name ∈ (ofModelFrom options constructors sources).flatMap (·.constructors),
        (∃ source ∈ sources, IsObject source ∧ source.name = name) ∨
          name ∉ constructors.used := by
  induction sources generalizing constructors with
  | nil => exact ⟨List.nodup_nil, nofun⟩
  | cons source rest induction =>
      obtain ⟨unrepeated, restDistinct⟩ := List.nodup_cons.mp distinct
      obtain ⟨here, later⟩ := List.forall_mem_cons.mp seeded
      have used := constructors.used_claimAll (constructorRequests source)
      obtain ⟨ownNodup, own⟩ := constructors_of_source options constructors here
      obtain ⟨restNodup, others⟩ := induction
        (constructors.claimAll (constructorRequests source)).2 restDistinct
        fun other member object =>
          used ▸ List.mem_append_right _ (later other member object)
      rw [ofModelFrom_cons, List.flatMap_cons]
      constructor
      · refine List.nodup_append'.mpr ⟨ownNodup, restNodup, ?_⟩
        intro name ownMember otherMember
        obtain ⟨origin, inUse⟩ := own name ownMember
        rcases others name otherMember with ⟨other, member, object, rfl⟩ | fresh
        · rcases origin with ⟨_, same⟩ | fresh
          · exact unrepeated (List.mem_map.mpr ⟨other, member, same.symm⟩)
          · exact fresh (later other member object)
        · exact fresh inUse
      · intro name member
        rcases List.mem_append.mp member with ownMember | otherMember
        · rcases (own name ownMember).1 with ⟨object, same⟩ | fresh
          · exact .inl ⟨source, List.mem_cons_self, object, same⟩
          · exact .inr fresh
        · rcases others name otherMember with ⟨other, member, object⟩ | fresh
          · exact .inl ⟨other, List.mem_cons_of_mem _ member, object⟩
          · rw [used] at fresh
            exact .inr fun known => fresh (List.mem_append_right _ known)

/-! What one declaration prints. -/

/-- The name is the base or the base with a number from two on. -/
def IsNumbered (base name : String) : Prop :=
  name = base ∨ ∃ number, 2 ≤ number ∧ name = suffixed base number

/-- A value is named by itself or after its enumeration. -/
def OfValue (owner : String) (value : Literal) (constructor : DataConstructor) :
    Prop :=
  (constructor.name = value.valueName ∨
      IsNumbered (owner ++ value.valueName) constructor.name) ∧
    constructor.argument = none

def OfVariant (owner : String) (variant : TypeRef) (constructor : DataConstructor) :
    Prop :=
  IsNumbered (owner ++ variantLabel variant) constructor.name ∧
    constructor.argument = some (argument (typeText variant))

/-- A constructor for null where one is due. -/
inductive OfNull (owner : String) (due : Prop) : List DataConstructor → Prop
  | absent (needless : ¬ due) : OfNull owner due []
  | present {name : String} (needed : due) (named : IsNumbered (owner ++ "Null") name) :
      OfNull owner due [⟨name, none⟩]

def Spells (source : Schemata.Declaration) (printed : Declaration) : Prop :=
  printed.name = source.name ∧
    match source.definition with
    | .object _ => ∃ fields, printed.body = .newtype source.nullable fields
    | .enum values => ∃ own null, printed.body = .data (own ++ null) ∧
        List.Forall₂ (OfValue source.name) values own ∧
        OfNull source.name (source.nullable = true ∧ .null ∉ values) null
    | .union variants => ∃ own null, printed.body = .data (own ++ null) ∧
        List.Forall₂ (OfVariant source.name) variants own ∧
        OfNull source.name (source.nullable = true) null
    | _ => ∃ type, printed.body = .synonym type

def nullRequest (owner : String) : String × String :=
  (owner ++ "Null", owner ++ "Null")

theorem isNumbered_of_granted {used : List String} {request : String × String}
    {name : String} (granted : Constructors.Granted used request name) :
    name = request.1 ∨ IsNumbered request.2 name := by
  cases granted with
  | preferred => exact .inl rfl
  | qualified => exact .inr (.inl rfl)
  | numbered _ _ first =>
      obtain ⟨number, start, same, _⟩ := first.least
      exact .inr (.inr ⟨number, start, same⟩)

theorem data_of_requests {α : Type} (items : List α) (request : α → String × String)
    (carried : α → Option (List Char)) (arguments : List (List Char))
    (owner : String) (due : Prop) [Decidable due]
    (fit : arguments.length ≤ items.length)
    (carries : ∀ index (inside : index < items.length),
      arguments[index]? = carried items[index]) :
    ∃ own null,
      dataConstructors (constructors.claimAll
          (items.map request ++ if due then [nullRequest owner] else [])).1 arguments =
        own ++ null ∧
      List.Forall₂ (fun item constructor =>
        (constructor.name = (request item).1 ∨
          IsNumbered (request item).2 constructor.name) ∧
        constructor.argument = carried item) items own ∧
      OfNull owner due null := by
  have granted : List.Forall₂ (fun item name =>
      name = (request item).1 ∨ IsNumbered (request item).2 name)
      items (constructors.claimAll (items.map request)).1 := by
    have each := constructors.granted_claimAll (items.map request)
    rw [List.forall₂_map_left_iff] at each
    exact each.imp fun _ _ ⟨_, given⟩ => isNumbered_of_granted given
  rw [Constructors.claimAll_append,
    dataConstructors_append _ _ _ (granted.length_eq ▸ fit)]
  refine ⟨_, _, rfl, forall₂_dataConstructors granted carries, ?_⟩
  split
  · next needed =>
    have given := Constructors.granted_claim
      (constructors.claimAll (items.map request)).2 (nullRequest owner)
    refine .present needed ?_
    exact (isNumbered_of_granted given).elim .inl id
  · next needless => exact .absent needless

theorem requests_of_enum {source : Schemata.Declaration} {values : List Literal}
    (shape : source.definition = .enum values) :
    constructorRequests source =
      values.map (fun value => (value.valueName, source.name ++ value.valueName)) ++
        if source.nullable = true ∧ .null ∉ values then [nullRequest source.name]
        else [] := by
  have same : (source.nullable && values.all (· ≠ .null)) = true ↔
      source.nullable = true ∧ .null ∉ values := by
    simp only [Bool.and_eq_true, List.all_eq_true, decide_eq_true_eq, ne_eq]
    refine and_congr_right fun _ => ⟨fun other member => other _ member rfl, ?_⟩
    rintro absent _ member rfl
    exact absent member
  simp only [constructorRequests, shape, nullRequest]
  split
  · next due => rw [if_pos (same.mp due)]
  · next needless => rw [if_neg (mt same.mpr needless), List.append_nil]

theorem requests_of_union {source : Schemata.Declaration} {variants : List TypeRef}
    (shape : source.definition = .union variants) :
    constructorRequests source =
      variants.map (fun variant => (source.name ++ variantLabel variant,
          source.name ++ variantLabel variant)) ++
        if source.nullable = true then [nullRequest source.name] else [] := by
  simp only [constructorRequests, shape, nullRequest]
  split
  · rfl
  · rw [List.append_nil]

theorem spells_ofSource (source : Schemata.Declaration) :
    (ofSource options constructors source).Spells source := by
  refine ⟨rfl, ?_⟩
  cases shape : source.definition with
  | object fields => exact ⟨_, by rw [ofSource, shape]; rfl⟩
  | enum values =>
      obtain ⟨own, null, whole, each, last⟩ := data_of_requests constructors values
        (fun value => (value.valueName, source.name ++ value.valueName))
        (fun _ => none) [] source.name (source.nullable = true ∧ .null ∉ values)
        (Nat.zero_le _) fun _ _ => rfl
      refine ⟨own, null, ?_, each, last⟩
      simp only [ofSource, bodyOf, shape, requests_of_enum shape]
      exact congrArg Body.data whole
  | union variants =>
      obtain ⟨own, null, whole, each, last⟩ := data_of_requests constructors variants
        (fun variant =>
          (source.name ++ variantLabel variant, source.name ++ variantLabel variant))
        (fun variant => some (argument (typeText variant)))
        (variants.map fun variant => argument (typeText variant))
        source.name (source.nullable = true) (by simp) fun _ inside => by
          rw [List.getElem?_map, List.getElem?_eq_getElem inside, Option.map_some]
      refine ⟨own, null, ?_, each.imp fun variant constructor ⟨named, carried⟩ =>
        ⟨named.elim .inl id, carried⟩, last⟩
      simp only [ofSource, bodyOf, shape, requests_of_union shape]
      exact congrArg Body.data whole
  | primitive | array | map | untypedMap | reference =>
      exact ⟨_, by rw [ofSource, shape]; rfl⟩

theorem spells_ofModelFrom (sources : List Schemata.Declaration) :
    List.Forall₂ (fun source printed => printed.Spells source) sources
      (ofModelFrom options constructors sources) := by
  induction sources generalizing constructors with
  | nil => exact .nil
  | cons source rest induction =>
      exact .cons (spells_ofSource options constructors source) (induction _)

end Declaration

/-! The module of a model. -/

theorem mem_used_ofModel {model : Model} {name : String} :
    name ∈ (Constructors.ofModel model).used ↔
      ∃ source ∈ model.declarations, IsObject source ∧ source.name = name := by
  simp only [Constructors.ofModel, List.mem_filterMap]
  refine exists_congr fun source => and_congr_right fun _ => ?_
  cases shape : source.definition <;> simp [IsObject, shape]

theorem Declaration.nodup_ofModel (options : EmitOptions) (model : Model) :
    ((Declaration.ofModel options model).flatMap (·.constructors)).Nodup := by
  have seeded : ∀ source ∈ model.declarations, IsObject source →
      source.name ∈ (Constructors.ofModel model).used :=
    fun source member object => mem_used_ofModel.mpr ⟨source, member, object, rfl⟩
  exact (Declaration.nodup_constructors options _ model.distinct seeded).1

/-- What holds of the constructors of a module. -/
structure ConstructorNamespace (options : EmitOptions) (model : Model) : Prop where
  distinct : ((Declaration.ofModel options model).flatMap (·.constructors)).Nodup
  complete : List.Forall₂ (fun source printed => Declaration.Spells source printed)
    model.declarations (Declaration.ofModel options model)
  /-- A value has its preferred name unless an object, an earlier declaration or an
  earlier value has it. -/
  preferred : ∀ earlier source later before value after,
    model.declarations = earlier ++ source :: later →
    source.definition = .enum (before ++ value :: after) →
    ∃ printedEarlier printed printedLater first constructor rest,
      Declaration.ofModel options model =
        printedEarlier ++ printed :: printedLater ∧
      printedEarlier.length = earlier.length ∧
      printed.body = .data (first ++ constructor :: rest) ∧
      first.length = before.length ∧
      (constructor.name ≠ value.valueName →
        (∃ object ∈ model.declarations,
          IsObject object ∧ object.name = value.valueName) ∨
        value.valueName ∈ printedEarlier.flatMap (·.constructors) ∨
        value.valueName ∈ first.map (·.name))

/-- The constructor of one value, and the names that can keep the value from its
preferred one. -/
theorem Declaration.ofSource_value (options : EmitOptions)
    (constructors : Constructors) {source : Schemata.Declaration}
    {before after : List Literal} {value : Literal}
    (shape : source.definition = .enum (before ++ value :: after)) :
    ∃ first constructor rest,
      (ofSource options constructors source).body =
        .data (first ++ constructor :: rest) ∧
      first.length = before.length ∧
      (constructor.name ≠ value.valueName →
        value.valueName ∈ first.map (·.name) ∨
          value.valueName ∈ constructors.used) := by
  let request := fun value : Literal =>
    (value.valueName, source.name ++ value.valueName)
  obtain ⟨extra, requests⟩ : ∃ extra, constructorRequests source =
      before.map request ++ request value :: extra := by
    rw [requests_of_enum shape, List.map_append, List.map_cons, List.append_assoc]
    exact ⟨_, rfl⟩
  obtain ⟨name, rest, names, granted⟩ :=
    constructors.claimAll_split (before.map request) extra (request value)
  have lengths := (constructors.granted_claimAll (before.map request)).length_eq
  refine ⟨dataConstructors (constructors.claimAll (before.map request)).1 [],
    ⟨name, none⟩, rest.map (⟨·, none⟩), ?_, ?_, ?_⟩
  · simp only [ofSource, bodyOf, shape, requests, names, constructorArguments]
    rw [dataConstructors_append _ _ _ (Nat.zero_le _), List.map_cons]
  · simpa [dataConstructors] using lengths.symm
  · intro different
    rw [map_name_dataConstructors]
    have taken := granted.taken different
    exact (List.mem_append.mp taken).imp_left List.mem_reverse.mp

theorem constructors_never_clash (options : EmitOptions) (model : Model) :
    ConstructorNamespace options model := by
  constructor
  · exact Declaration.nodup_ofModel options model
  · exact Declaration.spells_ofModelFrom options _ _
  · intro earlier source later before value after split shape
    obtain ⟨first, constructor, rest, body, lengths, taken⟩ :=
      Declaration.ofSource_value options
        ((Constructors.ofModel model).claimAll
          (earlier.flatMap constructorRequests)).2 shape
    have printed := Declaration.ofModelFrom_append options (.ofModel model) earlier
      (source :: later)
    rw [← split, Declaration.ofModelFrom_cons] at printed
    refine ⟨_, _, _, first, constructor, rest, printed, ?_, body, lengths, ?_⟩
    · exact (Declaration.spells_ofModelFrom options _ earlier).length_eq.symm
    · intro different
      rcases taken different with own | used
      · exact .inr (.inr own)
      · rw [Constructors.used_claimAll] at used
        rcases List.mem_append.mp used with claimed | seed
        · exact .inr (.inl (Declaration.claimed_subset options _ earlier
            (List.mem_reverse.mp claimed)))
        · exact .inl (mem_used_ofModel.mp seed)

end Schemata.PureScript
