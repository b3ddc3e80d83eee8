namespace Schemata.Entries

/-! Lists of named values that keep the order in which the names first came. -/

def names (entries : List (String × α)) : List String :=
  entries.map Prod.fst

/-- A repeated name keeps its place and takes the new value. -/
def put (name : String) (value : α) : List (String × α) → List (String × α)
  | [] => [(name, value)]
  | (other, held) :: rest =>
      if other = name then (name, value) :: rest
      else (other, held) :: put name value rest

def ofList (entries : List (String × α)) : List (String × α) :=
  entries.foldl (fun held (name, value) => put name value held) []

theorem mem_names_put {name other : String} {value : α}
    {entries : List (String × α)} :
    other ∈ names (put name value entries) ↔
      other = name ∨ other ∈ names entries := by
  induction entries with
  | nil => simp [put, names]
  | cons entry rest induction =>
      simp only [names] at induction
      simp only [put, names]
      split
      · next same =>
        simp only [List.map_cons, List.mem_cons, same, or_self_left]
      · simp only [List.map_cons, List.mem_cons, induction, or_left_comm]

theorem nodup_names_put {name : String} {value : α}
    {entries : List (String × α)} (distinct : (names entries).Nodup) :
    (names (put name value entries)).Nodup := by
  induction entries with
  | nil => simp [put, names]
  | cons entry rest induction =>
      simp only [names, List.map_cons, List.nodup_cons] at distinct
      simp only [put]
      split
      · next same =>
        simpa only [names, List.map_cons, List.nodup_cons, ← same] using distinct
      · next different =>
        have tail := induction distinct.2
        simp only [names, List.map_cons, List.nodup_cons]
        refine ⟨fun member => ?_, tail⟩
        rcases mem_names_put.1 member with same | member
        · exact different same
        · exact distinct.1 member

theorem nodup_names_ofList (entries : List (String × α)) :
    (names (ofList entries)).Nodup := by
  suffices general : ∀ held : List (String × α), (names held).Nodup →
      (names (entries.foldl
        (fun held (name, value) => put name value held) held)).Nodup from
    general [] List.nodup_nil
  induction entries with
  | nil => exact fun _ distinct => distinct
  | cons entry rest induction =>
      exact fun held distinct => induction _ (nodup_names_put distinct)

theorem mem_put {name : String} {value : α} {entry : String × α}
    {entries : List (String × α)} (member : entry ∈ put name value entries) :
    entry = (name, value) ∨ entry ∈ entries := by
  induction entries with
  | nil => exact .inl (List.mem_singleton.mp member)
  | cons first rest induction =>
      simp only [put] at member
      split at member
      · rcases List.mem_cons.mp member with here | later
        · exact .inl here
        · exact .inr (List.mem_cons_of_mem _ later)
      · rcases List.mem_cons.mp member with rfl | later
        · exact .inr List.mem_cons_self
        · exact (induction later).imp_right (List.mem_cons_of_mem _)

theorem ofList_subset (entries : List (String × α)) : ofList entries ⊆ entries := by
  suffices general : ∀ held : List (String × α), ∀ entry ∈
      entries.foldl (fun held (name, value) => put name value held) held,
      entry ∈ held ∨ entry ∈ entries from
    fun entry member => (general [] entry member).resolve_left List.not_mem_nil
  induction entries with
  | nil => exact fun _ _ member => .inl member
  | cons first rest induction =>
      intro held entry member
      rcases induction _ entry member with here | later
      · rcases mem_put here with rfl | before
        · exact .inr List.mem_cons_self
        · exact .inl before
      · exact .inr (List.mem_cons_of_mem _ later)

theorem put_of_fresh {name : String} {value : α} {entries : List (String × α)}
    (fresh : name ∉ names entries) :
    put name value entries = entries ++ [(name, value)] := by
  induction entries with
  | nil => rfl
  | cons entry rest induction =>
      simp only [names, List.map_cons, List.mem_cons, not_or] at fresh
      rw [put, if_neg (Ne.symm fresh.1), induction fresh.2, List.cons_append]

/-- Entries with different names are all kept, in their order. -/
theorem ofList_of_nodup {entries : List (String × α)}
    (distinct : (names entries).Nodup) : ofList entries = entries := by
  suffices general : ∀ held : List (String × α),
      (names (held ++ entries)).Nodup →
      entries.foldl (fun held (name, value) => put name value held) held =
        held ++ entries from
    general [] distinct
  clear distinct
  induction entries with
  | nil => exact fun held _ => (List.append_nil held).symm
  | cons entry rest induction =>
      obtain ⟨name, value⟩ := entry
      intro held distinct
      have fresh : name ∉ names held := by
        rw [names, List.map_append, List.nodup_append] at distinct
        intro member
        exact distinct.2.2 _ member _ (by simp) rfl
      have kept := induction (held ++ [(name, value)])
        (by rwa [List.append_assoc, List.singleton_append])
      rw [List.append_assoc, List.singleton_append] at kept
      simpa only [List.foldl_cons, put_of_fresh fresh] using kept

theorem map_put (change : α → β) (name : String) (value : α)
    (entries : List (String × α)) :
    (put name value entries).map (fun entry => (entry.1, change entry.2)) =
      put name (change value) (entries.map fun entry => (entry.1, change entry.2)) := by
  induction entries with
  | nil => rfl
  | cons entry rest induction =>
      simp only [put, List.map_cons, apply_ite (List.map _), induction]

theorem map_ofList (change : α → β) (entries : List (String × α)) :
    (ofList entries).map (fun entry => (entry.1, change entry.2)) =
      ofList (entries.map fun entry => (entry.1, change entry.2)) := by
  suffices general : ∀ held : List (String × α),
      (entries.foldl (fun held (name, value) => put name value held) held).map
          (fun entry => (entry.1, change entry.2)) =
        (entries.map fun entry => (entry.1, change entry.2)).foldl
          (fun held (name, value) => put name value held)
          (held.map fun entry => (entry.1, change entry.2)) from
    general []
  induction entries with
  | nil => exact fun _ => rfl
  | cons entry rest induction =>
      intro held
      rw [List.foldl_cons, List.map_cons, List.foldl_cons, induction, map_put]

section

variable [BEq κ] [LawfulBEq κ] {entries : List (κ × α)} {key : κ} {value : α}

theorem lookup_eq_none_iff :
    entries.lookup key = none ↔ key ∉ entries.map Prod.fst := by
  simp only [List.lookup_eq_none_iff, List.mem_map, bne_iff_ne, not_exists,
    not_and]
  exact forall₂_congr fun entry _ => ⟨Ne.symm, Ne.symm⟩

theorem mem_of_lookup (found : entries.lookup key = some value) :
    (key, value) ∈ entries := by
  obtain ⟨before, after, split, _⟩ := List.lookup_eq_some_iff.mp found
  rw [split]
  exact List.mem_append_right _ List.mem_cons_self

theorem lookup_eq_some_iff (distinct : (entries.map Prod.fst).Nodup) :
    entries.lookup key = some value ↔ (key, value) ∈ entries := by
  induction entries with
  | nil => simp
  | cons entry rest induction =>
      obtain ⟨other, held⟩ := entry
      simp only [List.map_cons, List.nodup_cons] at distinct
      by_cases same : key = other
      · subst same
        have absent : (key, value) ∉ rest := fun member =>
          distinct.1 (List.mem_map.mpr ⟨(key, value), member, rfl⟩)
        simp [absent, eq_comm]
      · have unequal : (key == other) = false := beq_eq_false_iff_ne.mpr same
        simp [List.lookup_cons, unequal, same, induction distinct.2]

theorem lookup_map (change : κ → α → β) :
    (entries.map fun entry => (entry.1, change entry.1 entry.2)).lookup key =
      (entries.lookup key).map (change key) := by
  induction entries with
  | nil => rfl
  | cons entry rest induction =>
      obtain ⟨other, held⟩ := entry
      by_cases same : key = other
      · simp only [List.map_cons, List.lookup_cons, same, beq_self_eq_true,
          Option.map_some]
      · simp only [List.map_cons, List.lookup_cons, beq_eq_false_iff_ne.mpr same,
          induction]

theorem lookup_filter (keeps : κ → Bool) (kept : keeps key) :
    (entries.filter fun entry => keeps entry.1).lookup key =
      entries.lookup key := by
  induction entries with
  | nil => rfl
  | cons entry rest induction =>
      obtain ⟨other, held⟩ := entry
      by_cases same : key = other
      · subst same
        simp only [List.filter_cons, kept, if_true, List.lookup_cons,
          beq_self_eq_true]
      · have unequal : (key == other) = false := beq_eq_false_iff_ne.mpr same
        rw [List.filter_cons, List.lookup_cons, unequal]
        split
        · rw [List.lookup_cons, unequal, induction]
        · exact induction

end

section

variable {entries : List (String × α)} {name key : String} {value : α}

theorem lookup_put_self : (put name value entries).lookup name = some value := by
  induction entries with
  | nil => rw [put, List.lookup_cons, beq_self_eq_true]
  | cons entry rest induction =>
      obtain ⟨other, held⟩ := entry
      rw [put]
      split
      · rw [List.lookup_cons, beq_self_eq_true]
      · next different =>
        rw [List.lookup_cons, beq_eq_false_iff_ne.mpr (Ne.symm different), induction]

theorem lookup_put_other (different : key ≠ name) :
    (put name value entries).lookup key = entries.lookup key := by
  have unequal : (key == name) = false := beq_eq_false_iff_ne.mpr different
  induction entries with
  | nil => rw [put, List.lookup_cons, unequal]
  | cons entry rest induction =>
      obtain ⟨other, held⟩ := entry
      rw [put]
      split
      · next same => rw [List.lookup_cons, List.lookup_cons, same, unequal]
      · rw [List.lookup_cons, List.lookup_cons, induction]

end

end Schemata.Entries
