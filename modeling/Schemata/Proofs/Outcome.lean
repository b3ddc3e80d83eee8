import Mathlib.Data.List.Forall2

namespace Schemata.Outcome

/-! Steps that may fail, one after the other. -/

variable {ε α β : Type} {first : Except ε α} {next : α → Except ε β}

theorem bind_eq_ok_iff {result : β} :
    first >>= next = .ok result ↔
      ∃ value, first = .ok value ∧ next value = .ok result := by
  cases first <;> simp [bind, Except.bind]

theorem bind_eq_error_iff {error : ε} :
    first >>= next = .error error ↔
      first = .error error ∨
        ∃ value, first = .ok value ∧ next value = .error error := by
  cases first <;> simp [bind, Except.bind]

theorem mapM_eq_ok_iff {step : α → Except ε β} {items : List α} {results : List β} :
    items.mapM step = .ok results ↔
      List.Forall₂ (fun item result => step item = .ok result) items results := by
  induction items generalizing results with
  | nil =>
      rw [List.mapM_nil, List.forall₂_nil_left_iff]
      exact ⟨fun same => (Except.ok.inj same).symm, fun empty => congrArg _ empty.symm⟩
  | cons item rest induction =>
      rw [List.mapM_cons, List.forall₂_cons_left_iff, bind_eq_ok_iff]
      constructor
      · rintro ⟨first, here, later⟩
        obtain ⟨others, each, same⟩ := bind_eq_ok_iff.mp later
        cases same
        exact ⟨first, others, here, induction.mp each, rfl⟩
      · rintro ⟨first, others, here, each, rfl⟩
        exact ⟨first, here, bind_eq_ok_iff.mpr ⟨others, induction.mpr each, rfl⟩⟩

theorem exists_of_forall₂ {same : α → β → Prop} {items : List α} {others : List β}
    (each : List.Forall₂ same items others) {item : α} (member : item ∈ items) :
    ∃ other ∈ others, same item other := by
  induction each with
  | nil => cases member
  | cons first _ induction =>
      rcases List.mem_cons.mp member with rfl | later
      · exact ⟨_, List.mem_cons_self, first⟩
      · obtain ⟨other, among, met⟩ := induction later
        exact ⟨other, List.mem_cons_of_mem _ among, met⟩

/-! What a step may fail with. -/

section

variable {allowed : ε → Prop}

/-- If it fails, then with one of these errors. -/
def FailsWith (allowed : ε → Prop) (outcome : Except ε α) : Prop :=
  ∀ error, outcome = .error error → allowed error

theorem failsWith_ok (value : α) : FailsWith allowed (.ok value) :=
  nofun

theorem failsWith_error {error : ε} (held : allowed error) :
    FailsWith allowed (.error error : Except ε α) := by
  intro raised same
  cases same
  exact held

theorem FailsWith.bind (here : FailsWith allowed first)
    (later : ∀ value, first = .ok value → FailsWith allowed (next value)) :
    FailsWith allowed (first >>= next) := by
  intro error failed
  rcases bind_eq_error_iff.mp failed with early | ⟨value, succeeds, late⟩
  · exact here error early
  · exact later value succeeds error late

/-- A step after which nothing can fail. -/
theorem FailsWith.map {finish : α → β} (here : FailsWith allowed first) :
    FailsWith allowed (do return finish (← first)) :=
  here.bind fun _ _ => failsWith_ok _

theorem FailsWith.mapM {step : α → Except ε β} {items : List α}
    (each : ∀ item ∈ items, FailsWith allowed (step item)) :
    FailsWith allowed (items.mapM step) := by
  induction items with
  | nil => exact failsWith_ok []
  | cons item rest induction =>
      obtain ⟨here, later⟩ := List.forall_mem_cons.mp each
      rw [List.mapM_cons]
      apply here.bind
      intro result _
      exact (induction later).map

/-- Steps that keep an invariant, as long as none fails. -/
theorem FailsWith.foldlM {step : β → α → Except ε β} {items : List α} (kept : β → Prop)
    (each : ∀ item ∈ items, ∀ state, kept state → FailsWith allowed (step state item) ∧
      ∀ next, step state item = .ok next → kept next) {start : β} (held : kept start) :
    FailsWith allowed (items.foldlM step start) ∧
      ∀ finish, items.foldlM step start = .ok finish → kept finish := by
  induction items generalizing start with
  | nil =>
      refine ⟨failsWith_ok start, ?_⟩
      rintro _ ⟨⟩
      exact held
  | cons item rest induction =>
      obtain ⟨here, later⟩ := List.forall_mem_cons.mp each
      obtain ⟨fails, keeps⟩ := here start held
      rw [List.foldlM_cons]
      constructor
      · apply fails.bind
        intro state made
        exact (induction later (keeps state made)).1
      · intro finish succeeds
        obtain ⟨state, made, onwards⟩ := bind_eq_ok_iff.mp succeeds
        exact (induction later (keeps state made)).2 finish onwards

end

/-! Two ways of doing something. -/

/-- Both fail with the same error, or both succeed with results that are related. -/
inductive Agree (same : α → β → Prop) : Except ε α → Except ε β → Prop
  | error (error : ε) : Agree same (.error error) (.error error)
  | ok {left : α} {right : β} (related : same left right) :
      Agree same (.ok left) (.ok right)

namespace Agree

variable {γ δ : Type} {same : α → β → Prop} {related : γ → δ → Prop}
  {left : Except ε α} {right : Except ε β}

theorem symm (agree : Agree same left right) :
    Agree (fun second first => same first second) right left := by
  cases agree with
  | error error => exact .error error
  | ok met => exact .ok met

theorem trans {last : Except ε γ} {later : β → γ → Prop} {whole : α → γ → Prop}
    (first : Agree same left right) (second : Agree later right last)
    (compose : ∀ {start middle finish}, same start middle → later middle finish →
      whole start finish) : Agree whole left last := by
  cases first with
  | error error => cases second; exact .error error
  | ok met =>
      cases second with
      | ok then_ => exact .ok (compose met then_)

theorem bind {next : α → Except ε γ} {other : β → Except ε δ}
    (agree : Agree same left right)
    (later : ∀ first second, same first second →
      Agree related (next first) (other second)) :
    Agree related (left >>= next) (right >>= other) := by
  cases agree with
  | error error => exact .error error
  | ok met => exact later _ _ met

/-- Nothing differs before what comes later. -/
theorem bind_self (outcome : Except ε α) {next : α → Except ε γ} {other : α → Except ε δ}
    (later : ∀ value, Agree related (next value) (other value)) :
    Agree related (outcome >>= next) (outcome >>= other) := by
  cases outcome with
  | error error => exact .error error
  | ok value => exact later value

theorem isOk_eq (agree : Agree same left right) : left.isOk = right.isOk := by
  cases agree <;> rfl

theorem mapM {step : α → Except ε γ} {other : β → Except ε δ}
    {items : List α} {others : List β}
    (each : List.Forall₂ (fun item partner =>
      Agree related (step item) (other partner)) items others) :
    Agree (List.Forall₂ related) (items.mapM step) (others.mapM other) := by
  induction each with
  | nil => exact .ok .nil
  | cons first _ induction =>
      rw [List.mapM_cons, List.mapM_cons]
      exact first.bind fun _ _ head => induction.bind fun _ _ tail =>
        .ok (.cons head tail)

end Agree

end Schemata.Outcome
