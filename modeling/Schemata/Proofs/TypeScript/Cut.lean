import Mathlib.Data.List.DropRight
import Schemata.Proofs.TypeScript.Scan

namespace Schemata.TypeScript

/-! Code that is cut at separators. Nothing separates in a string literal or in brackets, and
comments are no code. -/

def openings : List Char :=
  ['(', '[', '\x7b', '<']

def closings : List Char :=
  [')', ']', '\x7d', '>']

/-- The depth in brackets behind a character. -/
def nested (depth : Nat) (char : Char) : Nat :=
  if char ∈ openings then depth + 1
  else if char ∈ closings then depth - 1
  else depth

def cutFrom (separator : Char) : Place → Nat → List Char → List (List Char)
  | .code, depth, '/' :: '*' :: rest => cutFrom separator (.block []) depth rest
  | .code, depth, '/' :: '/' :: rest => cutFrom separator .line depth rest
  | .code, depth, char :: rest =>
      if char = separator ∧ depth = 0 then [] :: cutFrom separator .code 0 rest
      else
        (cutFrom separator (if isQuote char then .literal char else .code)
          (nested depth char) rest).modifyHead ([char] ++ ·)
  | .literal quote, depth, '\\' :: char :: rest =>
      (cutFrom separator (.literal quote) depth rest).modifyHead (['\\', char] ++ ·)
  | .literal quote, depth, char :: rest =>
      (cutFrom separator (if char = quote then .code else .literal quote) depth
        rest).modifyHead ([char] ++ ·)
  | .line, depth, '\n' :: rest => (cutFrom separator .code depth rest).modifyHead (['\n'] ++ ·)
  | .line, depth, _ :: rest => cutFrom separator .line depth rest
  | .block _, depth, '*' :: '/' :: rest => cutFrom separator .code depth rest
  | .block inside, depth, _ :: rest => cutFrom separator (.block inside) depth rest
  | _, _, [] => [[]]

/-- The pieces of a text between the separators. -/
def cut (separator : Char) (text : List Char) : List (List Char) :=
  cutFrom separator .code 0 text

/-- At the depth or deeper, the text is read as the code: it is not cut, and what it opens
it closes. -/
def Counts (separator : Char) (level : Nat) (text code : List Char) : Prop :=
  ∀ depth, level ≤ depth → ∀ rest,
    cutFrom separator .code depth (text ++ rest) =
      (cutFrom separator .code depth rest).modifyHead (code ++ ·)

variable {separator : Char} {level : Nat} {left right text code more : List Char}

/-! Steps of the scanner. -/

section

variable (depth : Nat) (rest : List Char)

theorem cutFrom_opened :
    cutFrom separator .code depth ('/' :: '*' :: rest) =
      cutFrom separator (.block []) depth rest :=
  rfl

theorem cutFrom_char {char : Char} (slash : char ≠ '/') :
    cutFrom separator .code depth (char :: rest) =
      if char = separator ∧ depth = 0 then [] :: cutFrom separator .code 0 rest
      else
        (cutFrom separator (if isQuote char then .literal char else .code)
          (nested depth char) rest).modifyHead ([char] ++ ·) :=
  cutFrom.eq_3 _ _ _ _ (fun _ same => absurd same slash) (fun _ same => absurd same slash)

theorem cutFrom_backslash (quote char : Char) :
    cutFrom separator (.literal quote) depth ('\\' :: char :: rest) =
      (cutFrom separator (.literal quote) depth rest).modifyHead (['\\', char] ++ ·) :=
  rfl

theorem cutFrom_literal (quote : Char) {char : Char} (plain : char ≠ '\\') :
    cutFrom separator (.literal quote) depth (char :: rest) =
      (cutFrom separator (if char = quote then .code else .literal quote) depth
        rest).modifyHead ([char] ++ ·) :=
  cutFrom.eq_5 _ _ _ _ _ fun _ _ same => absurd same plain

theorem cutFrom_closed (inside : List Char) :
    cutFrom separator (.block inside) depth ('*' :: '/' :: rest) =
      cutFrom separator .code depth rest :=
  rfl

theorem cutFrom_inside (inside : List Char) {char : Char}
    (stays : ∀ more, char = '*' → rest = '/' :: more → False) :
    cutFrom separator (.block inside) depth (char :: rest) =
      cutFrom separator (.block inside) depth rest :=
  cutFrom.eq_9 _ _ _ _ _ stays

end

theorem modifyHead_append (pieces : List (List Char)) :
    (pieces.modifyHead (right ++ ·)).modifyHead (left ++ ·) =
      pieces.modifyHead ((left ++ right) ++ ·) := by
  cases pieces with
  | nil => rfl
  | cons piece rest => simp only [List.modifyHead_cons, List.append_assoc]

theorem modifyHead_nil_append (pieces : List (List Char)) :
    pieces.modifyHead ([] ++ ·) = pieces := by
  cases pieces <;> rfl

theorem counts_nil : Counts separator level [] [] :=
  fun _ _ _ => (modifyHead_nil_append _).symm

theorem Counts.append (first : Counts separator level left code)
    (second : Counts separator level right more) :
    Counts separator level (left ++ right) (code ++ more) := by
  intro depth deep rest
  rw [List.append_assoc, first depth deep, second depth deep, modifyHead_append]

theorem Counts.mono (counts : Counts separator level text code) {deeper : Nat}
    (within : level ≤ deeper) : Counts separator deeper text code :=
  fun depth deep => counts depth (within.trans deep)

/-! Plain characters and brackets. -/

theorem cutFrom_plain {char : Char} (plain : isPlain char = true) {depth : Nat}
    (apart : separator = char → 0 < depth) (rest : List Char) :
    cutFrom separator .code depth (char :: rest) =
      (cutFrom separator .code (nested depth char) rest).modifyHead ([char] ++ ·) := by
  simp only [isPlain, Bool.and_eq_true, Bool.not_eq_true', bne_iff_ne] at plain
  obtain ⟨unquoted, slash⟩ := plain
  rw [cutFrom_char depth rest slash, unquoted, if_neg]
  · rfl
  · rintro ⟨rfl, surface⟩
    have deep := apart rfl
    omega

/-- Neither a quote nor the beginning of a comment nor a bracket. -/
def isFlat (char : Char) : Bool :=
  isPlain char && char ∉ openings && char ∉ closings

def IsFlatCode (text : List Char) : Prop :=
  ∀ char ∈ text, isFlat char = true

instance (text : List Char) : Decidable (IsFlatCode text) :=
  List.decidableBAll _ text

theorem counts_of_flat (flat : IsFlatCode text) (apart : separator ∈ text → 0 < level) :
    Counts separator level text text := by
  induction text with
  | nil => exact counts_nil
  | cons char rest induction =>
      obtain ⟨here, later⟩ := List.forall_mem_cons.mp flat
      simp only [isFlat, Bool.and_eq_true, decide_eq_true_eq] at here
      obtain ⟨⟨plain, opens⟩, closes⟩ := here
      have one : Counts separator level [char] [char] := by
        intro depth deep more
        have stays : separator = char → 0 < depth := fun same =>
          (apart (same ▸ List.mem_cons_self)).trans_le deep
        rw [List.singleton_append, cutFrom_plain plain stays, nested, if_neg opens,
          if_neg closes]
      exact one.append (induction later fun member => apart (List.mem_cons_of_mem _ member))

/-- What is enclosed in brackets is cut nowhere. -/
theorem Counts.enclosed {opening closing : Char}
    (plain : isPlain opening = true ∧ isPlain closing = true)
    (opens : opening ∈ openings) (closes : closing ∉ openings ∧ closing ∈ closings)
    (apart : separator ≠ opening) (inside : Counts separator 1 text code) :
    Counts separator 0 (opening :: text ++ [closing]) (opening :: code ++ [closing]) := by
  intro depth _ rest
  have deeper : nested depth opening = depth + 1 := if_pos opens
  have back : nested (depth + 1) closing = depth := by
    rw [nested, if_neg closes.1, if_pos closes.2]
    rfl
  have surface : separator = opening → 0 < depth := fun same => absurd same apart
  rw [List.append_assoc, List.cons_append, cutFrom_plain plain.1 surface, deeper,
    inside _ (Nat.le_add_left 1 depth), List.singleton_append,
    cutFrom_plain plain.2 fun _ => Nat.succ_pos depth, back, modifyHead_append,
    modifyHead_append]
  rfl

/-! String literals. -/

theorem cutFrom_quoted (stays : text.all staysQuoted = true) (depth : Nat) (rest : List Char) :
    cutFrom separator (.literal '"') depth (text ++ rest) =
      (cutFrom separator (.literal '"') depth rest).modifyHead (text ++ ·) := by
  induction text with
  | nil => exact (modifyHead_nil_append _).symm
  | cons char more induction =>
      rw [List.all_cons, Bool.and_eq_true] at stays
      obtain ⟨here, later⟩ := stays
      simp only [staysQuoted, Bool.and_eq_true, bne_iff_ne] at here
      rw [List.cons_append, cutFrom_literal _ _ _ here.2, if_neg here.1, induction later,
        modifyHead_append]
      rfl

/-- An escape does not close the literal. -/
theorem cutFrom_escape (char : Char) (depth : Nat) (rest : List Char) :
    cutFrom separator (.literal '"') depth (Json.Quoted.escape char ++ rest) =
      (cutFrom separator (.literal '"') depth rest).modifyHead (Json.Quoted.escape char ++ ·) := by
  have stays := staysEscaped_escape char
  generalize Json.Quoted.escape char = text at stays
  fun_cases staysEscaped text with
  | case1 escaped more =>
      rw [staysEscaped] at stays
      rw [List.cons_append, List.cons_append, cutFrom_backslash, cutFrom_quoted stays,
        modifyHead_append]
      rfl
  | case2 _ other =>
      rw [staysEscaped.eq_2 _ other] at stays
      exact cutFrom_quoted stays depth rest

theorem counts_encode (apart : separator ≠ '"') (text : List Char) :
    Counts separator level (Json.Quoted.encode text) (Json.Quoted.encode text) := by
  have body : ∀ depth rest,
      cutFrom separator (.literal '"') depth (text.flatMap Json.Quoted.escape ++ rest) =
        (cutFrom separator (.literal '"') depth rest).modifyHead
          (text.flatMap Json.Quoted.escape ++ ·) := by
    intro depth rest
    induction text with
    | nil => exact (modifyHead_nil_append _).symm
    | cons char more induction =>
        rw [List.flatMap_cons, List.append_assoc, cutFrom_escape, induction, modifyHead_append]
  intro depth _ rest
  have quote : nested depth '"' = depth := rfl
  rw [Json.Quoted.encode, List.append_assoc, List.cons_append,
    cutFrom_char _ _ (by decide : '"' ≠ '/'), if_neg (fun same => apart same.1.symm), quote]
  show (cutFrom separator (.literal '"') depth _).modifyHead _ = _
  rw [body, List.singleton_append, cutFrom_literal _ _ _ (by decide : '"' ≠ '\\'), if_pos rfl,
    modifyHead_append, modifyHead_append]
  rfl

/-! Comments. -/

theorem cutFrom_block (stays : ¬Closes text) (inside : List Char) (depth : Nat)
    (rest : List Char) :
    cutFrom separator (.block inside) depth (text ++ '*' :: '/' :: rest) =
      cutFrom separator .code depth rest := by
  induction text with
  | nil => exact cutFrom_closed depth rest inside
  | cons char more induction =>
      rw [closes_cons_iff, not_or] at stays
      rw [List.cons_append, cutFrom_inside, induction stays.2]
      intro next star slash
      cases more with
      | nil => cases (List.cons.inj slash).1
      | cons => exact stays.1 ⟨star, congrArg some (List.cons.inj slash).1⟩

theorem counts_comment (stays : ¬Closes text) :
    Counts separator level ('/' :: '*' :: text ++ ['*', '/']) [] := by
  intro depth _ rest
  have opened : ('/' :: '*' :: text ++ ['*', '/']) ++ rest =
      '/' :: '*' :: (text ++ '*' :: '/' :: rest) := by simp
  rw [opened, cutFrom_opened, cutFrom_block stays, modifyHead_nil_append]

/-! Pieces. -/

theorem cut_of_counts (counts : Counts separator 0 text code) : cut separator text = [code] := by
  have whole := counts 0 le_rfl []
  rw [List.append_nil] at whole
  rw [cut, whole]
  exact congrArg (fun code => [code]) (List.append_nil code)

theorem cut_append_separator (counts : Counts separator 0 text code)
    (plain : isPlain separator = true) (rest : List Char) :
    cut separator (text ++ separator :: rest) = code :: cut separator rest := by
  simp only [isPlain, Bool.and_eq_true, Bool.not_eq_true', bne_iff_ne] at plain
  rw [cut, counts 0 le_rfl, cutFrom_char _ _ plain.2, if_pos ⟨rfl, rfl⟩,
    List.modifyHead_cons, List.append_nil]
  rfl

/-! Pieces without the padding around them. -/

def isPadding (char : Char) : Bool :=
  char == ' ' || char == '\n'

def unpadded (text : List Char) : List Char :=
  (text.dropWhile isPadding).rdropWhile isPadding

def IsPadding (text : List Char) : Prop :=
  ∀ char ∈ text, isPadding char = true

instance (text : List Char) : Decidable (IsPadding text) :=
  List.decidableBAll _ text

/-- A text with something visible at both ends. -/
def IsCompact (text : List Char) : Prop :=
  text.head?.any (!isPadding ·) = true ∧ text.getLast?.any (!isPadding ·) = true

instance (text : List Char) : Decidable (IsCompact text) :=
  inferInstanceAs (Decidable (_ ∧ _))

theorem isCompact_append (first : IsCompact left) (last : IsCompact right) (middle : List Char) :
    IsCompact (left ++ middle ++ right) := by
  obtain ⟨char, begins, visible⟩ := (Option.any_eq_true _ _).mp first.1
  obtain ⟨other, ends, shown⟩ := (Option.any_eq_true _ _).mp last.2
  constructor
  · rw [List.append_assoc, List.head?_append, begins]
    exact visible
  · rw [List.getLast?_append, ends]
    exact shown

theorem isCompact_of_visible (nonempty : text ≠ [])
    (visible : ∀ char ∈ text, isPadding char = false) : IsCompact text := by
  obtain ⟨first, rest, begins⟩ := List.exists_cons_of_ne_nil nonempty
  obtain ⟨front, last, ends⟩ := (List.eq_nil_or_concat' text).resolve_left nonempty
  constructor
  · rw [begins, List.head?_cons, Option.any_some, visible first (begins ▸ List.mem_cons_self)]
    rfl
  · rw [ends, List.getLast?_concat, Option.any_some, visible last (by simp [ends])]
    rfl

theorem unpadded_padding (padding : IsPadding text) : unpadded text = [] := by
  rw [unpadded, List.dropWhile_eq_nil_iff.mpr padding]
  rfl

theorem unpadded_padded (before : IsPadding left) (compact : IsCompact text)
    (after : IsPadding right) : unpadded (left ++ text ++ right) = text := by
  obtain ⟨char, begins, visible⟩ := (Option.any_eq_true _ _).mp compact.1
  obtain ⟨other, ends, shown⟩ := (Option.any_eq_true _ _).mp compact.2
  rw [Bool.not_eq_true'] at visible shown
  obtain ⟨rest, cons⟩ := List.head?_eq_some_iff.mp begins
  obtain ⟨front, concat⟩ := List.getLast?_eq_some_iff.mp ends
  have start : (left ++ text ++ right).dropWhile isPadding = text ++ right := by
    rw [List.append_assoc, List.dropWhile_append_of_pos before, cons, List.cons_append,
      List.dropWhile_cons_of_neg (by simp [visible])]
  have finish : (text ++ right).rdropWhile isPadding = text.rdropWhile isPadding := by
    rw [List.rdropWhile, List.reverse_append, List.dropWhile_append_of_pos]
    · rfl
    · exact fun char member => after char (List.mem_reverse.mp member)
  rw [unpadded, start, finish, concat, List.rdropWhile_concat_neg _ _ _ (by simp [shown])]

theorem unpadded_behind (before : IsPadding left) (compact : IsCompact text) :
    unpadded (left ++ text) = text := by
  have whole := unpadded_padded before compact (by decide : IsPadding [])
  rwa [List.append_nil] at whole

theorem unpadded_of_compact (compact : IsCompact text) : unpadded text = text :=
  unpadded_behind (by decide : IsPadding []) compact

/-! Lines. -/

/-- What ends in a separator on a line of its own, behind what is read as blanks. -/
structure IsPiece (separator : Char) (front code : List Char) : Prop where
  blank : ∃ blanks, IsPadding blanks ∧ Counts separator 0 front blanks
  whole : Counts separator 0 code code
  compact : IsCompact code

/-- Whatever blanks stand in front, there is one piece for each line, and an empty one. -/
theorem cut_lines {α : Type} {items : List α} {front body : α → List Char}
    (plain : isPlain separator = true) (other : separator ≠ '\n')
    (each : ∀ item ∈ items, IsPiece separator (front item) (body item)) {lead : List Char}
    (padding : IsPadding lead) (counts : Counts separator 0 lead lead) :
    (cut separator (lead ++ items.flatMap fun item =>
      front item ++ body item ++ [separator, '\n'])).map unpadded = items.map body ++ [[]] := by
  induction items generalizing lead with
  | nil =>
      rw [List.flatMap_nil, List.append_nil, cut_of_counts counts, List.map_singleton,
        unpadded_padding padding]
      rfl
  | cons item rest induction =>
      obtain ⟨here, later⟩ := List.forall_mem_cons.mp each
      obtain ⟨blanks, blank, before⟩ := here.blank
      have feed : Counts separator 0 ['\n'] ['\n'] :=
        counts_of_flat (by decide) fun member => absurd (List.mem_singleton.mp member) other
      have parts : (lead ++ (item :: rest).flatMap fun item =>
          front item ++ body item ++ [separator, '\n']) =
          (lead ++ front item ++ body item) ++ separator :: (['\n'] ++ rest.flatMap fun item =>
            front item ++ body item ++ [separator, '\n']) := by
        simp
      rw [parts, cut_append_separator ((counts.append before).append here.whole) plain,
        List.map_cons,
        unpadded_behind (List.forall_mem_append.mpr ⟨padding, blank⟩) here.compact,
        induction later (by decide) feed]
      rfl

end Schemata.TypeScript
