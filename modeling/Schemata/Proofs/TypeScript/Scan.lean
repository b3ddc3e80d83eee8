import Schemata.Json.Quoted
import Schemata.Proofs.Emission.Layout
import Schemata.Proofs.Json.Printer
import Schemata.Proofs.Naming.TypeName

namespace Schemata.TypeScript

/-! Comments as they are found in a text: one ends where its end first occurs, and none
begins in a string literal. -/

/-- Where a reader stands in a text. -/
inductive Place where
  | code
  /-- In a string literal with the quote. -/
  | literal (quote : Char)
  | line
  /-- In a comment of which some has been read. -/
  | block (inside : List Char)

def isQuote (char : Char) : Bool :=
  char == '"' || char == '\x27' || char == '\x60'

/-- The insides of the block comments in a text, unless it ends in one or in a literal. -/
def scan : Place → List Char → Option (List (List Char))
  | .code, [] => some []
  | .code, '/' :: '*' :: rest => scan (.block []) rest
  | .code, '/' :: '/' :: rest => scan .line rest
  | .code, char :: rest => scan (if isQuote char then .literal char else .code) rest
  | .literal _, [] => none
  | .literal quote, '\\' :: _ :: rest => scan (.literal quote) rest
  | .literal quote, char :: rest => scan (if char = quote then .code else .literal quote) rest
  | .line, [] => some []
  | .line, char :: rest => scan (if char = '\n' then .code else .line) rest
  | .block _, [] => none
  | .block inside, '*' :: '/' :: rest => (inside :: ·) <$> scan .code rest
  | .block inside, char :: rest => scan (.block (inside ++ [char])) rest

/-! Steps of the reader. -/

section

variable {char : Char} {rest : List Char}

theorem scan_char (slash : char ≠ '/') :
    scan .code (char :: rest) = scan (if isQuote char then .literal char else .code) rest :=
  scan.eq_4 char rest (fun _ same => absurd same slash) (fun _ same => absurd same slash)

theorem scan_literal (quote : Char) (plain : char ≠ '\\') :
    scan (.literal quote) (char :: rest) =
      scan (if char = quote then .code else .literal quote) rest :=
  scan.eq_7 quote char rest fun _ _ same => absurd same plain

theorem scan_inside (inside : List Char)
    (stays : ∀ more, char = '*' → rest = '/' :: more → False) :
    scan (.block inside) (char :: rest) = scan (.block (inside ++ [char])) rest :=
  scan.eq_12 inside char rest stays

end

/-! Code without comments. -/

/-- A reader of code is in code again after the text, and has met no comment. -/
def Passes (text : List Char) : Prop :=
  ∀ rest, scan .code (text ++ rest) = scan .code rest

section

variable {left right text : List Char}

theorem passes_nil : Passes [] :=
  fun _ => rfl

theorem Passes.append (first : Passes left) (second : Passes right) :
    Passes (left ++ right) := by
  intro rest
  rw [List.append_assoc, first, second]

theorem passes_intercalate {separator : List Char} {parts : List (List Char)}
    (between : Passes separator) (each : ∀ part ∈ parts, Passes part) :
    Passes (separator.intercalate parts) := by
  induction parts with
  | nil => exact passes_nil
  | cons part rest induction =>
      obtain ⟨here, later⟩ := List.forall_mem_cons.mp each
      cases rest with
      | nil => rwa [List.intercalate_singleton]
      | cons =>
          rw [List.intercalate_cons_cons]
          exact (here.append between).append (induction later)

end

/-- Neither a quote nor the beginning of a comment. -/
def isPlain (char : Char) : Bool :=
  !isQuote char && char != '/'

def IsPlainCode (text : List Char) : Prop :=
  ∀ char ∈ text, isPlain char = true

instance (text : List Char) : Decidable (IsPlainCode text) :=
  List.decidableBAll _ text

section

variable {left right text : List Char}

theorem isPlainCode_append :
    IsPlainCode (left ++ right) ↔ IsPlainCode left ∧ IsPlainCode right :=
  List.forall_mem_append

theorem passes_of_plain (plain : IsPlainCode text) : Passes text := by
  induction text with
  | nil => exact passes_nil
  | cons char rest induction =>
      obtain ⟨here, later⟩ := List.forall_mem_cons.mp plain
      simp only [isPlain, Bool.and_eq_true, Bool.not_eq_true', bne_iff_ne] at here
      intro more
      rw [List.cons_append, scan_char here.2, here.1]
      exact induction later more

/-- A class of characters is plain when it has none of the few that are not. -/
theorem isPlainCode_of_class (kind : Char → Bool)
    (excludes : ['"', '\x27', '\x60', '/'].any kind = false)
    (within : ∀ char ∈ text, kind char = true) : IsPlainCode text := by
  intro char member
  have differs : ∀ bad, kind bad = false → char ≠ bad := by
    rintro bad out rfl
    rw [within char member] at out
    cases out
  simp only [List.any_cons, List.any_nil, Bool.or_eq_false_iff] at excludes
  obtain ⟨quote, apostrophe, grave, slash, -⟩ := excludes
  simp only [isPlain, isQuote, Bool.and_eq_true, Bool.not_eq_true', Bool.or_eq_false_iff,
    beq_eq_false_iff_ne, bne_iff_ne]
  exact ⟨⟨⟨differs _ quote, differs _ apostrophe⟩, differs _ grave⟩, differs _ slash⟩

theorem isPlainCode_of_isWordText (word : Text.IsWordText text) : IsPlainCode text :=
  isPlainCode_of_class (fun char => decide (Text.IsWordChar char)) (by decide)
    fun char member => decide_eq_true (word char member)

theorem isPlainCode_of_isNumeralText (numeral : IsNumeralText text) : IsPlainCode text :=
  isPlainCode_of_class isNumeralChar (by decide) numeral

end

/-! String literals. -/

/-- Neither the closing quote nor the beginning of an escape. -/
def staysQuoted (char : Char) : Bool :=
  char != '"' && char != '\\'

theorem scan_quoted {text : List Char} (stays : text.all staysQuoted = true)
    (rest : List Char) :
    scan (.literal '"') (text ++ rest) = scan (.literal '"') rest := by
  induction text with
  | nil => rfl
  | cons char more induction =>
      rw [List.all_cons, Bool.and_eq_true] at stays
      obtain ⟨here, later⟩ := stays
      simp only [staysQuoted, Bool.and_eq_true, bne_iff_ne] at here
      rw [List.cons_append, scan_literal '"' here.2, if_neg here.1]
      exact induction later

/-- A backslash makes the character after it harmless. -/
def staysEscaped : List Char → Bool
  | '\\' :: _ :: more => more.all staysQuoted
  | text => text.all staysQuoted

theorem staysEscaped_escape (char : Char) :
    staysEscaped (Json.Quoted.escape char) = true := by
  by_cases ascii : char.toNat < 128
  · exact Text.forall_ascii (fun char => staysEscaped (Json.Quoted.escape char) = true)
      (by decide +kernel) ascii
  · have stays : staysQuoted char = true := by
      simp only [staysQuoted, Bool.and_eq_true, bne_iff_ne]
      constructor <;> rintro rfl <;> exact ascii (by decide)
    rw [Json.escape_of_beyond (by omega), staysEscaped.eq_2 _ (by simp), List.all_cons, stays]
    rfl

/-- An escape does not close the literal. -/
theorem scan_escape (char : Char) (rest : List Char) :
    scan (.literal '"') (Json.Quoted.escape char ++ rest) = scan (.literal '"') rest := by
  have stays := staysEscaped_escape char
  generalize Json.Quoted.escape char = text at stays
  fun_cases staysEscaped text with
  | case1 escaped more =>
      rw [staysEscaped] at stays
      exact scan_quoted stays rest
  | case2 _ other =>
      rw [staysEscaped.eq_2 _ other] at stays
      exact scan_quoted stays rest

theorem passes_encode (text : List Char) : Passes (Json.Quoted.encode text) := by
  have body : ∀ rest, scan (.literal '"') (text.flatMap Json.Quoted.escape ++ rest) =
      scan (.literal '"') rest := by
    induction text with
    | nil => exact fun _ => rfl
    | cons char more induction =>
        intro rest
        rw [List.flatMap_cons, List.append_assoc, scan_escape, induction]
  intro rest
  rw [Json.Quoted.encode, List.append_assoc]
  exact body _

/-! Comments. -/

/-- The end of a comment occurs. -/
def Closes (text : List Char) : Prop :=
  ['*', '/'] <:+: text

section

variable {left right text rest : List Char} {char : Char}

instance (text : List Char) : Decidable (Closes text) :=
  inferInstanceAs (Decidable (_ <:+: _))

theorem not_closes_nil : ¬Closes [] := by
  decide

theorem closes_cons_iff :
    Closes (char :: rest) ↔ char = '*' ∧ rest.head? = some '/' ∨ Closes rest := by
  rw [Closes, List.infix_cons_iff, List.cons_prefix_cons, List.singleton_prefix_iff_head?_eq_some,
    eq_comm, Closes]

theorem not_closes_append (first : ¬Closes left) (second : ¬Closes right)
    (seam : right.head? ≠ some '/') : ¬Closes (left ++ right) := by
  induction left with
  | nil => exact second
  | cons char rest induction =>
      rw [closes_cons_iff, not_or] at first
      rw [List.cons_append, closes_cons_iff, not_or]
      refine ⟨?_, induction first.2⟩
      rintro ⟨star, slash⟩
      cases rest with
      | nil => exact seam slash
      | cons next more => exact first.1 ⟨star, slash⟩

theorem not_closes_unlines_append {lines : List (List Char)}
    (each : ∀ line ∈ lines, ¬Closes line) (below : ¬Closes text) :
    ¬Closes (unlines lines ++ text) := by
  induction lines with
  | nil => exact below
  | cons line rest induction =>
      obtain ⟨here, later⟩ := List.forall_mem_cons.mp each
      rw [unlines_cons, List.append_assoc]
      refine not_closes_append here ?_ (by simp)
      rw [List.cons_append, closes_cons_iff, not_or]
      exact ⟨by simp, induction later⟩

/-- A comment ends at the first end that occurs in it. -/
theorem scan_block (stays : ¬Closes text) (inside rest : List Char) :
    scan (.block inside) (text ++ '*' :: '/' :: rest) =
      ((inside ++ text) :: ·) <$> scan .code rest := by
  induction text generalizing inside with
  | nil =>
      rw [List.append_nil]
      rfl
  | cons char more induction =>
      rw [closes_cons_iff, not_or] at stays
      rw [List.cons_append, scan_inside, induction stays.2, List.append_assoc,
        List.singleton_append]
      intro next star slash
      cases more with
      | nil => cases (List.cons.inj slash).1
      | cons => exact stays.1 ⟨star, congrArg some (List.cons.inj slash).1⟩

end

end Schemata.TypeScript
