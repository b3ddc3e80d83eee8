import Mathlib.Data.List.TakeDrop
import Schemata.CommandLine.Arguments
import Schemata.Entries

namespace Schemata.CommandLine

/-! How options are spelled, and the lists of arguments that spell a generation. -/

/-- The argument names the option, and has the value attached to it. -/
inductive OptionName.Shows (option : OptionName) : Option String → String → Prop where
  | name : option.Shows none ("--" ++ option.name)
  | nameWith (value : String) :
      option.Shows (some value) ("--" ++ option.name ++ "=" ++ value)
  | letter {letter : Char} (own : option.letter = some letter) :
      option.Shows none ("-" ++ .singleton letter)
  | letterWith {letter : Char} (own : option.letter = some letter) (value : String) :
      option.Shows (some value) ("-" ++ .singleton letter ++ "=" ++ value)
  | letterBefore {letter : Char} (own : option.letter = some letter) {value : String}
      (given : value ≠ "") (plain : value.toList.head? ≠ some '=') :
      option.Shows (some value) ("-" ++ .singleton letter ++ value)

/-- The arguments give the option its value, which a flag does not have. -/
inductive OptionName.Gives (option : OptionName) : Option String → List String → Prop where
  | attached {value argument : String} (takes : option.takesValue = true)
      (shown : option.Shows (some value) argument) : option.Gives (some value) [argument]
  | next {value argument : String} (takes : option.takesValue = true)
      (shown : option.Shows none argument) (accepted : isValue value = true) :
      option.Gives (some value) [argument, value]
  | flag {argument : String} (takes : option.takesValue = false)
      (shown : option.Shows none argument) : option.Gives none [argument]

/-- The arguments give options their values one after the other. A separator may follow. -/
inductive Spells (options : List OptionName) : OptionValues → List String → Prop where
  | nil : Spells options [] []
  | separator : Spells options [] ["--"]
  | cons {option : OptionName} {value : Option String} {written arguments : List String}
      {values : OptionValues} (among : option ∈ options) (gives : option.Gives value written)
      (others : Spells options values arguments) :
      Spells options ((option.name, value) :: values) (written ++ arguments)

/-- No argument names two of the options, and each can be named. -/
structure Unambiguous (options : List OptionName) : Prop where
  named : ∀ option ∈ options, option.name ≠ ""
  plain : ∀ option ∈ options, '=' ∉ option.name.toList
  lettered : ∀ option ∈ options, option.letter ≠ some '-'
  names : ∀ option ∈ options, ∀ other ∈ options, option.name = other.name → option = other
  letters : ∀ option ∈ options, ∀ other ∈ options, option.letter = other.letter →
    option.letter = none ∨ option = other

/-- No option is given twice, no path is empty, and the target is one of those there are. -/
structure Requests (values : OptionValues) (input output : Option String)
    (target : Option Target) : Prop where
  distinct : (values.map Prod.fst).Nodup
  input : ∀ path, input = some path ↔ (inputOption.name, some path) ∈ values
  output : ∀ path, output = some path ↔ (outputOption.name, some path) ∈ values
  target : ∀ choice, target = some choice ↔
    ∃ text, (targetOption.name, some text) ∈ values ∧ (text, choice) ∈ Target.choices
  inputFilled : (inputOption.name, some "") ∉ values
  outputFilled : (outputOption.name, some "") ∉ values
  known : ∀ text, (targetOption.name, some text) ∈ values →
    ∃ choice, (text, choice) ∈ Target.choices

/-- The arguments are those of a generation with this input, output and target. -/
def AsksFor (arguments : List String) (input output : Option String)
    (target : Option Target) : Prop :=
  ∃ values, Spells generateOptions values arguments ∧ Requests values input output target

section

variable {name text : List Char}

/-- Only the sign between the two parts is dropped. -/
theorem eq_splitEquals_append (text : List Char) :
    text = (splitEquals text).1 ++ (splitEquals text).2.elim [] ('=' :: ·) := by
  have whole := List.takeWhile_append_dropWhile (p := (· != '=')) (l := text)
  unfold splitEquals
  rw [List.span_eq_takeWhile_dropWhile]
  split
  · next first rest spans =>
    obtain ⟨rfl, back⟩ := Prod.mk.inj spans
    have stops := List.head?_dropWhile_not (· != '=') text
    rw [back] at whole stops
    obtain rfl : first = '=' := bne_eq_false_iff_eq.mp stops
    exact whole.symm
  · next spans =>
    obtain ⟨rfl, back⟩ := Prod.mk.inj spans
    rw [Option.elim_none, ← back, whole]

theorem splitEquals_plain (plain : '=' ∉ text) : splitEquals text = (text, none) := by
  have whole := eq_splitEquals_append text
  cases splits : splitEquals text with
  | mk name value =>
      rw [splits] at whole
      cases value with
      | none => rw [whole, Option.elim_none, List.append_nil]
      | some value => exact absurd (whole ▸ List.mem_append_right _ List.mem_cons_self) plain

theorem splitEquals_append (plain : '=' ∉ name) :
    splitEquals (name ++ '=' :: text) = (name, some text) := by
  have all : ∀ letter ∈ name, (letter != '=') = true := fun letter member =>
    bne_iff_ne.mpr fun same => plain (same ▸ member)
  rw [splitEquals, List.span_eq_takeWhile_dropWhile, List.takeWhile_append_of_pos all,
    List.dropWhile_append_of_pos all]
  simp

end

section

variable {argument name value : String} {letter : Char} {text : List Char}

theorem read_long (spelled : argument.toList = '-' :: '-' :: text) (more : text ≠ []) :
    Argument.read argument =
      .named (String.ofList (splitEquals text).1) ((splitEquals text).2.map String.ofList) := by
  unfold Argument.read
  rw [spelled]
  cases text with
  | nil => exact absurd rfl more
  | cons first rest => rfl

theorem read_short (spelled : argument.toList = '-' :: letter :: text) (free : letter ≠ '-') :
    Argument.read argument = .lettered letter (attached? text) := by
  unfold Argument.read
  rw [spelled]
  split
  · next same => exact absurd (List.cons.inj (List.cons.inj same).2).1 free
  · next same => exact absurd (List.cons.inj (List.cons.inj same).2).1 free
  · next same =>
    cases same
    rfl
  · next other => exact absurd rfl (other letter text)

theorem attached?_plain (given : text ≠ []) (plain : text.head? ≠ some '=') :
    attached? text = some (String.ofList text) := by
  unfold attached?
  split
  · exact absurd rfl given
  · exact absurd rfl plain
  · rfl

end

section

variable {options : List OptionName} {option : OptionName} {attached value : Option String}
  {argument : String} {letter : Char} {text : List Char} {written rest : List String}
  {arguments : List String} {values : OptionValues}

theorem find?_eq_some_of_unique {fits : OptionName → Bool} (among : option ∈ options)
    (own : fits option = true)
    (unique : ∀ other ∈ options, fits other = true → option = other) :
    options.find? fits = some option := by
  cases found : options.find? fits with
  | none => exact absurd own (List.find?_eq_none.mp found option among)
  | some other =>
      rw [unique other (List.mem_of_find?_eq_some found) (List.find?_some found)]

theorem option?_named (unambiguous : Unambiguous options) (among : option ∈ options) :
    (Argument.named option.name attached).option? options = some (option, attached) := by
  have found : options.find? (·.name == option.name) = some option :=
    find?_eq_some_of_unique among (beq_self_eq_true option.name) fun other member same =>
      unambiguous.names option among other member (beq_iff_eq.mp same).symm
  rw [Argument.option?, found, Option.map_some]

theorem option?_lettered (unambiguous : Unambiguous options) (among : option ∈ options)
    (own : option.letter = some letter) :
    (Argument.lettered letter attached).option? options = some (option, attached) := by
  have found : options.find? (·.letter == some letter) = some option :=
    find?_eq_some_of_unique among (beq_iff_eq.mpr own) fun other member same =>
      (unambiguous.letters option among other member
        (own.trans (beq_iff_eq.mp same).symm)).resolve_left (own ▸ Option.some_ne_none letter)
  rw [Argument.option?, found, Option.map_some]

theorem option?_of_shows (unambiguous : Unambiguous options) (among : option ∈ options)
    (shows : option.Shows attached argument) :
    (Argument.read argument).option? options = some (option, attached) := by
  have named : option.name.toList ≠ [] := fun none =>
    unambiguous.named option among (String.toList_eq_nil_iff.mp none)
  have plain := unambiguous.plain option among
  have free {letter : Char} (own : option.letter = some letter) : letter ≠ '-' := fun same =>
    unambiguous.lettered option among (same ▸ own)
  cases shows with
  | name =>
      rw [read_long String.toList_append named, splitEquals_plain plain, String.ofList_toList]
      exact option?_named unambiguous among
  | nameWith value =>
      have spelled : ("--" ++ option.name ++ "=" ++ value).toList =
          '-' :: '-' :: (option.name.toList ++ '=' :: value.toList) := by
        simp
      rw [read_long spelled (List.append_ne_nil_of_left_ne_nil named _),
        splitEquals_append plain, Option.map_some, String.ofList_toList, String.ofList_toList]
      exact option?_named unambiguous among
  | @letter letter own =>
      have spelled : ("-" ++ String.singleton letter).toList = '-' :: letter :: [] := by
        simp
      rw [read_short spelled (free own)]
      exact option?_lettered unambiguous among own
  | @letterWith letter own value =>
      have spelled : ("-" ++ String.singleton letter ++ "=" ++ value).toList =
          '-' :: letter :: '=' :: value.toList := by
        simp
      rw [read_short spelled (free own), attached?, String.ofList_toList]
      exact option?_lettered unambiguous among own
  | @letterBefore letter own value given begins =>
      have spelled : ("-" ++ String.singleton letter ++ value).toList =
          '-' :: letter :: value.toList := by
        simp
      rw [read_short spelled (free own),
        attached?_plain (fun none => given (String.toList_eq_nil_iff.mp none)) begins,
        String.ofList_toList]
      exact option?_lettered unambiguous among own

theorem shows_of_long (spelled : argument.toList = '-' :: '-' :: text)
    (own : option.name = String.ofList (splitEquals text).1) :
    option.Shows ((splitEquals text).2.map String.ofList) argument := by
  have whole := eq_splitEquals_append text
  cases held : (splitEquals text).2 with
  | none =>
      have same : argument = "--" ++ option.name := by
        rw [held, Option.elim_none, List.append_nil] at whole
        simpa [← String.toList_inj, spelled, own] using whole
      exact same ▸ .name
  | some value =>
      have same : argument = "--" ++ option.name ++ "=" ++ String.ofList value := by
        rw [held, Option.elim_some] at whole
        simpa [← String.toList_inj, spelled, own] using whole
      exact same ▸ .nameWith _

theorem shows_of_short (spelled : argument.toList = '-' :: letter :: text)
    (own : option.letter = some letter) : option.Shows (attached? text) argument := by
  unfold attached?
  split
  · have same : argument = "-" ++ String.singleton letter := by
      simp [← String.toList_inj, spelled]
    exact same ▸ .letter own
  · next value =>
    have same : argument = "-" ++ String.singleton letter ++ "=" ++ String.ofList value := by
      simp [← String.toList_inj, spelled]
    exact same ▸ .letterWith own _
  · next given plain =>
    have same : argument = "-" ++ String.singleton letter ++ String.ofList text := by
      simp [← String.toList_inj, spelled]
    refine same ▸ .letterBefore own (fun none => given ?_) fun begins => ?_
    · rw [← String.toList_ofList (l := text), none]
      rfl
    · rw [String.toList_ofList] at begins
      obtain ⟨rest, rfl⟩ := List.head?_eq_some_iff.mp begins
      exact plain rest rfl

theorem shows_of_option?
    (found : (Argument.read argument).option? options = some (option, attached)) :
    option ∈ options ∧ option.Shows attached argument := by
  unfold Argument.read at found
  split at found
  · cases found
  · next spelled =>
    obtain ⟨option, named, same⟩ := Option.map_eq_some_iff.mp found
    obtain ⟨rfl, rfl⟩ := Prod.mk.inj same
    have own := List.find?_some named
    exact ⟨List.mem_of_find?_eq_some named, shows_of_long spelled (beq_iff_eq.mp own)⟩
  · next spelled =>
    obtain ⟨option, lettered, same⟩ := Option.map_eq_some_iff.mp found
    obtain ⟨rfl, rfl⟩ := Prod.mk.inj same
    have own := List.find?_some lettered
    exact ⟨List.mem_of_find?_eq_some lettered, shows_of_short spelled (beq_iff_eq.mp own)⟩
  · cases found

theorem read_ne_separator
    (found : (Argument.read argument).option? options = some (option, attached)) :
    Argument.read argument ≠ .separator := by
  intro separator
  rw [separator] at found
  cases found

theorem eq_of_read_eq_separator (reads : Argument.read argument = .separator) :
    argument = "--" := by
  unfold Argument.read at reads
  split at reads
  · next spelled => exact String.toList_inj.mp spelled
  · cases reads
  · cases reads
  · cases reads

/-- Options that are written first are read first. -/
theorem readOptions_append (unambiguous : Unambiguous options) (among : option ∈ options)
    (gives : option.Gives value written) :
    readOptions options (written ++ rest) =
      (readOptions options rest).bind fun others => some ((option.name, value) :: others) := by
  obtain ⟨name, letter, takesValue⟩ := option
  cases gives with
  | attached takes shown =>
      have found := option?_of_shows unambiguous among shown
      obtain rfl : takesValue = true := takes
      rw [List.singleton_append, readOptions]
      split
      · next separator => exact absurd separator (read_ne_separator found)
      · rw [found]
        cases rest <;> rfl
  | next takes shown accepted =>
      have found := option?_of_shows unambiguous among shown
      obtain rfl : takesValue = true := takes
      rw [List.cons_append, readOptions]
      split
      · next separator => exact absurd separator (read_ne_separator found)
      · rw [found]
        exact if_pos accepted
  | flag takes shown =>
      have found := option?_of_shows unambiguous among shown
      obtain rfl : takesValue = false := takes
      rw [List.singleton_append, readOptions]
      split
      · next separator => exact absurd separator (read_ne_separator found)
      · rw [found]
        cases rest <;> rfl

theorem exists_of_readOptions_cons (reads : readOptions options (argument :: rest) = some values) :
    argument = "--" ∧ rest = [] ∧ values = [] ∨
      ∃ option ∈ options, ∃ value written remaining others,
        option.Gives value written ∧ argument :: rest = written ++ remaining ∧
          readOptions options remaining = some others ∧
          values = (option.name, value) :: others := by
  rw [readOptions] at reads
  split at reads
  · next separator =>
    split_ifs at reads with last
    exact .inl ⟨eq_of_read_eq_separator separator, List.isEmpty_iff.mp last,
      (Option.some.inj reads).symm⟩
  · right
    split at reads
    · next found =>
      obtain ⟨others, read, same⟩ := Option.bind_eq_some_iff.mp reads
      obtain ⟨among, shown⟩ := shows_of_option? found
      exact ⟨_, among, _, _, _, _, .attached rfl shown, rfl, read, (Option.some.inj same).symm⟩
    · next found =>
      split_ifs at reads with accepted
      obtain ⟨others, read, same⟩ := Option.bind_eq_some_iff.mp reads
      obtain ⟨among, shown⟩ := shows_of_option? found
      exact ⟨_, among, _, _, _, _, .next rfl shown accepted, rfl, read,
        (Option.some.inj same).symm⟩
    · next found =>
      obtain ⟨others, read, same⟩ := Option.bind_eq_some_iff.mp reads
      obtain ⟨among, shown⟩ := shows_of_option? found
      exact ⟨_, among, _, _, _, _, .flag rfl shown, rfl, read, (Option.some.inj same).symm⟩
    · cases reads

theorem spells_of_readOptions (reads : readOptions options arguments = some values) :
    Spells options values arguments := by
  -- An option takes up one argument or two.
  induction size : arguments.length using Nat.strongRecOn generalizing arguments values with
  | _ _ induction =>
      subst size
      cases arguments with
      | nil =>
          cases reads
          exact .nil
      | cons argument rest =>
          obtain ⟨rfl, rfl, rfl⟩ | later := exists_of_readOptions_cons reads
          · exact .separator
          · obtain ⟨option, among, value, written, remaining, others, gives, whole, read, rfl⟩ :=
              later
            rw [whole]
            refine .cons among gives (induction _ ?_ read rfl)
            rw [whole, List.length_append]
            cases gives <;> simp

theorem Spells.readOptions (unambiguous : Unambiguous options)
    (spells : Spells options values arguments) :
    CommandLine.readOptions options arguments = some values := by
  induction spells with
  | nil => rfl
  | separator => rfl
  | cons among gives _ induction =>
      rw [readOptions_append unambiguous among gives, induction, Option.bind_some]

/-- Options are read as they are spelled. -/
theorem readOptions_eq_some_iff (unambiguous : Unambiguous options) :
    CommandLine.readOptions options arguments = some values ↔ Spells options values arguments :=
  ⟨spells_of_readOptions, Spells.readOptions unambiguous⟩

end

theorem unambiguous_generateOptions : Unambiguous generateOptions where
  named := by decide
  plain := by decide
  lettered := by decide
  names := by decide
  letters := by decide

section

variable {values : OptionValues} {option : OptionName} {text : String}
  {arguments : List String} {input output path : Option String} {target : Option Target}

theorem value?_eq_some_iff (distinct : (values.map Prod.fst).Nodup) :
    value? option values = some text ↔ (option.name, some text) ∈ values := by
  rw [value?, Option.join_eq_some_iff, Entries.lookup_eq_some_iff distinct]

theorem path?_eq_some_iff (distinct : (values.map Prod.fst).Nodup) :
    path? option values = some path ↔
      (∀ text, path = some text ↔ (option.name, some text) ∈ values) ∧
        (option.name, some "") ∉ values := by
  simp only [← value?_eq_some_iff distinct]
  unfold path?
  split
  · next empty => exact iff_of_false nofun fun given => given.2 empty
  · next filled =>
    constructor
    · rintro ⟨⟩
      exact ⟨fun text => Iff.rfl, filled⟩
    · rintro ⟨given, -⟩
      exact congrArg some (Option.ext fun text => (given text).symm)

theorem choice?_eq_some_iff {α : Type} {choices : List (String × α)} {choice : Option α}
    (distinct : (values.map Prod.fst).Nodup) (told : (choices.map Prod.fst).Nodup) :
    choice? option choices values = some choice ↔
      (∀ chosen, choice = some chosen ↔
        ∃ text, (option.name, some text) ∈ values ∧ (text, chosen) ∈ choices) ∧
      ∀ text, (option.name, some text) ∈ values → ∃ chosen, (text, chosen) ∈ choices := by
  simp only [← value?_eq_some_iff distinct, ← Entries.lookup_eq_some_iff told]
  unfold choice?
  cases value? option values with
  | none =>
      simp only [reduceCtorEq, false_and, exists_false, iff_false, false_implies, implies_true,
        and_true, Option.some.injEq]
      exact eq_comm.trans Option.eq_none_iff_forall_ne_some
  | some text =>
      simp only [Option.some.injEq, exists_eq_left', forall_eq']
      cases choices.lookup text with
      | none => exact iff_of_false nofun fun ⟨_, _, absent⟩ => nomatch absent
      | some chosen =>
          constructor
          · rintro ⟨⟩
            exact ⟨fun other => Iff.rfl, chosen, rfl⟩
          · rintro ⟨same, -⟩
            exact congrArg some (Option.ext fun other => (same other).symm)

/-- A generation is read from the arguments that ask for it, and from no others. -/
theorem parse?_generate_iff :
    Command.parse? ("generate" :: arguments) = some (.generate input output target) ↔
      AsksFor arguments input output target := by
  have told : (Target.choices.map Prod.fst).Nodup := by decide
  simp only [Command.parse?, readGenerate, distinctOptions, Option.bind_eq_bind,
    Option.bind_eq_some_iff, Option.filter_eq_some_iff, isDistinct, decide_eq_true_eq,
    readOptions_eq_some_iff unambiguous_generateOptions, Option.pure_def, Option.some.injEq,
    Command.generate.injEq]
  constructor
  · rintro ⟨values, ⟨spells, distinct⟩, _, reads, _, writes, _, aims, rfl, rfl, rfl⟩
    obtain ⟨input, inputFilled⟩ := (path?_eq_some_iff distinct).mp reads
    obtain ⟨output, outputFilled⟩ := (path?_eq_some_iff distinct).mp writes
    obtain ⟨target, known⟩ := (choice?_eq_some_iff distinct told).mp aims
    exact ⟨values, spells, distinct, input, output, target, inputFilled, outputFilled, known⟩
  · rintro ⟨values, spells, asks⟩
    exact ⟨values, ⟨spells, asks.distinct⟩,
      input, (path?_eq_some_iff asks.distinct).mpr ⟨asks.input, asks.inputFilled⟩,
      output, (path?_eq_some_iff asks.distinct).mpr ⟨asks.output, asks.outputFilled⟩,
      target, (choice?_eq_some_iff asks.distinct told).mpr ⟨asks.target, asks.known⟩,
      rfl, rfl, rfl⟩

example : AsksFor ["-ia.json", "--output=out", "-t", "all", "--"]
    (some "a.json") (some "out") (some .all) :=
  parse?_generate_iff.mp (by decide +kernel)

end

end Schemata.CommandLine
