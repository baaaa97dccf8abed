import Lox.CommandLine
import Lox.Text.Split
import Mathlib.Data.List.Basic

/-!
# Written command lines

Any choice of values for the options and of a script can be written as a command line that is read
as it is meant: each value is attached to the name of its option, and a double dash stands in front
of the script.  Nothing in a value matters then, neither a dash nor an equals sign nor a space, and
the options may stand in any order.  The one value that cannot be written so is the double dash,
which would withdraw the value of the option.

An option may be given more than once.  The last value counts, so one in front of it changes
nothing.

Main results:

- Theorem `itemOfArgument_attach`: a name with a value attached is classified as the option with
  this value.
- Theorem `latest?_of_perm`: options that are given once each may stand in any order.
- Theorem `latest?_insert`: a value in front of another for the same option does not count.
- Theorem `read_write`: written command lines are read as they are meant.
-/

namespace Lox.CommandLine

/-! ## Writing -/

/-- A text that can be attached to an option as its value. -/
abbrev Attachable := { value : String // value ≠ "--" }

/-- The value that an option has by a text attached to it. -/
def Attachable.given (text : Attachable) : OptionValue :=
  .text text.1

/-- The name of an option with a value attached. -/
def Setting.attach (setting : Setting) (value : String) : String :=
  setting.flag ++ "=" ++ value

/-- The arguments that name a script, if there is one, whatever it is called. -/
def scriptArguments : Option String → List String
  | none => []
  | some name => ["--", name]

/-- A command line that gives options their values in turn and names a script. -/
def write (choices : List (Setting × Attachable)) (script : Option String) : List String :=
  choices.map (fun choice => choice.1.attach choice.2) ++ scriptArguments script

/-- The values of the options, if they are to have any. -/
def valuesOf (format config prompt : Option Attachable) : Setting → Option Attachable
  | .format => format
  | .config => config
  | .prompt => prompt

/-- The values that are present, each with its option. -/
def chosen (values : Setting → Option Attachable) : List (Setting × Attachable) :=
  [.format, .config, .prompt].filterMap fun setting => (values setting).map (Prod.mk setting)

/-- The last value that an option is given. -/
def latest? (choices : List (Setting × Attachable)) (setting : Setting) : Option Attachable :=
  (choices.filter (·.1 = setting)).getLast?.map Prod.snd

/-- What a command line sets that gives options some values and names a script. -/
def Arguments.ofValues (values : Setting → Option Attachable) (script : Option String) :
    Arguments :=
  ⟨script, (values .format).map Attachable.given, (values .config).map Attachable.given,
    (values .prompt).map Attachable.given⟩

/-! ## Classifying -/

/-- No name of an option holds an equals sign. -/
theorem Flag.equal_not_mem_name (flag : Flag) : '=' ∉ flag.name.toList := by
  rcases flag with (_ | _) | (_ | _ | _) <;> decide

/-- An option is found by its name. -/
theorem Flag.ofName?_flag (setting : Setting) :
    ofName? setting.flag.toList = some (.setting setting) := by
  cases setting <;> rfl

/-- A text with an equals sign in it names no option. -/
theorem Flag.ofName?_eq_none {text : List Char} (h : '=' ∈ text) : ofName? text = none := by
  rw [ofName?, List.find?_eq_none]
  intro flag _ hname
  rw [beq_iff_eq] at hname
  exact flag.equal_not_mem_name (hname ▸ h)

/-- The characters of a name with a value attached. -/
theorem Setting.toList_attach (setting : Setting) (value : String) :
    (setting.attach value).toList = setting.flag.toList ++ '=' :: value.toList := by
  simp [attach]

/-- A name with a value attached is no double dash. -/
theorem Setting.attach_ne (setting : Setting) (value : String) : setting.attach value ≠ "--" := by
  intro h
  have held : '=' ∈ ("--").toList := by
    rw [← h, toList_attach]
    exact List.mem_append_right _ List.mem_cons_self
  revert held
  decide

/-- A name with a value attached is classified as the option with this value. -/
theorem itemOfArgument_attach (setting : Setting) (value : String) :
    itemOfArgument (setting.attach value) = .ok (.option (.setting setting) (some value)) := by
  have name : ∀ c ∈ setting.flag.toList, (c != '=') = true := by
    intro c hc
    simpa using ne_of_mem_of_not_mem hc (Flag.equal_not_mem_name (.setting setting))
  have stop : ∀ c ∈ ('=' :: value.toList).head?, (c != '=') = false := by simp
  obtain ⟨taken, left⟩ := span_eq name stop
  have dash : (setting.flag.toList ++ '=' :: value.toList).head? = some '-' := by
    cases setting <;> rfl
  have unnamed : Flag.ofName? (setting.flag.toList ++ '=' :: value.toList) = none :=
    Flag.ofName?_eq_none (List.mem_append_right _ List.mem_cons_self)
  have longer : setting.flag.toList ++ '=' :: value.toList ≠ ['-'] := by
    cases setting <;> simp [Setting.flag]
  simp [itemOfArgument, setting.toList_attach, dash, unnamed, longer, taken, left,
    Flag.ofName?_flag]

/-- The items of a written command line. -/
theorem itemsOfArguments_write (choices : List (Setting × Attachable)) (script : Option String) :
    itemsOfArguments (write choices script) =
      .ok (choices.map (fun choice => .option (.setting choice.1) (some choice.2.1)) ++
        script.elim [] fun name => [.separator, .value name]) := by
  induction choices with
  | nil =>
      cases script with
      | none => rfl
      | some name => exact itemsOfArguments_separator [name]
  | cons choice rest ih =>
      simp only [write, List.map_cons, List.cons_append] at ih ⊢
      rw [itemsOfArguments, if_neg (choice.1.attach_ne _), itemOfArgument_attach, ih]
      rfl

/-! ## Carrying out -/

namespace Arguments

/-- The value of an option. -/
def value? (arguments : Arguments) : Setting → Option OptionValue
  | .format => arguments.format
  | .config => arguments.config
  | .prompt => arguments.prompt

/-- Sets the values of options in turn. -/
def setAll (arguments : Arguments) (choices : List (Setting × Attachable)) : Arguments :=
  choices.foldl (fun arguments choice => arguments.set choice.1 choice.2.given) arguments

/-- What a command line sets is known by the script and the values of the options. -/
theorem eq_of_value? {a b : Arguments} (script : a.script = b.script)
    (values : ∀ setting, a.value? setting = b.value? setting) : a = b := by
  obtain ⟨scriptA, formatA, configA, promptA⟩ := a
  obtain ⟨scriptB, formatB, configB, promptB⟩ := b
  obtain rfl : scriptA = scriptB := script
  obtain rfl : formatA = formatB := values .format
  obtain rfl : configA = configB := values .config
  obtain rfl : promptA = promptB := values .prompt
  rfl

/-- Setting the value of an option leaves the script. -/
theorem script_set (arguments : Arguments) (setting : Setting) (value : OptionValue) :
    (arguments.set setting value).script = arguments.script := by
  cases setting <;> rfl

/-- Setting the value of an option leaves those of the others. -/
theorem value?_set (arguments : Arguments) (setting : Setting) (value : OptionValue)
    (other : Setting) :
    (arguments.set setting value).value? other =
      if setting = other then some value else arguments.value? other := by
  cases setting <;> cases other <;> rfl

end Arguments

/-- Of some choices for an option the first counts only if no other follows. -/
theorem latest?_cons (choice : Setting × Attachable) (rest : List (Setting × Attachable))
    (setting : Setting) :
    latest? (choice :: rest) setting =
      (latest? rest setting).or (if choice.1 = setting then some choice.2 else none) := by
  unfold latest?
  by_cases h : choice.1 = setting
  · rw [List.filter_cons_of_pos (by simpa using h), List.getLast?_cons, if_pos h]
    cases (rest.filter (·.1 = setting)).getLast? <;> rfl
  · rw [List.filter_cons_of_neg (by simpa using h), if_neg h, Option.or_none]

namespace Arguments

variable (arguments : Arguments) (choices : List (Setting × Attachable))

/-- Setting the values of options leaves the script. -/
theorem script_setAll : (arguments.setAll choices).script = arguments.script := by
  induction choices generalizing arguments with
  | nil => rfl
  | cons choice rest ih =>
      exact (ih (arguments.set choice.1 choice.2.given)).trans (arguments.script_set _ _)

/-- Of the values that an option is given the last counts. -/
theorem value?_setAll (setting : Setting) :
    (arguments.setAll choices).value? setting =
      ((latest? choices setting).map Attachable.given).or (arguments.value? setting) := by
  induction choices generalizing arguments with
  | nil => rfl
  | cons choice rest ih =>
      have later := ih (arguments.set choice.1 choice.2.given)
      rw [value?_set] at later
      rw [latest?_cons]
      refine later.trans ?_
      cases latest? rest setting with
      | some value => rfl
      | none =>
          by_cases h : choice.1 = setting
          · simp [h]
          · simp [h]

end Arguments

/-- Options with values attached are carried out in turn. -/
theorem carryOut_choices (progress : Progress) (choices : List (Setting × Attachable))
    (rest : List Item) :
    carryOut progress
        (choices.map (fun choice => .option (.setting choice.1) (some choice.2.1)) ++ rest) =
      carryOut { progress with arguments := progress.arguments.setAll choices } rest := by
  induction choices generalizing progress with
  | nil => rfl
  | cons choice others ih =>
      rw [List.map_cons, List.cons_append, carryOut_option_attached _ _ _ choice.2.2, ih]
      rfl

/-! ## Reading -/

/-- A written command line sets for each option the last value that it is given, and the script. -/
theorem read_write_eq (choices : List (Setting × Attachable)) (script : Option String) :
    read (write choices script) = .ok (.ofValues (latest? choices) script) := by
  have given : Arguments.none.setAll choices = .ofValues (latest? choices) none := by
    refine Arguments.eq_of_value? (Arguments.none.script_setAll choices) fun setting => ?_
    have unset : Arguments.none.value? setting = none := by cases setting <;> rfl
    rw [Arguments.value?_setAll, unset, Option.or_none]
    cases setting <;> rfl
  have carried := carryOut_choices .start choices
  rw [show Progress.start.arguments = .none from rfl, given] at carried
  rw [read, itemsOfArguments_write]
  dsimp only
  rw [carried]
  cases script with
  | none => rfl
  | some name => rfl

/-- Of the values that are present those for one option are the one that it has, if any. -/
theorem filter_chosen (values : Setting → Option Attachable) (setting : Setting) :
    (chosen values).filter (·.1 = setting) =
      ((values setting).map (Prod.mk setting)).toList := by
  have kept (other : Setting) : ((values other).map (Prod.mk other)).toList.filter (·.1 = setting) =
      if other = setting then ((values setting).map (Prod.mk setting)).toList else [] := by
    by_cases h : other = setting
    · subst h
      cases values other <;> simp
    · cases values other <;> simp [h]
  rw [chosen, List.filterMap_eq_flatMap_toList, List.filter_flatMap]
  simp only [kept]
  cases setting <;> simp

/-- Options that are given once each may stand in any order. -/
theorem latest?_of_perm {choices : List (Setting × Attachable)}
    {values : Setting → Option Attachable} (order : choices.Perm (chosen values)) :
    latest? choices = values := by
  funext setting
  have found := order.filter (·.1 = setting)
  rw [filter_chosen] at found
  unfold latest?
  cases hvalue : values setting with
  | none =>
      rw [hvalue] at found
      rw [found.eq_nil]
      rfl
  | some value =>
      rw [hvalue] at found
      rw [List.perm_singleton.1 found]
      rfl

/-- Of choices in two parts those at the back count first. -/
theorem latest?_append (front back : List (Setting × Attachable)) (setting : Setting) :
    latest? (front ++ back) setting = (latest? back setting).or (latest? front setting) := by
  rw [latest?, List.filter_append, List.getLast?_append, Option.map_or]
  rfl

/-- An option that is given some value has a last one. -/
theorem isSome_latest?_of_mem {choices : List (Setting × Attachable)}
    {choice : Setting × Attachable} (h : choice ∈ choices) :
    (latest? choices choice.1).isSome = true := by
  rw [latest?, Option.isSome_map, List.getLast?_isSome]
  exact List.ne_nil_of_mem (List.mem_filter.2 ⟨h, decide_eq_true rfl⟩)

/-- A value in front of another for the same option does not count. -/
theorem latest?_insert {front back : List (Setting × Attachable)} {earlier : Setting × Attachable}
    (repeated : ∃ later ∈ back, later.1 = earlier.1) :
    latest? (front ++ earlier :: back) = latest? (front ++ back) := by
  funext setting
  rw [latest?_append, latest?_append, latest?_cons]
  by_cases h : earlier.1 = setting
  · obtain ⟨later, hmem, hsame⟩ := repeated
    have last := isSome_latest?_of_mem hmem
    rw [hsame, h] at last
    obtain ⟨value, hvalue⟩ := Option.isSome_iff_exists.1 last
    rw [hvalue, Option.some_or]
  · rw [if_neg h, Option.or_none]

/-- Written command lines are read as they are meant, and none is refused: the script is set, and
for each option the last value that it is given.  Where each option is given its value once, if it
is to have one, just these values are set, in whatever order the options stand.  Where a further
value is put in front of another one for the same option, as much is set as without it. -/
theorem read_write (choices : List (Setting × Attachable)) (script : Option String) :
    read (write choices script) = .ok (.ofValues (latest? choices) script) ∧
      (∀ values : Setting → Option Attachable, choices.Perm (chosen values) →
        read (write choices script) = .ok (.ofValues values script)) ∧
      ∀ front back earlier, choices = front ++ back → (∃ later ∈ back, later.1 = earlier.1) →
        read (write (front ++ earlier :: back) script) = read (write choices script) := by
  refine ⟨read_write_eq choices script, ?_, ?_⟩
  · intro values order
    rw [read_write_eq, latest?_of_perm order]
  · rintro front back earlier rfl repeated
    rw [read_write_eq, read_write_eq, latest?_insert repeated]

/-- Values that look like options and like numbers, one of them repeated, with a script that is a
double dash; and an empty value without a script. -/
theorem read_write_dashes :
    read ["--prompt=-h", "--prompt==-1", "--format=--config=a b", "--", "--"] =
        .ok ⟨some "--", some (.text "--config=a b"), none, some (.text "=-1")⟩ ∧
      read ["--config="] = .ok ⟨none, none, some (.text ""), none⟩ := by
  let format : Attachable := ⟨"--config=a b", by decide⟩
  let config : Attachable := ⟨"", by decide⟩
  let prompt : Attachable := ⟨"=-1", by decide⟩
  let earlier : Attachable := ⟨"-h", by decide⟩
  constructor
  · obtain ⟨-, ordered, repeated⟩ := read_write [(.prompt, prompt), (.format, format)] (some "--")
    refine (repeated [] _ (.prompt, earlier) rfl ⟨_, List.mem_cons_self, rfl⟩).trans ?_
    exact ordered (valuesOf (some format) none (some prompt)) (List.Perm.swap _ _ [])
  · obtain ⟨-, ordered, -⟩ := read_write [(.config, config)] none
    exact ordered (valuesOf none (some config) none) (List.Perm.refl _)

end Lox.CommandLine
