import IpcBench.Lib.Decimal
import IpcBench.Lib.Getopt
import IpcBench.Common.Arguments

/-!
# The command line

`check_flag` and `parse_arguments` each scan the whole command line, with a table that knows
only the options of their own. The options of the other one are unknown to them, and the
value of an unknown option looks like the end of the options.
-/

namespace IpcBench

open Lib

/-- The scan after `optind` has been set to zero: it starts behind the name of the program. -/
def startScan (argv : List (List Char)) : Scan := ⟨[], argv.tail⟩

/-- The loop of `check_flag`. -/
def checkFlagLoop (flag : Char) (optstring : List Char) (options : List LongOption)
    (scan : Scan) : Bool :=
  let report := getoptLong optstring options scan
  if report.code = some flag then true
  else if h : report.code = none then false
  else
    have := getoptLong_before h
    checkFlagLoop flag optstring options report.scan
termination_by scan.left
decreasing_by assumption

/-- `check_flag`. The flag is a string, so its first character may be the null character. -/
def checkFlag (flag : List Char) (argv : List (List Char)) : Bool :=
  let first := flag.headD (Char.ofNat 0)
  checkFlagLoop first ['+', ':', first] [⟨flag, .noArgument, first⟩] (startScan argv)

/-- The option string of `parse_arguments`. -/
def argumentString : List Char := ['+', ':', 's', ':', 'c', ':']

/-- The long options of `parse_arguments`. -/
def argumentOptions : List LongOption :=
  [⟨['s', 'i', 'z', 'e'], .requiredArgument, 's'⟩,
    ⟨['c', 'o', 'u', 'n', 't'], .requiredArgument, 'c'⟩]

/-- The `switch` of `parse_arguments`, apart from -1. Behind `s` and `c` there is always an
argument. -/
def storeOption (arguments : Arguments) (report : Report) : Arguments :=
  match report.code with
  | some 's' => { arguments with size := atoi (report.optarg.getD []) }
  | some 'c' => { arguments with count := atoi (report.optarg.getD []) }
  | _ => arguments

/-- The loop of `parse_arguments`. -/
def parseLoop (arguments : Arguments) (scan : Scan) : Arguments :=
  let report := getoptLong argumentString argumentOptions scan
  if h : report.code = none then arguments
  else
    have := getoptLong_before h
    parseLoop (storeOption arguments report) report.scan
termination_by scan.left
decreasing_by assumption

/-- `parse_arguments`, with `DEFAULT_MESSAGE_SIZE` and the default count. -/
def parseArguments (argv : List (List Char)) : Arguments :=
  parseLoop ⟨4096, 1000⟩ (startScan argv)

/-- The options with a value. -/
inductive Setting where
  | size
  | count
  deriving DecidableEq, Repr

/-- One option on a command line, in its short or its long form. -/
inductive Item where
  | flag (long : Bool)
  | set (setting : Setting) (long : Bool) (value : Decimal)
  deriving DecidableEq, Repr

/-- The flag of the socket programs. -/
def busy : List Char := ['b', 'u', 's', 'y']

/-- The word of the flag. -/
def flagWord : Bool → List Char
  | false => ['-', 'b']
  | true => ['-', '-', 'b', 'u', 's', 'y']

/-- The word of an option with a value. -/
def Setting.word : Setting → Bool → List Char
  | .size, false => ['-', 's']
  | .size, true => ['-', '-', 's', 'i', 'z', 'e']
  | .count, false => ['-', 'c']
  | .count, true => ['-', '-', 'c', 'o', 'u', 'n', 't']

/-- The words of an option: a value is a word of its own. -/
def Item.words : Item → List (List Char)
  | .flag long => [flagWord long]
  | .set setting long value => [setting.word long, value.text]

/-- A command line: the name of the program, and options in any order. -/
def commandLine (name : List Char) (items : List Item) : List (List Char) :=
  name :: items.flatMap Item.words

/-- Whether an option is the flag. -/
def Item.isFlag : Item → Bool
  | .flag _ => true
  | .set _ _ _ => false

/-- The value of an option. -/
def Item.value : Item → Option Decimal
  | .flag _ => none
  | .set _ _ value => some value

/-- The value of an option that is for this setting. -/
def Item.valueFor (setting : Setting) : Item → Option Decimal
  | .flag _ => none
  | .set other _ value => if other = setting then some value else none

/-- The value that is meant for a setting: the last one. -/
def lastValue (setting : Setting) (items : List Item) : Option Decimal :=
  (items.filterMap (Item.valueFor setting)).getLast?

/-- What the two functions are for, wherever the flag stands: `check_flag` finds it, and
`parse_arguments` stores the last values. -/
structure ParsedInAnyOrder (name : List Char) (items : List Item) : Prop where
  flag : checkFlag busy (commandLine name items) = true ↔ ∃ item ∈ items, item.isFlag = true
  size : (parseArguments (commandLine name items)).size.toInt =
    ((lastValue .size items).map Decimal.value).getD 4096
  count : (parseArguments (commandLine name items)).count.toInt =
    ((lastValue .count items).map Decimal.value).getD 1000

/-- `check_flag` goes on after an option that is not the flag. -/
theorem checkFlagLoop_next {flag : Char} {optstring : List Char} {options : List LongOption}
    {scan next : Scan} {c : Char} {optarg : Option (List Char)} (hc : c ≠ flag)
    (h : getoptLong optstring options scan = ⟨some c, optarg, next⟩) :
    checkFlagLoop flag optstring options scan = checkFlagLoop flag optstring options next := by
  rw [checkFlagLoop]
  simp [h, hc]

theorem checkFlagLoop_found {flag : Char} {optstring : List Char} {options : List LongOption}
    {scan next : Scan} {optarg : Option (List Char)}
    (h : getoptLong optstring options scan = ⟨some flag, optarg, next⟩) :
    checkFlagLoop flag optstring options scan = true := by
  rw [checkFlagLoop]
  simp [h]

theorem checkFlagLoop_done {flag : Char} {optstring : List Char} {options : List LongOption}
    {scan next : Scan} {optarg : Option (List Char)}
    (h : getoptLong optstring options scan = ⟨none, optarg, next⟩) :
    checkFlagLoop flag optstring options scan = false := by
  rw [checkFlagLoop]
  simp [h]

theorem parseLoop_next {arguments : Arguments} {scan next : Scan} {c : Char}
    {optarg : Option (List Char)}
    (h : getoptLong argumentString argumentOptions scan = ⟨some c, optarg, next⟩) :
    parseLoop arguments scan = parseLoop (storeOption arguments ⟨some c, optarg, next⟩) next := by
  rw [parseLoop]
  simp [h]

theorem parseLoop_done {arguments : Arguments} {scan next : Scan} {optarg : Option (List Char)}
    (h : getoptLong argumentString argumentOptions scan = ⟨none, optarg, next⟩) :
    parseLoop arguments scan = arguments := by
  rw [parseLoop]
  simp [h]

/-- The table of `check_flag("busy", ..)`. -/
def busyOptions : List LongOption := [⟨busy, .noArgument, 'b'⟩]

/-- Scanning for the flag. -/
def busyLoop (scan : Scan) : Bool := checkFlagLoop 'b' ['+', ':', 'b'] busyOptions scan

theorem checkFlag_busy (name : List Char) (items : List Item) :
    checkFlag busy (commandLine name items) = busyLoop ⟨[], items.flatMap Item.words⟩ := rfl

theorem busyLoop_flag (long : Bool) (rest : List (List Char)) :
    busyLoop ⟨[], flagWord long :: rest⟩ = true := by
  have hfound : getoptLong ['+', ':', 'b'] busyOptions ⟨[], flagWord long :: rest⟩ =
      ⟨some 'b', none, ⟨[], rest⟩⟩ := by
    cases long <;> rfl
  exact checkFlagLoop_found hfound

/-- An option with a value is unknown to `check_flag`, which goes on with its value. -/
theorem busyLoop_setting (setting : Setting) (long : Bool) (rest : List (List Char)) :
    busyLoop ⟨[], setting.word long :: rest⟩ = busyLoop ⟨[], rest⟩ := by
  have hunknown : getoptLong ['+', ':', 'b'] busyOptions ⟨[], setting.word long :: rest⟩ =
      ⟨some '?', none, ⟨[], rest⟩⟩ := by
    cases setting <;> cases long <;> rfl
  exact checkFlagLoop_next (by decide) hunknown

theorem shortKind_digitChar :
    ∀ digit : Fin 10, shortKind ['+', ':', 'b'].tail (digitChar digit) = none := by
  decide

/-- Digits in a row of short options are unknown options. -/
theorem busyLoop_digits (digits : List (Fin 10)) (rest : List (List Char)) :
    busyLoop ⟨digits.map digitChar, rest⟩ = busyLoop ⟨[], rest⟩ := by
  induction digits with
  | nil => rfl
  | cons digit digits ih =>
    rw [← ih]
    exact checkFlagLoop_next (by decide) (getoptLong_unknown _ (shortKind_digitChar digit) _ _)

/-- A value ends the scan for the flag, unless it begins with a minus sign and is taken for
a row of short options. -/
theorem busyLoop_value (value : Decimal) (rest : List (List Char)) :
    busyLoop ⟨[], value.text :: rest⟩ =
      (decide (value.sign = .minus) && busyLoop ⟨[], rest⟩) := by
  obtain ⟨sign, digits, hdigits⟩ := value
  obtain ⟨digit, digits, rfl⟩ := List.exists_cons_of_ne_nil hdigits
  have hdash : digitChar digit ≠ '-' := (digitChar_plain digit).2.1
  cases sign with
  | minus =>
    -- the first digit is read together with the minus sign
    have hfirst : getoptLong ['+', ':', 'b'] busyOptions
        ⟨[], ('-' :: digitChar digit :: digits.map digitChar) :: rest⟩ =
          ⟨some '?', none, ⟨digits.map digitChar, rest⟩⟩ := by
      rw [getoptLong_dash _ _ hdash, getoptLong_unknown _ (shortKind_digitChar digit)]
    have hnext : busyLoop ⟨[], ('-' :: digitChar digit :: digits.map digitChar) :: rest⟩ =
        busyLoop ⟨digits.map digitChar, rest⟩ := checkFlagLoop_next (by decide) hfirst
    simpa [Decimal.text, Sign.text, busyLoop_digits] using hnext
  | plus => exact checkFlagLoop_done (getoptLong_operand _ _ (by simp [Decimal.text, Sign.text]) _)
  | none =>
    exact checkFlagLoop_done (getoptLong_operand _ _ (by simp [Decimal.text, Sign.text, hdash]) _)

/-- `check_flag` finds the flag if all values before it begin with a minus sign. -/
theorem busyLoop_items (items : List Item) :
    busyLoop ⟨[], items.flatMap Item.words⟩ = true ↔
      (∃ item ∈ items, item.isFlag = true) ∧
        ∀ item ∈ items.takeWhile fun item => !item.isFlag,
          ∀ value ∈ item.value, value.sign = .minus := by
  induction items with
  | nil => simp [busyLoop, checkFlagLoop, getoptLong]
  | cons item items ih =>
    cases item with
    | flag long => simp [Item.words, Item.isFlag, busyLoop_flag]
    | set setting long value =>
      rw [List.flatMap_cons, Item.words, List.cons_append, List.cons_append, List.nil_append,
        busyLoop_setting, busyLoop_value, Bool.and_eq_true, decide_eq_true_iff, ih]
      simp [Item.isFlag, Item.value, and_left_comm]

/-- What `parse_arguments` does with an option. -/
def Item.store (arguments : Arguments) : Item → Arguments
  | .flag _ => arguments
  | .set .size _ value => { arguments with size := atoi value.text }
  | .set .count _ value => { arguments with count := atoi value.text }

/-- The flag is unknown to `parse_arguments`, but it has no value. -/
theorem parseLoop_flag (arguments : Arguments) (long : Bool) (rest : List (List Char)) :
    parseLoop arguments ⟨[], flagWord long :: rest⟩ = parseLoop arguments ⟨[], rest⟩ := by
  have hunknown : getoptLong argumentString argumentOptions ⟨[], flagWord long :: rest⟩ =
      ⟨some '?', none, ⟨[], rest⟩⟩ := by
    cases long <;> rfl
  exact parseLoop_next hunknown

theorem parseLoop_set (arguments : Arguments) (setting : Setting) (long : Bool)
    (value : Decimal) (rest : List (List Char)) :
    parseLoop arguments ⟨[], setting.word long :: value.text :: rest⟩ =
      parseLoop (Item.store arguments (.set setting long value)) ⟨[], rest⟩ := by
  cases setting with
  | size =>
    have hsize : getoptLong argumentString argumentOptions
        ⟨[], Setting.size.word long :: value.text :: rest⟩ =
          ⟨some 's', some value.text, ⟨[], rest⟩⟩ := by
      cases long <;> rfl
    exact parseLoop_next hsize
  | count =>
    have hcount : getoptLong argumentString argumentOptions
        ⟨[], Setting.count.word long :: value.text :: rest⟩ =
          ⟨some 'c', some value.text, ⟨[], rest⟩⟩ := by
      cases long <;> rfl
    exact parseLoop_next hcount

/-- `parse_arguments` sees every option, in whatever order they are. -/
theorem parseLoop_items (items : List Item) (arguments : Arguments) :
    parseLoop arguments ⟨[], items.flatMap Item.words⟩ = items.foldl Item.store arguments := by
  induction items generalizing arguments with
  | nil => exact parseLoop_done rfl
  | cons item items ih =>
    rw [List.foldl_cons, ← ih]
    cases item with
    | flag long => exact parseLoop_flag arguments long _
    | set setting long value => exact parseLoop_set arguments setting long value _

/-- The field that a setting is stored in. -/
def Setting.read (arguments : Arguments) : Setting → Int32
  | .size => arguments.size
  | .count => arguments.count

theorem read_store (setting : Setting) (arguments : Arguments) (item : Item) :
    setting.read (item.store arguments) =
      ((item.valueFor setting).map fun value => atoi value.text).getD
        (setting.read arguments) := by
  match item with
  | .flag long => rfl
  | .set .size long value => cases setting <;> rfl
  | .set .count long value => cases setting <;> rfl

theorem lastValue_cons (setting : Setting) (item : Item) (items : List Item) :
    lastValue setting (item :: items) =
      (lastValue setting items).or (item.valueFor setting) := by
  cases hvalue : item.valueFor setting with
  | none => simp [lastValue, hvalue]
  | some value =>
    rw [lastValue, List.filterMap_cons_some hvalue, List.getLast?_cons, ← lastValue]
    cases lastValue setting items <;> rfl

/-- The last value is the one that stays. -/
theorem read_foldl_store (setting : Setting) (items : List Item) (arguments : Arguments) :
    setting.read (items.foldl Item.store arguments) =
      ((lastValue setting items).map fun value => atoi value.text).getD
        (setting.read arguments) := by
  induction items generalizing arguments with
  | nil => rfl
  | cons item items ih =>
    rw [List.foldl_cons, ih, read_store, lastValue_cons]
    cases lastValue setting items <;> rfl

/-- A setting is right if and only if its last value fits into an `int`. -/
theorem read_parseArguments_iff (setting : Setting) (name : List Char) (items : List Item) :
    (setting.read (parseArguments (commandLine name items))).toInt =
        ((lastValue setting items).map Decimal.value).getD (setting.read ⟨4096, 1000⟩).toInt ↔
      ∀ value ∈ lastValue setting items, Fits value.value := by
  have hparse : parseArguments (commandLine name items) = items.foldl Item.store ⟨4096, 1000⟩ :=
    parseLoop_items items _
  rw [hparse, read_foldl_store]
  cases lastValue setting items with
  | none => simp
  | some value => simpa using toInt_atoi_eq_iff value

/-- The command line, for every sequence of options with any decimal numbers as values: both
functions see what is meant if and only if every value before the first flag begins with a
minus sign, in case there is a flag, and the values that are stored fit into an `int`. -/
theorem parsedInAnyOrder_iff (name : List Char) (items : List Item) :
    ParsedInAnyOrder name items ↔
      ((∃ item ∈ items, item.isFlag = true) →
          ∀ item ∈ items.takeWhile fun item => !item.isFlag,
            ∀ value ∈ item.value, value.sign = .minus) ∧
        ∀ setting, ∀ value ∈ lastValue setting items, Fits value.value := by
  have hflag := busyLoop_items items
  rw [← checkFlag_busy name] at hflag
  have hread := fun setting => read_parseArguments_iff setting name items
  constructor
  · intro h
    refine ⟨fun hexists => (hflag.mp (h.flag.mpr hexists)).2, fun setting => ?_⟩
    cases setting with
    | size => exact (hread .size).mp h.size
    | count => exact (hread .count).mp h.count
  · rintro ⟨hbefore, hfits⟩
    exact ⟨⟨fun hfound => (hflag.mp hfound).1, fun hexists =>
        hflag.mpr ⟨hexists, hbefore hexists⟩⟩,
      (hread .size).mpr (hfits .size), (hread .count).mpr (hfits .count)⟩

/-- `-s 100 -b`: the scan of `check_flag` ends at the value of the size. -/
theorem flag_behind_size_not_found :
    checkFlag busy [[], ['-', 's'], ['1', '0', '0'], ['-', 'b']] = false ∧
      ¬ ParsedInAnyOrder [] [.set .size false ⟨.none, [1, 0, 0], by decide⟩, .flag false] := by
  have hnot : checkFlag busy
      (commandLine [] [.set .size false ⟨.none, [1, 0, 0], by decide⟩, .flag false]) = false := by
    rw [checkFlag_busy, Bool.eq_false_iff, Ne, busyLoop_items]
    decide
  refine ⟨hnot, fun h => ?_⟩
  rw [h.flag.mpr (by decide)] at hnot
  cases hnot

end IpcBench
