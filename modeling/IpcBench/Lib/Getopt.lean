import Mathlib.Data.List.Basic

/-!
# Scanning a command line

`getopt_long` for an option string that starts with `+`: the scan does not reorder the
words, it stops at the first one that is not an option. Words are lists of characters.
Options with an optional argument are left out.
-/

namespace IpcBench.Lib

/-- Whether an option takes an argument. -/
inductive HasArg where
  | noArgument
  | requiredArgument
  deriving DecidableEq, Repr

/-- `struct option`, without a `flag` pointer. -/
structure LongOption where
  name : List Char
  hasArg : HasArg
  val : Char
  deriving DecidableEq, Repr

/-- Where a scan stands: what is left of the short options in the current word, and the
words behind it. -/
structure Scan where
  nextchar : List Char
  rest : List (List Char)
  deriving DecidableEq, Repr

/-- What a call reports: the code, `none` for -1, and `optarg`; and where it has stopped. -/
structure Report where
  code : Option Char
  optarg : Option (List Char)
  scan : Scan
  deriving DecidableEq, Repr

/-- The search of a short option in the option string, where a colon behind it stands for an
argument. -/
def shortKind (optstring : List Char) (c : Char) : Option HasArg :=
  if c = ':' ∨ c = ';' then none
  else
    match optstring.dropWhile fun other => other ≠ c with
    | [] => none
    | _ :: ':' :: _ => some .requiredArgument
    | _ => some .noArgument

/-- The search of a long option: by its name, or by an abbreviation that could only be meant
for one of them. -/
def findLong (options : List LongOption) (name : List Char) : Option LongOption :=
  match options.find? fun option => option.name = name with
  | some option => some option
  | none =>
      match options.filter fun option => name.isPrefixOf option.name with
      | [] => none
      | first :: others =>
          if others.all fun option => option.hasArg = first.hasArg ∧ option.val = first.val then
            some first
          else none

/-- An option with an argument, which is attached to the option or the next word, whatever
that is. If there is none, a leading colon in the option string asks for a colon. -/
def withArgument (optstring : List Char) (val : Char) (attached : Option (List Char))
    (rest : List (List Char)) : Report :=
  match attached, rest with
  | some argument, rest => ⟨some val, some argument, ⟨[], rest⟩⟩
  | none, argument :: rest => ⟨some val, some argument, ⟨[], rest⟩⟩
  | none, [] => ⟨some (if optstring.head? = some ':' then ':' else '?'), none, ⟨[], []⟩⟩

/-- The short option `c`, with what follows it in its word. -/
def shortOption (optstring : List Char) (c : Char) (others : List Char)
    (rest : List (List Char)) : Report :=
  match shortKind optstring c with
  | none => ⟨some '?', none, ⟨others, rest⟩⟩
  | some .noArgument => ⟨some c, none, ⟨others, rest⟩⟩
  | some .requiredArgument =>
      withArgument optstring c (if others = [] then none else some others) rest

/-- The long option in a word, from behind the two dashes. -/
def longOption (optstring : List Char) (options : List LongOption) (body : List Char)
    (rest : List (List Char)) : Report :=
  let attached := (body.dropWhile fun c => c ≠ '=').tail?
  match findLong options (body.takeWhile fun c => c ≠ '=') with
  | none => ⟨some '?', none, ⟨[], rest⟩⟩
  | some ⟨_, .noArgument, val⟩ =>
      if attached = none then ⟨some val, none, ⟨[], rest⟩⟩ else ⟨some '?', none, ⟨[], rest⟩⟩
  | some ⟨_, .requiredArgument, val⟩ => withArgument optstring val attached rest

/-- One call of `getopt_long`. The options begin behind the plus sign of `optstring`. -/
def getoptLong (optstring : List Char) (options : List LongOption) (scan : Scan) : Report :=
  match scan with
  | ⟨c :: others, rest⟩ => shortOption optstring.tail c others rest
  | ⟨[], []⟩ => ⟨none, none, scan⟩
  | ⟨[], ['-', '-'] :: rest⟩ => ⟨none, none, ⟨[], rest⟩⟩
  | ⟨[], ('-' :: '-' :: body) :: rest⟩ => longOption optstring.tail options body rest
  | ⟨[], ('-' :: c :: others) :: rest⟩ => shortOption optstring.tail c others rest
  | ⟨[], _ :: _⟩ => ⟨none, none, scan⟩

/-- What a loop over the calls goes down by: the words, and then the characters. -/
def Scan.left (scan : Scan) : ℕ × ℕ := (scan.rest.length, scan.nextchar.length)

/-- The order in which it goes down. -/
def Scan.Before (first second : Scan) : Prop :=
  Prod.Lex (· < ·) (· < ·) first.left second.left

theorem Scan.before_of_rest {first second : Scan} (h : first.rest.length < second.rest.length) :
    first.Before second :=
  Prod.Lex.left _ _ h

theorem Scan.before_of_nextchar {first second : Scan}
    (hrest : first.rest.length ≤ second.rest.length)
    (h : first.nextchar.length < second.nextchar.length) : first.Before second := by
  rcases Nat.lt_or_eq_of_le hrest with hless | heq
  · exact before_of_rest hless
  · unfold Before left
    rw [heq]
    exact Prod.Lex.right _ h

theorem withArgument_scan (optstring : List Char) (val : Char) (attached : Option (List Char))
    (rest : List (List Char)) :
    (withArgument optstring val attached rest).scan.nextchar = [] ∧
      (withArgument optstring val attached rest).scan.rest.length ≤ rest.length := by
  cases attached with
  | some argument => exact ⟨rfl, Nat.le_refl _⟩
  | none =>
    cases rest with
    | nil => exact ⟨rfl, Nat.le_refl _⟩
    | cons word rest => exact ⟨rfl, Nat.le_succ _⟩

/-- A short option leaves at most the characters behind it. -/
theorem shortOption_scan (optstring : List Char) (c : Char) (others : List Char)
    (rest : List (List Char)) :
    (shortOption optstring c others rest).scan.nextchar.length ≤ others.length ∧
      (shortOption optstring c others rest).scan.rest.length ≤ rest.length := by
  unfold shortOption
  split
  · exact ⟨Nat.le_refl _, Nat.le_refl _⟩
  · exact ⟨Nat.le_refl _, Nat.le_refl _⟩
  · obtain ⟨hnone, hrest⟩ := withArgument_scan optstring c
      (if others = [] then none else some others) rest
    rw [hnone]
    exact ⟨Nat.zero_le _, hrest⟩

theorem longOption_scan (optstring : List Char) (options : List LongOption) (body : List Char)
    (rest : List (List Char)) :
    (longOption optstring options body rest).scan.rest.length ≤ rest.length := by
  unfold longOption
  dsimp only
  split
  · exact Nat.le_refl _
  · split <;> exact Nat.le_refl _
  · exact (withArgument_scan _ _ _ _).2

/-- Every call that reports an option, also an unknown one, brings the scan forward. -/
theorem getoptLong_before {optstring : List Char} {options : List LongOption} {scan : Scan}
    (h : (getoptLong optstring options scan).code ≠ none) :
    (getoptLong optstring options scan).scan.Before scan := by
  unfold getoptLong at h ⊢
  split at h
  · next c others rest =>
    obtain ⟨hchars, hrest⟩ := shortOption_scan optstring.tail c others rest
    exact Scan.before_of_nextchar hrest (Nat.lt_succ_of_le hchars)
  · exact absurd rfl h
  · exact absurd rfl h
  · exact Scan.before_of_rest (Nat.lt_succ_of_le (longOption_scan _ _ _ _))
  · exact Scan.before_of_rest (Nat.lt_succ_of_le (shortOption_scan _ _ _ _).2)
  · exact absurd rfl h

/-- A word that does not start with a dash ends the scan. -/
theorem getoptLong_operand (optstring : List Char) (options : List LongOption)
    {word : List Char} (hword : word.head? ≠ some '-') (rest : List (List Char)) :
    getoptLong optstring options ⟨[], word :: rest⟩ = ⟨none, none, ⟨[], word :: rest⟩⟩ := by
  cases word with
  | nil => rfl
  | cons c others =>
    have hdash : c ≠ '-' := fun hdash => hword (congrArg some hdash)
    simp [getoptLong, hdash]

/-- A short option that is not in the option string is reported as unknown. -/
theorem getoptLong_unknown {optstring : List Char} (options : List LongOption) {c : Char}
    (hunknown : shortKind optstring.tail c = none) (others : List Char)
    (rest : List (List Char)) :
    getoptLong optstring options ⟨c :: others, rest⟩ = ⟨some '?', none, ⟨others, rest⟩⟩ := by
  rw [getoptLong, shortOption, hunknown]

/-- A word with one dash starts a row of short options. -/
theorem getoptLong_dash (optstring : List Char) (options : List LongOption) {c : Char}
    (hc : c ≠ '-') (others : List Char) (rest : List (List Char)) :
    getoptLong optstring options ⟨[], ('-' :: c :: others) :: rest⟩ =
      getoptLong optstring options ⟨c :: others, rest⟩ := by
  simp [getoptLong, hc]

end IpcBench.Lib
