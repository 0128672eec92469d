/-!
# Command line arguments

Arguments are positional or belong to an option. An option has a long name and
perhaps a letter, and takes one value, which may stand in the same argument or
in the next. What looks like an option is none only behind a pair of hyphens
that stands alone. No option may be given twice.
-/

namespace Workbench

structure OptionName where
  long : String
  letter : Option Char := none
deriving DecidableEq, Repr

/-- Arguments sorted into positional ones and values of options. -/
structure Arguments where
  positional : List String := []
  values : List (String × String) := []
deriving DecidableEq, Repr

/-- An argument by its looks. -/
inductive ArgumentShape
  | plain
  /-- A pair of hyphens that stands alone. -/
  | divider
  | long (name : String) (value : Option String)
  | short (letter : Char) (value : Option String)
deriving DecidableEq, Repr

namespace ArgumentShape

/-- A text before and after the first equals sign in it, if there is one. -/
def splitValue (cs : List Char) : String × Option String :=
  match cs.dropWhile (· ≠ '=') with
  | [] => (String.ofList cs, none)
  | _ :: value =>
      (String.ofList (cs.takeWhile (· ≠ '=')), some (String.ofList value))

def of (argument : String) : ArgumentShape :=
  match argument.toList with
  | ['-', '-'] => divider
  | '-' :: '-' :: rest =>
      let (name, value) := splitValue rest
      long name value
  | '-' :: letter :: rest =>
      match rest with
      | [] => short letter none
      | '=' :: value => short letter (some (String.ofList value))
      | value => short letter (some (String.ofList value))
  | _ => plain

end ArgumentShape

namespace Arguments

/-- Whether an argument can be the value of the option before it. -/
def canBeValue (argument : String) : Bool := ArgumentShape.of argument = .plain

/-- Notes the value of an option, which must be known and not have one yet. -/
def give? (options : List OptionName) (known : OptionName → Bool)
    (value : String) (arguments : Arguments) : Option Arguments :=
  match options.find? known with
  | none => none
  | some option =>
      if (arguments.values.lookup option.long).isSome then none
      else some { arguments with
        values := arguments.values ++ [(option.long, value)] }

def addPositional (argument : String) (arguments : Arguments) : Arguments :=
  { arguments with positional := arguments.positional ++ [argument] }

/-- Sorts arguments; `none` if they do not fit the options. -/
def sort? (options : List OptionName) (sorted : Arguments) :
    List String → Option Arguments
  | [] => some sorted
  | argument :: rest =>
      match ArgumentShape.of argument with
      | .plain => sort? options (sorted.addPositional argument) rest
      | .divider => some { sorted with positional := sorted.positional ++ rest }
      | .long name (some value) =>
          (give? options (·.long = name) value sorted).bind
            (sort? options · rest)
      | .short letter (some value) =>
          (give? options (·.letter = some letter) value sorted).bind
            (sort? options · rest)
      | .long name none =>
          match rest with
          | value :: rest =>
              if canBeValue value then
                (give? options (·.long = name) value sorted).bind
                  (sort? options · rest)
              else none
          | [] => none
      | .short letter none =>
          match rest with
          | value :: rest =>
              if canBeValue value then
                (give? options (·.letter = some letter) value sorted).bind
                  (sort? options · rest)
              else none
          | [] => none

/-- The number that a value stands for, below the given bound. A plus sign may
stand before it. -/
def number? (bound : Nat) (value : String) : Option Nat :=
  let digits :=
    match value.toList with
    | '+' :: rest => rest
    | cs => cs
  if digits.isEmpty ∨ ¬digits.all Char.isDigit then none
  else
    let n := digits.foldl (fun n c => n * 10 + (c.toNat - '0'.toNat)) 0
    if n < bound then some n else none

/-- The number given for an option, or the usual one if none is given; `none` if
it is no number. -/
def numberOr? (arguments : Arguments) (name : String) (bound usual : Nat) :
    Option Nat :=
  match arguments.values.lookup name with
  | none => some usual
  | some value => number? bound value

end Arguments

end Workbench
