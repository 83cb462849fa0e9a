import ElmReach.Text.Split

/-!
# Command line arguments

Arguments are options, with or without a value, and operands. A long option takes its value behind
an equals sign or from the next argument; short options can be written together, and a value can
stand directly behind a short option. Behind `--` all arguments are operands.
-/

namespace ElmReach.CommandLine

/-- An option that a command knows. -/
structure OptionSpec where
  /-- The long name, with its two dashes. -/
  long : String
  /-- The letter of the short name. -/
  short : Option Char
  takesValue : Bool
  deriving DecidableEq, Repr

/-- An argument that has been read. -/
inductive Argument where
  /-- An option by its long name, with an empty value if it takes none. -/
  | option (name value : String)
  | operand (text : String)
  deriving DecidableEq, Repr

/-- Read the letters of short options written together. `next` are the arguments that follow; the
answer says how many of them (none or one) were used as a value. -/
def shortOptions? (specs : List OptionSpec) (next : List String) :
    List Char → Option (List Argument × Nat)
  | [] => some ([], 0)
  | letter :: rest =>
    match specs.find? (·.short = some letter) with
    | none => none
    | some spec =>
      if spec.takesValue then
        match rest, next with
        | [], [] => none
        | [], value :: _ => some ([.option spec.long value], 1)
        | value, _ => some ([.option spec.long (String.ofList value)], 0)
      else
        (shortOptions? specs next rest).map fun (arguments, used) =>
          (.option spec.long "" :: arguments, used)

/-- Read a long option, with the value behind its equals sign if there is one. -/
def longOption? (spec : OptionSpec) (given : Option String) (next : List String) :
    Option (List Argument × Nat) :=
  match spec.takesValue, given, next with
  | true, some value, _ => some ([.option spec.long value], 0)
  | true, none, value :: _ => some ([.option spec.long value], 1)
  | true, none, [] => none
  | false, none, _ => some ([.option spec.long ""], 0)
  | false, some _, _ => none

/-- Read one argument that starts with a dash. -/
def options? (specs : List OptionSpec) (text : List Char) (next : List String) :
    Option (List Argument × Nat) :=
  let name := text.takeWhile (· != '=')
  let given :=
    if name.length = text.length then none
    else some (String.ofList (text.drop (name.length + 1)))
  match specs.find? (·.long = String.ofList name) with
  | some spec => longOption? spec given next
  | none => if ['-', '-'].isPrefixOf text then none else shortOptions? specs next (text.drop 1)

/-- Whether an argument is read as options. -/
def isOption (text : List Char) : Bool :=
  text.head? = some '-' && 1 < text.length

/-- Read arguments. If operands end the options, everything from the first one on is an operand.
There is no answer if an option is unknown or misused. -/
def read? (specs : List OptionSpec) (operandsEnd : Bool) (arguments : List String) :
    Option (List Argument) :=
  match arguments with
  | [] => some []
  | argument :: rest =>
    if argument = "--" then some (rest.map .operand)
    else if isOption argument.toList then
      match options? specs argument.toList rest with
      | none => none
      | some (found, used) => (read? specs operandsEnd (rest.drop used)).map (found ++ ·)
    else if operandsEnd then some ((argument :: rest).map .operand)
    else (read? specs operandsEnd rest).map (.operand argument :: ·)
termination_by arguments.length
decreasing_by
  · simp only [List.length_drop, List.length_cons]
    omega
  · simp

/-- The operands among arguments. -/
def operands (arguments : List Argument) : List String :=
  arguments.filterMap fun
    | .operand text => some text
    | .option .. => none

/-- The values of an option, in order. -/
def values (arguments : List Argument) (name : String) : List String :=
  arguments.filterMap fun
    | .option long value => if long = name then some value else none
    | .operand _ => none

/-- The last value of an option. -/
def value? (arguments : List Argument) (name : String) : Option String :=
  (values arguments name).getLast?

/-- Whether an option is given. -/
def isGiven (arguments : List Argument) (name : String) : Bool :=
  !(values arguments name).isEmpty

end ElmReach.CommandLine
