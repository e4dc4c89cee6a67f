/-!
# Arguments

Arguments are options with a value each, and patterns. The value of an option stands behind it, or behind an equals
sign; it may not begin with a hyphen unless it stands behind such a sign or is a lone hyphen. Behind two hyphens all
arguments are patterns.

`readArguments` takes an option into account only when the next one, a pattern or the end of the arguments follows:
an unknown option in between is found first.
-/

namespace ScriptBundler.Command

/-- Why arguments are refused. -/
inductive UsageFault where
  /-- An option lacks its value, or a path is empty. -/
  | invalidValue
  /-- An option is given twice. -/
  | argumentConflict
  | unknownArgument
  /-- A value is given to an option that has none. -/
  | tooManyValues
  | missingArgument
  | missingCommand
  | unknownCommand
  /-- Help is asked for. -/
  | displayHelp
  deriving DecidableEq, Inhabited, Repr

inductive OptionName where
  | root | entryGlob | common | joiner | config | outDir | file
  deriving DecidableEq, Inhabited, Repr

namespace OptionName

def text : OptionName → String
  | root => "root"
  | entryGlob => "entry-glob"
  | common => "common"
  | joiner => "joiner"
  | config => "config"
  | outDir => "out-dir"
  | file => "file"

/-- Whether the value is a path, which must not be empty. -/
def takesPath : OptionName → Bool
  | root | config | outDir | file => true
  | _ => false

end OptionName

/-- Arguments that have been read. -/
structure Arguments where
  values : List (OptionName × String) := []
  patterns : List String := []
  deriving Inhabited, Repr

namespace Arguments

def value? (a : Arguments) (n : OptionName) : Option String := a.values.lookup n

/-- Takes an option and its value into account. -/
def take (a : Arguments) (n : OptionName) (value : String) : Except UsageFault Arguments :=
  if (a.value? n).isSome then .error .argumentConflict
  else if n.takesPath ∧ value = "" then .error .invalidValue
  else .ok { a with values := a.values ++ [(n, value)] }

/-- Takes an option into account that was read last, if there is one. -/
def settle (a : Arguments) : Option (OptionName × Option String) → Except UsageFault Arguments
  | none => .ok a
  | some (_, none) => .error .invalidValue
  | some (n, some value) => a.take n value

def addPattern (a : Arguments) (pending : Option (OptionName × Option String)) (p : String) :
    Except UsageFault Arguments := do
  let a ← a.settle pending
  return { a with patterns := a.patterns ++ [p] }

end Arguments

/-- What an argument looks like. -/
inductive Shape where
  | plain
  /-- Two hyphens. -/
  | terminator
  /-- Two hyphens and a name, with or without a value. -/
  | long (name : String) (value : Option String)
  /-- A hyphen and letters, of which the first one counts. -/
  | short (letter : Char)
  deriving DecidableEq, Inhabited, Repr

def Shape.of (argument : String) : Shape :=
  match argument.toList with
  | ['-', '-'] => .terminator
  | '-' :: '-' :: cs =>
    match cs.span (· ≠ '=') with
    | (name, _ :: value) => .long (String.ofList name) (some (String.ofList value))
    | (name, []) => .long (String.ofList name) none
  | '-' :: c :: _ => .short c
  | _ => .plain

/-- Reads arguments from left to right. `pending` is an option that is not yet taken into account. -/
def readFrom (known : List OptionName) (a : Arguments) (pending : Option (OptionName × Option String)) :
    List String → Except UsageFault Arguments
  | [] => a.settle pending
  | argument :: rest =>
    match Shape.of argument with
    | .terminator => do
      match rest with
      | [] => a.settle pending
      | p :: ps =>
        let a ← a.addPattern pending p
        return { a with patterns := a.patterns ++ ps }
    | .long name value => do
      if name = "help" then
        if value.isSome then .error .tooManyValues
        else
          let _ ← a.settle pending
          .error .displayHelp
      else match known.find? (·.text = name) with
        | none => .error .unknownArgument
        | some n =>
          let a ← a.settle pending
          match value with
          | some value => readFrom known (← a.take n value) none rest
          | none => readFrom known a (some (n, none)) rest
    | .short letter => do
      if letter = 'h' then
        let _ ← a.settle pending
        .error .displayHelp
      else .error .unknownArgument
    | .plain =>
      match pending with
      | some (n, none) => readFrom known a (some (n, some argument)) rest
      | _ => do readFrom known (← a.addPattern pending argument) none rest

/-- Reads arguments, of which the options must be known. -/
def readArguments (known : List OptionName) (arguments : List String) : Except UsageFault Arguments :=
  readFrom known {} none arguments

end ScriptBundler.Command
