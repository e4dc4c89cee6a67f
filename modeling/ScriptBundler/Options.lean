import ScriptBundler.Failure
import ScriptBundler.Json.Record

/-!
# Bundle options

Where shared files go and what stands between code blocks, with the three ways to say so: an argument, an option file,
the defaults.
-/

namespace ScriptBundler

/-- How files that several entries need are handled. -/
inductive CommonOption where
  /-- They stay with every entry. -/
  | disabled
  /-- They are taken out, and go nowhere in particular. -/
  | enabled
  /-- They are taken out and go to the first entry that matches the pattern, else to the path it names. -/
  | pattern (text : String)
  deriving DecidableEq, Inhabited, Repr

namespace CommonOption

def isEnabled : CommonOption → Bool
  | disabled => false
  | _ => true

def pattern? : CommonOption → Option String
  | pattern text => some text
  | _ => none

/-- The option an argument stands for. -/
def ofArgument (text : String) : CommonOption :=
  if text = "true" then enabled
  else if text = "false" ∨ text = "" then disabled
  else pattern text

/-- The option a json value stands for; an empty pattern is none. -/
def ofJson? : Json.Value → Option CommonOption
  | .bool true => some enabled
  | .bool false => some disabled
  | .string text => some (if text = "" then disabled else pattern text)
  | _ => none

end CommonOption

/-- What stands between code blocks unless told otherwise. -/
def defaultJoiner : String := "\n\n"

structure Options where
  common : CommonOption := .disabled
  /-- What stands between code blocks. -/
  joiner : String := defaultJoiner
  deriving DecidableEq, Inhabited, Repr

namespace Options

open Json (Reading)

/-- The members of an option file. -/
inductive Field where
  | common | joiner
  deriving DecidableEq, Inhabited, Repr

def Field.named? (name : String) : Option Field :=
  if name = "common" then some .common else if name = "joiner" then some .joiner else none

def field (depth : Nat) (o : Options) : Field → Reading Options
  | .common => do
    match CommonOption.ofJson? (← Reading.value depth) with
    | some common => return { o with common }
    | none => Reading.fail .mistyped
  | .joiner => return { o with joiner := ← Reading.text }

/-- Options in the form of an option file. -/
def reading : Reading Options :=
  Reading.record Json.maxDepth ⟨Field.named?, [.common, .joiner], [], true⟩ field {}

/-- The options in an option file. -/
def read (disk : Disk) (p : Path) : Attempted Options := do
  let text ← (Attempted.of .disk (disk.readText p)).during (.readFile p)
  (Attempted.of .json (Reading.readAll reading text.toUTF8.toList)).during (.readOptions p)

end Options

end ScriptBundler
