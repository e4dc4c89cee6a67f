import ScriptBundler.Disk.Basic
import ScriptBundler.Glob.Pattern
import ScriptBundler.Json.Basic
import ScriptBundler.SourceMap.Inline

/-!
# Failures

A failure is a cause and the attempts that were being made when it arose, the widest one first. An `Action` changes
a world and answers or fails; what it changed before it failed stays changed.
-/

namespace ScriptBundler

/-- What was being attempted. -/
inductive Attempt where
  | expandPattern (pattern : String)
  | readFile (p : Path)
  | readOptions (p : Path)
  | decodeInlineMap
  | readInlineMap
  | readInlineMapOf (p : Path)
  | loadFile (p : Path)
  | bundleEntry (p : Path)
  | createDirectory (p : Path)
  | writeFile (p : Path)
  | resolveFile (p : Path)
  deriving Inhabited, Repr

def Attempt.message : Attempt → String
  | expandPattern pattern => "Invalid glob pattern '" ++ pattern ++ "'"
  | readFile p => "Failed to read " ++ p.text
  | readOptions p => "Invalid bundle options in " ++ p.text
  | decodeInlineMap => "Invalid base64 in inline source map"
  | readInlineMap => "Invalid inline source map"
  | readInlineMapOf p => "Bad inline source map in " ++ p.text
  | loadFile p => "Failed to load " ++ p.text
  | bundleEntry p => "Failed to bundle " ++ p.text
  | createDirectory p => "Failed to create " ++ p.text
  | writeFile p => "Failed to write " ++ p.text
  | resolveFile p => "Failed to resolve " ++ p.text

/-- Why something failed. -/
inductive Cause where
  | disk (e : DiskError)
  | json (f : Json.Fault)
  | base64 (e : Text.Base64.DecodeError)
  | glob (e : Glob.PatternError)
  | sourceMap (f : MapFault)
  /-- The directories below a root could not be walked. -/
  | walk (root : Path)
  /-- A file is no script. -/
  | script (p : Path)
  | noWatcher
  | notInitialized
  | noEntries (root : Path)
  | noRepository
  /-- A tracer in memory was told to fail for this path. -/
  | untraceable (p : Path)
  /-- A file in memory is not there. -/
  | absent (p : Path)
  /-- A watch callback was told to fail for this path. -/
  | callback (p : Path)
  deriving Inhabited, Repr

/-- The wording of causes other than faults of single texts and of the disk. Of the faults of a script only the one that
ended its reading is counted: those that do not end a reading are left out of the model, and so is their number. -/
def Cause.message? : Cause → Option String
  | walk root =>
    some (root.text ++ ": IO error for operation on " ++ root.text ++ ": No such file or directory (os error 2)")
  | script p => some ("Failed to parse " ++ p.text ++ ": 1 errors")
  | noWatcher => some "No watcher configured for this bundle"
  | notInitialized => some "Config not initialized - call initialize() first"
  | noEntries root => some ("No entry files found under " ++ root.text)
  | noRepository => some "Could not find .git directory in any parent folder"
  | untraceable p => some ("cannot trace " ++ p.text)
  | absent p => some ("no such file: " ++ p.text)
  | callback p => some ("callback failed on " ++ p.text)
  | _ => none

/-- A cause, and what was being attempted, the widest attempt first. -/
structure Failure where
  attempts : List Attempt := []
  cause : Cause
  deriving Inhabited, Repr

/-- The wording of the widest attempt, or of the cause if nothing else was being attempted. -/
def Failure.headline (f : Failure) : String :=
  match f.attempts with
  | a :: _ => a.message
  | [] => f.cause.message?.getD "The disk or a text on it is faulty"

/-- Changes of a world that answer or fail. -/
abbrev Action (σ : Type) := ExceptT Failure (StateM σ)

/-- The result of an attempt. -/
abbrev Attempted := Except Failure

/-- A failure of `x` is one of the given attempt. -/
def Attempted.during {α : Type} (attempt : Attempt) : Attempted α → Attempted α
  | .ok a => .ok a
  | .error f => .error { f with attempts := attempt :: f.attempts }

/-- A failure for the given cause. -/
def Attempted.of {ε α : Type} (cause : ε → Cause) : Except ε α → Attempted α
  | .ok a => .ok a
  | .error e => .error ⟨[], cause e⟩

namespace Action

variable {σ α : Type}

def fail (cause : Cause) : Action σ α := throw ⟨[], cause⟩

/-- A failure of `x` is one of the given attempt; what it changed stays changed. -/
def during (attempt : Attempt) (x : Action σ α) : Action σ α := fun s =>
  let (r, s) := x s
  (Attempted.during attempt r, s)

/-- An action that changes nothing. -/
def lift (r : Attempted α) : Action σ α := fun s => (r, s)

end Action

end ScriptBundler
