import ScriptBundler.Failure
import ScriptBundler.Glob.Match
import ScriptBundler.Ignore.Walk
import ScriptBundler.Trace.Request

/-!
# Entries of a project

The entries of a project are the scripts that are not ignored, are no tests, and match a pattern seen from the root
(`collectEntries`). They come in the order of paths.
-/

namespace ScriptBundler

/-- The pattern of entries unless told otherwise: the files directly in `src`. -/
def defaultEntryGlob : String := "src/*"

/-- Whether a text stands somewhere in another one. -/
def occursIn (text : List Char) : List Char → Bool
  | [] => text.isEmpty
  | c :: cs => text.isPrefixOf (c :: cs) || occursIn text cs

/-- Whether a path belongs to tests, by its own name or by that of a directory above it. -/
def Path.isTest (p : Path) : Bool := [".test.", ".spec."].any fun mark => occursIn mark.toList p.text.toList

/-- Whether a path below a root is that of an entry. -/
def isProjectEntry (d : Disk) (root : Path) (glob : String) (p : Path) : Bool :=
  d.isFile p && !p.isTest && p.isScript && (p.stripPrefix? root).any fun rest => Glob.pathMatches rest.text glob

/-- The entries below a root. -/
def collectEntries (d : Disk) (root : Path) (glob : String) : Attempted (List Path) :=
  let found := Ignore.walk d root
  if found.hasFaults then .error ⟨[], .walk root⟩
  else .ok ((found.entries.filter (isProjectEntry d root glob)).mergeSort Path.le)

end ScriptBundler
