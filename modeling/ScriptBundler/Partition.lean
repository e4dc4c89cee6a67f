import ScriptBundler.Failure
import ScriptBundler.Options
import ScriptBundler.Path.Set
import ScriptBundler.Trace.Basic

/-!
# Partitions

The files needed by several entries are found without counting entries: a file that comes twice in the trace of all
entries is traced once more, and all of that trace is shared.

* `repeated` are the files that come twice;
* `Partition.of` splits the files of a trace; what is shared is taken out only if the option asks for it.
-/

namespace ScriptBundler

/-- The files that some entries need, split by who needs them. -/
structure Partition where
  /-- The trace of all entries, repetitions included. -/
  all : List Path := []
  /-- The files in the traces of repeated files. -/
  shared : PathSet := .empty
  /-- The shared files, if they are to be taken out. -/
  common : PathSet := .empty
  /-- All other files of the trace. -/
  uncommon : PathSet := .empty
  deriving Inhabited

/-- The paths of a list at their first places, and those that come again. -/
def repeated (ps : List Path) : PathSet × PathSet :=
  ps.foldl (fun (seen, again) p => if seen.contains p then (seen, again.insert p) else (seen.insert p, again))
    (.empty, .empty)

/-- The files in the traces of the given paths. -/
def closure {σ : Type} (trace : List Path → Action σ (List TracedFile)) (ps : List Path) : Action σ PathSet :=
  ps.foldlM (fun found p => return found.insertAll ((← trace [p]).map (·.path))) .empty

/-- Splits the files that the entries need. -/
def Partition.of {σ : Type} (trace : List Path → Action σ (List TracedFile)) (entries : List Path)
    (option : CommonOption) : Action σ Partition := do
  let all := (← trace entries).map (·.path)
  let (unique, again) := repeated all
  let shared ← closure trace again.toList
  let common := if option.isEnabled then shared else .empty
  return { all, shared, common, uncommon := unique.filter (!common.contains ·) }

end ScriptBundler
