import ScriptBundler.Path.Basic

/-!
# Traces

A trace of a path lists the files that are needed to run it, each behind the files it needs itself where that is
possible. A trace of several paths is the traces of the single ones, one after the other, so that files needed twice
come twice.
-/

namespace ScriptBundler

/-- A file of a trace. -/
structure TracedFile where
  path : Path
  /-- The files it needs itself. -/
  dependencies : List Path
  deriving Inhabited, Repr

end ScriptBundler
