import ScriptBundler.Bundle.Compile

/-!
# Streams

Files that pass through a bundle one at a time.

* `FileStream.transform` is what becomes of one file, `pipe` of a list of files, up to the first failure;
* `Bundle.watch` asks the watcher for a stream, `watchIf` only if a condition holds.
-/

namespace ScriptBundler

/-- A file with its contents. -/
structure FileObject where
  path : Path
  contents : String
  deriving Inhabited, Repr

namespace FileStream

variable {σ : Type}

/-- What becomes of a file. -/
def transform (c : Collaborators σ) (b : Bundle) (s : FileStream) (f : FileObject) : Action σ FileObject :=
  match s with
  | .compile => return { f with contents := ← b.compile c (some [f.path]) }
  | .compileOne => return { f with contents := ← b.compileOne c f.path }
  | .pass => return f

/-- What becomes of files, in their order. -/
def pipe (c : Collaborators σ) (b : Bundle) (s : FileStream) (fs : List FileObject) : Action σ (List FileObject) :=
  fs.mapM (s.transform c b)

end FileStream

namespace Bundle

variable {σ : Type}

/-- The stream of the watcher. -/
def watch (c : Collaborators σ) (b : Bundle) (callback : Path → Action σ Unit) : Action σ FileStream :=
  c.watch b callback

/-- The stream of the watcher if the condition holds, else one that passes files as they are. -/
def watchIf (c : Collaborators σ) (b : Bundle) (condition : Bool) (callback : Path → Action σ Unit) :
    Action σ FileStream :=
  if condition then b.watch c callback else return .pass

end Bundle

end ScriptBundler
