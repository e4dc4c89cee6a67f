import ScriptBundler.Bundle.Compile
import ScriptBundler.Report

/-!
# Builds

A build writes the output of each entry, and the common files if their destination is not an entry.

* `outputPath` is where the output of a path is written: below the output directory as the path is below the root;
  of paths outside the root only the file name is kept;
* `Bundle.build` stops at the first failure; what was written before stays.
-/

namespace ScriptBundler

/-- Where the output of a path is written. -/
def outputPath (root out p : Path) : Path :=
  match p.stripPrefix? root with
  | some rest => out.join rest
  | none => out.join ⟨(p.fileName?).getD p.text⟩

/-- Writes a file and the directories above it. The disk changes as far as it comes. -/
def writeOutput (target : Path) (text : String) : Action Disk Output := do
  match target.parent? with
  | some parent =>
    match (← get).makeDirectories parent with
    | .ok d => set d
    | .error e => (Action.fail (.disk e)).during (.createDirectory parent)
  | none => pure ()
  match (← get).write target text.toUTF8 with
  | .ok d => set d
  | .error e => (Action.fail (.disk e)).during (.writeFile target)
  return ⟨target, text.utf8ByteSize⟩

namespace Bundle

variable {σ : Type}

/-- Writes the outputs of entries. `write` writes a file in the world. -/
def buildEntries (c : Collaborators σ) (write : Path → String → Action σ Output) (b : Bundle) (root out : Path)
    (entries : List Path) : Action σ (List Output) :=
  entries.mapM fun e => do
    let text ← (b.compile c (some [e])).during (.bundleEntry e)
    write (outputPath root out e) text

/-- Writes all outputs of a bundle. -/
def build (c : Collaborators σ) (write : Path → String → Action σ Output) (b : Bundle) (root out : Path) :
    Action σ (List Output) := do
  let outputs ← b.buildEntries c write root out b.files
  match b.destination with
  | some d =>
    if b.isEntry d then return outputs
    else
      let text ← b.compileCommon c
      return outputs ++ [← write (outputPath root out d) text]
  | none => return outputs

end Bundle

end ScriptBundler
