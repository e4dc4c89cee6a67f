import ScriptBundler.Failure

/-!
# Roots of projects

Unless a root is named, a project reaches from the working directory up to the nearest repository. The options of its
bundles stand in a file at the root.
-/

namespace ScriptBundler

/-- The nearest directory from the given one up that holds a repository. -/
def repositoryRoot (d : Disk) (start : Path) : Attempted Path :=
  match start.ancestors.find? fun p => d.exists (p.join ⟨".git"⟩) with
  | some root => .ok root
  | none => .error ⟨[], .noRepository⟩

/-- The option file at a root, if there is one. -/
def optionFile? (d : Disk) (root : Path) : Option Path :=
  let p := root.join ⟨"oxibundle.json"⟩
  if d.isFile p then some p else none

end ScriptBundler
