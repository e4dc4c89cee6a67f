import ScriptBundler.Ignore.Scope

/-!
# Walks over directories

A walk lists what stands below a root, a directory in front of what it holds and the entries of a directory in the
order of their names. Entries that ignore rules drop are passed over with all they hold; links to directories are
listed and not entered, but the root itself may be one.

A walk has faults if the root leads nowhere or a directory above it has faulty rules; faulty rules below are passed
over.
-/

namespace ScriptBundler.Ignore

/-- What a walk found. -/
structure Walk where
  entries : List Path
  hasFaults : Bool := false
  deriving Inhabited

/-- Whether a path is that of a directory and of no link to one. -/
def isOwnDirectory (d : Disk) (p : Path) : Bool :=
  match d.stat p ⟨false, false⟩ with
  | .ok (.directory _) => true
  | _ => false

/-- The names in a directory in their order. -/
def sortedNames (d : Disk) (p : Path) : List String :=
  match d.list p with
  | .ok names => names.mergeSort fun a b => a ≤ b
  | .error _ => []

/-- The entries below a directory, to the given depth. -/
def entriesBelow (d : Disk) : Nat → Scope → Path → List Path
  | 0, _, _ => []
  | depth + 1, s, p =>
    let s := { s with inner := Level.of d p :: s.inner }
    (sortedNames d p).flatMap fun name =>
      let entry := p.join ⟨name⟩
      let isDirectory := isOwnDirectory d entry
      if s.verdict entry isDirectory = .drops then []
      else entry :: if isDirectory then entriesBelow d depth s entry else []

/-- The walk from a root. A lone hyphen stands for the standard input, below which there is nothing. -/
def walk (d : Disk) (root : Path) : Walk :=
  if root == ⟨"-"⟩ then ⟨[], false⟩
  else match d.isDirectory root, d.canonical? root with
    | true, some absolute =>
      let outer := (absolute.ancestors.drop 1).map (Level.of d)
      { entries := root :: entriesBelow d (d.nodes.length + 1) ⟨root, absolute, [], outer⟩ root
        hasFaults := outer.any (·.isFaulty) }
    | _, _ => if d.exists root then ⟨[root], false⟩ else ⟨[], true⟩

end ScriptBundler.Ignore
