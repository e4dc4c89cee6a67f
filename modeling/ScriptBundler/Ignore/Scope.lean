import ScriptBundler.Disk.Basic
import ScriptBundler.Ignore.Rule

/-!
# Which ignore files speak of a path

A directory brings three lists of rules: those of its `.ignore` file, those of its `.gitignore` file, and those that
its repository excludes. A path below a root is judged by the directories from its own up to the root, and further by
all directories above the root.

* the nearest directory decides, and `.ignore` files go before `.gitignore` files and these before exclusions;
* the rules of repositories count only inside of one, and those of directories above the nearest repository do not
  count (`Scope.inRepository`).
-/

namespace ScriptBundler.Ignore

/-- A directory and its rules. -/
structure Level where
  /-- The directory as it is spelled, without a dot in front. -/
  directory : List Char
  ignored : List Rule
  gitIgnored : List Rule
  excluded : List Rule
  /-- Whether a repository starts here. -/
  isRepository : Bool
  /-- Whether one of the rule files has a faulty line. -/
  isFaulty : Bool
  deriving Inhabited

/-- Drops a dot and a slash in front. -/
def withoutHere (cs : List Char) : List Char := (behind? ['.', '/'] cs).getD cs

def withoutSlash (cs : List Char) : List Char := (behind? ['/'] cs).getD cs

/-- The ignore file of a path, an empty one if there is none. -/
def ruleFile (d : Disk) (p : Path) : RuleFile :=
  match d.readBytes p with
  | .ok bytes => .ofBytes bytes.toList
  | .error _ => {}

/-- The first line of a file, if it has one; nothing inside if that is not text. -/
def firstLine? (d : Disk) (p : Path) : Option (Option (List Char)) :=
  match d.readBytes p with
  | .ok bytes => (lines [] bytes.toList).head?.map fun l => (String.fromUTF8? ⟨l.toArray⟩).map String.toList
  | .error _ => none

/-- What the repository of a directory excludes. A file in the place of the repository names the directory that names
the repository. -/
def exclusions (d : Disk) (directory : Path) : RuleFile :=
  let git := directory.join ⟨".git"⟩
  let ofStore (store : Path) : RuleFile := ruleFile d (store.join ⟨"info/exclude"⟩)
  let unreadable : RuleFile := { isFaulty := true }
  if d.isFile git then
    match firstLine? d git with
    | some (some line) =>
      match behind? "gitdir: ".toList line with
      | some named =>
        let worktree : Path := ⟨String.ofList named⟩
        match firstLine? d (worktree.join ⟨"commondir"⟩) with
        | some (some store) =>
          ofStore (if store.head? = some '.' then worktree.join ⟨String.ofList store⟩ else ⟨String.ofList store⟩)
        | some none => unreadable
        | none => {}
      | none => {}
    | some none => unreadable
    | none => {}
  else ofStore git

/-- The rules that a directory brings. -/
def Level.of (d : Disk) (directory : Path) : Level :=
  let ignored := ruleFile d (directory.join ⟨".ignore"⟩)
  let gitIgnored := ruleFile d (directory.join ⟨".gitignore"⟩)
  let excluded := exclusions d directory
  { directory := withoutHere directory.text.toList
    ignored := ignored.rules
    gitIgnored := gitIgnored.rules
    excluded := excluded.rules
    isRepository := d.exists (directory.join ⟨".git"⟩) || d.exists (directory.join ⟨".jj"⟩)
    isFaulty := ignored.isFaulty || gitIgnored.isFaulty || excluded.isFaulty }

/-- The spelling of a path as it is seen from the directory. A path without slashes is its own name. -/
def Level.seen (l : Level) (path : List Char) : List Char :=
  let path := withoutHere path
  if (⟨String.ofList l.directory⟩ : Path) == ⟨"."⟩ ∨ ¬ path.contains '/' then path
  else match behind? l.directory path with
    | some rest => withoutSlash rest
    | none => path

/-- What the rules chosen by `rules` say of a path that is spelled in a way of its own for each directory. -/
def verdictOf (rules : Level → List Rule) (isDirectory : Bool) (levels : List (Level × List Char)) : Verdict :=
  .first <| levels.map fun (l, path) =>
    verdict (rules l) ((l.seen path).flatMap String.utf8EncodeChar) isDirectory

/-- The directories whose rules apply below a directory. -/
structure Scope where
  /-- The root of a walk. -/
  root : Path
  /-- The root without links. -/
  absolute : Path
  /-- The directories from the nearest one up to the root. -/
  inner : List Level
  /-- The directories above the root, the nearest one first. -/
  outer : List Level
  deriving Inhabited

namespace Scope

/-- A path below the root, spelled from the top of the disk. -/
def absolutePath (s : Scope) (path : List Char) : List Char :=
  let below :=
    if s.root == ⟨"."⟩ then path
    else withoutSlash ((behind? (withoutHere s.root.text.toList) path).getD path)
  (s.absolute.join ⟨String.ofList below⟩).text.toList

/-- The directories that speak of a path, each with the spelling by which it knows the path. -/
def levels (s : Scope) (path : List Char) : List (Level × List Char) :=
  s.inner.map (·, path) ++ s.outer.map (·, s.absolutePath path)

/-- The directories inside the nearest repository; none without a repository. -/
def inRepository (levels : List (Level × List Char)) : List (Level × List Char) :=
  match levels.span fun (l, _) => !l.isRepository with
  | (inside, top :: _) => inside ++ [top]
  | (_, []) => []

/-- What is said of an entry. -/
def verdict (s : Scope) (p : Path) (isDirectory : Bool) : Verdict :=
  let levels := s.levels (withoutHere p.text.toList)
  let inside := inRepository levels
  .first [verdictOf (·.ignored) isDirectory levels, verdictOf (·.gitIgnored) isDirectory inside,
    verdictOf (·.excluded) isDirectory inside]

end Scope

end ScriptBundler.Ignore
