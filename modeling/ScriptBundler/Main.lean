import ScriptBundler.Command.Run

/-!
# The command line

Reads the directories of a project into a disk, runs a command on it, and writes the files that have changed. What
lies neither below the root of the project nor below the working directory is not seen, except for ignore files and
repositories in the directories above.
-/

namespace ScriptBundler.Command

def usage : String :=
  "Usage: scriptbundler build|partition|destinations [OPTIONS] [PATTERNS]\n\n" ++
  "build         write a bundle for each entry\n" ++
  "partition     show which files entries share\n" ++
  "destinations  show the bundles that hold a file\n\n" ++
  "--root DIRECTORY     the project, by default that of the nearest repository\n" ++
  "--entry-glob PATTERN the entries if no patterns are given\n" ++
  "--common VALUE       true, false, or where shared files go\n" ++
  "--joiner TEXT        what stands between files\n" ++
  "--config FILE        the option file, by default oxibundle.json\n" ++
  "--out-dir DIRECTORY  where a build goes, by default dist\n" ++
  "--file FILE          the file whose destinations are shown\n" ++
  "-h, --help           this text"

def locationOf (path : String) : Location := (Disk.names path).filter (· ≠ "")

/-- What stands at a location: itself, and what lies below it to the given depth. -/
def readNodes : Nat → Location → IO (List (Location × Node))
  | 0, _ => return []
  | depth + 1, location => do
    let path := (Disk.pathOf location).text
    try
      let real ← IO.FS.realPath path
      if real.toString ≠ path then return [(location, .link real.toString)]
      let data ← real.metadata
      let time := data.modified.sec.toNat
      match data.type with
      | .file => return [(location, .file (← IO.FS.readBinFile path) time)]
      | .dir =>
        let entries ← real.readDir
        let below ← entries.toList.mapM fun e => readNodes depth (location ++ [e.fileName])
        return (location, .directory time) :: below.flatten
      | _ => return []
    catch _ => return []

/-- A directory above a project, and what in it bears on the project. -/
def readAbove (location : Location) : IO (List (Location × Node)) := do
  let names := [".git", ".jj", ".ignore", ".gitignore"]
  let found ← names.mapM fun name => readNodes 4 (location ++ [name])
  return (location, .directory 0) :: found.flatten

/-- The directories above a location, from the top down. -/
def above (location : Location) : List Location := (List.range location.length).map location.take

/-- The disk as far as it bears on a project. -/
def readDisk (here root : Location) : IO Disk := do
  let tops := if root.isPrefixOf here then [root] else if here.isPrefixOf root then [here] else [root, here]
  let upper ← (((tops.flatMap above).eraseDups).filter (· ≠ [])).mapM readAbove
  let below ← tops.mapM (readNodes 100)
  return { workingDirectory := here, nodes := upper.flatten ++ below.flatten, clock := ← IO.monoMsNow }

/-- The directory that holds the project. -/
def projectDirectory (here : String) (named : Option Path) : IO Location := do
  match named with
  | some p => return locationOf (← IO.FS.realPath ((⟨here⟩ : Path).join p).text).toString
  | none =>
    let root? ← (⟨here⟩ : Path).ancestors.findM? fun p => do
      return (← readNodes 1 (locationOf (p.join ⟨".git"⟩).text)).length > 0
    return locationOf ((root?.map Path.text).getD here)

/-- Writes the files of a disk that the old one does not hold. -/
def writeChanges (old new : Disk) : IO Unit := do
  for (location, node) in new.nodes do
    match node with
    | .file content _ =>
      if old.node? location ≠ some node then
        IO.FS.createDirAll (Disk.pathOf location.dropLast).text
        IO.FS.writeBinFile (Disk.pathOf location).text content
    | _ => pure ()

end ScriptBundler.Command

open ScriptBundler in
def main (arguments : List String) : IO UInt32 := do
  match Command.read arguments with
  | .error .displayHelp => IO.println Command.usage; return 0
  | .error _ => IO.eprintln Command.usage; return 2
  | .ok command =>
    let start ← IO.monoMsNow
    let here := (← IO.FS.realPath (← IO.currentDir).toString).toString
    let disk ← Command.readDisk (Command.locationOf here) (← Command.projectDirectory here command.settings.root)
    let stdout ← IO.getStdout
    let (result, w) := command.run ⟨← stdout.isTty, ⟨here⟩⟩ { disk }
    Command.writeChanges disk w.disk
    match result with
    | .ok printed =>
      stdout.putStr (printed ((← IO.monoMsNow) - start))
      stdout.flush
      return 0
    | .error e =>
      IO.eprintln ("Error: " ++ e.headline)
      return 1
