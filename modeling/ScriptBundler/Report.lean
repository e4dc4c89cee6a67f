import ScriptBundler.Bundle.Basic
import ScriptBundler.Path.Relative

/-!
# Reports

What is printed about bundles: their partitions, the destinations of a file, and the files that were written. Paths
are shown from the working directory if possible, and colours may be on or off.
-/

namespace ScriptBundler

/-- A file that was written, and its size. -/
structure Output where
  path : Path
  bytes : Nat
  deriving Inhabited, Repr

/-- How reports are printed. -/
structure Style where
  hasColor : Bool
  workingDirectory : Path

namespace Style

/-- A text in the given codes. What follows an end of colours within it is put in them again. -/
def paint (s : Style) (codes text : String) : String :=
  if s.hasColor then
    let start := "\x1b[" ++ codes ++ "m"
    start ++ text.replace "\x1b[0m" ("\x1b[0m" ++ start) ++ "\x1b[0m"
  else text

/-- A path as it is shown. -/
def shown (s : Style) (p : Path) : String := ((p.relativeTo? s.workingDirectory).getD p).text

/-- Paths, one to a line, as the branches of a tree. -/
def branches (s : Style) : List Path → List String
  | [] => []
  | [p] => [s.paint "2" "└──" ++ "  " ++ s.paint "34" (s.shown p) ++ "\n"]
  | p :: ps => (s.paint "2" "├──" ++ "  " ++ s.paint "34" (s.shown p) ++ "\n") :: branches s ps

/-- Paths under a title. -/
def block (s : Style) (title : String) (ps : List Path) : String :=
  s.paint "1" title ++ " (" ++ s.paint "36" (toString ps.length) ++ ")\n" ++ String.join (s.branches ps) ++ "\n"

/-- The partition of a bundle. -/
def partitionReport (s : Style) (b : Bundle) : String :=
  let common :=
    if b.options.common.isEnabled then s.block "Common" b.partition.common.toList
    else s.paint "94" "●" ++ " Common extraction disabled (" ++ s.paint "36" (toString b.partition.shared.size) ++
      " shared files)\n\n"
  let destination := match b.destination with
    | some d => s.paint "32" "→" ++ " Common destination: " ++ s.shown d ++ "\n"
    | none =>
      if b.options.common.isEnabled then
        s.paint "1;33" "⚠" ++ " No common destination, shared files stay in every bundle\n"
      else ""
  s.block "Entries" b.files ++ common ++ s.block "Uncommon" b.partition.uncommon.toList ++ destination

/-- The destinations of a file. -/
def destinationReport (s : Style) (p : Path) (destinations : List Path) : String :=
  if destinations.isEmpty then s.paint "1;33" "⚠" ++ " " ++ s.shown p ++ " is not part of any bundle\n"
  else s.paint "1;97" (s.shown p) ++ "\n" ++ String.join (s.branches destinations)

/-- The files that were written. -/
def buildReport (s : Style) (outputs : List Output) : String :=
  String.join <| outputs.map fun o =>
    s.paint "1;32" "✓" ++ " " ++ s.shown o.path ++ " (" ++ s.paint "36" (toString o.bytes) ++ " bytes)\n"

end Style

end ScriptBundler
