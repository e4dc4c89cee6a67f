import ScriptBundler.Failure
import ScriptBundler.Script.Grammar.Statement

/-!
# Requests of files

The extension of a path tells whether the file is a script, and in which dialect.

* `Path.isScript` holds of the files that are read for requests, `scriptExtensions` are their extensions in the order
  in which they are tried for a request without one;
* `requestsOf` are the requests of a script's text, in their order.
-/

namespace ScriptBundler

/-- The extensions of scripts, those with types first. -/
def scriptExtensions : List String := ["ts", "tsx", "mts", "cts", "js", "jsx", "mjs", "cjs"]

/-- Whether a path is that of a script. -/
def Path.isScript (p : Path) : Bool := p.extension?.any scriptExtensions.contains

/-- The dialect of a script. -/
def Path.dialect (p : Path) : Script.Dialect where
  types := p.extension?.any ["ts", "tsx", "mts", "cts"].contains
  markup := p.extension?.any ["tsx", "jsx"].contains

/-- The requests of the text of a script. -/
def requestsOf (p : Path) (text : String) : Attempted (List Script.Load) :=
  match Script.loads? p.dialect text with
  | some loads => .ok loads
  | none => .error ⟨[], .script p⟩

end ScriptBundler
