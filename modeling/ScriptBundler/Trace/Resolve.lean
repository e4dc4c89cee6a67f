import ScriptBundler.Disk.Basic
import ScriptBundler.Json.Reader
import ScriptBundler.Trace.Request

/-!
# Resolving requests

A request is the text by which a script asks for another file. It is resolved on a disk: as a path, by an alias, or as
a package in a `node_modules` directory above the script, up to the root.

* `resolveFile` completes a path by an extension or an index file;
* `resolvePackage` asks the manifest of a package first;
* `Resolver.find` puts the three ways together, `Resolver.resolve` remembers what was found, and what was not.
-/

namespace ScriptBundler

/-- Names of modules that stand for paths. -/
abbrev AliasTable := List (String × List String)

/-- The root of a project and its aliases, the longest first. -/
structure Resolver where
  root : Path
  aliases : AliasTable
  deriving Inhabited, Repr

/-- Longer aliases stand first, aliases of one length in the order of their texts. -/
def aliasLe (a b : String × List String) : Bool :=
  b.1.utf8ByteSize < a.1.utf8ByteSize || (a.1.utf8ByteSize = b.1.utf8ByteSize && a.1 ≤ b.1)

def Resolver.of (root : Path) (aliases : AliasTable) : Resolver := ⟨root, aliases.mergeSort aliasLe⟩

/-- Where a path may lead: with one of the extensions, or to an index file. -/
def candidates (p : Path) : List Path :=
  scriptExtensions.map (fun e => ⟨p.text ++ "." ++ e⟩) ++ scriptExtensions.map fun e => p.join ⟨"index." ++ e⟩

/-- The path of an existing file without links. -/
def canonical (d : Disk) (p : Path) : Path := (d.canonical? p).getD p

/-- The file to which a path leads. -/
def resolveFile (d : Disk) (p : Path) : Option Path :=
  if d.isFile p then some (canonical d p) else ((candidates p).find? d.isFile).map (canonical d)

/-- Whether a request is a path. -/
def isPathRequest (request : String) : Bool :=
  request.startsWith "./" || request.startsWith "../" || request.startsWith "/"

/-- Drops each `./` in front. -/
def dropHere : List Char → List Char
  | '.' :: '/' :: rest => dropHere rest
  | cs => cs

/-- The entry points that a manifest names, the best one first. -/
def entryPoints (manifest : Json.Value) : List String :=
  let exports := manifest.get? "exports"
  let dot := exports.bind (·.get? ".")
  let named := ["import", "require", "default"].map fun c => (dot.bind (·.get? c)).bind (·.string?)
  let fields := ["module", "main"].map fun f => (manifest.get? f).bind (·.string?)
  ((exports.bind (·.string?) :: dot.bind (·.string?) :: named) ++ fields).filterMap id |>.map fun s =>
    String.ofList (dropHere s.toList)

/-- The manifest of a package directory. -/
def manifest? (d : Disk) (package : Path) : Option Json.Value := do
  let text ← (d.readText (package.join ⟨"package.json"⟩)).toOption
  (Json.parse text).toOption

/-- The file to which a path in a package directory leads. -/
def resolvePackage (d : Disk) (p : Path) : Option Path :=
  if d.exists p then
    (((manifest? d p).map entryPoints).getD []).findSome? (fun e => resolveFile d (p.join ⟨e⟩)) |>.or (resolveFile d p)
  else resolveFile d p

/-- What is left of a request behind an alias and a slash. -/
def behindAlias? (name request : String) : Option String :=
  if request = name then some ""
  else
    let opening := name.toList ++ ['/']
    if opening.isPrefixOf request.toList then some (String.ofList (request.toList.drop opening.length)) else none

namespace Resolver

/-- The file to which the aliases lead. -/
def findAlias (r : Resolver) (d : Disk) (request : String) : Option Path :=
  r.aliases.findSome? fun (name, targets) => do
    let rest ← behindAlias? name request
    targets.findSome? fun t => resolveFile d (if rest = "" then ⟨t⟩ else (⟨t⟩ : Path).join ⟨rest⟩)

/-- The directories from the given one up to the root; all above it if it is not below the root. -/
def searched (r : Resolver) (directory : Path) : List Path :=
  let above := directory.ancestors
  match above.findIdx? (· == r.root) with
  | some i => above.take (i + 1)
  | none => above

/-- The file of a package. -/
def findPackage (r : Resolver) (d : Disk) (directory : Path) (request : String) : Option Path :=
  (r.searched directory).findSome? fun dir => resolvePackage d ((dir.join ⟨"node_modules"⟩).join ⟨request⟩)

/-- The file to which a request of a script leads. -/
def find (r : Resolver) (d : Disk) (script : Path) (request : String) : Option Path :=
  let directory := script.parent?.getD r.root
  if isPathRequest request then resolveFile d (directory.join ⟨request⟩).clean
  else (r.findAlias d request).or (r.findPackage d directory request)

end Resolver

/-- What requests of scripts were found to lead to. -/
abbrev Resolutions := List ((Path × String) × Option Path)

def Resolutions.get? (rs : Resolutions) (script : Path) (request : String) : Option (Option Path) :=
  (rs.find? fun ((p, q), _) => p == script && q = request).map (·.2)

/-- The file to which a request leads, as it was found the first time. -/
def Resolver.resolve (r : Resolver) (d : Disk) (script : Path) (request : String) :
    StateM Resolutions (Option Path) := do
  match (← get).get? script request with
  | some found => return found
  | none =>
    let found := r.find d script request
    modify (((script, request), found) :: ·)
    return found

end ScriptBundler
