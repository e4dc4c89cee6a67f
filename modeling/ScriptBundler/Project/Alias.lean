import ScriptBundler.Ignore.Walk
import ScriptBundler.Json.Comment
import ScriptBundler.Trace.Resolve

/-!
# Aliases of a project

A file named `tsconfig.json` declares aliases: names of modules, and the paths they stand for, seen from a directory
that the file may name too. Files that are no json declare none.

* `declaredAliases` is what one file declares; an alias and its paths are written without the stars for all that lies
  below them, and a name declared twice has the paths of the last declaration;
* `projectAliases` puts together what the files of a project declare, a later file going before an earlier one.
-/

namespace ScriptBundler

namespace AliasTable

/-- Gives an alias new targets. -/
def insert (t : AliasTable) (a : String × List String) : AliasTable := t.filter (·.1 ≠ a.1) ++ [a]

/-- Gives all aliases of the second table the targets they have there. -/
def update (t u : AliasTable) : AliasTable := u.foldl insert t

end AliasTable

/-- Drops each slash and star at the end, given the text backwards. -/
def dropBelow : List Char → List Char
  | '*' :: '/' :: cs => dropBelow cs
  | cs => cs

/-- A text without the slashes and stars at its end. -/
def withoutBelow (text : String) : String := String.ofList (dropBelow text.toList.reverse).reverse

/-- The aliases declared by a member `paths`; those without targets are not declared. -/
def aliasesIn (base : Path) (declared : List (String × Json.Value)) : AliasTable :=
  AliasTable.update [] <| declared.filterMap fun (name, targets) =>
    let targets := (targets.items?.getD []).filterMap (·.string?)
    if targets.isEmpty then none
    else some (withoutBelow name, targets.map fun t => (base.join ⟨withoutBelow t⟩).text)

/-- The aliases that a text declares for the directory it stands in. -/
def declaredAliases (text : String) (directory : Path) : AliasTable :=
  match Json.parse (Json.withoutComments text) with
  | .error _ => []
  | .ok value =>
    let options := value.get? "compilerOptions"
    match (options.bind (·.get? "paths")).bind (·.members?) with
    | none => []
    | some declared =>
      let base := ((options.bind (·.get? "baseUrl")).bind (·.string?)).getD "."
      aliasesIn (directory.join ⟨base⟩) declared

/-- The aliases declared by a file, if it can be read. -/
def fileAliases (d : Disk) (root p : Path) : AliasTable :=
  match d.readText p with
  | .ok text => declaredAliases text (p.parent?.getD root)
  | .error _ => []

/-- The aliases declared below a root by files that are not ignored. -/
def projectAliases (d : Disk) (root : Path) : AliasTable :=
  let files := (Ignore.walk d root).entries.filter (·.fileName? = some "tsconfig.json")
  files.foldl (fun t p => t.update (fileAliases d root p)) []

end ScriptBundler
