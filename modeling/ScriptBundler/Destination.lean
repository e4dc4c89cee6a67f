import ScriptBundler.Glob.Match
import ScriptBundler.Partition

/-!
# Destinations

* `commonDestination?` is where files taken out go: to the first entry that matches the pattern of the option, else
  to the path the pattern names, if that exists;
* `destinationsOf` are the entries whose output holds a file. A file taken out is in one place only.
-/

namespace ScriptBundler

/-- Where files taken out go. -/
def commonDestination? (entries : List Path) (option : CommonOption) (isThere : Path → Bool) : Option Path := do
  let pattern ← option.pattern?
  (entries.find? fun e => Glob.pathMatches e.text pattern).or
    (if isThere ⟨pattern⟩ then some ⟨pattern⟩ else none)

/-- The entries that need a file. -/
def entriesWith {σ : Type} (trace : List Path → Action σ (List TracedFile)) (p : Path) :
    List Path → Action σ (List Path)
  | [] => return []
  | e :: es => do
    let found := (← trace [e]).any (·.path == p)
    let rest ← entriesWith trace p es
    return if found then e :: rest else rest

/-- Where the output that holds a file goes. -/
def destinationsOf {σ : Type} (trace : List Path → Action σ (List TracedFile)) (p : Path) (entries : List Path)
    (common : PathSet) (destination : Option Path) : Action σ (List Path) :=
  match common.contains p, destination with
  | true, some d => return [d]
  | _, _ => entriesWith trace p entries

end ScriptBundler
