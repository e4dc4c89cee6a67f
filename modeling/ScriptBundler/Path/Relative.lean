import ScriptBundler.Path.Basic

/-!
# Relative paths

`Path.relativeTo?` leads from one directory to a path: up to where the two part, then down. There is none if they have
no first step in common.
-/

namespace ScriptBundler.Path

/-- The number of steps that two lists have in common in front. -/
def sharedSteps : List Component → List Component → Nat
  | a :: as, b :: bs => if a = b then sharedSteps as bs + 1 else 0
  | _, _ => 0

/-- The text of a step on the way down; the root and dots lead nowhere. -/
def stepDown? : Component → Option (List Char)
  | .normal name => some name.toList
  | .up => some ['.', '.']
  | _ => none

/-- The way from `base` to a path. -/
def relativeTo? (p base : Path) : Option Path :=
  let target := p.components
  let base := base.components
  let shared := sharedSteps target base
  if shared = 0 ∧ target.head? ≠ base.head? then none
  else
    match (base.drop shared).map (fun _ => ['.', '.']) ++ (target.drop shared).filterMap stepDown? with
    | [] => some ⟨"."⟩
    | steps => some ⟨String.ofList (joinPieces steps)⟩

end ScriptBundler.Path
