import ScriptBundler.Json.Reader

/-!
# Reading records

A record is written as an object, whose members may come in any order, or as a list of its fields in their order. An
object may have members that are no fields; they are passed over. No field comes twice.
-/

namespace ScriptBundler.Json.Reading

/-- How a record is written. -/
structure RecordForm (φ : Type) where
  /-- The field of a member of an object. -/
  named? : String → Option φ
  /-- The fields in the order in which a list gives them. -/
  fields : List φ
  /-- The fields an object has to have. -/
  required : List φ
  /-- Whether a list may end early. -/
  isShort : Bool

/-- The fields of a list, as far as they come. -/
def row {σ φ : Type} (step : σ → φ → Reading σ) (isShort first : Bool) (s : σ) : List φ → Reading σ
  | [] => return s
  | f :: fs => do
    match ← peekPast with
    | none => fail .truncated
    | some b =>
      if b = 93 then
        if isShort then return s else fail .mistyped
      else
        if !first then
          if b ≠ 44 then fail .malformed
          take
          match ← peekPast with
          | none => fail .truncated
          | some b => if b = 93 then fail .malformed
        row step isShort false (← step s f) fs

/-- The members of an object behind its brace, and the fields that came. -/
def fieldsOf {σ φ : Type} [BEq φ] (form : RecordForm φ) (step : σ → φ → Reading σ) (s : σ) :
    Reading (σ × List φ) := do
  foldMembers stringRest (fun (s, seen) name => do
    match form.named? name with
    | none => skipValue; return (s, seen)
    | some f =>
      if seen.contains f then fail .mistyped
      else return (← step s f, f :: seen)) (← bound) true (s, [])

/-- A record; `step` reads the value of a field, nested one deeper. -/
def record {σ φ : Type} [BEq φ] (depth : Nat) (form : RecordForm φ) (step : Nat → σ → φ → Reading σ) (s : σ) :
    Reading σ := do
  match ← peekPast with
  | none => fail .truncated
  | some b =>
    match depth with
    | 0 => if b = 91 ∨ b = 123 then fail .malformed else mistyped b
    | depth + 1 =>
      if b = 123 then
        take
        let (s, seen) ← fieldsOf form (step depth) s
        if form.required.all seen.contains then return s else fail .mistyped
      else if b = 91 then
        take
        let s ← row (step depth) form.isShort true s form.fields
        match ← peekPast with
        | some b => if b = 93 then take; return s else fail .malformed
        | none => fail .truncated
      else mistyped b

end ScriptBundler.Json.Reading
