/-!
# Json values

Values, and what is asked of them. The members of an object stand in the order of their names, each name once.
-/

namespace ScriptBundler.Json

/-- Why a text is refused. -/
inductive Fault where
  /-- It breaks the grammar. -/
  | malformed
  /-- It is sound so far, but holds another kind of value than asked for, or a member twice. -/
  | mistyped
  /-- It ends too early. -/
  | truncated
  deriving DecidableEq, Inhabited, Repr

/-- A number as it was written: without sign, point and exponent below 2 ^ 64, with a minus sign down to -2 ^ 63,
else as a float. -/
inductive Number where
  | natural (n : Nat)
  | negative (n : Nat)
  | float (x : Float)
  deriving Inhabited

inductive Value where
  | null
  | bool (b : Bool)
  | number (n : Number)
  | string (s : String)
  | array (items : List Value)
  | object (members : List (String × Value))
  deriving Inhabited

/-- Sets a member: one of the same name is replaced, a new one goes to its place in the order of names. -/
def insertMember {α : Type} (name : String) (v : α) : List (String × α) → List (String × α)
  | [] => [(name, v)]
  | (n, w) :: rest =>
    if name = n then (name, v) :: rest
    else if name < n then (name, v) :: (n, w) :: rest
    else (n, w) :: insertMember name v rest

namespace Value

def members? : Value → Option (List (String × Value))
  | object ms => some ms
  | _ => none

def items? : Value → Option (List Value)
  | array vs => some vs
  | _ => none

def string? : Value → Option String
  | string s => some s
  | _ => none

/-- The member of an object that has the given name. -/
def get? (v : Value) (name : String) : Option Value := v.members?.bind (·.lookup name)

end Value

end ScriptBundler.Json
