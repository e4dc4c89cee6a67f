import ScriptBundler.Json.Basic

/-!
# Reading json

A reading takes bytes from the front of the text or fails. Several faults are told apart by the place where the first
of them is met.

* `value` reads any value, nested at most `depth` deep;
* `skip` passes over a value of any depth, and minds less: numbers may be too large, and escapes and bytes of strings
  may stand for no character;
* `text`, `natural`, `list`, `optional` and `foldMembers` read a value of a wanted kind; on another kind of value they
  report `mistyped`, once that value's own word, number or string has proved sound.
-/

namespace ScriptBundler.Json

/-- Readings of json text. -/
abbrev Reading := StateT (List UInt8) (Except Fault)

/-- How deep lists and objects may stand in each other. -/
def maxDepth : Nat := 127

namespace Reading

def fail {α : Type} (f : Fault) : Reading α := throw f

/-- The first byte. -/
def peek : Reading (Option UInt8) := return (← get).head?

/-- Takes the first byte away. -/
def take : Reading Unit := modify (·.drop 1)

def isBlank (b : UInt8) : Bool := b = 32 || b = 10 || b = 9 || b = 13

/-- The first byte behind blanks. -/
def peekPast : Reading (Option UInt8) := do
  modify (·.dropWhile isBlank)
  peek

def isDigit (b : UInt8) : Bool := 48 ≤ b && b ≤ 57

/-- Takes the digits in front. -/
def digits : Reading (List Nat) := do
  let bytes ← get
  set (bytes.dropWhile isDigit)
  return (bytes.takeWhile isDigit).map fun b => b.toNat - 48

/-- Takes the given letters. -/
def letters : List Char → Reading Unit
  | [] => return
  | c :: cs => do
    match ← peek with
    | none => fail .truncated
    | some b => if b = c.toUInt8 then take; letters cs else fail .malformed

/-! ## Strings -/

def hexDigit? (b : UInt8) : Option Nat :=
  let n := b.toNat
  if 48 ≤ n ∧ n ≤ 57 then some (n - 48)
  else if 65 ≤ n ∧ n ≤ 70 then some (n - 55)
  else if 97 ≤ n ∧ n ≤ 102 then some (n - 87)
  else none

/-- Takes four hexadecimal digits. -/
def fourHex : Reading Nat := do
  match ← get with
  | a :: b :: c :: d :: rest =>
    set rest
    match hexDigit? a, hexDigit? b, hexDigit? c, hexDigit? d with
    | some a, some b, some c, some d => return ((a * 16 + b) * 16 + c) * 16 + d
    | _, _, _, _ => fail .malformed
  | _ => fail .truncated

/-- Takes one byte, which has to be the given one. -/
def expect (b : UInt8) : Reading Unit := do
  match ← peek with
  | none => fail .truncated
  | some c => if c = b then take else fail .malformed

/-- The character behind a backslash and the letter u; characters beyond 16 bits are written as two halves. -/
def unicodeEscape : Reading Char := do
  let n ← fourHex
  if 0xDC00 ≤ n ∧ n ≤ 0xDFFF then fail .malformed
  else if n < 0xD800 ∨ n > 0xDBFF then return Char.ofNat n
  else
    expect 92
    expect 117
    let m ← fourHex
    if 0xDC00 ≤ m ∧ m ≤ 0xDFFF then return Char.ofNat ((n - 0xD800) * 1024 + (m - 0xDC00) + 0x10000)
    else fail .malformed

/-- The character a letter behind a backslash stands for, the letter u aside. -/
def simpleEscape? (b : UInt8) : Option UInt8 :=
  if b = 34 ∨ b = 92 ∨ b = 47 then some b
  else if b = 98 then some 8
  else if b = 102 then some 12
  else if b = 110 then some 10
  else if b = 114 then some 13
  else if b = 116 then some 9
  else none

/-- What an escape stands for. -/
def escape : Reading (List UInt8) := do
  match ← peek with
  | none => fail .truncated
  | some b =>
    take
    match simpleEscape? b with
    | some c => return [c]
    | none => if b = 117 then return (String.singleton (← unicodeEscape)).toUTF8.toList else fail .malformed

/-- Passes over an escape. -/
def skipEscape : Reading (List UInt8) := do
  match ← peek with
  | none => fail .truncated
  | some b =>
    take
    if (simpleEscape? b).isSome then return []
    else if b = 117 then let _ ← fourHex; return []
    else fail .malformed

/-- The bytes of a string behind its opening quote, in reverse in front of `done`. -/
def stringBytes (escape : Reading (List UInt8)) : Nat → List UInt8 → Reading (List UInt8)
  | 0, _ => fail .truncated
  | n + 1, done => do
    match ← peek with
    | none => fail .truncated
    | some b =>
      if b = 34 then take; return done
      else if b = 92 then take; stringBytes escape n ((← escape).reverse ++ done)
      else if b < 32 then fail .malformed
      else take; stringBytes escape n (b :: done)

/-- A string behind its opening quote. -/
def stringRest : Reading String := do
  let bytes ← stringBytes escape ((← get).length + 1) []
  match String.fromUTF8? ⟨bytes.reverse.toArray⟩ with
  | some s => return s
  | none => fail .malformed

/-- Passes over a string behind its opening quote. -/
def skipStringRest : Reading Unit := do
  let _ ← stringBytes skipEscape ((← get).length + 1) []

/-! ## Numbers -/

/-- Takes digits into a number as long as it stays below 2 ^ 64; the digits that are left come back. -/
def absorb (n : Nat) : List Nat → Nat × List Nat
  | [] => (n, [])
  | d :: ds => if n * 10 + d < UInt64.size then absorb (n * 10 + d) ds else (n, d :: ds)

/-- The float nearest to a power of ten that has one. -/
def powerOfTen (n : Nat) : Float := Float.ofScientific 1 false n

/-- A float from decimal parts, each step rounded; `none` beyond the largest float. -/
def scale : Nat → Float → Int → Option Float
  | fuel, x, e =>
    if 0 ≤ e then
      if e ≤ 308 then
        let y := x * powerOfTen e.toNat
        if y.isInf then none else some y
      else if x == 0.0 then some x else none
    else if -308 ≤ e then some (x / powerOfTen (-e).toNat)
    else if x == 0.0 then some x
    else match fuel with
      | 0 => some 0.0
      | fuel + 1 => scale fuel (x / powerOfTen 308) (e + 308)

/-- A float with the given sign and decimal parts. -/
def floatOf (negative : Bool) (significand : Nat) (exponent : Int) : Reading Number := do
  match scale 3 significand.toUInt64.toFloat exponent with
  | none => fail .malformed
  | some x => return .float (if negative then -x else x)

/-- An exponent, from its letter on. -/
def exponentPart (negative : Bool) (significand : Nat) (start : Int) : Reading Number := do
  take
  let sign ← peek
  if sign = some 43 ∨ sign = some 45 then take
  match ← peek with
  | none => fail .truncated
  | some b => if !isDigit b then fail .malformed
  let e : Nat := (← digits).foldl (fun n d => n * 10 + d) 0
  if e > 2147483647 then
    if significand ≠ 0 ∧ sign ≠ some 45 then fail .malformed
    else return .float (if negative then -0.0 else 0.0)
  else floatOf negative significand (if sign = some 45 then start - e else start + e)

def startsExponent : Option UInt8 → Bool
  | some b => b = 101 || b = 69
  | none => false

/-- The digits behind a point, from the point on. -/
def decimalPart (negative : Bool) (significand : Nat) (start : Int) : Reading Number := do
  take
  let ds ← digits
  if ds.isEmpty then
    match ← peek with
    | none => fail .truncated
    | some _ => fail .malformed
  let (significand, left) := absorb significand ds
  let exponent := start - (ds.length - left.length : Nat)
  if startsExponent (← peek) then exponentPart negative significand exponent
  else floatOf negative significand exponent

/-- A number behind its sign. -/
def numberRest (negative : Bool) : Reading Number := do
  match ← peek with
  | none => fail .truncated
  | some b => if !isDigit b then fail .malformed
  let ds ← if (← peek) = some 48 then do
      take
      match ← peek with
      | some b => if isDigit b then fail .malformed
      | none => pure ()
      pure [0]
    else digits
  let (significand, left) := absorb 0 ds
  let next ← peek
  if next = some 46 then decimalPart negative significand left.length
  else if startsExponent next then exponentPart negative significand left.length
  else if !left.isEmpty then floatOf negative significand left.length
  else if !negative then return .natural significand
  else if significand = 0 ∨ significand > UInt64.size / 2 then return .float (-significand.toUInt64.toFloat)
  else return .negative significand

/-- Passes over a number behind its sign. -/
def skipNumberRest : Reading Unit := do
  match ← peek with
  | none => fail .malformed
  | some b =>
    if !isDigit b then fail .malformed
    if b = 48 then
      take
      match ← peek with
      | some b => if isDigit b then fail .malformed
      | none => pure ()
    else let _ ← digits
  if (← peek) = some 46 then
    take
    if (← digits).isEmpty then fail .malformed
  if startsExponent (← peek) then
    take
    let sign ← peek
    if sign = some 43 ∨ sign = some 45 then take
    if (← digits).isEmpty then fail .malformed

/-! ## Lists and objects -/

/-- Items up to the closing bracket, each preceded by a comma unless it is the first. -/
def items {α : Type} (item : Reading α) : Nat → Bool → Reading (List α)
  | 0, _ => fail .truncated
  | n + 1, first => do
    match ← peekPast with
    | none => fail .truncated
    | some b =>
      if b = 93 then take; return []
      else
        if !first then
          if b ≠ 44 then fail .malformed
          take
          match ← peekPast with
          | none => fail .truncated
          | some b => if b = 93 then fail .malformed
        let x ← item
        return x :: (← items item n false)

/-- Takes an opening quote and what follows it. -/
def key {κ : Type} (rest : Reading κ) : Reading κ := do
  match ← peekPast with
  | none => fail .truncated
  | some b => if b = 34 then take; rest else fail .malformed

/-- Members up to the closing brace. What is done with a value may depend on its name. -/
def foldMembers {κ σ : Type} (name : Reading κ) (step : σ → κ → Reading σ) : Nat → Bool → σ → Reading σ
  | 0, _, _ => fail .truncated
  | n + 1, first, s => do
    match ← peekPast with
    | none => fail .truncated
    | some b =>
      if b = 125 then take; return s
      else
        if !first then
          if b ≠ 44 then fail .malformed
          take
        let k ← key name
        match ← peekPast with
        | none => fail .truncated
        | some b => if b = 58 then take else fail .malformed
        let s ← step s k
        foldMembers name step n false s

/-- A bound on the number of items that can follow. -/
def bound : Reading Nat := return (← get).length + 1

/-! ## Values -/

/-- A value whose items and members are read by `nested`, if there may be any. -/
def valueWith (nested : Option (Reading Value)) : Reading Value := do
  match ← peekPast with
  | none => fail .truncated
  | some b =>
    if b = 110 then take; letters ['u', 'l', 'l']; return .null
    else if b = 116 then take; letters ['r', 'u', 'e']; return .bool true
    else if b = 102 then take; letters ['a', 'l', 's', 'e']; return .bool false
    else if b = 45 then take; return .number (← numberRest true)
    else if isDigit b then return .number (← numberRest false)
    else if b = 34 then take; return .string (← stringRest)
    else match nested with
      | none => fail .malformed
      | some nested =>
        if b = 91 then take; return .array (← items nested (← bound) true)
        else if b = 123 then
          take
          return .object (← foldMembers stringRest (fun ms k => return insertMember k (← nested) ms) (← bound) true [])
        else fail .malformed

/-- Any value; the argument bounds the nesting. -/
def value : Nat → Reading Value
  | 0 => valueWith none
  | depth + 1 => valueWith (some (value depth))

/-- Passes over any value; the argument bounds the nesting and is to be larger than the text is long. -/
def skip : Nat → Reading Unit
  | 0 => fail .truncated
  | n + 1 => do
    match ← peekPast with
    | none => fail .truncated
    | some b =>
      if b = 110 then take; letters ['u', 'l', 'l']
      else if b = 116 then take; letters ['r', 'u', 'e']
      else if b = 102 then take; letters ['a', 'l', 's', 'e']
      else if b = 45 then take; skipNumberRest
      else if isDigit b then skipNumberRest
      else if b = 34 then take; skipStringRest
      else if b = 91 then take; let _ ← items (skip n) (← bound) true
      else if b = 123 then take; foldMembers skipStringRest (fun _ _ => skip n) (← bound) true ()
      else fail .malformed

/-- Passes over the value in front. -/
def skipValue : Reading Unit := do skip (← bound)

/-! ## Values of a wanted kind -/

/-- The value in front, which starts with `b`, is of another kind. -/
def mistyped {α : Type} (b : UInt8) : Reading α := do
  if b ≠ 91 ∧ b ≠ 123 then let _ ← value 0
  fail .mistyped

/-- A string. -/
def text : Reading String := do
  match ← peekPast with
  | none => fail .truncated
  | some b => if b = 34 then take; stringRest else mistyped b

/-- A natural number below 2 ^ 32. -/
def natural : Reading Nat := do
  match ← peekPast with
  | none => fail .truncated
  | some b =>
    if b = 45 ∨ isDigit b then
      match ← value 0 with
      | .number (.natural n) => if n < UInt32.size then return n else fail .mistyped
      | _ => fail .mistyped
    else mistyped b

/-- Null, or what `r` reads. -/
def optional {α : Type} (r : Reading α) : Reading (Option α) := do
  if (← peekPast) = some 110 then
    take
    letters ['u', 'l', 'l']
    return none
  else return some (← r)

/-- A list; what `item` reads is nested one deeper. -/
def list {α : Type} (depth : Nat) (item : Nat → Reading α) : Reading (List α) := do
  match ← peekPast with
  | none => fail .truncated
  | some b =>
    if b = 91 then
      match depth with
      | depth + 1 => take; items (item depth) (← bound) true
      | 0 => fail .malformed
    else mistyped b

/-- A whole text. -/
def readAll {α : Type} (r : Reading α) (bytes : List UInt8) : Except Fault α :=
  match r bytes with
  | .error f => .error f
  | .ok (x, rest) => if rest.all isBlank then .ok x else .error .malformed

end Reading

/-- The value a text stands for. -/
def parse (text : String) : Except Fault Value := Reading.readAll (Reading.value maxDepth) text.toUTF8.toList

end ScriptBundler.Json
