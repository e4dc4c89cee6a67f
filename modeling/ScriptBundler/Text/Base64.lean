/-!
# Base 64

Bytes as text: three bytes are four symbols, and one or two bytes at the end are filled up with equals signs.

* `encode` writes bytes, `decode` reads the symbols and refuses text that `encode` does not write;
* of several faults `decode` names a stray symbol at the very end of a text whose length is one more than a multiple
  of four, else the first bad symbol, and only then a wrong length, wrong filling, or bits that stand for nothing.
-/

namespace ScriptBundler.Text.Base64

/-- The symbol of a number below 64. -/
def symbol (n : Nat) : UInt8 :=
  if n < 26 then (65 + n).toUInt8
  else if n < 52 then (97 + (n - 26)).toUInt8
  else if n < 62 then (48 + (n - 52)).toUInt8
  else if n = 62 then 43
  else 47

/-- The number a symbol stands for. -/
def value? (b : UInt8) : Option Nat :=
  let n := b.toNat
  if 65 ≤ n ∧ n ≤ 90 then some (n - 65)
  else if 97 ≤ n ∧ n ≤ 122 then some (n - 97 + 26)
  else if 48 ≤ n ∧ n ≤ 57 then some (n - 48 + 52)
  else if n = 43 then some 62
  else if n = 47 then some 63
  else none

/-- The filling, an equals sign. -/
def filling : UInt8 := 61

/-- The symbols of bytes. -/
def encodeBytes : List UInt8 → List UInt8
  | a :: b :: c :: rest =>
    let n := a.toNat * 65536 + b.toNat * 256 + c.toNat
    symbol (n / 262144) :: symbol (n / 4096 % 64) :: symbol (n / 64 % 64) :: symbol (n % 64) :: encodeBytes rest
  | [a, b] =>
    let n := a.toNat * 256 + b.toNat
    [symbol (n / 1024), symbol (n / 16 % 64), symbol (n % 16 * 4), filling]
  | [a] => [symbol (a.toNat / 4), symbol (a.toNat % 4 * 16), filling, filling]
  | [] => []

/-- The text of bytes. -/
def encode (bytes : ByteArray) : String :=
  String.ofList ((encodeBytes bytes.toList).map fun b => Char.ofNat b.toNat)

/-- Why a text stands for no bytes. -/
inductive DecodeError where
  /-- A byte that is no symbol, or filling too early, and its place. -/
  | symbol (byte : UInt8) (offset : Nat)
  /-- One symbol is left over behind the given number of symbols. -/
  | length (count : Nat)
  /-- The last symbol has bits that no byte takes. -/
  | last (byte : UInt8) (offset : Nat)
  /-- Too little or too much filling. -/
  | filling
  deriving DecidableEq, Inhabited, Repr

def DecodeError.message : DecodeError → String
  | .symbol b i => "Invalid symbol " ++ toString b.toNat ++ ", offset " ++ toString i ++ "."
  | .length n => "Invalid input length: " ++ toString n
  | .last b i => "Invalid last symbol " ++ toString b.toNat ++ ", offset " ++ toString i ++ "."
  | .filling => "Invalid padding"

/-- The numbers of full groups of symbols, filling refused; `offset` is the place of the first. -/
def values (offset : Nat) : List UInt8 → Except DecodeError (List Nat)
  | [] => .ok []
  | b :: rest => match value? b with
    | none => .error (.symbol b offset)
    | some n => do return n :: (← values (offset + 1) rest)

/-- The bytes of full groups. -/
def joinGroups : List Nat → List UInt8
  | a :: b :: c :: d :: rest =>
    let n := a * 262144 + b * 4096 + c * 64 + d
    (n / 65536).toUInt8 :: (n / 256 % 256).toUInt8 :: (n % 256).toUInt8 :: joinGroups rest
  | _ => []

/-- What was read of the last group: the numbers, where filling began, how much of it, and the last symbol. -/
structure Ending where
  numbers : List Nat := []
  fillingAt : Nat := 0
  fillings : Nat := 0
  lastSymbol : UInt8 := 0

/-- Reads the last group, symbol by symbol. -/
def readEnding (start : Nat) (e : Ending) (index : Nat) : List UInt8 → Except DecodeError Ending
  | [] => .ok e
  | b :: rest =>
    if b = filling then
      if index < 2 then .error (.symbol b (start + index))
      else
        let e := if e.fillings = 0 then { e with fillingAt := index } else e
        readEnding start { e with fillings := e.fillings + 1 } (index + 1) rest
    else if e.fillings > 0 then .error (.symbol filling (start + e.fillingAt))
    else match value? b with
      | none => .error (.symbol b (start + index))
      | some n => readEnding start { e with numbers := e.numbers ++ [n], lastSymbol := b } (index + 1) rest

/-- The bytes of the last group, and what is left of its bits. -/
def endingBytes : List Nat → List UInt8 × Nat
  | [a, b] => ([(a * 4 + b / 16).toUInt8], b % 16)
  | [a, b, c] => ([(a * 4 + b / 16).toUInt8, (b % 16 * 16 + c / 4).toUInt8], c % 4)
  | ns => (joinGroups ns, 0)

/-- The bytes a text stands for. -/
def decodeBytes (input : List UInt8) : Except DecodeError (List UInt8) := do
  let count := input.length
  let excess := count % 4
  match excess, input.getLast? with
  | 1, some b => if b ≠ filling ∧ value? b = none then throw (.symbol b (count - 1))
  | _, _ => pure ()
  let start := count - (if excess = 0 then 4 else excess)
  let full ← values 0 (input.take start)
  let ending ← readEnding start {} 0 (input.drop start)
  if input.isEmpty then return []
  let n := ending.numbers.length
  if n < 2 then throw (.length (start + n))
  if (n + ending.fillings) % 4 ≠ 0 then throw .filling
  let (bytes, left) := endingBytes ending.numbers
  if left ≠ 0 then throw (.last ending.lastSymbol (start + n - 1))
  return joinGroups full ++ bytes

/-- The bytes a text stands for. -/
def decode (text : String) : Except DecodeError ByteArray := do
  return ⟨(← decodeBytes text.toUTF8.toList).toArray⟩

end ScriptBundler.Text.Base64
