import ScriptBundler.SourceMap.Basic
import ScriptBundler.Text.Base64

/-!
# Numbers of mappings

A segment of mappings is a row of integers. Each is written with its sign in the lowest bit, five bits to a symbol,
lowest bits first, and a sixth bit where more symbols follow.
-/

namespace ScriptBundler.Vlq

/-- The digits of a number, five bits each; the argument bounds their number. -/
def digits : Nat → Nat → List Nat
  | 0, _ => []
  | fuel + 1, n => if n < 32 then [n] else (n % 32 + 32) :: digits fuel (n / 32)

/-- The symbols of an integer. -/
def encode (n : Int) : List Char :=
  let m := if n < 0 then 2 * n.natAbs + 1 else 2 * n.natAbs
  (digits (m + 1) m).map fun d => Char.ofNat (Text.Base64.symbol d).toNat

/-- Integers of 64 bits. -/
def wrap (n : Int) : Int := n.bmod UInt64.size

/-- The integer whose bits are `n`, sign lowest. -/
def signed (n : Int) : Int := if n % 2 = 0 then n / 2 else wrap (-(n / 2))

/-- Reads the bits of a row of integers. A byte that is no symbol counts as five set bits with more to follow. -/
def read (current : Int) (shift : Nat) : List UInt8 → Except MapFault (List Int)
  | [] => if current ≠ 0 ∨ shift ≠ 0 then .error .unfinishedNumber else .ok []
  | b :: rest =>
    let (bits, more) : Int × Bool := match Text.Base64.value? b with
      | some n => (n % 32, 32 ≤ n)
      | none => (31, true)
    if shift ≥ 64 then .error .hugeNumber
    else
      let current := wrap (current + wrap (bits * Int.pow 2 shift))
      if more then read current (shift + 5) rest
      else do return signed current :: (← read 0 0 rest)

/-- The integers of a segment. -/
def decode (segment : List UInt8) : Except MapFault (List Int) := do
  match ← read 0 0 segment with
  | [] => .error .noNumbers
  | ns => .ok ns

end ScriptBundler.Vlq
