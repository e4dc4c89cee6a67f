/-!
# The shortest decimals of floats

A float stands for all reals that round to it. `shortest` finds the decimal with the fewest digits among them, and of
two such the one nearer to the float itself, an exact tie going to the even digit.

`layout` writes digits out: with a point while the point stands at most sixteen places behind the first digit and
at most five in front of it, else with an exponent.
-/

namespace ScriptBundler.Decimal

/-- The positive real `mantissa * 2 ^ exponent`, and whether the next float below is only half as far away as the next
one above. -/
structure Binary where
  mantissa : Nat
  exponent : Int
  narrowBelow : Bool

/-- A positive finite float as a real. -/
def Binary.ofFloat (x : Float) : Binary :=
  let bits : Nat := x.toBits.toNat
  let fraction : Nat := bits % Nat.pow 2 52
  let e : Nat := bits / Nat.pow 2 52 % Nat.pow 2 11
  if e = 0 then ⟨fraction, -1074, false⟩
  else ⟨Nat.pow 2 52 + fraction, (e : Int) - 1075, fraction = 0 && 1 < e⟩

/-- The quotient of two positive rationals `n / d` and `10 ^ k` as a fraction of naturals. -/
def shift (n d : Nat) (k : Int) : Nat × Nat :=
  if 0 ≤ k then (n, d * Nat.pow 10 k.toNat) else (n * Nat.pow 10 (-k).toNat, d)

/-- A decimal: `digits * 10 ^ exponent`. -/
structure Digits where
  digits : Nat
  exponent : Int
  deriving DecidableEq, Inhabited

/-- The four times finer numerators of the interval that rounds to the real, and their denominator. -/
def Binary.interval (b : Binary) : Nat × Nat × Nat × Nat :=
  let low := 4 * b.mantissa - (if b.narrowBelow then 1 else 2)
  let (up, down) := if 0 ≤ b.exponent then (Nat.pow 2 b.exponent.toNat, 4) else (1, 4 * Nat.pow 2 (-b.exponent).toNat)
  (low * up, 4 * b.mantissa * up, (4 * b.mantissa + 2) * up, down)

/-- The multiple of `10 ^ k` nearest to the real among those that round to it. -/
def Binary.onGrid (b : Binary) (k : Int) : Option Digits :=
  let (low, mid, high, down) := b.interval
  let (n, d) := shift mid down k
  let q := n / d
  let inside (m : Nat) : Bool :=
    let (l, ld) := shift low down k
    let (h, hd) := shift high down k
    if b.mantissa % 2 = 0 then l ≤ m * ld && m * hd ≤ h else l < m * ld && m * hd < h
  let above := n - q * d
  match 0 < q && inside q, inside (q + 1) with
  | true, false => some ⟨q, k⟩
  | false, true => some ⟨q + 1, k⟩
  | true, true =>
    if 2 * above < d then some ⟨q, k⟩
    else if 2 * above > d then some ⟨q + 1, k⟩
    else some ⟨if q % 2 = 0 then q else q + 1, k⟩
  | false, false => none

/-- The first grid, from the coarsest on, with a multiple that rounds to the real. -/
def Binary.search (b : Binary) : Nat → Int → Digits
  | 0, k => (b.onGrid k).getD ⟨0, 0⟩
  | n + 1, k => match b.onGrid k with
    | some r => r
    | none => b.search n (k - 1)

/-- The shortest decimal of a positive finite float. Grids finer than 17 digits are never needed, and no float is as
large as `10 ^ 309`. -/
def shortest (x : Float) : Digits := (Binary.ofFloat x).search 660 309

/-- Digits with their point or exponent. -/
def layout (d : Digits) : String :=
  let ds := toString d.digits
  let point : Int := ds.length + d.exponent
  if 0 ≤ d.exponent ∧ point ≤ 16 then ds ++ String.ofList (List.replicate d.exponent.toNat '0') ++ ".0"
  else if 0 < point ∧ point ≤ 16 then
    String.ofList (ds.toList.take point.toNat) ++ "." ++ String.ofList (ds.toList.drop point.toNat)
  else if -5 < point ∧ point ≤ 0 then "0." ++ String.ofList (List.replicate (-point).toNat '0') ++ ds
  else
    let tail := ds.toList.drop 1
    String.ofList (ds.toList.take 1) ++ (if tail.isEmpty then "" else "." ++ String.ofList tail) ++ "e" ++
      toString (point - 1)

/-- The text of a finite float. -/
def ofFloat (x : Float) : String :=
  (if x.toBits.toNat ≥ UInt64.size / 2 then "-" else "") ++ (if x == 0.0 then "0.0" else layout (shortest x))

end ScriptBundler.Decimal
