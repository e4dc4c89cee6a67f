/-!
# Debug identifiers

An identifier is thirty-two hexadecimal digits, with or without hyphens, perhaps with an appendix of up to eight; or a
time stamp of eight with such an appendix. `canonical?` is its one written form.
-/

namespace ScriptBundler.DebugId

def isHex (c : Char) : Bool := c.isDigit || ('a' ≤ c && c ≤ 'f') || ('A' ≤ c && c ≤ 'F')

/-- Hexadecimal digits without leading zeros, in lower case; `none` unless there are one to eight. -/
def appendix? (cs : List Char) : Option (List Char) :=
  if cs.isEmpty ∨ ¬ cs.all isHex then none
  else match cs.dropWhile (· = '0') with
    | [] => some ['0']
    | ds => if ds.length ≤ 8 then some (ds.map Char.toLower) else none

/-- The thirty-two digits of an identifier. -/
def digits? (hyphens : Bool) (cs : List Char) : Option (List Char) :=
  let groups := [cs.take 8, (cs.drop 9).take 4, (cs.drop 14).take 4, (cs.drop 19).take 4, (cs.drop 24).take 12]
  let marks := [cs[8]?, cs[13]?, cs[18]?, cs[23]?]
  let ds := if hyphens then groups.flatten else cs
  if ds.length = 32 ∧ ds.all isHex ∧ (¬ hyphens ∨ marks.all (· = some '-')) then some (ds.map Char.toLower) else none

/-- Digits in the groups of the written form. -/
def grouped (ds : List Char) : List Char :=
  ds.take 8 ++ '-' :: (ds.drop 8).take 4 ++ '-' :: (ds.drop 12).take 4 ++ '-' :: (ds.drop 16).take 4 ++
    '-' :: ds.drop 20

/-- The written form of an identifier. -/
def canonical? (text : String) : Option String :=
  let cs := text.toList
  let hyphens := cs[8]? = some '-'
  let size := cs.length
  if (if hyphens then 10 else 9) ≤ size ∧ size ≤ (if hyphens then 17 else 16) then
    match appendix? (cs.take 8), appendix? (cs.drop (if hyphens then 9 else 8)) with
    | some _, some tail => some (String.ofList ((cs.take 8).map Char.toUpper ++ '-' :: tail))
    | _, _ => none
  else
    let width := if hyphens then 36 else 32
    match digits? hyphens (cs.take width) with
    | none => none
    | some ds =>
      let tail := cs.drop width
      if tail.isEmpty then some (String.ofList (grouped ds))
      else if hyphens ∧ tail.head? ≠ some '-' then none
      else match appendix? (if hyphens then tail.drop 1 else tail) with
        | some ['0'] => some (String.ofList (grouped ds))
        | some a => some (String.ofList (grouped ds ++ '-' :: a))
        | none => none

end ScriptBundler.DebugId
