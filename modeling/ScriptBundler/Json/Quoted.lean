/-!
# Quoted strings

A string between quotes: quotes and backslashes get a backslash in front, control characters are written as escapes,
and all else stands for itself.
-/

namespace ScriptBundler.Json

/-- The escape of a character that cannot stand for itself. -/
def escaped (c : Char) : List Char :=
  if c = '\x22' then ['\\', '\x22']
  else if c = '\\' then ['\\', '\\']
  else if c = '\x08' then ['\\', 'b']
  else if c = '\x0c' then ['\\', 'f']
  else if c = '\n' then ['\\', 'n']
  else if c = '\r' then ['\\', 'r']
  else if c = '\t' then ['\\', 't']
  else if c.toNat < 32 then
    ['\\', 'u', '0', '0', Nat.digitChar (c.toNat / 16), Nat.digitChar (c.toNat % 16)]
  else [c]

/-- A string between quotes. -/
def quote (s : String) : String := "\"" ++ String.ofList (s.toList.flatMap escaped) ++ "\""

/-- A list of texts between brackets. -/
def bracket (items : List String) : String := "[" ++ String.intercalate "," items ++ "]"

/-- An object with the given names and texts. -/
def brace (members : List (String × String)) : String :=
  "\x7b" ++ String.intercalate "," (members.map fun (name, text) => quote name ++ ":" ++ text) ++ "\x7d"

end ScriptBundler.Json
