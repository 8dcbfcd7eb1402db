import DealersChoice.Json.Basic

/-!
# Writing JSON

The compact form: no blanks, members in their order, and in strings only those characters escaped
that must be. A line feed inside a string is escaped like every control character, so a written
value never contains one.

Values without an exact form in a tree are written as a fixed text of their kind, which reads back
as the same leaf.
-/

namespace DealersChoice

namespace Json

/-- A hexadecimal digit in lower case. -/
def hexDigit (n : Nat) : Char :=
  if n < 10 then Char.ofNat ('0'.toNat + n) else Char.ofNat ('a'.toNat + (n - 10))

/-- A character as it stands inside a string. -/
def escapeChar (c : Char) : List Char :=
  if c = '"' then ['\\', '"']
  else if c = '\\' then ['\\', '\\']
  else if c = '\x08' then ['\\', 'b']
  else if c = '\x0c' then ['\\', 'f']
  else if c = '\n' then ['\\', 'n']
  else if c = '\r' then ['\\', 'r']
  else if c = '\t' then ['\\', 't']
  else if c.toNat < 0x20 then
    ['\\', 'u', '0', '0', hexDigit (c.toNat / 16), hexDigit (c.toNat % 16)]
  else [c]

/-- A string in its quotes. -/
def quote (s : String) : List Char :=
  '"' :: (s.toList.flatMap escapeChar ++ ['"'])

mutual

/-- The characters of a value. -/
def chars : Json → List Char
  | .null => "null".toList
  | .bool true => "true".toList
  | .bool false => "false".toList
  | .int (.ofNat n) => Nat.toDigits 10 n
  | .int (.negSucc n) => '-' :: Nat.toDigits 10 (n + 1)
  | .real => "0.5".toList
  | .unreadable => "1e999".toList
  | .str s => quote s
  | .arr elems => '[' :: (elemsChars elems ++ [']'])
  | .obj members => '{' :: (membersChars members ++ ['}'])

/-- The elements of an array, separated by commas. -/
def elemsChars : List Json → List Char
  | [] => []
  | [v] => chars v
  | v :: rest => chars v ++ ',' :: elemsChars rest

/-- The members of an object, separated by commas. -/
def membersChars : List (String × Json) → List Char
  | [] => []
  | [(k, v)] => quote k ++ ':' :: chars v
  | (k, v) :: rest => quote k ++ ':' :: (chars v ++ ',' :: membersChars rest)

end

/-- The text of a value. -/
def render (v : Json) : String :=
  String.ofList v.chars

end Json

end DealersChoice
