import DealersChoice.Json.Basic

/-!
# Tokens of a JSON text

The scanner walks the text one character at a time with a small state: between tokens, inside a
bare word, inside a string, inside an escape. A bare word is the longest run of characters that
are neither blanks, quotes nor punctuation, and it is judged as a whole once it ends: it is one of
the three literals or a number, or the text is no JSON.

## What a string denotes

A `\u` escape gives a unit of sixteen bits. A leading surrogate joins with a trailing one that
follows it at once; any other surrogate leaves the string without a meaning (`none`), which is
still a token. A raw control character, or an escape that the grammar does not know, is an error.

## How long a number may be

A number is an integer when it is written without point and exponent and fits 64 bits; minus zero
is none. Magnitudes are limited to those of a double: see `Numeral.overflows`.
-/

namespace DealersChoice

namespace Json

/-- A lexical unit. Literals and numbers are whole values already; a string is kept apart because
it may be a key. -/
inductive Token where
  | openBracket
  | closeBracket
  | openBrace
  | closeBrace
  | comma
  | colon
  | atom (value : Json)
  | text (value? : Option String)

/-! ### Numbers -/

/-- A number as it is written: sign, whole part, fraction and exponent. -/
structure Numeral where
  negative : Bool
  whole : List Char
  fraction : List Char
  exponent : Int
  /-- Neither point nor exponent. -/
  plain : Bool

/-- The number a run of decimal digits denotes. -/
def ofDigits (digits : List Char) : Nat :=
  digits.foldl (fun n c ↦ n * 10 + (c.toNat - '0'.toNat)) 0

/-- A whole part is a single zero or starts with another digit. -/
def isWholePart : List Char → Bool
  | [] => false
  | ['0'] => true
  | c :: rest => c != '0' && c.isDigit && rest.all Char.isDigit

/-- The digits of an exponent, after its optional sign. -/
def exponent? : List Char → Option Int
  | '+' :: digits => magnitude digits
  | '-' :: digits => (magnitude digits).map (- ·)
  | digits => magnitude digits
where
  magnitude (digits : List Char) : Option Int :=
    if !digits.isEmpty && digits.all Char.isDigit then some (ofDigits digits : Nat) else none

/-- Reads a bare word as a number. -/
def Numeral.ofWord? (word : List Char) : Option Numeral := do
  let negative := word.head? == some '-'
  let unsigned := if negative then word.drop 1 else word
  let (mantissa, tail) := unsigned.span fun c ↦ c != 'e' && c != 'E'
  let (whole, point) := mantissa.span (· != '.')
  guard (isWholePart whole)
  let fraction := point.drop 1
  guard (point.isEmpty || (!fraction.isEmpty && fraction.all Char.isDigit))
  let exponent ← if tail.isEmpty then some 0 else exponent? (tail.drop 1)
  return { negative, whole, fraction, exponent, plain := point.isEmpty && tail.isEmpty }

/-- The leading digits that fit 64 bits, as a number, and how many they are. -/
def leadingDigits (digits : List Char) : Nat × Nat :=
  go digits 0 0
where
  go : List Char → Nat → Nat → Nat × Nat
    | [], n, count => (n, count)
    | c :: rest, n, count =>
      let longer := n * 10 + (c.toNat - '0'.toNat)
      if longer ≤ maxNat then go rest longer (count + 1) else (n, count)

/-- A natural number rounded to 53 significant bits, a half going to the even neighbour. -/
def roundToDouble (n : Nat) : Nat :=
  if n.log2 < 53 then n else
    let unit := 1 <<< (n.log2 - 52)
    let kept := n / unit
    let dropped := n % unit
    if unit < 2 * dropped || (unit == 2 * dropped && kept % 2 == 1)
    then (kept + 1) * unit else kept * unit

/-- The least number that is rounded beyond every finite double: half a unit above the largest. -/
def infinityThreshold : Nat :=
  (1 <<< 1024) - (1 <<< 970)

/-- Whether the number lies beyond every finite double. The significand is what the first 64 bits
of digits hold; both it and the power of ten are rounded before they are multiplied. -/
def Numeral.overflows (n : Numeral) : Bool :=
  let (significand, used) := leadingDigits (n.whole ++ n.fraction)
  let scale : Int := n.exponent + n.whole.length - used
  if significand = 0 ∨ scale ≤ 0 then false
  else if 308 < scale then true
  else infinityThreshold ≤
    roundToDouble significand * roundToDouble (ofDigits ('1' :: List.replicate scale.toNat '0'))

/-- The integer that a number denotes, if it is written as one and fits. -/
def Numeral.toInt? (n : Numeral) : Option Int :=
  let magnitude := ofDigits n.whole
  if !n.plain then none
  else if !n.negative then (if magnitude ≤ maxNat then some magnitude else none)
  else if 0 < magnitude ∧ magnitude ≤ maxNegative then some (-magnitude)
  else none

/-- The tree of a number. -/
def Numeral.toJson (n : Numeral) : Json :=
  match n.toInt? with
  | some i => .int i
  | none => if n.overflows then .unreadable else .real

/-- The value of a bare word: a literal or a number. -/
def ofWord? (word : List Char) : Option Json :=
  if word = ['n', 'u', 'l', 'l'] then some .null
  else if word = ['t', 'r', 'u', 'e'] then some (.bool true)
  else if word = ['f', 'a', 'l', 's', 'e'] then some (.bool false)
  else (Numeral.ofWord? word).map Numeral.toJson

/-! ### Strings -/

/-- The part of a string read so far. -/
structure Quoted where
  /-- Characters read, last one first. -/
  chars : List Char := []
  /-- A leading surrogate that waits for its partner. -/
  leading? : Option Nat := none
  /-- Every surrogate so far has found its partner. -/
  paired : Bool := true

/-- Adds a character that is written as itself or by a short escape. -/
def Quoted.push (q : Quoted) (c : Char) : Quoted :=
  { chars := c :: q.chars, leading? := none, paired := q.paired && q.leading?.isNone }

/-- Adds a unit that is written as a `\u` escape. -/
def Quoted.pushUnit (q : Quoted) (unit : Nat) : Quoted :=
  match q.leading? with
  | some leading =>
    if 0xDC00 ≤ unit ∧ unit ≤ 0xDFFF then
      { q with
        chars := Char.ofNat (0x10000 + (leading - 0xD800) * 0x400 + (unit - 0xDC00)) :: q.chars
        leading? := none }
    else { q with paired := false, leading? := none }
  | none =>
    if 0xD800 ≤ unit ∧ unit ≤ 0xDBFF then { q with leading? := some unit }
    else if 0xDC00 ≤ unit ∧ unit ≤ 0xDFFF then { q with paired := false }
    else q.push (Char.ofNat unit)

/-- The string, if all its surrogates are paired. -/
def Quoted.close (q : Quoted) : Option String :=
  if q.paired && q.leading?.isNone then some (String.ofList q.chars.reverse) else none

/-- What a one-letter escape stands for. -/
def shortEscape? : Char → Option Char
  | '"' => some '"'
  | '\\' => some '\\'
  | '/' => some '/'
  | 'b' => some '\x08'
  | 'f' => some '\x0c'
  | 'n' => some '\n'
  | 'r' => some '\r'
  | 't' => some '\t'
  | _ => none

/-- The value of a hexadecimal digit. -/
def hexDigit? (c : Char) : Option Nat :=
  if c.isDigit then some (c.toNat - '0'.toNat)
  else if 'a' ≤ c ∧ c ≤ 'f' then some (c.toNat - 'a'.toNat + 10)
  else if 'A' ≤ c ∧ c ≤ 'F' then some (c.toNat - 'A'.toNat + 10)
  else none

/-! ### The scanner -/

/-- Blanks between tokens. -/
def isBlank (c : Char) : Bool :=
  c == ' ' || c == '\t' || c == '\n' || c == '\r'

/-- The token of a punctuation character. -/
def punctuation? : Char → Option Token
  | '[' => some .openBracket
  | ']' => some .closeBracket
  | '{' => some .openBrace
  | '}' => some .closeBrace
  | ',' => some .comma
  | ':' => some .colon
  | _ => none

/-- Where the scanner stands. -/
inductive Scan where
  | between
  /-- Inside a bare word, whose characters are held last one first. -/
  | word (chars : List Char)
  | quoted (q : Quoted)
  /-- After a backslash. -/
  | escape (q : Quoted)
  /-- Inside a `\u` escape that lacks `missing + 1` digits. -/
  | unit (q : Quoted) (missing : Nat) (value : Nat)

/-- The scanner: the tokens found so far, last one first, and where it stands. -/
structure Scanner where
  tokens : List Token := []
  scan : Scan := .between

/-- Ends the bare word in progress, if there is one. -/
def Scanner.endWord (s : Scanner) : Option Scanner :=
  match s.scan with
  | .word chars => (ofWord? chars.reverse).map fun v ↦ { tokens := .atom v :: s.tokens }
  | _ => some s

/-- A character outside strings. -/
def Scanner.plain (s : Scanner) (c : Char) : Option Scanner :=
  if isBlank c then s.endWord
  else if c == '"' then s.endWord.map fun s ↦ { s with scan := .quoted {} }
  else match punctuation? c with
    | some t => s.endWord.map fun s ↦ { s with tokens := t :: s.tokens }
    | none => match s.scan with
      | .word chars => some { s with scan := .word (c :: chars) }
      | _ => some { s with scan := .word [c] }

/-- One character further. -/
def Scanner.step (s : Scanner) (c : Char) : Option Scanner :=
  match s.scan with
  | .between | .word _ => s.plain c
  | .quoted q =>
    if c == '"' then some { tokens := .text q.close :: s.tokens }
    else if c == '\\' then some { s with scan := .escape q }
    else if c.toNat < 0x20 then none
    else some { s with scan := .quoted (q.push c) }
  | .escape q =>
    if c == 'u' then some { s with scan := .unit q 3 0 }
    else (shortEscape? c).map fun d ↦ { s with scan := .quoted (q.push d) }
  | .unit q missing value =>
    (hexDigit? c).map fun d ↦
      match missing with
      | 0 => { s with scan := .quoted (q.pushUnit (value * 16 + d)) }
      | m + 1 => { s with scan := .unit q m (value * 16 + d) }

/-- The tokens once the text has ended. -/
def Scanner.finish (s : Scanner) : Option (List Token) :=
  match s.scan with
  | .between => some s.tokens.reverse
  | .word _ => s.endWord.map (·.tokens.reverse)
  | _ => none

/-- The tokens of a text. -/
def tokens? (text : List Char) : Option (List Token) :=
  (text.foldlM Scanner.step {}).bind Scanner.finish

end Json

end DealersChoice
