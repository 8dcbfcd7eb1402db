import DealersChoice.Card

/-!
# Card notation

How players write cards: a rank's symbol or name, a suit's letter or name, two characters for a
card, and cards separated by blanks. Letter case does not matter, for the letters of ASCII.

A rank may also be written as a number from 2 to 9. Such a number is read like any small number: a
plus sign and leading zeros are allowed.
-/

namespace DealersChoice

/-- Why a text is not what it should name. -/
inductive NotationError where
  | badCard (text : String)
  /-- The text in upper case. -/
  | unknownRank (text : String)
  /-- The text in lower case. -/
  | unknownSuit (text : String)
  | unknownPolicy (text : String)
  deriving DecidableEq, Repr

namespace NotationError

def message : NotationError → String
  | badCard text => "bad card `" ++ text ++ "`"
  | unknownRank text => "unknown rank `" ++ text ++ "`"
  | unknownSuit text => "unknown suit `" ++ text ++ "`"
  | unknownPolicy text => "unknown evaluation type `" ++ text ++ "`"

end NotationError

/-- The suit that a text names. -/
def Suit.ofText? (text : String) : Except NotationError Suit :=
  let lower := String.ofList (text.toList.map Char.toLower)
  if lower = "c" ∨ lower = "clubs" then .ok .clubs
  else if lower = "d" ∨ lower = "diamonds" then .ok .diamonds
  else if lower = "h" ∨ lower = "hearts" then .ok .hearts
  else if lower = "s" ∨ lower = "spades" then .ok .spades
  else .error (.unknownSuit lower)

/-- The value of a text of decimal digits, which a plus sign may precede. -/
def decimal? (text : List Char) : Option Nat :=
  let digits := if text.head? == some '+' then text.drop 1 else text
  if digits.isEmpty || !digits.all Char.isDigit then none
  else some (digits.foldl (fun n c ↦ n * 10 + (c.toNat - '0'.toNat)) 0)

/-- The rank that a text names. -/
def Rank.ofText? (text : String) : Except NotationError Rank :=
  let upper := String.ofList (text.toList.map Char.toUpper)
  if upper = "A" ∨ upper = "ACE" then .ok .ace
  else if upper = "K" ∨ upper = "KING" then .ok .king
  else if upper = "Q" ∨ upper = "QUEEN" then .ok .queen
  else if upper = "J" ∨ upper = "JACK" then .ok .jack
  else if upper = "T" ∨ upper = "10" ∨ upper = "TEN" then .ok .ten
  else if upper = "*" ∨ upper = "JOKER" then .ok .joker
  else
    let small := (decimal? upper.toList).filter fun v ↦ 2 ≤ v && v ≤ 9
    match small.bind Rank.ofValue? with
    | some rank => .ok rank
    | none => .error (.unknownRank upper)

/-- The card that two characters name: first its rank, then its suit. -/
def Card.ofText? (text : String) : Except NotationError Card :=
  match text.toList with
  | [r, s] => do
    let rank ← Rank.ofText? (String.singleton r)
    let suit ← Suit.ofText? (String.singleton s)
    return { suit := suit, rank := rank }
  | _ => .error (.badCard text)

/-- The characters that separate words. -/
def isSeparator (c : Char) : Bool :=
  let n := c.toNat
  (0x09 ≤ n && n ≤ 0x0D) || n == 0x20 || n == 0x85 || n == 0xA0 || n == 0x1680
    || (0x2000 ≤ n && n ≤ 0x200A) || n == 0x2028 || n == 0x2029 || n == 0x202F || n == 0x205F
    || n == 0x3000

/-- The longest runs of characters without a separator. -/
def words (text : List Char) : List (List Char) :=
  go text []
where
  go : List Char → List Char → List (List Char)
    | [], word => if word.isEmpty then [] else [word.reverse]
    | c :: rest, word =>
      if isSeparator c then
        if word.isEmpty then go rest [] else word.reverse :: go rest []
      else go rest (c :: word)

/-- The cards that a text lists. The first word that is no card decides the error. -/
def cardsOfText? (text : String) : Except NotationError (List Card) :=
  (words text.toList).mapM fun word ↦ Card.ofText? (String.ofList word)

/-- Cards in their two-character notation, one blank between them. -/
def cardsText (cards : List Card) : String :=
  String.intercalate " " (cards.map Card.text)

end DealersChoice
