/-!
# JSON trees

The tree that rules documents, table settings, hand records and answers are read from and written
to. Members of an object keep their order, and a repeated key keeps every occurrence: whether a
repetition matters is for the reader of the tree to say.

## Numbers

Every number this library reads or writes is an integer of at most 64 bits, so that is the only
kind whose value is kept. A number with a point or an exponent, or with more digits, is `real`: it
has its place in a tree, and nothing decodes from it.

## Leaves without a meaning

JSON's grammar admits texts that denote nothing: a number beyond every finite magnitude, or a
string with half of a surrogate pair. Such a leaf is `unreadable`. It is harmless where a member
is skipped and refused everywhere else.
-/

namespace DealersChoice

/-- A JSON value. -/
inductive Json where
  | null
  | bool (b : Bool)
  | int (n : Int)
  | real
  | unreadable
  | str (s : String)
  | arr (elems : List Json)
  | obj (members : List (String × Json))
  deriving Inhabited

namespace Json

/-- A natural number. -/
@[match_pattern] abbrev nat (n : Nat) : Json := .int (.ofNat n)

/-- The largest integer of a tree. -/
def maxNat : Nat := 0xFFFFFFFFFFFFFFFF

/-- The largest magnitude of a negative integer of a tree. -/
def maxNegative : Nat := 0x8000000000000000

/-- `null` for an absent value. -/
def ofOption {α : Type} (f : α → Json) : Option α → Json
  | none => .null
  | some a => f a

/-- An array with one element per element of the list. -/
def ofList {α : Type} (f : α → Json) (l : List α) : Json :=
  .arr (l.map f)

/-- The first member of that name, when the value is an object that has one. -/
def member? (key : String) : Json → Option Json
  | .obj members => (members.find? (·.1 == key)).map (·.2)
  | _ => none

end Json

end DealersChoice
