import DealersChoice.Json.Basic

/-!
# Decoding trees

The shapes that typed values take in a tree, each read by one combinator.

* A *record* is an object whose unknown members are skipped, or an array that lists the fields in
  their declared order. In an object a field that is absent stands out (`none`); an array may only
  leave out trailing fields that have a default. A field given twice is an error.
* A *choice* without data is its name, or an object whose one member maps the name to `null`; a
  choice with data is an object with one member.
-/

namespace DealersChoice

namespace Json

/-- A natural number up to a bound. -/
def nat? (bound : Nat) : Json → Option Nat
  | .nat n => if n ≤ bound then some n else none
  | _ => none

/-- A small number: one byte. -/
def byte? : Json → Option Nat := nat? 0xFF

/-- An amount of chips: four bytes. -/
def chips? : Json → Option Nat := nat? 0xFFFFFFFF

/-- An identifier, a position or a size: eight bytes. -/
def count? : Json → Option Nat := nat? maxNat

def str? : Json → Option String
  | .str s => some s
  | _ => none

def bool? : Json → Option Bool
  | .bool b => some b
  | _ => none

/-- An array, each element read by `f`. -/
def list? {α : Type} (f : Json → Option α) : Json → Option (List α)
  | .arr elems => elems.mapM f
  | _ => none

/-- `null`, or a value read by `f`. -/
def optional? {α : Type} (f : Json → Option α) : Json → Option (Option α)
  | .null => some none
  | v => (f v).map some

/-! ### Records -/

/-- The values of a field's members in an object. -/
def occurrences (members : List (String × Json)) (name : String) : List Json :=
  (members.filter (·.1 == name)).map (·.2)

/-- The fields of a record, in declared order; `none` for an absent one. The last `defaulted` fields
may be missing from the end of an array. -/
def fields? (names : List String) (defaulted : Nat) : Json → Option (List (Option Json))
  | .obj members => names.mapM fun name ↦
      match occurrences members name with
      | [] => some none
      | [v] => some (some v)
      | _ => none
  | .arr elems =>
      if elems.length ≤ names.length ∧ names.length ≤ elems.length + defaulted then
        some ((List.range names.length).map (elems[·]?))
      else none
  | _ => none

/-- A field that must be there. -/
def required {α : Type} (f : Json → Option α) (field : Option Json) : Option α :=
  field.bind f

/-- A field that may be absent or `null`. -/
def orNone {α : Type} (f : Json → Option α) : Option Json → Option (Option α)
  | none => some none
  | some v => optional? f v

/-- A field with a default for when it is absent. -/
def orElse {α : Type} (f : Json → Option α) (default : α) : Option Json → Option α
  | none => some default
  | some v => f v

/-! ### Choices -/

/-- The name of a choice and its data, if it carries any. -/
def choice? : Json → Option (String × Option Json)
  | .str name => some (name, none)
  | .obj [(name, data)] => some (name, some data)
  | _ => none

/-- A choice without data, out of a list of names. -/
def oneOf? {α : Type} (names : List (String × α)) (v : Json) : Option α := do
  let (name, data) ← choice? v
  match data with
  | none | some .null => (names.find? (·.1 == name)).map (·.2)
  | some _ => none

end Json

end DealersChoice
