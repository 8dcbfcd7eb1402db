import DealersChoice.Json.Token

/-!
# Reading a JSON text

A machine with a stack consumes the tokens one by one: each open array or object is a frame, and
the phase says what may come next. The stack makes nesting explicit, so reading is a fold over the
tokens and needs neither recursion on depth nor fuel.

## Two manners of reading

* `Manner.tree`: the text becomes a tree before anybody asks what it means. Every leaf must denote
  something, nesting is limited, and a repeated key keeps its last value.
* `Manner.record`: the text is read for one kind of record. Members that the record does not know
  are skipped, so a leaf without a meaning may stand there at any depth, and every occurrence of a
  repeated key is kept, because a record refuses a field that is given twice.
-/

namespace DealersChoice

namespace Json

/-- How a text is read. -/
inductive Manner where
  | tree
  | record
  deriving DecidableEq

/-- How deep a tree may nest. -/
def maxDepth : Nat := 127

/-- An array or object that is still open. Its parts are held last one first. -/
inductive Frame where
  | array (elems : List Json)
  | object (members : List (String × Json)) (key : Option String) (readable : Bool)

/-- What may come next. -/
inductive Phase where
  | value
  /-- A value, or the end of an array that has just been opened. -/
  | valueOrClose
  | key
  /-- A key, or the end of an object that has just been opened. -/
  | keyOrClose
  | colon
  /-- A comma, or the end of what is open. -/
  | separator
  | done (result : Json)

/-- The state of the machine. -/
structure Machine where
  frames : List Frame := []
  phase : Phase := .value

/-- Keeps the last of the members with equal keys. The list is in reverse, so the last one written
comes first. -/
def lastWins (members : List (String × Json)) : List (String × Json) :=
  members.foldr (fun m kept ↦ m :: kept.filter (·.1 != m.1)) []

/-- The object of members that are held last one first. -/
def closeObject (manner : Manner) (members : List (String × Json)) (readable : Bool) : Json :=
  if !readable then .unreadable
  else match manner with
    | .tree => .obj (lastWins members).reverse
    | .record => .obj members.reverse

/-- A value is complete: it goes into the innermost open frame. -/
def Machine.place (m : Machine) (v : Json) : Machine :=
  match m.frames with
  | [] => { frames := [], phase := .done v }
  | .array elems :: rest => { frames := .array (v :: elems) :: rest, phase := .separator }
  | .object members key readable :: rest =>
    let members := match key with
      | some k => (k, v) :: members
      | none => members
    { frames := .object members none readable :: rest, phase := .separator }

/-- Opens a frame, if the nesting allows one more. -/
def Machine.enter (m : Machine) (manner : Manner) (frame : Frame) (phase : Phase) :
    Option Machine :=
  if manner = .tree ∧ maxDepth ≤ m.frames.length then none
  else some { frames := frame :: m.frames, phase }

/-- Closes the innermost frame. -/
def Machine.leave (m : Machine) (manner : Manner) (close : Token) : Option Machine :=
  match close, m.frames with
  | .closeBracket, .array elems :: rest =>
    some (Machine.place { m with frames := rest } (.arr elems.reverse))
  | .closeBrace, .object members _ readable :: rest =>
    some (Machine.place { m with frames := rest } (closeObject manner members readable))
  | _, _ => none

/-- A leaf, unless it denotes nothing in a tree. -/
def Machine.leaf (m : Machine) (manner : Manner) (v : Json) : Option Machine :=
  match manner, v with
  | .tree, .unreadable => none
  | _, _ => some (m.place v)

/-- The start of a value. -/
def Machine.value (m : Machine) (manner : Manner) : Token → Option Machine
  | .atom v => m.leaf manner v
  | .text (some s) => m.leaf manner (.str s)
  | .text none => m.leaf manner .unreadable
  | .openBracket => m.enter manner (.array []) .valueOrClose
  | .openBrace => m.enter manner (.object [] none true) .keyOrClose
  | _ => none

/-- A key. One without a meaning spoils the whole object. -/
def Machine.key (m : Machine) (manner : Manner) : Token → Option Machine
  | .text key =>
    match m.frames with
    | .object members _ readable :: rest =>
      if manner = .tree ∧ key.isNone then none
      else some { frames := .object members key (readable && key.isSome) :: rest, phase := .colon }
    | _ => none
  | _ => none

/-- What follows a comma: another element or another key. -/
def Machine.next (m : Machine) : Option Machine :=
  match m.frames with
  | .array _ :: _ => some { m with phase := .value }
  | .object _ _ _ :: _ => some { m with phase := .key }
  | [] => none

/-- One token further. -/
def Machine.step (manner : Manner) (m : Machine) (t : Token) : Option Machine :=
  match m.phase with
  | .value => m.value manner t
  | .valueOrClose =>
    match t with
    | .closeBracket => m.leave manner t
    | _ => m.value manner t
  | .key => m.key manner t
  | .keyOrClose =>
    match t with
    | .closeBrace => m.leave manner t
    | _ => m.key manner t
  | .colon =>
    match t with
    | .colon => some { m with phase := .value }
    | _ => none
  | .separator =>
    match t with
    | .comma => m.next
    | _ => m.leave manner t
  | .done _ => none

/-- The value, once every frame is closed. -/
def Machine.result? (m : Machine) : Option Json :=
  match m.phase with
  | .done v => some v
  | _ => none

/-- Reads a text as a single value. -/
def read (manner : Manner) (text : String) : Option Json :=
  (tokens? text.toList).bind fun tokens ↦
    (tokens.foldlM (Machine.step manner) {}).bind Machine.result?

end Json

end DealersChoice
