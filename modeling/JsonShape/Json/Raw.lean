import JsonShape.Json.Basic

/-!
# Raw JSON

JSON text as it stands, before it is taken for a value.  Repeated names are kept in order, and
two marks say where a text yields no value.

* `unreadable`: the text is well formed but no value has it, such as a number beyond every
  double, half of a surrogate pair, or a container that is nested too deep.
* `broken`: the text goes wrong here, and nothing behind this place is read.  A container that
  the break is in is not `closed`.  Its last part is broken or, if all of them are whole, the
  container itself is, as where a comma, a colon or the closing bracket is missing.  A name that
  cannot be read counts as a part: a member without a name.

A reader that skips a part of a document needs the part to be `WellFormed` only; one that takes
it as a value needs `value?`, in which a repeated name has its last value at its first place.
`flaw?` is the trail to the first place where a value cannot be taken.
-/

namespace JsonShape

/-- JSON text, with marks where it yields no value. -/
inductive Raw where
  | null
  | bool (value : Bool)
  | number (value : Number)
  | string (value : String)
  | array (items : List Raw) (closed : Bool)
  | object (members : List (Option String × Raw)) (closed : Bool)
  | unreadable
  | broken

/-- A step into a document: into an array by position, or into an object by name.  Where an
object goes wrong before a name is read, the step is unnamed. -/
inductive TrailStep where
  | index (position : Nat)
  | key (name : String)
  | unnamed
  deriving DecidableEq, Repr

/-- The steps that lead from a document to a place in it. -/
abbrev Trail := List TrailStep

namespace Trail

/-- The text of the steps behind the first. -/
def chars : Trail → List Char
  | [] => []
  | .index position :: rest => '[' :: (Nat.toDigits 10 position ++ ']' :: chars rest)
  | .key name :: rest => '.' :: (name.toList ++ chars rest)
  | .unnamed :: rest => '.' :: '?' :: chars rest

/-- The text of a trail: a dot for the document itself, and no dot before a first name. -/
def render : Trail → String
  | [] => "."
  | .index position :: rest => String.ofList (chars (.index position :: rest))
  | step :: rest => String.ofList ((chars (step :: rest)).drop 1)

end Trail

namespace Raw

mutual

/-- Whether a text is well formed. -/
def isWellFormed : Raw → Bool
  | array items closed => closed && areWellFormed items
  | object members closed => closed && membersWellFormed members
  | broken => false
  | _ => true

/-- Whether all items are well formed. -/
def areWellFormed : List Raw → Bool
  | [] => true
  | item :: rest => isWellFormed item && areWellFormed rest

/-- Whether the values of all members are well formed. -/
def membersWellFormed : List (Option String × Raw) → Bool
  | [] => true
  | (_, value) :: rest => isWellFormed value && membersWellFormed rest

end

mutual

/-- The value of a text. -/
def value? : Raw → Option Json
  | null => some .null
  | bool b => some (.bool b)
  | number n => some (.number n)
  | string s => some (.string s)
  | array items closed => if closed then (values? items).map .array else none
  | object members closed =>
    if closed then (entries? members).map fun entries => .object (Entries.collect entries)
    else none
  | unreadable => none
  | broken => none

/-- The values of several texts. -/
def values? : List Raw → Option (List Json)
  | [] => some []
  | item :: rest => (value? item).bind fun value => (values? rest).map (value :: ·)

/-- The members of an object, repeated names included. -/
def entries? : List (Option String × Raw) → Option (List (String × Json))
  | [] => some []
  | (name, raw) :: rest =>
    name.bind fun name => (value? raw).bind fun value =>
      (entries? rest).map ((name, value) :: ·)

end

mutual

/-- The trail to the first place where a value cannot be taken. -/
def flaw? : Raw → Option Trail
  | array items closed => itemFlaw? 0 items closed
  | object members closed => memberFlaw? members closed
  | unreadable => some []
  | broken => some []
  | _ => none

/-- The first flaw among the items from a position on; an array that is broken behind them has
its flaw itself. -/
def itemFlaw? (position : Nat) : List Raw → Bool → Option Trail
  | [], closed => if closed then none else some []
  | item :: rest, closed =>
    match flaw? item with
    | some trail => some (.index position :: trail)
    | none => itemFlaw? (position + 1) rest closed

/-- The first flaw among some members; an object that is broken behind them has its flaw
itself. -/
def memberFlaw? : List (Option String × Raw) → Bool → Option Trail
  | [], closed => if closed then none else some []
  | (none, _) :: _, _ => some [.unnamed]
  | (some name, value) :: rest, closed =>
    match flaw? value with
    | some trail => some (.key name :: trail)
    | none => memberFlaw? rest closed

end

mutual

/-- A value as text. -/
def ofJson : Json → Raw
  | .null => null
  | .bool b => bool b
  | .number n => number n
  | .string s => string s
  | .array items => array (ofItems items) true
  | .object members => object (ofMembers members) true

/-- Several values as texts. -/
def ofItems : List Json → List Raw
  | [] => []
  | item :: rest => ofJson item :: ofItems rest

/-- Members as texts. -/
def ofMembers : List (String × Json) → List (Option String × Raw)
  | [] => []
  | (name, value) :: rest => (some name, ofJson value) :: ofMembers rest

end

end Raw

end JsonShape
