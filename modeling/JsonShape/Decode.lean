import JsonShape.Json.Raw
import JsonShape.Json.Printer
import JsonShape.Registry

/-!
# Decoding

A decoder takes a JSON text or value as data of one type, or complains about a place in it.
Decoders are built from those for numbers, truth values and strings with `list`, `dictionary`,
`optional` and `record`.

A record reads an object's members in the order of the document and skips names that it does not
know; the properties that are missing are judged afterwards, in the record's own order.  It also
reads an array, by position.  Every complaint carries the trail from the document to its place.
-/

namespace JsonShape

/-- What a decoder complains about. -/
inductive Grievance where
  | wrongType (found : Raw) (expected : String)
  | outOfRange (value : Int) (expected : String)
  | missingField (name : String)
  | repeatedField (name : String)
  | wrongLength (length : Nat) (expected : String)
  | malformed

/-- A grievance and the trail to its place. -/
structure Complaint where
  trail : Trail
  grievance : Grievance

namespace Complaint

/-- A complaint about the decoded value itself. -/
def here (grievance : Grievance) : Complaint := ⟨[], grievance⟩

/-- A complaint about a part, seen from the whole. -/
def inside (step : TrailStep) (complaint : Complaint) : Complaint :=
  ⟨step :: complaint.trail, complaint.grievance⟩

end Complaint

/-- The wording of a value in a complaint. -/
def Raw.describe : Raw → String
  | null => "null"
  | bool b => "boolean `" ++ (if b then "true" else "false") ++ "`"
  | number (.integer n fits) => "integer `" ++ (Number.integer n fits).render ++ "`"
  | number (.double d) => "floating point `" ++ (Number.double d).render ++ "`"
  | string s => "string " ++ Quoting.message.quote s
  | array _ _ => "sequence"
  | object _ _ => "map"
  | unreadable => "unreadable value"
  | broken => "broken text"

/-- The wording of a grievance. -/
def Grievance.describe : Grievance → String
  | wrongType found expected => "invalid type: " ++ found.describe ++ ", expected " ++ expected
  | outOfRange value expected =>
    "invalid value: integer `" ++ String.ofList (integerText value) ++ "`, expected " ++ expected
  | missingField name => "missing field `" ++ name ++ "`"
  | repeatedField name => "duplicate field `" ++ name ++ "`"
  | wrongLength length expected =>
    "invalid length " ++ toString length ++ ", expected " ++ expected
  | malformed => "malformed JSON"

/-- A way to take JSON as data of a type. -/
abbrev Decoder (α : Type) := Raw → Except Complaint α

namespace Decoder

variable {α σ : Type}

/-- The complaint about a value of another type than expected. -/
def wrongType (raw : Raw) (expected : String) : Except Complaint α :=
  match raw with
  | .unreadable | .broken => .error (.here .malformed)
  | _ => .error (.here (.wrongType raw expected))

/-- Any value at all. -/
def any : Decoder Json := fun raw =>
  match raw.value?, raw.flaw? with
  | some value, _ => .ok value
  | none, some trail => .error ⟨trail, .malformed⟩
  | none, none => .error (.here .malformed)

/-- A truth value. -/
def bool : Decoder Bool
  | .bool b => .ok b
  | raw => wrongType raw "a boolean"

/-- A string. -/
def string : Decoder String
  | .string s => .ok s
  | raw => wrongType raw "a string"

/-- A double; an integer is rounded to one. -/
def float : Decoder Double
  | .number (.double d) => .ok d
  | .number (.integer n _) =>
    match Double.ofFraction? (n < 0) n.natAbs 1 with
    | some d => .ok d
    | none => .error (.here (.outOfRange n "f64"))
  | raw => wrongType raw "f64"

/-- An integer between two bounds, under the name of its type. -/
def integer (name : String) (least greatest : Int) : Decoder Int
  | .number (.integer n _) =>
    if least ≤ n ∧ n ≤ greatest then .ok n else .error (.here (.outOfRange n name))
  | raw => wrongType raw name

/-- A byte. -/
def byte : Decoder Int := integer "u8" 0 255

/-- A signed integer of 64 bits. -/
def signed : Decoder Int := integer "i64" (-9223372036854775808) 9223372036854775807

/-- A value or nothing at all. -/
def optional (decoder : Decoder α) : Decoder (Option α)
  | .null => .ok none
  | raw => (decoder raw).map some

/-- The items of an array from a position on. -/
def items (decoder : Decoder α) (closed : Bool) : Nat → List Raw → Except Complaint (List α)
  | _, [] => if closed then .ok [] else .error (.here .malformed)
  | position, item :: rest =>
    match decoder item with
    | .error complaint => .error (complaint.inside (.index position))
    | .ok value => (items decoder closed (position + 1) rest).map (value :: ·)

/-- An array of values of one type. -/
def list (decoder : Decoder α) : Decoder (List α)
  | .array raws closed => items decoder closed 0 raws
  | raw => wrongType raw "a sequence"

/-- The members of an object, the last of a name at the place of its first. -/
def members (decoder : Decoder α) (closed : Bool) :
    List (String × α) → List (Option String × Raw) → Except Complaint (List (String × α))
  | decoded, [] => if closed then .ok decoded else .error (.here .malformed)
  | _, (none, _) :: _ => .error ⟨[.unnamed], .malformed⟩
  | decoded, (some name, raw) :: rest =>
    match decoder raw with
    | .error complaint => .error (complaint.inside (.key name))
    | .ok value => members decoder closed (Entries.put decoded name value) rest

/-- An object whose values are of one type. -/
def dictionary (decoder : Decoder α) : Decoder (List (String × α))
  | .object raws closed => members decoder closed [] raws
  | raw => wrongType raw "a map"

/-! ## Records -/

/-- One property of a record that is built up in a state: whether it is there already, how it is
taken from a value, and what stands for it where it is missing, if anything may. -/
structure Slot (σ : Type) where
  name : String
  isFilled : σ → Bool
  fill : Raw → σ → Except Complaint σ
  absent : σ → Option σ

/-- A property with a decoder, a place in the state, and a default unless it is required. -/
def slot (name : String) (decoder : Decoder α) (get : σ → Option α) (set : α → σ → σ)
    (default? : Option α) : Slot σ where
  name := name
  isFilled state := (get state).isSome
  fill raw state := (decoder raw).map (set · state)
  absent state := default?.map (set · state)

/-- The state after an object's members, in order. -/
def fillMembers (slots : List (Slot σ)) (closed : Bool) :
    σ → List (Option String × Raw) → Except Complaint σ
  | state, [] => if closed then .ok state else .error (.here .malformed)
  | _, (none, _) :: _ => .error ⟨[.unnamed], .malformed⟩
  | state, (some name, raw) :: rest =>
    match slots.find? fun slot => slot.name == name with
    | none =>
      if raw.isWellFormed then fillMembers slots closed state rest
      else .error ⟨[.key name], .malformed⟩
    | some slot =>
      if slot.isFilled state then .error (.here (.repeatedField name))
      else
        match slot.fill raw state with
        | .error complaint => .error (complaint.inside (.key name))
        | .ok filled => fillMembers slots closed filled rest

/-- The state with defaults for the properties that are missing. -/
def fillAbsent : List (Slot σ) → σ → Except Complaint σ
  | [], state => .ok state
  | slot :: rest, state =>
    if slot.isFilled state then fillAbsent rest state
    else
      match slot.absent state with
      | some filled => fillAbsent rest filled
      | none => .error (.here (.missingField slot.name))

/-- The state after the items of an array, one for each property from a position on. -/
def fillItems (expected : String) (closed : Bool) :
    Nat → List (Slot σ) → List Raw → σ → Except Complaint σ
  | _, [], [], state => if closed then .ok state else .error (.here .malformed)
  | position, [], extra, _ =>
    .error (.here (.wrongLength (position + extra.length) "fewer elements in array"))
  | position, slot :: slots, [], state =>
    if closed then
      match slot.absent state with
      | some filled => fillItems expected closed (position + 1) slots [] filled
      | none => .error (.here (.wrongLength position expected))
    else .error (.here .malformed)
  | position, slot :: slots, raw :: rest, state =>
    match slot.fill raw state with
    | .error complaint => .error (complaint.inside (.index position))
    | .ok filled => fillItems expected closed (position + 1) slots rest filled

/-- A record of a name, built up from a state without properties. -/
def record (name : String) (slots : List (Slot σ)) (start : σ) : Decoder σ
  | .object raws closed =>
    match fillMembers slots closed start raws with
    | .ok state => fillAbsent slots state
    | .error complaint => .error complaint
  | .array raws closed =>
    let unit := if slots.length = 1 then " element" else " elements"
    fillItems ("struct " ++ name ++ " with " ++ toString slots.length ++ unit) closed 0 slots raws
      start
  | raw => wrongType raw ("struct " ++ name)

end Decoder

/-! ## Decoding normalized values -/

/-- Why a value of a registered type yields no data. -/
inductive DecodeFailure where
  | undefinedType (missing : UndefinedType)
  | mismatch (name : String) (refusal : Mismatch)
  | undecodable (complaint : Complaint)

/-- The message of a failure. -/
def DecodeFailure.message : DecodeFailure → String
  | undefinedType missing => missing.message
  | mismatch name refusal =>
    "value does not match type `" ++ name ++ "`: " ++ refusal.message
  | undecodable complaint =>
    "at JSON path " ++ complaint.trail.render ++ " → " ++ complaint.grievance.describe

/-- A value normalized to the rule of a name and then decoded. -/
def Registry.decode {α : Type} (registry : Registry) (value : Json) (name : String)
    (decoder : Decoder α) : Except DecodeFailure α :=
  match registry.normalize value name with
  | .error missing => .error (.undefinedType missing)
  | .ok (.error mismatch) => .error (.mismatch name mismatch)
  | .ok (.ok normalized) =>
    match decoder (.ofJson normalized) with
    | .ok data => .ok data
    | .error complaint => .error (.undecodable complaint)

end JsonShape
