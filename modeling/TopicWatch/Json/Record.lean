import TopicWatch.Json.Form

/-!
# Records in JSON

A record is written as an object of its fields. It is read from an object, in which the
fields may stand in any order among others of unknown names, and from an array of the
values of its fields in order.
-/

namespace TopicWatch.Json

/-- A field of a record: its name, the form of its values, and the value it takes where it
is missing from an object or where an array ends before it. -/
structure Field (α : Type) where
  name : String
  form : Form α
  whenMissing : Option α
  whenShort : Option α

namespace Field

variable {α : Type}

/-- A field that has to be there. -/
def required (name : String) (form : Form α) : Field α := ⟨name, form, none, none⟩

/-- A field that takes a value of its own where it is missing. -/
def withDefault (name : String) (form : Form α) (value : α) : Field α :=
  ⟨name, form, some value, some value⟩

/-- A field that is null where it is missing from an object; an array has to have it. -/
def nullable (name : String) (form : Form α) : Field (Option α) :=
  ⟨name, form.optional, some none, none⟩

end Field

/-- The fields of a record, in order. -/
inductive Fields : List Type → Type 1 where
  | nil : Fields []
  | cons {α : Type} {types : List Type} (field : Field α) (rest : Fields types) :
      Fields (α :: types)

/-- A value for each field. -/
def Row : List Type → Type
  | [] => Unit
  | α :: types => α × Row types

/-- What was found so far for each field. -/
def Slots : List Type → Type
  | [] => Unit
  | α :: types => Option α × Slots types

namespace Fields

/-- Nothing was found yet. -/
def vacant : {types : List Type} → Fields types → Slots types
  | _, .nil => ()
  | _, .cons _ rest => (none, rest.vacant)

/-- The row, when every field was found or may be missing. -/
def fill : {types : List Type} → Fields types → Slots types → Option (Row types)
  | _, .nil, _ => some ()
  | _, .cons field rest, slots => do
      let a ← slots.1 <|> field.whenMissing
      let row ← rest.fill slots.2
      some (a, row)

/-- The row of fields that an array ends before. -/
def short : {types : List Type} → Fields types → Option (Row types)
  | _, .nil => some ()
  | _, .cons field rest => do
      let a ← field.whenShort
      let row ← rest.short
      some (a, row)

/-- Reads the value of a field after its name. A field that was found already is refused at
once; nothing is given for an unknown name. -/
def readMember (l : Limits) (s : Bytes) (name : String) :
    {types : List Type} → Fields types → Slots types → Option (Step (Slots types))
  | _, .nil, _ => none
  | _, .cons field rest, slots =>
      if name = field.name then
        if slots.1.isSome then some (.error .unsuitable)
        else some ((afterColon (field.form.fromText l) s).map fun p =>
          ((some p.1, slots.2), p.2))
      else (readMember l s name rest slots.2).map fun step =>
        step.map fun p => ((slots.1, p.1), p.2)

/-- Reads the members of an object up to its end. -/
def readObject {types : List Type} (fields : Fields types) (l : Limits) (s : Bytes) :
    Step (Row types) :=
  let member (slots : Slots types) (name : String) (at' : Bytes) : Step (Slots types) :=
    match readMember l at' name fields slots with
    | some step => step
    | none => (afterColon (fun t => (skipValue l.steps t).map ((), ·)) at').map fun p =>
        (slots, p.2)
  Form.accept fields.fill (membersAfter member l.steps true fields.vacant s)

/-- Reads the items of an array up to its end. -/
def readArray (l : Limits) :
    {types : List Type} → Fields types → Bool → Bytes → Step (Row types)
  | _, .nil, _, s => (closeArray s).map ((), ·)
  | _, .cons field rest, first, s =>
      match nextItem first s with
      | .error f => .error f
      | .ok (.closed after) =>
          match (Fields.cons field rest).short with
          | some row => .ok (row, after)
          | none => .error .unsuitable
      | .ok (.item at') =>
          match field.form.fromText l at' with
          | .error f => .error f
          | .ok (a, after) => (readArray l rest false after).map fun p => ((a, p.1), p.2)

/-- Finds room for the value of a member: not for a field that was found already, nor when
the value does not fit the field. A member of an unknown name changes nothing. -/
def place (name : String) (v : Value) :
    {types : List Type} → Fields types → Slots types → Option (Slots types)
  | _, .nil, slots => some slots
  | _, .cons field rest, slots =>
      if name = field.name then
        if slots.1.isSome then none else (field.form.fromValue v).map fun a => (some a, slots.2)
      else (place name v rest slots.2).map fun more => (slots.1, more)

/-- The row of the members of an object. -/
def ofMembers {types : List Type} (fields : Fields types) (members : List (String × Value)) :
    Option (Row types) :=
  (members.foldlM (fun slots m => place m.1 m.2 fields slots) fields.vacant).bind fields.fill

/-- The row of the items of an array, which may not be more than there are fields. -/
def ofItems : {types : List Type} → Fields types → List Value → Option (Row types)
  | _, .nil, [] => some ()
  | _, .nil, _ :: _ => none
  | _, .cons field rest, [] => (Fields.cons field rest).short
  | _, .cons field rest, v :: items => do
      let a ← field.form.fromValue v
      let row ← rest.ofItems items
      some (a, row)

/-- The members of an object with the values of a row. -/
def members : {types : List Type} → Fields types → Row types → List (String × Value)
  | _, .nil, _ => []
  | _, .cons field rest, row => (field.name, field.form.toValue row.1) :: rest.members row.2

end Fields

/-- The form of a record whose values are built from a row of its fields. -/
def Form.record {α : Type} {types : List Type} (fields : Fields types)
    (make : Row types → α) (row : α → Row types) : Form α where
  fromText l s :=
    match skipBlanks s with
    | [] => .error .unfinished
    | c :: rest =>
        if c = 0x5B then
          l.enter.bind fun inner =>
            (Fields.readArray inner fields true rest).map fun p => (make p.1, p.2)
        else if c = 0x7B then
          l.enter.bind fun inner => (fields.readObject inner rest).map fun p => (make p.1, p.2)
        else .error (refuse c rest)
  fromValue
    | .array items => (fields.ofItems items).map make
    | .object members => (fields.ofMembers members).map make
    | _ => none
  toValue a := .object (fields.members (row a))

end TopicWatch.Json
