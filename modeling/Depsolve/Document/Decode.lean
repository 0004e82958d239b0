import Depsolve.Document.Datum
import Depsolve.Text.Split

/-!
Decoding of data. A decoder turns a datum into a value of a type or tells what is wrong
and at which place of the document. A record is decoded from a mapping, where unknown keys
are passed over, or from a sequence of its fields. When several fields of a record are
wrong, the one that comes first in the document is reported; fields that are missing come
after all others, in the order in which the record lists them.
-/

namespace Depsolve

/-- Why a datum can not be decoded, and the innermost marked place around the fault. -/
structure DecodeError where
  reason : String
  place : Option Nat
  deriving DecidableEq

/-- A way to read values off data. -/
abbrev Decoder (α : Type) := Datum → Except DecodeError α

/-- A fault without a place of its own. -/
def DecodeError.of (reason : String) : DecodeError := ⟨reason, none⟩

/-- The fault, at this place if it has none of its own. -/
def DecodeError.within (e : DecodeError) (place : Nat) : DecodeError :=
  { e with place := e.place <|> some place }

namespace Decoder

variable {α β : Type}

/-- The decoder that looks under marks and reports faults at their places. -/
def located (f : Decoder α) : Decoder α
  | .marked place d =>
    match located f d with
    | .ok a => .ok a
    | .error e => .error (e.within place)
  | d => f d

/-- The fault of a datum of the wrong kind. -/
def mismatch (d : Datum) (expected : String) : Except DecodeError α :=
  .error (.of ("invalid type: " ++ d.describe ++ ", expected " ++ expected))

/-- A text. -/
def text : Decoder String :=
  located fun
    | .text s => .ok s
    | d => mismatch d "a string"

/-- A truth value. -/
def bool : Decoder Bool :=
  located fun
    | .bool b => .ok b
    | d => mismatch d "a boolean"

/-- A value, or nothing where the datum is null. -/
def orNull (f : Decoder α) : Decoder (Option α) :=
  located fun
    | .null => .ok none
    | d => (f d).map some

/-- A sequence of values. -/
def list (f : Decoder α) : Decoder (List α) :=
  located fun
    | .sequence _ items => items.mapM f
    | d => mismatch d "a sequence"

/-- Keys with values. -/
def entries (f : Decoder α) : Decoder (List (String × α)) :=
  located fun
    | .mapping es => es.mapM fun (k, d) => (f d).map (k, ·)
    | d => mismatch d "a map"

/-- A value that a text spells. -/
def spelled (parse : String → Except String α) : Decoder α :=
  located fun d => do
    let s ← text d
    match parse s with
    | .ok a => .ok a
    | .error reason => .error (.of reason)

/-- The name of a variant, and the datum it carries if it is written as a mapping. -/
def variant : Decoder (String × Option Datum) :=
  located fun
    | .text s => .ok (s, none)
    | .mapping [(s, d)] => .ok (s, some d)
    | .mapping _ => .error (.of "invalid value: map, expected map with a single key")
    | d => mismatch d "string or map"

/-- What may stand in a place, in words. -/
def alternatives : List String → String
  | [] => "nothing"
  | [a] => "`" ++ a ++ "`"
  | [a, b] => "`" ++ a ++ "` or `" ++ b ++ "`"
  | names => "one of " ++ Text.joinWith ", " (names.map fun a => "`" ++ a ++ "`")

/-- The fault of a variant that is none. -/
def unknownVariant (name : String) (known : List String) : Except DecodeError α :=
  .error (.of ("unknown variant `" ++ name ++ "`, expected " ++ alternatives known))

/-- One of some variants that carry nothing. -/
def oneOf (variants : List (String × α)) : Decoder α := fun d => do
  let (name, carried) ← variant d
  match variants.find? (·.1 = name), carried with
  | none, _ => unknownVariant name (variants.map (·.1))
  | some (_, a), none => .ok a
  | some (_, a), some d =>
    located (fun | .null => .ok a | d => mismatch d "unit") d

end Decoder

/-! ### Records -/

/-- The name of a record and the names of its fields in order. -/
structure Layout where
  name : String
  fields : List String

/-- The data of a record. -/
inductive RecordData where
  | named (entries : List (String × Datum))
  | listed (items : List Datum)

/-- What reading some fields of a record comes to: their values, or a fault with its rank
in the order in which faults are reported. -/
inductive Fields (α : Type) where
  | ok (value : α)
  | fault (rank : Nat) (error : DecodeError)

namespace Fields

variable {α β : Type}

/-- The result of one decoder under a rank. -/
def ofExcept (rank : Nat) : Except DecodeError α → Fields α
  | .ok a => ok a
  | .error e => fault rank e

/-- The values, or the fault. -/
def toExcept : Fields α → Except DecodeError α
  | ok a => .ok a
  | fault _ e => .error e

/-- Of two faults the one with the lower rank counts. -/
def combine (f : Fields (α → β)) (x : Fields α) : Fields β :=
  match f, x with
  | ok g, ok a => ok (g a)
  | ok _, fault n e => fault n e
  | fault n e, ok _ => fault n e
  | fault n e, fault n' e' => if n' < n then fault n' e' else fault n e

instance : Applicative Fields where
  pure := ok
  seq f x := combine f (x ())

end Fields

namespace Layout

variable {α : Type}

/-- A field; `ifUnnamed` and `ifUnlisted` are its values where a mapping or a sequence
leaves it out, if it may do so. -/
def field (l : Layout) (data : RecordData) (name : String) (ifUnnamed ifUnlisted : Option α)
    (f : Decoder α) : Fields α :=
  let index := l.fields.idxOf name
  match data with
  | .named entries =>
    match entries.find? (·.1 = name), ifUnnamed with
    | some (_, d), _ => .ofExcept (entries.findIdx (·.1 = name)) (f d)
    | none, some a => .ok a
    | none, none =>
      .fault (entries.length + index) (.of ("missing field `" ++ name ++ "`"))
  | .listed items =>
    match items[index]?, ifUnlisted with
    | some d, _ => .ofExcept index (f d)
    | none, some a => .ok a
    | none, none =>
      .fault index (.of ("invalid length " ++ toString index ++ ", expected struct " ++ l.name
        ++ " with " ++ toString l.fields.length ++ " elements"))

/-- A field that has to be there. -/
def required (l : Layout) (data : RecordData) (name : String) (f : Decoder α) : Fields α :=
  l.field data name none none f

/-- A field that a mapping may leave out and that may be null. -/
def optional (l : Layout) (data : RecordData) (name : String) (f : Decoder α) :
    Fields (Option α) :=
  l.field data name (some none) none (Decoder.orNull f)

/-- A field with a value for the case that it is left out. -/
def defaulted (l : Layout) (data : RecordData) (name : String) (value : α) (f : Decoder α) :
    Fields α :=
  l.field data name (some value) (some value) f

/-- A field of the record that a mapping holds twice. -/
def repeated? (l : Layout) (entries : List (String × Datum)) : Option String :=
  l.fields.find? fun name => entries.countP (·.1 = name) > 1

/-- The record that `build` puts together from its fields. -/
def decode (l : Layout) (build : RecordData → Fields α) : Decoder α :=
  Decoder.located fun
    | .mapping entries =>
      match l.repeated? entries with
      | some name => .error (.of ("duplicate field `" ++ name ++ "`"))
      | none => (build (.named entries)).toExcept
    | .sequence closed items => do
      let record ← (build (.listed items)).toExcept
      if closed && items.length > l.fields.length then
        throw (.of ("invalid length " ++ toString items.length
          ++ ", expected fewer elements in array"))
      return record
    | d => Decoder.mismatch d ("struct " ++ l.name)

end Layout

end Depsolve
