import Depsolve.Json.Basic
import Depsolve.Json.Token
import Depsolve.SortedMap

/-!
Reading of JSON texts. `read` takes a text as it stands: repeated keys are kept, and what
has no value is unreadable data, which does no harm where it is passed over.
`readDocument` is strict: all of the text has to have a value, containers stand at most
127 levels deep, and objects have their keys in ascending order, with the last value of a
repeated key.

The reader works token by token, with the containers that are open on a stack.
-/

namespace Depsolve.Json

/-- A container that is open, with what it holds so far, the latest first. An object that
waits for a value has the key of it; a key may be a text without a value. -/
inductive Container where
  | array (items : List Datum)
  | object (entries : List (Option String × Datum)) (key : Option String)

/-- What the reader waits for, and the open containers, the innermost first. -/
inductive Awaited where
  | value (outer : List Container)
  /-- A value or the end of an array that holds nothing yet. -/
  | firstItem (outer : List Container)
  /-- A key or the end of an object that holds nothing yet. -/
  | firstKey (outer : List Container)
  | key (entries : List (Option String × Datum)) (outer : List Container)
  | colon (entries : List (Option String × Datum)) (key : Option String)
      (outer : List Container)
  /-- A comma or the end of an array. -/
  | nextItem (items : List Datum) (outer : List Container)
  /-- A comma or the end of an object. -/
  | nextKey (entries : List (Option String × Datum)) (outer : List Container)
  /-- Nothing more: this is the value of the text. -/
  | nothing (d : Datum)

/-- The state after a value. -/
def complete (d : Datum) : List Container → Awaited
  | [] => .nothing d
  | .array items :: outer => .nextItem (d :: items) outer
  | .object entries key :: outer => .nextKey ((key, d) :: entries) outer

/-- The value of an object; a key without a value makes the object unreadable. -/
def objectDatum (entries : List (Option String × Datum)) : Datum :=
  match entries.reverse.mapM fun (key, d) => key.map (·, d) with
  | some es => .mapping es
  | none => .unreadable

/-- The value of an array. -/
def arrayDatum (items : List Datum) : Datum := .sequence true items.reverse

/-- The state after the first token of a value. -/
def beginValue (outer : List Container) : Token → Option Awaited
  | .scalar d => some (complete d outer)
  | .text (some s) => some (complete (.text s) outer)
  | .text none => some (complete .unreadable outer)
  | .openArray => some (.firstItem outer)
  | .openObject => some (.firstKey outer)
  | _ => none

/-- The state after a token, if it may stand there. -/
def advance (state : Awaited) (t : Token) : Option Awaited :=
  match state, t with
  | .value outer, t => beginValue outer t
  | .firstItem outer, .closeArray => some (complete (arrayDatum []) outer)
  | .firstItem outer, t => beginValue (.array [] :: outer) t
  | .firstKey outer, .closeObject => some (complete (objectDatum []) outer)
  | .firstKey outer, .text key => some (.colon [] key outer)
  | .key entries outer, .text key => some (.colon entries key outer)
  | .colon entries key outer, .colon => some (.value (.object entries key :: outer))
  | .nextItem items outer, .comma => some (.value (.array items :: outer))
  | .nextItem items outer, .closeArray => some (complete (arrayDatum items) outer)
  | .nextKey entries outer, .comma => some (.key entries outer)
  | .nextKey entries outer, .closeObject => some (complete (objectDatum entries) outer)
  | _, _ => none

/-- The value of a text as it stands, unless it is no JSON text. -/
def read (text : String) : Option Datum := do
  match ← (← tokens text.toList).foldlM advance (.value []) with
  | .nothing d => some d
  | _ => none

mutual

/-- The datum with sorted keys, unless it is too deep or something in it has no value;
`room` is the number of levels left for containers. -/
def settle (room : Nat) : Datum → Option Datum
  | .sequence closed items =>
    if room = 0 then none else (settleItems (room - 1) items).map (.sequence closed)
  | .mapping entries =>
    if room = 0 then none
    else (settleEntries (room - 1) entries).map fun es => .mapping (SortedMap.ofList es).entries
  | .unreadable => none
  | .marked place d => (settle room d).map (.marked place)
  | d => some d

/-- The items, settled one by one. -/
def settleItems (room : Nat) : List Datum → Option (List Datum)
  | [] => some []
  | d :: ds => do return (← settle room d) :: (← settleItems room ds)

/-- The entries, settled one by one. -/
def settleEntries (room : Nat) : List (String × Datum) → Option (List (String × Datum))
  | [] => some []
  | (k, d) :: es => do return (k, ← settle room d) :: (← settleEntries room es)

end

/-- How many levels deep containers may stand in a document. -/
def maxDepth : Nat := 127

/-- The value of a text as a document, unless it is none. -/
def readDocument (text : String) : Option Datum := (read text).bind (settle maxDepth)

end Depsolve.Json
