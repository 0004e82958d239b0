import Depsolve.Text.Quoted

/-!
Data as documents hold them, before they are given a meaning: what the readers of the
document formats produce and the decoders of the domain types consume.
-/

namespace Depsolve

/-- A piece of data in a document. -/
inductive Datum where
  | null
  | bool (b : Bool)
  | integer (n : Int)
  /-- A number that is no integer, as messages show it. -/
  | float (shown : String)
  | text (s : String)
  /-- A sequence; one that is `closed` must not hold more than its reader takes. -/
  | sequence (closed : Bool) (items : List Datum)
  /-- Keys with their values, in the order of the document. -/
  | mapping (entries : List (String × Datum))
  /-- Data of the right shape but without a value, such as a number that is too large. It
  can only be skipped. -/
  | unreadable
  /-- Data with the place in the document where it begins. -/
  | marked (place : Nat) (datum : Datum)
  deriving Inhabited

namespace Datum

/-- The datum in words, for messages. -/
def describe : Datum → String
  | null => "null"
  | bool b => "boolean `" ++ (if b then "true" else "false") ++ "`"
  | integer n => "integer `" ++ toString n ++ "`"
  | float shown => "floating point `" ++ shown ++ "`"
  | text s => "string " ++ Text.quoted s
  | sequence .. => "sequence"
  | mapping _ => "map"
  | unreadable => "unreadable data"
  | marked _ d => d.describe

end Datum

end Depsolve
