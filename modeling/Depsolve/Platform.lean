import Depsolve.Text.Blank

/-!
Platform identifiers: texts without white space at their ends.
-/

namespace Depsolve

/-- A platform identifier. -/
structure Platform where
  text : String
  trimmed : Text.trim text = text

namespace Platform

/-- The platform that a text names. -/
def of (spelling : String) : Platform := ⟨Text.trim spelling, Text.trim_trim spelling⟩

@[ext] theorem ext {a b : Platform} (h : a.text = b.text) : a = b := by
  cases a; cases b; cases h; rfl

instance : DecidableEq Platform := fun a b =>
  if h : a.text = b.text then isTrue (Platform.ext h) else isFalse fun e => h (congrArg text e)

instance : Ord Platform := ⟨compareOn text⟩

instance : Std.TransOrd Platform := inferInstanceAs (Std.TransCmp (compareOn text))

instance : Std.LawfulEqOrd Platform where
  eq_of_compare h := Platform.ext (Std.LawfulEqOrd.eq_of_compare h)

theorem of_text (p : Platform) : of p.text = p := Platform.ext p.trimmed

end Platform

end Depsolve
