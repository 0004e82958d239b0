/-!
Which messages the parts of the program print about their work.
-/

namespace Depsolve.Diagnostics

/-- The parts of the program that report on their work. -/
def reporters : List String := ["sprig_core", "sprig_resolver", "sprig_config"]

/-- The level of detail at which reports are printed. -/
def level (verbose : Bool) : String := if verbose then "debug" else "info"

/-- The filter for reports: every reporter with its level. -/
def directives (verbose : Bool) : String :=
  String.intercalate "," (reporters.map fun r => r ++ "=" ++ level verbose)

end Depsolve.Diagnostics
