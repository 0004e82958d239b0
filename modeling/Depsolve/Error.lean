import Depsolve.Version.Text

/-!
The errors that end an operation, as opposed to the conflicts that a resolution collects.
-/

namespace Depsolve

/-- What is wrong with a manifest text, and where. Without a reason the text is no
document at all. -/
structure ManifestFault where
  reason : Option String
  line : Nat
  column : Nat
  deriving DecidableEq

/-- Why an operation was given up. -/
inductive Error where
  | invalidVersion (cause : VersionError)
  | invalidConstraint (package constraint reason : String)
  | invalidPackageName (name : String)
  | unsuccessfulResolution (conflicts : Nat)
  /-- A lock file has a fault; without a reason it is no document at all. -/
  | unreadableLock (reason : Option String)
  | unsupportedLockFormat (found supported : String)
  /-- A manifest has a fault, in a file or in a text of its own. -/
  | unreadableManifest (file : Option String) (fault : ManifestFault)
  | invalidSetting (field reason : String)
  | inaccessible (what : String)
  deriving DecidableEq

namespace Error

/-- The reason given for a text that is no document. -/
def reasonText (reason : Option String) : String := reason.getD "syntax"

/-- The mention of a file in front of a fault in it. -/
def fileText (path : String) : String := "in file " ++ path

/-- The text that reports the error. -/
def message : Error → String
  | invalidVersion cause => cause.message
  | invalidConstraint package constraint reason =>
    "Invalid constraint '" ++ constraint ++ "' for " ++ package ++ ": " ++ reason
  | invalidPackageName name => "Invalid package name '" ++ name ++ "'"
  | unsuccessfulResolution conflicts =>
    "Cannot create lock file: resolution was unsuccessful (" ++ toString conflicts
      ++ " conflicts)"
  | unreadableLock reason => "Failed to parse lock file: " ++ reasonText reason
  | unsupportedLockFormat found supported =>
    "Unsupported lock file format version " ++ found ++ " (supported: " ++ supported ++ ")"
  | unreadableManifest file fault =>
    "Failed to parse sprig.toml: "
      ++ (match file with
        | some path => fileText path ++ ": "
        | none => "")
      ++ reasonText fault.reason ++ " at line " ++ toString fault.line ++ ", column "
      ++ toString fault.column
  | invalidSetting field reason =>
    "Configuration field '" ++ field ++ "' is invalid: " ++ reason
  | inaccessible what => "IO error: " ++ what

/-- What the user can do about the error, where there is a general advice. -/
def suggestion : Error → Option String
  | invalidConstraint .. => some "Use comma-separated comparators such as '>=1.0.0,<2.0.0'"
  | unsuccessfulResolution .. => some "Fix the reported conflicts before writing a lock file"
  | unsupportedLockFormat .. => some "Regenerate the lock file with this version of sprig"
  | unreadableLock .. => some "Delete the lock file and resolve again"
  | _ => none

/-- Whether the same operation may succeed when it is tried again. -/
def isRecoverable : Error → Bool
  | inaccessible .. => true
  | _ => false

/-- The error of a constraint that does not parse. -/
def ofConstraint (package constraint : String) (cause : VersionError) : Error :=
  invalidConstraint package constraint cause.message

end Error

end Depsolve
