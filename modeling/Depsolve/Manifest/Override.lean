import Depsolve.Manifest.Basic

/-!
Settings from outside a manifest. Variables of the environment override the manifest, and
options of the command line override both. Keys that are no setting are passed over.
-/

namespace Depsolve

/-- The settings that can be overridden. -/
inductive Setting where
  | runtime
  | platform
  | allowPrerelease
  | preferInstalled
  deriving DecidableEq

namespace Setting

/-- All settings. -/
def all : List Setting := [runtime, platform, allowPrerelease, preferInstalled]

/-- The beginning of the variables of the environment. -/
def variableStart : String := "SPRIG_"

/-- The variable of the environment for a setting. -/
def variableName : Setting → String
  | runtime => "SPRIG_RUNTIME_VERSION"
  | platform => "SPRIG_PLATFORM_VERSION"
  | allowPrerelease => "SPRIG_ALLOW_PRERELEASE"
  | preferInstalled => "SPRIG_PREFER_INSTALLED"

/-- The option of the command line for a setting. -/
def optionName : Setting → String
  | runtime => "runtime-version"
  | platform => "platform-version"
  | allowPrerelease => "allow-prerelease"
  | preferInstalled => "prefer-installed"

/-- The setting of a variable. -/
def ofVariable? (key : String) : Option Setting := all.find? (·.variableName = key)

/-- The setting of an option. -/
def ofOption? (key : String) : Option Setting := all.find? (·.optionName = key)

end Setting

namespace Settings

/-- The truth value that a word means, in whatever case. -/
def readBool (origin value : String) : Except Error Bool :=
  let word := value.map Char.toLower
  if word ∈ ["true", "1", "yes", "on"] then .ok true
  else if word ∈ ["false", "0", "no", "off"] then .ok false
  else .error (.invalidSetting origin ("Expected a boolean, got '" ++ value ++ "'"))

/-- The runtime that a text means: none if it is empty. -/
def readRuntime (origin value : String) : Except Error (Option String) :=
  if value.isEmpty then .ok none
  else match Version.parse value with
    | .ok _ => .ok (some value)
    | .error cause =>
      .error (.invalidSetting origin
        ("Invalid runtime version '" ++ value ++ "': " ++ cause.message))

/-- The settings with one of them overridden; `origin` is the key to report. White space at
the ends of the value does not count. -/
def override (s : Settings) (setting : Setting) (origin value : String) :
    Except Error Settings :=
  let value := Text.trim value
  match setting with
  | .runtime => (readRuntime origin value).map fun v => { s with runtime := v }
  | .platform => .ok { s with platform := if value.isEmpty then none else some value }
  | .allowPrerelease => (readBool origin value).map fun b => { s with allowPrerelease := b }
  | .preferInstalled => (readBool origin value).map fun b => { s with preferInstalled := b }

/-- The settings overridden by one variable of the environment. -/
def overrideByVariable (s : Settings) (e : String × String) : Except Error Settings :=
  match Setting.ofVariable? e.1 with
  | some setting => s.override setting e.1 e.2
  | none => .ok s

/-- The settings overridden by one option of the command line. -/
def overrideByOption (s : Settings) (e : String × String) : Except Error Settings :=
  match Setting.ofOption? e.1 with
  | some setting => s.override setting ("--" ++ e.1) e.2
  | none => .ok s

end Settings

namespace Manifest

/-- The manifest with its settings overridden, which have to describe an environment in the
end. -/
def layered (m : Manifest) (environment commandLine : List (String × String)) :
    Except Error Manifest := do
  let settings ← environment.foldlM Settings.overrideByVariable m.settings
  let settings ← commandLine.foldlM Settings.overrideByOption settings
  let _ ← settings.toContext
  return { m with settings }

end Manifest

end Depsolve
