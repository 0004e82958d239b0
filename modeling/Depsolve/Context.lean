import Depsolve.PackageSpec

/-!
The environment that packages are chosen for, and whether a package fits it. What the
environment leaves open is not checked.
-/

namespace Depsolve

/-- The target runtime and platform, and the policies of selection. -/
structure Context where
  runtime : Option Version
  platform : Option String
  allowPrerelease : Bool
  preferInstalled : Bool
  deriving DecidableEq

namespace Context

/-- The environment that leaves everything open and refuses prereleases. -/
def default : Context := ⟨none, none, false, false⟩

instance : Inhabited Context := ⟨default⟩

/-- The environment with a target runtime. -/
def withRuntime (c : Context) (version : Version) : Context := { c with runtime := some version }

/-- The environment with a target platform. -/
def withPlatform (c : Context) (platform : String) : Context :=
  { c with platform := some (Text.trim platform) }

end Context

namespace PackageSpec

/-- Whether the package supports a platform. -/
def supportsPlatform (s : PackageSpec) (platform : String) : Bool :=
  s.platforms.isEmpty || s.platforms.contains (Platform.of platform)

/-- Whether the package works with a runtime version. -/
def supportsRuntime (s : PackageSpec) (runtime : Version) : Bool := s.runtime.holds runtime

/-- Whether the package works with the target runtime. -/
def fitsRuntime (s : PackageSpec) (c : Context) : Bool := c.runtime.all s.supportsRuntime

/-- Whether the package supports the target platform. -/
def fitsPlatform (s : PackageSpec) (c : Context) : Bool := c.platform.all s.supportsPlatform

/-- Whether the prerelease policy lets the package pass. -/
def fitsPrerelease (s : PackageSpec) (c : Context) : Bool := c.allowPrerelease || !s.prerelease

end PackageSpec

end Depsolve
