import Depsolve.Constraint.Text
import Depsolve.Resolver.Basic

/-!
Made-up registries and texts of any size, to measure the resolver and the readers with.
-/

namespace Depsolve.Synthetic

/-- The name of a made-up package. -/
def packageName (index : Nat) : String := "pkg-" ++ toString index

/-- A caret constraint on two components. -/
def caret (major minor : UInt64) : Constraint :=
  ⟨[⟨.caret, ⟨major, some minor, none, none⟩⟩]⟩

/-- The indices of the packages that one of `count` packages depends on: the next `fanOut`
ones of the tree in which every package has as many children. -/
def childIndices (count fanOut index : Nat) : List Nat :=
  ((List.range fanOut).map fun step => index * fanOut + step + 1).filter (· < count)

/-- The version of a package of the tree with this minor component. -/
def layeredSpec (count fanOut index minor : Nat) : PackageSpec :=
  (childIndices count fanOut index).foldl
    (fun s child => s.withDependency (packageName child) (caret 1 (UInt64.ofNat (minor / 2))))
    (PackageSpec.new (packageName index) (Version.release 1 (UInt64.ofNat minor) 0))

/-- A tree of `count` packages with some versions of each; the first one is the root. -/
def layered (count : Nat) (versions : UInt64) (fanOut : Nat) : Resolver :=
  ((List.range count).flatMap fun index =>
    (List.range versions.toNat).map fun minor => layeredSpec count fanOut index minor).foldl
    Resolver.register (Resolver.new Context.default)

/-- Packages that all depend on one and by turns ask for its two versions. -/
def conflicting (dependents : Nat) : Resolver :=
  let shared := [PackageSpec.new "shared" (Version.release 1 0 0),
    PackageSpec.new "shared" (Version.release 2 0 0)]
  let asking := (List.range dependents).map fun index =>
    (PackageSpec.new (packageName index) (Version.release 1 0 0)).withDependency "shared"
      (caret (if index % 2 = 0 then 1 else 2) 0)
  (shared ++ asking).foldl Resolver.register (Resolver.new Context.default)

/-- Numbers with dots between them. -/
def dotted (numbers : List Nat) : String := Text.joinWith "." (numbers.map toString)

/-- Ascending version texts, every tenth of them a prerelease. -/
def versionTexts (count : Nat) : List String :=
  (List.range count).map fun i =>
    let core := dotted [i / 100, i / 10 % 10, i % 10]
    if i % 10 = 9 then core ++ "-rc." ++ toString (i % 3) else core

/-- Constraint texts of all shapes in turn. -/
def constraintTexts (count : Nat) : List String :=
  (List.range count).map fun i =>
    match i % 6 with
    | 0 => "^" ++ dotted [i % 5, i % 7]
    | 1 => "~" ++ dotted [i % 5, i % 7, i % 3]
    | 2 => ">=" ++ dotted [i % 5, 0, 0] ++ ",<" ++ dotted [i % 5 + 1, 0, 0]
    | 3 => "==" ++ dotted [i % 5, i % 7] ++ ".*"
    | 4 => "~=" ++ dotted [i % 5, i % 7]
    | _ => "*"

end Depsolve.Synthetic
