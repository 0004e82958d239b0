import Depsolve.Version.Basic
import Mathlib.Data.UInt

/-!
The order of versions.

Versions and identifiers are compared by keys: each key has an order of its own, and the first
key that differs decides. That makes the laws of an order immediate, but the keys are not how one
reads precedence.

* `precedence_eq_stepwise`: the keys say the same as the rules. Components are compared first, a
  release stands above its prereleases, and two tags are walked through together, where a number
  stands below a text, numbers compare by value and texts by their characters.
* `LawfulOrder` is what sorting and look-up in order need of a comparison that may hold different
  values for equal, and `Refines` what a tiebreak must not disturb.
* `version_order_lawful`: precedence and the order of versions are lawful on all versions, also on
  those that no text spells, and the order refines precedence.
-/

namespace Depsolve

/-! ### Rules -/

namespace Identifier

/-- Identifier against identifier: numbers compare by value, texts by their characters, and a
number stands below a text. -/
def order (i j : Identifier) : Ordering :=
  match i.number?, j.number? with
  | some m, some n => compare m n
  | some _, none => .lt
  | none, some _ => .gt
  | none, none => compare i.chars j.chars

/-- Identifier by identifier: the first two that differ decide, and a list that is cut short
stands below the longer one. -/
def walk : List Identifier → List Identifier → Ordering
  | [], [] => .eq
  | [], _ :: _ => .lt
  | _ :: _, [] => .gt
  | i :: is, j :: js => (i.order j).then (walk is js)

/-- The keys of two identifiers differ first where the rule decides. -/
theorem compare_eq_order (i j : Identifier) : compare i j = i.order j := by
  have hkeys : compare i j = (compare i.isTextual j.isTextual).then
      ((compare i.magnitude j.magnitude).then (compare i.spelling j.spelling)) := rfl
  rw [hkeys, order]
  cases hi : i.number? with
  | none =>
    cases hj : j.number? with
    | none => simp [isTextual, magnitude, spelling, hi, hj]
    | some n =>
      simp only [isTextual, hi, hj]
      rfl
  | some m =>
    cases hj : j.number? with
    | none =>
      simp only [isTextual, hi, hj]
      rfl
    | some n =>
      simp [isTextual, magnitude, spelling, hi, hj, UInt64.compare_eq_toNat_compare_toNat]

theorem compare_eq_walk (is js : List Identifier) : compare is js = walk is js := by
  induction is generalizing js with
  | nil => cases js <;> rfl
  | cons i is ih =>
    cases js with
    | nil => rfl
    | cons j js => rw [List.compare_cons_cons, compare_eq_order, ih, walk]

end Identifier

namespace Version

/-- The identifiers of a tag. -/
def tagIdentifiers (tag : String) : List Identifier :=
  (Text.splitOn '.' tag.toList).map Identifier.mk

/-- Tag against tag: a release stands above its prereleases, and two tags are walked through. -/
def orderTags : Option String → Option String → Ordering
  | none, none => .eq
  | some _, none => .lt
  | none, some _ => .gt
  | some s, some t => Identifier.walk (tagIdentifiers s) (tagIdentifiers t)

/-- Precedence step by step: the components one after another, and then the prerelease tags. -/
def stepwise (a b : Version) : Ordering :=
  (compare a.major b.major).then <| (compare a.minor b.minor).then <|
    (compare a.patch b.patch).then <| orderTags a.prerelease b.prerelease

/-- The last two keys of precedence together compare the prerelease tags. -/
theorem compare_tags (a b : Version) :
    (compare a.isRelease b.isRelease).then (compare a.identifiers b.identifiers) =
      orderTags a.prerelease b.prerelease := by
  cases ha : a.prerelease with
  | none => cases hb : b.prerelease <;> simp only [isRelease, identifiers, ha, hb] <;> rfl
  | some s =>
    cases hb : b.prerelease with
    | none =>
      simp only [isRelease, ha, hb]
      rfl
    | some t =>
      simp only [isRelease, identifiers, ha, hb]
      exact Identifier.compare_eq_walk _ _

theorem precedence_eq_stepwise (a b : Version) : a.precedence b = a.stepwise b := by
  rw [stepwise, ← compare_tags]
  rfl

/-- The order looks at the build tags where precedence does not decide. -/
theorem compare_eq_then (a b : Version) :
    compare a b = (a.stepwise b).then (compare a.build b.build) := by
  rw [← precedence_eq_stepwise]
  rfl

end Version

/-! ### Laws -/

variable {α : Type}

/-- A total order up to values that it holds for equal: these compare alike with all others. -/
structure LawfulOrder (cmp : α → α → Ordering) : Prop where
  refl (a : α) : cmp a a = .eq
  reverse (a b : α) : cmp b a = (cmp a b).swap
  trans {a b c : α} : (cmp a b).isLE → (cmp b c).isLE → (cmp a c).isLE
  strict {a b c : α} : (cmp a b).isLE → (cmp b c).isLE → cmp a b = .lt ∨ cmp b c = .lt →
    cmp a c = .lt
  congr {a b : α} : cmp a b = .eq → ∀ c, cmp a c = cmp b c ∧ cmp c a = cmp c b

/-- Where the coarse comparison decides, the fine one decides alike. -/
def Refines (fine coarse : α → α → Ordering) : Prop :=
  ∀ a b, coarse a b ≠ .eq → fine a b = coarse a b

theorem lawfulOrder_of_transCmp (cmp : α → α → Ordering) [Std.TransCmp cmp] :
    LawfulOrder cmp where
  refl _ := Std.ReflCmp.compare_self
  reverse _ _ := Std.OrientedCmp.eq_swap
  trans := Std.TransCmp.isLE_trans
  strict hab hbc hlt := by
    rcases hlt with hlt | hlt
    · exact Std.TransCmp.lt_of_lt_of_isLE hlt hbc
    · exact Std.TransCmp.lt_of_isLE_of_lt hab hlt
  congr heq _ := ⟨Std.TransCmp.congr_left heq, Std.TransCmp.congr_right heq⟩

theorem refines_compareLex (coarse tie : α → α → Ordering) :
    Refines (compareLex coarse tie) coarse := by
  intro a b hne
  rw [compareLex]
  cases h : coarse a b with
  | lt => rfl
  | eq => exact absurd h hne
  | gt => rfl

/-- Versions are ordered lawfully, whatever their components and tags are. Precedence follows the
rules step by step, the order goes on with the build tags, and both are lawful; a tie of the one
is all that the other breaks. -/
theorem version_order_lawful :
    (∀ a b : Version, a.precedence b = a.stepwise b ∧
      compare a b = (a.stepwise b).then (compare a.build b.build)) ∧
    LawfulOrder Version.precedence ∧
    LawfulOrder (compare : Version → Version → Ordering) ∧
    Refines (compare : Version → Version → Ordering) Version.precedence := by
  refine ⟨fun a b => ?_, ?_, ?_, ?_⟩
  · exact ⟨Version.precedence_eq_stepwise a b, Version.compare_eq_then a b⟩
  · exact lawfulOrder_of_transCmp _
  · exact lawfulOrder_of_transCmp _
  · exact refines_compareLex _ _

end Depsolve
