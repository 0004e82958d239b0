import Depsolve.LockFile.Basic
import Depsolve.Proofs.Except

/-!
What makes a lock consistent.

`Consistent` says it of the lock as a whole, and `verify_eq_ok` that the checks come to just
that: the order is gone through with the names that stand in front, so that no name is met
twice.
-/

namespace Depsolve.LockFile

variable {l : LockFile} {seen order : List String}

/-- The format is known, the packages are named in normal form, and the order names each of
them once. -/
structure Consistent (l : LockFile) : Prop where
  format : isKnownFormat l.formatVersion = true
  normal : ∀ name ∈ l.packages.keys, normalize name = name
  nodup : l.order.Nodup
  mem : ∀ name, name ∈ l.order ↔ name ∈ l.packages.keys

theorem checkFormat_eq_ok {format : String} :
    checkFormat format = .ok () ↔ isKnownFormat format = true := by
  unfold checkFormat
  split <;> simp [*]

/-- The order passes where it repeats no name, those in front included, and names locked
packages only. -/
theorem checkOrder_eq_ok :
    l.checkOrder seen order = .ok () ↔
      order.Nodup ∧ ∀ name ∈ order, name ∉ seen ∧ name ∈ l.packages.keys := by
  induction order generalizing seen with
  | nil => simp [checkOrder]
  | cons name rest ih =>
    unfold checkOrder
    by_cases hseen : name ∈ seen
    · simp [hseen]
    · rw [if_neg hseen]
      by_cases hlocked : l.packages.contains name = true
      · rw [if_pos hlocked, ih]
        rw [InsertionMap.contains_iff] at hlocked
        simp only [List.mem_cons, not_or, List.nodup_cons, forall_eq_or_imp]
        grind
      · rw [if_neg hlocked]
        rw [InsertionMap.contains_iff] at hlocked
        simp [hlocked]

/-- A lock passes where it passes check by check. -/
theorem verify_eq_ok_iff_checks :
    l.verify = .ok () ↔ checkFormat l.formatVersion = .ok () ∧
      (l.packages.keys.find? fun name => normalize name ≠ name) = none ∧
      l.checkOrder [] l.order = .ok () ∧ (l.packages.keys.find? (· ∉ l.order)) = none := by
  unfold verify
  simp only [check_bind_eq_ok]
  cases (l.packages.keys.find? fun name => normalize name ≠ name) with
  | some name => simp [throw, throwThe, MonadExceptOf.throw, bind, Except.bind]
  | none =>
    simp only [check_bind_eq_ok]
    cases (l.packages.keys.find? (· ∉ l.order)) with
    | some name => simp [throw, throwThe, MonadExceptOf.throw]
    | none => simp [pure, Except.pure]

/-- A lock passes the checks where it is consistent. -/
theorem verify_eq_ok : l.verify = .ok () ↔ l.Consistent := by
  rw [verify_eq_ok_iff_checks, checkFormat_eq_ok, checkOrder_eq_ok, List.find?_eq_none,
    List.find?_eq_none]
  simp only [decide_eq_true_eq, not_not, List.not_mem_nil, not_false_eq_true, true_and]
  constructor
  · rintro ⟨hformat, hnormal, ⟨hnodup, hlocked⟩, hordered⟩
    exact ⟨hformat, hnormal, hnodup, fun name => ⟨hlocked name, hordered name⟩⟩
  · rintro ⟨hformat, hnormal, hnodup, hmem⟩
    exact ⟨hformat, hnormal, ⟨hnodup, fun name => (hmem name).mp⟩, fun name => (hmem name).mpr⟩

/-- Only consistent locks are read. -/
theorem consistent_of_parse {text : String} (h : parse text = .ok l) : l.Consistent := by
  rw [parse] at h
  cases hdocument : Json.readDocument text with
  | none =>
    rw [hdocument] at h
    cases h
  | some document =>
    rw [hdocument] at h
    dsimp only at h
    cases hformat : formatOf? document with
    | none =>
      rw [hformat] at h
      cases h
    | some format =>
      rw [hformat] at h
      obtain ⟨-, h⟩ := check_bind_eq_ok.mp h
      cases hdecode : decode document with
      | error e =>
        rw [hdecode] at h
        cases h
      | ok read =>
        rw [hdecode] at h
        obtain ⟨hverify, h⟩ := check_bind_eq_ok.mp h
        cases h
        exact verify_eq_ok.mp hverify

end Depsolve.LockFile
