import Depsolve.Proofs.LockFile.Order

/-!
The check of a lock is exact, and what passes it restores to a resolution in good order.

* `isKnownFormat_iff`: the known formats are those that are spelled as `FirstFormat` says.
* `consistent_iff`: a lock is consistent where its order of installation is a permutation of the
  names of its packages, and its format and these names are as they have to be.
* `Consistent.ordered`: each package of a consistent lock is restored under the name of its spec
  and is installed once.
* `verify_exact` says so of the check, of the locks that are read and of those that are restored.
-/

namespace Depsolve

/-! ### Formats -/

/-- Joined pieces are the first one and each other behind a separator. -/
theorem Text.intercalate_cons (sep : Char) (piece : List Char) (pieces : List (List Char)) :
    List.intercalate [sep] (piece :: pieces) = piece ++ pieces.flatMap (sep :: ·) := by
  induction pieces generalizing piece with
  | nil => simp [List.intercalate]
  | cons next pieces ih =>
    rw [List.intercalate_cons_cons, ih, List.flatMap_cons, List.append_assoc,
      List.singleton_append, List.cons_append]

namespace LockFile

variable {l : LockFile} {R : Resolution} {format : String}

/-- A format that is spelled as 1 and any number of further parts, each of them a dot and a row of
digits. -/
def FirstFormat (format : String) : Prop :=
  ∃ parts : List (List Char), (∀ part ∈ parts, part ≠ [] ∧ ∀ c ∈ part, c.isDigit = true) ∧
    format.toList = '1' :: parts.flatMap ('.' :: ·)

theorem isKnownFormat_of_splitOn {major : List Char} {parts : List (List Char)}
    (h : Text.splitOn '.' format.toList = major :: parts) :
    isKnownFormat format = true ↔
      major = ['1'] ∧ ∀ part ∈ parts, part ≠ [] ∧ ∀ c ∈ part, c.isDigit = true := by
  unfold isKnownFormat
  rw [h]
  simp

/-- A format is known just if it is spelled so. -/
theorem isKnownFormat_iff : isKnownFormat format = true ↔ FirstFormat format := by
  cases hsplit : Text.splitOn '.' format.toList with
  | nil => exact absurd hsplit (Text.splitOn_ne_nil _ _)
  | cons major parts =>
    rw [isKnownFormat_of_splitOn hsplit]
    constructor
    · rintro ⟨rfl, hparts⟩
      refine ⟨parts, hparts, ?_⟩
      rw [← Text.intercalate_splitOn '.' format.toList, hsplit, Text.intercalate_cons,
        List.singleton_append]
    · rintro ⟨groups, hgroups, hspelled⟩
      have hdots : ∀ piece ∈ ['1'] :: groups, '.' ∉ piece := by
        intro piece hpiece hdot
        rcases List.mem_cons.mp hpiece with rfl | hpiece
        · exact absurd hdot (by decide)
        · exact absurd ((hgroups piece hpiece).2 '.' hdot) (by decide)
      have hpieces := Text.splitOn_intercalate (List.cons_ne_nil ['1'] groups) hdots
      rw [Text.intercalate_cons, List.singleton_append, ← hspelled, hsplit] at hpieces
      cases hpieces
      exact ⟨rfl, hgroups⟩

/-! ### Locks -/

theorem consistent_iff :
    l.Consistent ↔ FirstFormat l.formatVersion ∧
      (∀ name ∈ l.packages.keys, normalize name = name) ∧ l.order.Perm l.packages.keys := by
  constructor
  · intro h
    exact ⟨isKnownFormat_iff.mp h.format, h.normal,
      (List.perm_ext_iff_of_nodup h.nodup l.packages.distinct).mpr h.mem⟩
  · rintro ⟨hformat, hnormal, hperm⟩
    exact ⟨isKnownFormat_iff.mpr hformat, hnormal, hperm.nodup_iff.mpr l.packages.distinct,
      fun _ => hperm.mem_iff⟩

theorem restore_eq_ok : l.restore = .ok R ↔ l.Consistent ∧ l.toResolution = R := by
  rw [restore, check_bind_eq_ok, verify_eq_ok]
  simp only [pure, Except.pure, Except.ok.injEq]

/-- A consistent lock is restored with its packages under the names of their specs. -/
theorem Consistent.ordered (h : l.Consistent) : l.toResolution.Ordered where
  name n spec hspec := by
    have hlocked : (l.packages.get? n).map (·.toSpec n) = some spec :=
      (InsertionMap.get?_mapEntries _ _ _).symm.trans hspec
    obtain ⟨p, hp, rfl⟩ := Option.map_eq_some_iff.mp hlocked
    rw [LockedPackage.name_toSpec]
    exact h.normal n (InsertionMap.mem_keys_of_get? hp)
  nodup := h.nodup
  mem n := by
    rw [keys_toResolution]
    exact h.mem n

/-- A lock passes the check just if its format is spelled as a first one, its packages are named in
normal form and its order is a permutation of their names. So every lock that is read and every
lock that is restored gives a resolution that has each package under the name of its spec and
installs each of them once and nothing else. -/
theorem verify_exact :
    (∀ l : LockFile, l.verify = .ok () ↔ FirstFormat l.formatVersion ∧
      (∀ name ∈ l.packages.keys, normalize name = name) ∧ l.order.Perm l.packages.keys) ∧
    (∀ (text : String) (l : LockFile), parse text = .ok l → l.toResolution.Ordered) ∧
    ∀ (l : LockFile) (R : Resolution), l.restore = .ok R → R.Ordered := by
  refine ⟨fun l => ?_, fun text l hread => ?_, fun l R hrestore => ?_⟩
  · rw [verify_eq_ok, consistent_iff]
  · exact (consistent_of_parse hread).ordered
  · obtain ⟨hconsistent, rfl⟩ := restore_eq_ok.mp hrestore
    exact hconsistent.ordered

end LockFile

end Depsolve
