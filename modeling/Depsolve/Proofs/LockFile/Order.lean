import Depsolve.Proofs.LockFile.RoundTrip
import Mathlib.Data.String.Basic

/-!
The order in which the packages of a lock come back.

A lock lists its packages in the order in which they were resolved. Its text keeps that order,
but the records of a document are read by name, so that the lock which is read lists its packages
by name.

* `keys_sorted_eq_iff`: putting a map in order moves nothing just if its keys are ascending.
* `lock_read_in_name_order`: the lock of a resolution without conflicts comes back with the same
  packages in ascending order, as does the resolution that it restores. The order of resolution
  is kept just if it was the ascending one.
* `resolution_order_lost`: in general it is not kept.
-/

namespace Depsolve

namespace InsertionMap

variable {α : Type} {m : InsertionMap String α}

theorem ascending_keys_sorted (m : InsertionMap String α) : m.sorted.keys.Pairwise (· < ·) :=
  List.pairwise_map.mpr ((SortedMap.ofList m.entries).ascending.imp compare_lt_iff_lt.mp)

theorem perm_keys_sorted (m : InsertionMap String α) : m.sorted.keys.Perm m.keys :=
  (List.perm_ext_iff_of_nodup m.sorted.distinct m.distinct).mpr fun _ => mem_keys_sorted

/-- Entries with ascending keys stay where they are. -/
theorem sorted_of_ascending (h : m.keys.Pairwise (· < ·)) : m.sorted = m :=
  ext (SortedMap.entries_ofList_of_ascending
    ((List.pairwise_map.mp h).imp compare_lt_iff_lt.mpr))

theorem keys_sorted_eq_iff : m.sorted.keys = m.keys ↔ m.keys.Pairwise (· < ·) := by
  constructor
  · intro h
    rw [← h]
    exact m.ascending_keys_sorted
  · intro h
    rw [sorted_of_ascending h]

end InsertionMap

namespace LockFile

theorem keys_toResolution (l : LockFile) : l.toResolution.resolved.keys = l.packages.keys :=
  InsertionMap.keys_mapEntries _ _

/-- The lock of an answer is read off its text by name. -/
theorem parse_render_resolve (context : Context) {calls : List Registry.Call}
    (roots : List Requirement) (hbuilt : ∀ c ∈ calls, c.spec.Built) :
    parse (locked (((Resolver.new context).after calls).resolve roots) context).render =
      .ok (locked (((Resolver.new context).after calls).resolve roots) context).sorted :=
  parse_render
    (consistent_locked (Resolver.ordered_resolve (Resolver.indexed_after context calls)))
    (wellFormed_locked fun _ _ hn => (Resolver.built_of_resolved hbuilt hn).wellFormed)

end LockFile

/-- The lock of a resolution without conflicts lists its packages in the order of the resolution.
It is read off its text with the same packages in ascending order, and so is the resolution that
it restores; the order of the resolution is kept just if it was the ascending one. -/
theorem lock_read_in_name_order (context : Context) (calls : List Registry.Call)
    (roots : List Requirement) (hbuilt : ∀ c ∈ calls, c.spec.Built)
    (hsuccess : (((Resolver.new context).after calls).resolve roots).isSuccessful = true) :
    ∃ lock,
      LockFile.ofResolution (((Resolver.new context).after calls).resolve roots) context =
        .ok lock ∧
      lock.packages.keys = (((Resolver.new context).after calls).resolve roots).resolved.keys ∧
      ∃ read, LockFile.parse lock.render = .ok read ∧
        read.toResolution.resolved.keys = read.packages.keys ∧
        read.packages.keys.Perm lock.packages.keys ∧
        read.packages.keys.Pairwise (· < ·) ∧
        (read.packages.keys = lock.packages.keys ↔ lock.packages.keys.Pairwise (· < ·)) := by
  refine ⟨_, LockFile.ofResolution_of_isSuccessful hsuccess, LockFile.keys_packages_locked _ _, _,
    LockFile.parse_render_resolve context roots hbuilt, LockFile.keys_toResolution _, ?_, ?_, ?_⟩
  · exact InsertionMap.perm_keys_sorted _
  · exact InsertionMap.ascending_keys_sorted _
  · exact InsertionMap.keys_sorted_eq_iff

namespace LockFile

/-- The library is asked for in front of the application. -/
def libraryFirst : Resolution :=
  ((Resolver.new onPlatform).after [.add app, .install lib]).resolve
    [Requirement.new "lib" Constraint.any, Requirement.new "app" Constraint.any]

theorem built_calls : ∀ c ∈ [Registry.Call.add app, .install lib], c.spec.Built := by
  simp [Registry.Call.spec, built_app, built_lib]

theorem isSuccessful_libraryFirst : libraryFirst.isSuccessful = true := by cbv

theorem keys_libraryFirst : libraryFirst.resolved.keys = ["lib", "app"] := by cbv

end LockFile

/-- The library and the application come back in the other order. -/
theorem lock_read_in_name_order_libraryFirst :
    (∀ c ∈ [Registry.Call.add LockFile.app, .install LockFile.lib], c.spec.Built) ∧
      LockFile.libraryFirst.isSuccessful = true ∧
      ∃ lock, LockFile.ofResolution LockFile.libraryFirst LockFile.onPlatform = .ok lock ∧
        lock.packages.keys = ["lib", "app"] ∧
        ∃ read, LockFile.parse lock.render = .ok read ∧
          read.toResolution.resolved.keys = read.packages.keys ∧
          read.packages.keys.Perm ["lib", "app"] ∧
          read.packages.keys.Pairwise (· < ·) ∧
          (read.packages.keys = ["lib", "app"] ↔ ["lib", "app"].Pairwise (· < ·)) := by
  refine ⟨LockFile.built_calls, LockFile.isSuccessful_libraryFirst, ?_⟩
  obtain ⟨lock, hlock, hkeys, read, hread⟩ := lock_read_in_name_order LockFile.onPlatform
    [.add LockFile.app, .install LockFile.lib]
    [Requirement.new "lib" Constraint.any, Requirement.new "app" Constraint.any]
    LockFile.built_calls LockFile.isSuccessful_libraryFirst
  have hkeys : lock.packages.keys = ["lib", "app"] := hkeys.trans LockFile.keys_libraryFirst
  rw [hkeys] at hread
  exact ⟨lock, hlock, hkeys, read, hread⟩

/-- The order in which packages were resolved is not that in which their lock comes back. -/
theorem resolution_order_lost :
    ¬ ∀ (context : Context) (calls : List Registry.Call) (roots : List Requirement),
      (∀ c ∈ calls, c.spec.Built) →
      (((Resolver.new context).after calls).resolve roots).isSuccessful = true →
      ∃ lock,
        LockFile.ofResolution (((Resolver.new context).after calls).resolve roots) context =
          .ok lock ∧
        ∃ read, LockFile.parse lock.render = .ok read ∧
          read.packages.keys = lock.packages.keys ∧
          read.toResolution.resolved.keys = lock.packages.keys := by
  intro h
  obtain ⟨lock, hlock, read, hread, hkeys, -⟩ := h LockFile.onPlatform
    [.add LockFile.app, .install LockFile.lib]
    [Requirement.new "lib" Constraint.any, Requirement.new "app" Constraint.any]
    LockFile.built_calls LockFile.isSuccessful_libraryFirst
  change LockFile.ofResolution LockFile.libraryFirst LockFile.onPlatform = .ok lock at hlock
  rw [LockFile.ofResolution_of_isSuccessful LockFile.isSuccessful_libraryFirst] at hlock
  cases hlock
  have hparse : LockFile.parse (LockFile.locked LockFile.libraryFirst LockFile.onPlatform).render =
      .ok (LockFile.locked LockFile.libraryFirst LockFile.onPlatform).sorted :=
    LockFile.parse_render_resolve _ _ LockFile.built_calls
  rw [hparse] at hread
  cases hread
  have hascending := InsertionMap.keys_sorted_eq_iff.mp hkeys
  rw [LockFile.keys_packages_locked, LockFile.keys_libraryFirst] at hascending
  exact absurd hascending (by decide +kernel)

end Depsolve
