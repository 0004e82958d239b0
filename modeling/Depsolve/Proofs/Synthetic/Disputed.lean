import Depsolve.Proofs.Resolver.Coherent
import Depsolve.Proofs.Resolver.Recursive
import Depsolve.Proofs.Synthetic

/-!
Packages that all depend on one and disagree about its version.

The packages with an even index ask for the first version of the shared package and those with an
odd index for the second. The first package settles which version is chosen, and each of the odd
ones meets a conflict that leaves its dependency out of the graph.

* `visit_request`: the visit of a root chooses its package and then sees to the one task for the
  shared package.
* `Disputed` is what has been found out when some packages are chosen and some of their tasks are
  seen to. `Disputed.choose`, `Disputed.record` and `Disputed.report` are the steps, and
  `disputed_visitRoots` is the run.
* `conflicting_resolves` draws the conclusion for the answer.
-/

namespace Depsolve

/-- A dependency on a package that depends on nothing closes no cycle and is recorded. -/
theorem Findings.record_eq_link {f : Findings} {t : Task} {parent : PackageName}
    (hparent : t.parent = some parent) (hdependent : parent.text ∈ f.graph.names)
    (hdependency : t.name.text ∈ f.graph.names) (hne : t.name.text ≠ parent.text)
    (hnone : ∀ n, ¬ f.graph.Edge t.name.text n) :
    f.record t = { f with
      graph := f.graph.link parent.text t.name.text ⟨t.constraint, t.kind⟩ hdependent
        hdependency } := by
  have hpath : f.graph.path? t.name.text parent.text = none := by
    rw [Option.eq_none_iff_forall_ne_some]
    intro chain hchain
    exact hne ((DependencyGraph.simpleChain_of_path? hchain).eq_of_no_edge hnone)
  simp only [record, hparent, hpath, DependencyGraph.addDependency_eq_ok hdependent hdependency]

namespace Synthetic

variable {dependents index chosen settled : Nat} {f : Findings} {name : PackageName}
  {spec : PackageSpec}

/-! ### The packages -/

/-- A version of the package that all others depend on. -/
def shared (major : UInt64) : PackageSpec := PackageSpec.new "shared" (Version.release major 0 0)

/-- What a package asks of the shared one. -/
def side (index : Nat) : Constraint := caret (if index % 2 = 0 then 1 else 2) 0

/-- A package that asks for its side of the shared one. -/
def asking (index : Nat) : PackageSpec :=
  (PackageSpec.new (packageName index) (Version.release 1 0 0)).withDependency "shared"
    (side index)

@[simp] theorem text_shared : (PackageName.of "shared").text = "shared" := by decide

@[simp] theorem text_packageName (index : Nat) :
    (PackageName.of (packageName index)).text = packageName index :=
  normalize_packageName index

theorem packageName_ne_shared (index : Nat) : packageName index ≠ "shared" := by
  intro h
  have hchars := congrArg String.toList h
  rw [toList_packageName] at hchars
  have hfirst : 'p' = 's' := (List.cons.inj hchars).1
  exact absurd hfirst (by decide)

theorem of_packageName_ne (index : Nat) :
    PackageName.of (packageName index) ≠ PackageName.of "shared" := by
  intro h
  have htext := congrArg PackageName.text h
  rw [text_packageName, text_shared] at htext
  exact packageName_ne_shared index htext

theorem id_asking (index : Nat) : (asking index).id = packageName index ++ "@1.0.0" := by
  have hname : (asking index).name.text = packageName index := text_packageName index
  have hversion : "@" ++ (Version.release 1 0 0).render = "@1.0.0" := by decide
  rw [PackageSpec.id, PackageSpec.idOf, hname, String.append_assoc, ← hversion]
  rfl

/-! ### The registry -/

/-- The calls that offer the shared package and those that ask for it. -/
def conflictingCalls (dependents : Nat) : List Registry.Call :=
  ([shared 1, shared 2] ++ (List.range dependents).map asking).map .add

theorem conflicting_eq (dependents : Nat) :
    conflicting dependents =
      ⟨Registry.empty.fill (conflictingCalls dependents), Context.default⟩ :=
  foldl_register_eq _

theorem add_mem_conflictingCalls :
    .add spec ∈ conflictingCalls dependents ↔
      spec = shared 1 ∨ spec = shared 2 ∨ ∃ index < dependents, spec = asking index := by
  rw [conflictingCalls, List.mem_map_of_injective fun _ _ => Registry.Call.add.inj]
  simp [eq_comm]

/-- The registry knows two versions of the shared package and one of each other. -/
theorem knows_iff :
    (Registry.empty.fill (conflictingCalls dependents)).Knows name spec ↔
      name = spec.name ∧
        (spec = shared 1 ∨ spec = shared 2 ∨ ∃ index < dependents, spec = asking index) := by
  constructor
  · intro h
    refine ⟨((Registry.indexed_fill _).name_of_knows h).symm, ?_⟩
    obtain ⟨c, hc, rfl⟩ := Registry.exists_call_of_knows h
    obtain ⟨s, -, rfl⟩ := List.mem_map.mp hc
    exact add_mem_conflictingCalls.mp hc
  · rintro ⟨rfl, hspec⟩
    refine Registry.knows_of_get? (Registry.get?_fill_of_added
      (add_mem_conflictingCalls.mpr hspec) fun s hs hname hversion => ?_)
    have hapart : compare (Version.release 1 0 0) (Version.release 2 0 0) ≠ .eq := by decide
    rcases add_mem_conflictingCalls.mp hs with rfl | rfl | ⟨i, -, rfl⟩ <;>
      rcases hspec with rfl | rfl | ⟨j, -, rfl⟩
    · rfl
    · exact absurd (Std.OrientedCmp.eq_symm hversion) hapart
    · exact absurd hname.symm (of_packageName_ne j)
    · exact absurd hversion hapart
    · rfl
    · exact absurd hname.symm (of_packageName_ne j)
    · exact absurd hname (of_packageName_ne i)
    · exact absurd hname (of_packageName_ne i)
    · rw [of_packageName_inj.mp hname]

/-! ### Selection -/

/-- A package is chosen at its only version. -/
theorem choose_asking (hindex : index < dependents) :
    (conflicting dependents).choose (PackageName.of (packageName index)) Constraint.any =
      .ok (asking index) := by
  rw [conflicting_eq]
  refine choose_of_newest (knows_iff.mpr ⟨rfl, .inr (.inr ⟨index, hindex, rfl⟩)⟩) rfl rfl
    fun other hother _ => ?_
  obtain ⟨hname, rfl | rfl | ⟨i, -, rfl⟩⟩ := knows_iff.mp hother
  · exact absurd hname (of_packageName_ne index)
  · exact absurd hname (of_packageName_ne index)
  · rw [of_packageName_inj.mp hname, Std.ReflOrd.compare_self]
    decide

/-- The first package settles on the first version of the shared one. -/
theorem choose_shared (dependents : Nat) :
    (conflicting dependents).choose (PackageName.of "shared") (side 0) = .ok (shared 1) := by
  rw [conflicting_eq]
  refine choose_of_newest (knows_iff.mpr ⟨rfl, .inl rfl⟩) rfl (by decide)
    fun other hother hholds => ?_
  obtain ⟨hname, rfl | rfl | ⟨i, -, rfl⟩⟩ := knows_iff.mp hother
  · rw [Std.ReflOrd.compare_self]
    decide
  · have hnot : (side 0).holds (shared 2).version = false := by decide
    rw [hnot] at hholds
    cases hholds
  · exact absurd hname.symm (of_packageName_ne i)

theorem holds_side_iff :
    (side index).holds (shared 1).version = true ↔ index % 2 = 0 := by
  by_cases heven : index % 2 = 0
  · rw [side, if_pos heven]
    exact iff_of_true (by decide) heven
  · rw [side, if_neg heven]
    exact iff_of_false (by decide) heven

/-! ### The visit of one root -/

/-- The task of a root for its package. -/
def rootTask (index : Nat) : Task :=
  ⟨PackageName.of (packageName index), Constraint.any, none, .required, SortedMap.empty⟩

/-- The task of a package for the shared one. -/
def sharedTask (index : Nat) : Task :=
  ⟨PackageName.of "shared", side index, some (PackageName.of (packageName index)), .required,
    SortedMap.empty⟩

theorem text_rootTask (index : Nat) : (rootTask index).name.text = packageName index :=
  text_packageName index

theorem text_sharedTask (index : Nat) : (sharedTask index).name.text = "shared" := text_shared

/-- The package that asks for the shared one is another. -/
theorem not_mem_path (index : Nat) :
    (sharedTask index).name ∉ [PackageName.of (packageName index)] := fun hmem =>
  of_packageName_ne index (List.mem_singleton.mp hmem).symm

theorem root_request (index : Nat) : Task.root (request index) = rootTask index := by
  have hname : PackageName.of (normalize (packageName index)) =
      PackageName.of (packageName index) := PackageName.ext (normalize_normalize _)
  rw [Task.root, request, Requirement.new, hname, rootTask]

/-- The package of a root is chosen, and then it asks for the shared one. -/
theorem visit_request (hindex : index < dependents)
    (hnew : f.resolved.get? (packageName index) = none) :
    (conflicting dependents).visit [] (Task.root (request index)) f =
      (conflicting dependents).visit [PackageName.of (packageName index)] (sharedTask index)
        (f.choose (rootTask index) (asking index)) := by
  have hname : (rootTask index).name = PackageName.of (packageName index) := rfl
  have hchildren : Task.children (rootTask index).name .required (asking index).dependencies ++
      (rootTask index).extraChildren (asking index) = [sharedTask index] := rfl
  have hrecord : (f.choose (rootTask index) (asking index)).record (rootTask index) =
      f.choose (rootTask index) (asking index) := rfl
  rw [root_request, Resolver.visit_of_new List.not_mem_nil ((text_rootTask index).symm ▸ hnew)]
  have hchoose : (conflicting dependents).choose (rootTask index).name (rootTask index).constraint =
      .ok (asking index) := choose_asking hindex
  simp only [hchoose, hchildren, hrecord]
  rw [Resolver.visitAll, Resolver.visitAll, hname, List.nil_append]

/-- The shared package is chosen when the first package asks for it. -/
theorem visit_sharedTask_of_new (hnew : f.resolved.get? "shared" = none) :
    (conflicting dependents).visit [PackageName.of (packageName 0)] (sharedTask 0) f =
      (f.choose (sharedTask 0) (shared 1)).record (sharedTask 0) := by
  have hchoose : (conflicting dependents).choose (sharedTask 0).name (sharedTask 0).constraint =
      .ok (shared 1) := choose_shared dependents
  have hchildren : Task.children (sharedTask 0).name .required (shared 1).dependencies ++
      (sharedTask 0).extraChildren (shared 1) = [] := rfl
  rw [Resolver.visit_of_new (not_mem_path 0) ((text_sharedTask 0).symm ▸ hnew)]
  simp only [hchoose, hchildren]
  rw [Resolver.visitAll]

/-- Once it is chosen, an even package depends on it and an odd one meets a conflict. -/
theorem visit_sharedTask (hresolved : f.resolved.get? "shared" = some (shared 1)) :
    (conflicting dependents).visit [PackageName.of (packageName index)] (sharedTask index) f =
      if index % 2 = 0 then f.record (sharedTask index)
      else f.report (f.disagreement (sharedTask index) (shared 1)) := by
  have hconstraint : (sharedTask index).constraint = side index := rfl
  have hextras : (sharedTask index).extras.isEmpty = true := rfl
  rw [Resolver.visit, if_neg (not_mem_path index), text_sharedTask]
  simp only [hresolved, hconstraint, holds_side_iff, hextras, if_true]

/-! ### What the roots find out -/

/-- The conflict of an odd package. -/
def dispute (index : Nat) : Conflict where
  kind := .version
  package := "shared"
  specs := ["shared@1.0.0", "shared ^2.0"]
  explanation :=
    "Package 'shared' is already resolved to 1.0.0 (required by pkg-0@1.0.0), which does not "
      ++ "satisfy '^2.0' required by " ++ packageName index ++ "@1.0.0"

/-- Every second index is odd. -/
theorem length_filter_odd (count : Nat) :
    ((List.range count).filter (· % 2 = 1)).length = count / 2 := by
  induction count with
  | zero => rfl
  | succ count ih =>
    have hlast : ([count].filter (· % 2 = 1)).length = count % 2 := by
      rcases Nat.mod_two_eq_zero_or_one count with h | h <;> simp [h]
    rw [List.range_succ, List.filter_append, List.length_append, ih, hlast]
    omega

/-- The choices: the shared package and some others. -/
def choices (chosen : Nat) : List (String × PackageSpec) :=
  ("shared", shared 1) :: (List.range chosen).map fun index => (packageName index, asking index)

/-- What has been found out when some packages are chosen and the tasks of some of them for the
shared package are settled. -/
structure Disputed (chosen settled : Nat) (f : Findings) : Prop where
  resolved : f.resolved.entries.Perm (choices chosen)
  requester : f.requesters.get? "shared" = some (asking 0).id
  conflicts : f.conflicts = ((List.range settled).filter (· % 2 = 1)).map dispute
  known : ∀ name ∈ f.resolved.keys, name ∈ f.graph.names
  edges : ∀ a b, f.graph.Edge a b ↔
    b = "shared" ∧ ∃ index < settled, index % 2 = 0 ∧ a = packageName index

namespace Disputed

theorem get?_shared (h : Disputed chosen settled f) :
    f.resolved.get? "shared" = some (shared 1) :=
  InsertionMap.get?_eq_some_iff.mpr (h.resolved.mem_iff.mpr List.mem_cons_self)

theorem get?_packageName (h : Disputed chosen settled f) (hindex : index < chosen) :
    f.resolved.get? (packageName index) = some (asking index) :=
  InsertionMap.get?_eq_some_iff.mpr (h.resolved.mem_iff.mpr
    (List.mem_cons_of_mem _ (List.mem_map.mpr ⟨index, List.mem_range.mpr hindex, rfl⟩)))

theorem get?_new (h : Disputed chosen settled f) :
    f.resolved.get? (packageName chosen) = none := by
  rw [Option.eq_none_iff_forall_ne_some]
  intro spec hspec
  rcases List.mem_cons.mp (h.resolved.mem_iff.mp (InsertionMap.get?_eq_some_iff.mp hspec)) with
    hshared | hother
  · exact packageName_ne_shared _ (congrArg Prod.fst hshared)
  · obtain ⟨i, hi, hsame⟩ := List.mem_map.mp hother
    have heq : i = chosen := packageName_injective (congrArg Prod.fst hsame)
    exact absurd (List.mem_range.mp hi) (by omega)

theorem length_conflicts (h : Disputed chosen settled f) : f.conflicts.length = settled / 2 := by
  rw [h.conflicts, List.length_map, length_filter_odd]

theorem isCritical (h : Disputed chosen settled f) {c : Conflict} (hc : c ∈ f.conflicts) :
    c.isCritical = true := by
  rw [h.conflicts] at hc
  obtain ⟨index, -, rfl⟩ := List.mem_map.mp hc
  rfl

/-- The next package is chosen. -/
theorem choose (h : Disputed chosen settled f) :
    Disputed (chosen + 1) settled (f.choose (rootTask chosen) (asking chosen)) := by
  have hentries := InsertionMap.entries_insert_of_new h.get?_new (asking chosen)
  have hne : "shared" ≠ packageName chosen := (packageName_ne_shared chosen).symm
  refine ⟨?_, ?_, h.conflicts, fun name hname => ?_, fun a b => ?_⟩
  · have hnext : choices (chosen + 1) =
        choices chosen ++ [(packageName chosen, asking chosen)] := by
      simp only [choices, List.range_succ, List.map_append, List.map_cons, List.map_nil,
        List.cons_append]
    simp only [Findings.choose, text_rootTask]
    rw [hentries, hnext]
    exact h.resolved.append_right _
  · simp only [Findings.choose, text_rootTask]
    rw [InsertionMap.get?_insert, if_neg hne, h.requester]
  · simp only [Findings.choose, text_rootTask, InsertionMap.keys, hentries, List.map_append,
      List.map_cons, List.map_nil, List.mem_append, List.mem_singleton] at hname ⊢
    exact DependencyGraph.mem_names_add.mpr (hname.imp_left (h.known name))
  · simp only [Findings.choose, DependencyGraph.edge_add]
    exact h.edges a b

/-- An even package depends on the shared one. -/
theorem record (h : Disputed chosen settled f) (hsettled : settled < chosen)
    (heven : settled % 2 = 0) :
    Disputed chosen (settled + 1) (f.record (sharedTask settled)) := by
  have hparent : (PackageName.of (packageName settled)).text = packageName settled :=
    text_packageName settled
  have hdependency : (sharedTask settled).name.text ∈ f.graph.names := by
    rw [text_sharedTask]
    exact h.known _ (InsertionMap.mem_keys_of_get? h.get?_shared)
  have hdependent : (PackageName.of (packageName settled)).text ∈ f.graph.names := by
    rw [hparent]
    exact h.known _ (InsertionMap.mem_keys_of_get? (h.get?_packageName hsettled))
  have hne : (sharedTask settled).name.text ≠ (PackageName.of (packageName settled)).text := by
    rw [text_sharedTask, hparent]
    exact (packageName_ne_shared settled).symm
  have hnone : ∀ n, ¬ f.graph.Edge (sharedTask settled).name.text n := by
    intro n hedge
    rw [text_sharedTask] at hedge
    obtain ⟨-, i, -, -, hi⟩ := (h.edges _ _).mp hedge
    exact packageName_ne_shared i hi.symm
  rw [Findings.record_eq_link rfl hdependent hdependency hne hnone]
  refine ⟨h.resolved, h.requester, ?_, fun name hname => ?_, fun a b => ?_⟩
  · rw [h.conflicts, List.range_succ, List.filter_append, List.filter_singleton]
    simp [heven]
  · rw [DependencyGraph.names, DependencyGraph.packages_link]
    exact h.known name hname
  · rw [DependencyGraph.edge_link, h.edges, text_sharedTask, hparent, Nat.exists_lt_succ_right,
      and_iff_right heven, and_or_left]
    exact or_congr_right and_comm

/-- The conflict of an odd package blames the first package for the choice. -/
theorem disagreement (h : Disputed chosen settled f) (hsettled : settled < chosen)
    (hodd : settled % 2 = 1) :
    f.disagreement (sharedTask settled) (shared 1) = dispute settled := by
  have hconstraint : (sharedTask settled).constraint = caret 2 0 := by
    rw [sharedTask, side, if_neg (by omega)]
  have hrequirement : (sharedTask settled).requirement = "shared ^2.0" := by
    rw [Task.requirement, text_sharedTask, hconstraint]
    decide
  have hexisting : (shared 1).id = "shared@1.0.0" := by decide
  have hfirst : (f.session [] []).requesters.get? "shared" = some (asking 0).id := h.requester
  have hasking : (f.session [] []).resolved.get? (PackageName.of (packageName settled)).text =
      some (asking settled) := (text_packageName settled).symm ▸ h.get?_packageName hsettled
  have hrequester : (f.session [] []).requester (sharedTask settled) = (asking settled).id := by
    simp only [Session.requester, sharedTask, hasking]
  have hopening : "Package '" ++ "shared" ++ "' is already resolved to " ++
      (shared 1).version.render ++ " (required by " ++ (asking 0).id ++
      "), which does not satisfy '" ++ (caret 2 0).render ++ "' required by " =
      "Package 'shared' is already resolved to 1.0.0 (required by pkg-0@1.0.0), which does not " ++
      "satisfy '^2.0' required by " := by decide
  simp only [Findings.disagreement, Session.disagreement, text_sharedTask, hconstraint, hrequirement,
    hexisting, hfirst, hrequester, Option.getD_some, hopening]
  rw [id_asking, ← String.append_assoc, dispute]

/-- An odd package meets a conflict, and its dependency is not recorded. -/
theorem report (h : Disputed chosen settled f) (hsettled : settled < chosen)
    (hodd : settled % 2 = 1) :
    Disputed chosen (settled + 1)
      (f.report (f.disagreement (sharedTask settled) (shared 1))) := by
  refine ⟨h.resolved, h.requester, ?_, h.known, fun a b => ?_⟩
  · rw [h.disagreement hsettled hodd, Findings.report, h.conflicts, List.range_succ,
      List.filter_append, List.filter_singleton]
    simp [hodd]
  · refine (h.edges a b).trans (and_congr_right fun _ => ?_)
    rw [Nat.exists_lt_succ_right]
    exact (or_iff_left fun hlast => absurd hlast.1 (by omega)).symm

/-- One more root is visited. -/
theorem visit (h : Disputed chosen chosen f) (hchosen : chosen < dependents) :
    Disputed (chosen + 1) (chosen + 1)
      ((conflicting dependents).visit [] (Task.root (request chosen)) f) := by
  rw [visit_request hchosen h.get?_new, visit_sharedTask h.choose.get?_shared]
  split
  · rename_i heven
    exact h.choose.record (Nat.lt_succ_self _) heven
  · exact h.choose.report (Nat.lt_succ_self _) (by omega)

end Disputed

/-- The first package is chosen, and the shared one on its behalf. -/
theorem disputed_first :
    Disputed 1 0 ((Findings.start.choose (rootTask 0) (asking 0)).choose (sharedTask 0)
      (shared 1)) where
  resolved := by
    have hentries : ((Findings.start.choose (rootTask 0) (asking 0)).choose (sharedTask 0)
        (shared 1)).resolved.entries = [(packageName 0, asking 0), ("shared", shared 1)] := by
      decide
    rw [hentries]
    exact .swap _ _ _
  requester := by decide
  conflicts := rfl
  known := by decide
  edges a b := by
    have hlinks : ((Findings.start.choose (rootTask 0) (asking 0)).choose (sharedTask 0)
        (shared 1)).graph.links = [] := by
      decide
    simp [DependencyGraph.Edge, hlinks]

/-- The first roots are visited. -/
theorem disputed_visitRoots {count : Nat} (hpos : 0 < count) (hcount : count ≤ dependents) :
    Disputed count count ((conflicting dependents).visitRoots ((List.range count).map request)
      Findings.start) := by
  induction count, hpos using Nat.le_induction with
  | base =>
    have hnone : Findings.start.resolved.get? (packageName 0) = none := rfl
    have hshared : (Findings.start.choose (rootTask 0) (asking 0)).resolved.get? "shared" =
        none := by
      decide
    have hfirst := disputed_first.record Nat.zero_lt_one rfl
    rwa [← visit_sharedTask_of_new hshared, ← visit_request hcount hnone] at hfirst
  | succ count hpos ih =>
    rw [List.range_succ, List.map_append, List.map_singleton, Resolver.visitRoots_concat]
    exact (ih (by omega)).visit (by omega)

/-! ### The resolution -/

/-- Packages that disagree about the one they all depend on. All of them are chosen, and the
shared package at the version that the first of them asks for. Each one with an odd index meets a
conflict about it, critical and in the order of the indices, and there is no other. All have a
place in the order of installation, the shared package in front of those with an even index. -/
theorem conflicting_resolves (hdependents : 0 < dependents) :
    ∃ R, (conflicting dependents).resolveTexts
        ((List.range dependents).map fun index => (packageName index, "*")) SortedMap.empty =
        .ok R ∧
      R.resolved.entries.Perm (("shared", shared 1) ::
        (List.range dependents).map fun index => (packageName index, asking index)) ∧
      R.conflicts = ((List.range dependents).filter (· % 2 = 1)).map dispute ∧
      R.conflicts.length = dependents / 2 ∧
      R.critical = R.conflicts ∧
      R.order.Perm ("shared" :: (List.range dependents).map packageName) ∧
      ∀ index < dependents, index % 2 = 0 →
        R.order.idxOf "shared" < R.order.idxOf (packageName index) := by
  have hdisputed := disputed_visitRoots hdependents (Nat.le_refl dependents)
  have hcoherent := ((conflicting dependents).reached_afterRoots
    ((List.range dependents).map request)).1.coherent
  obtain ⟨order, -, hfinish, -, hperm, hfirst⟩ := hcoherent.finish
  rw [Resolver.afterRoots_eq] at hfinish hperm hfirst
  refine ⟨_, resolveTexts_request _ _, ?_⟩
  rw [Resolver.resolve_eq_finish, Resolver.afterRoots_eq, hfinish]
  refine ⟨hdisputed.resolved, hdisputed.conflicts, hdisputed.length_conflicts,
    List.filter_eq_self.mpr fun _ => hdisputed.isCritical, ?_, fun index hindex heven => ?_⟩
  · refine hperm.trans ?_
    have hkeys := hdisputed.resolved.map Prod.fst
    rwa [choices, List.map_cons, List.map_map] at hkeys
  · exact hfirst _ _ ((hdisputed.edges _ _).mpr ⟨rfl, index, hindex, heven, rfl⟩)

/-- Of five packages the second and the fourth disagree. -/
theorem conflicting_resolves_five :
    0 < 5 ∧ ∃ R, (conflicting 5).resolveTexts
        [("pkg-0", "*"), ("pkg-1", "*"), ("pkg-2", "*"), ("pkg-3", "*"), ("pkg-4", "*")]
        SortedMap.empty = .ok R ∧
      R.resolved.keys.Perm ["shared", "pkg-0", "pkg-1", "pkg-2", "pkg-3", "pkg-4"] ∧
      R.resolved.get? "shared" = some (shared 1) ∧
      R.critical = [dispute 1, dispute 3] ∧
      R.order.idxOf "shared" < R.order.idxOf "pkg-4" := by
  have hdependents : 0 < 5 := by decide
  obtain ⟨R, hR, hresolved, hconflicts, -, hcritical, -, hfirst⟩ :=
    conflicting_resolves hdependents
  refine ⟨hdependents, R, hR, hresolved.map Prod.fst, ?_, hcritical.trans hconflicts,
    hfirst 4 (by decide) rfl⟩
  exact InsertionMap.get?_eq_some_iff.mpr (hresolved.mem_iff.mpr List.mem_cons_self)

end Synthetic

end Depsolve
