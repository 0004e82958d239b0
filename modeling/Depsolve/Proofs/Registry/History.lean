import Depsolve.Proofs.Registry
import Mathlib.Data.List.Perm.Basic

/-!
A registry read off the calls that filled it.

The two kinds of call overwrite in opposite ways: an added spec replaces what is known under its
version, an installed one gives way to it.

* `get?_fill`: so the last spec that was added counts, and where none was, the first that was
  installed.
* `installedOf_fill_eq`: of the installed specs of a package the last one counts.
* `get?_fill_of_fresh` and `installedOf_fill` say what is kept and what is installed for sure.
* `alike_of_perm`: calls that are `Apart` may be made in any order, and the registry gives the
  same answers.
-/

namespace Depsolve

/-- Where at most one element has a value, the first value does not depend on the order. -/
theorem findSome?_eq_of_perm {α β : Type} {f : α → Option β} {xs ys : List α} (h : xs.Perm ys)
    (hone : xs.Pairwise fun x y => f x = none ∨ f y = none) :
    xs.findSome? f = ys.findSome? f := by
  induction h with
  | nil => rfl
  | cons x _ ih => rw [List.findSome?_cons, List.findSome?_cons, ih (List.pairwise_cons.mp hone).2]
  | swap x y xs =>
    rcases (List.pairwise_cons.mp hone).1 x List.mem_cons_self with hy | hx
    · simp [List.findSome?_cons, hy]
    · simp [List.findSome?_cons, hx]
  | trans hxs _ ihxs ihys =>
    exact (ihxs hone).trans (ihys (hxs.pairwise hone fun {_ _} => Or.symm))

namespace Registry

variable {g : Registry} {name : PackageName} {v : Version} {spec : PackageSpec}

/-! ### What a call has to say -/

namespace Call

/-- The spec that a call adds under a name and a version. -/
def added? (name : PackageName) (v : Version) : Call → Option PackageSpec
  | add s => if name = s.name ∧ compare v s.version = .eq then some s else none
  | install _ => none

/-- The spec that a call offers under a name and a version in case there is none. -/
def offered? (name : PackageName) (v : Version) : Call → Option PackageSpec
  | add _ => none
  | install s => if name = s.name ∧ compare v s.version = .eq then some s else none

/-- The spec that a call installs for a package. -/
def installed? (name : PackageName) : Call → Option PackageSpec
  | add _ => none
  | install s => if name = s.name then some s else none

end Call

theorem get?_apply (g : Registry) (c : Call) (name : PackageName) (v : Version) :
    (g.apply c).get? name.text v =
      ((c.added? name v).or (g.get? name.text v)).or (c.offered? name v) := by
  cases c with
  | add s =>
    rw [apply, get?_add, Call.added?, Call.offered?, Option.or_none]
    split
    · rw [Option.some_or]
    · rw [Option.none_or]
  | install s =>
    rw [apply, get?_install, Call.added?, Call.offered?, Option.none_or]
    split
    · cases g.get? name.text v <;> rfl
    · rw [Option.or_none]

theorem installedOf_apply (g : Registry) (c : Call) (name : PackageName) :
    (g.apply c).installedOf name = (c.installed? name).or (g.installedOf name) := by
  cases c with
  | add s => rw [apply, installedOf_add, Call.installed?, Option.none_or]
  | install s =>
    rw [apply, installedOf_install, Call.installed?]
    split
    · rw [Option.some_or]
    · rw [Option.none_or]

/-! ### What the calls come to -/

/-- The last spec that was added is the answer. Where none was, it is the one known before, or
else the first that was installed. -/
theorem get?_fill (g : Registry) (calls : List Call) (name : PackageName) (v : Version) :
    (g.fill calls).get? name.text v =
      ((calls.reverse.findSome? (Call.added? name v)).or (g.get? name.text v)).or
        (calls.findSome? (Call.offered? name v)) := by
  induction calls using List.reverseRecOn with
  | nil => rw [fill, List.foldl_nil, List.reverse_nil, List.findSome?_nil, List.findSome?_nil,
      Option.none_or, Option.or_none]
  | append_singleton calls c ih =>
    rw [fill_concat, get?_apply, ih, List.reverse_append, List.findSome?_append,
      List.findSome?_append, List.reverse_singleton]
    simp only [List.findSome?_singleton, Option.or_assoc]

/-- The last spec that was installed for a package is the installed one. -/
theorem installedOf_fill_eq (g : Registry) (calls : List Call) (name : PackageName) :
    (g.fill calls).installedOf name =
      (calls.reverse.findSome? (Call.installed? name)).or (g.installedOf name) := by
  induction calls using List.reverseRecOn with
  | nil => rfl
  | append_singleton calls c ih =>
    rw [fill_concat, installedOf_apply, ih, List.reverse_append, List.findSome?_append,
      List.reverse_singleton, List.findSome?_singleton, Option.or_assoc]

/-- Calls that add nothing under a version known before leave every answer as it is. -/
theorem get?_fill_of_fresh {more : List Call}
    (hfresh : ∀ s, .add s ∈ more → g.get? s.name.text s.version = none)
    (h : g.get? name.text v = some spec) : (g.fill more).get? name.text v = some spec := by
  have hnone : more.reverse.findSome? (Call.added? name v) = none := by
    refine List.findSome?_eq_none_iff.mpr fun c hc => ?_
    cases c with
    | install s => rfl
    | add s =>
      rw [Call.added?, if_neg]
      rintro ⟨rfl, hversion⟩
      have hunknown := hfresh s (List.mem_reverse.mp hc)
      rw [← get?_congr hversion, h] at hunknown
      cases hunknown
  rw [get?_fill, hnone, h, Option.none_or, Option.some_or]

/-- An added spec is the answer for its version if no other spec of its name is added under an
equal one. -/
theorem get?_fill_of_added {calls : List Call} (hadd : .add spec ∈ calls)
    (honly : ∀ s, .add s ∈ calls → s.name = spec.name →
      compare spec.version s.version = .eq → s = spec) :
    (g.fill calls).get? spec.name.text spec.version = some spec := by
  have hlast : calls.reverse.findSome? (Call.added? spec.name spec.version) = some spec := by
    cases hfound : calls.reverse.findSome? (Call.added? spec.name spec.version) with
    | none =>
      have hskipped := List.findSome?_eq_none_iff.mp hfound _ (List.mem_reverse.mpr hadd)
      simp [Call.added?] at hskipped
    | some s =>
      obtain ⟨c, hc, hs⟩ := List.exists_of_findSome?_eq_some hfound
      cases c with
      | install t => cases hs
      | add t =>
        obtain ⟨⟨hname, hversion⟩, ht⟩ := Option.ite_none_right_eq_some.mp hs
        rw [← ht, honly t (List.mem_reverse.mp hc) hname.symm hversion]
  rw [get?_fill, hlast, Option.some_or, Option.some_or]

/-- A package is installed as the only spec of its name that calls install. -/
theorem installedOf_fill {more : List Call} (hinstall : .install spec ∈ more)
    (honly : ∀ s, .install s ∈ more → s.name = spec.name → s = spec) :
    (g.fill more).installedOf spec.name = some spec := by
  have hlast : more.reverse.findSome? (Call.installed? spec.name) = some spec := by
    cases hfound : more.reverse.findSome? (Call.installed? spec.name) with
    | none =>
      have hskipped := List.findSome?_eq_none_iff.mp hfound _ (List.mem_reverse.mpr hinstall)
      simp [Call.installed?] at hskipped
    | some s =>
      obtain ⟨c, hc, hs⟩ := List.exists_of_findSome?_eq_some hfound
      cases c with
      | add t => cases hs
      | install t =>
        obtain ⟨hname, ht⟩ := Option.ite_none_right_eq_some.mp hs
        rw [← ht, honly t (List.mem_reverse.mp hc) hname.symm]
  rw [installedOf_fill_eq, hlast, Option.some_or]

/-! ### The order of the calls -/

/-- Two calls that do not get in each other's way: they do not add specs of one package under
equal versions, and they do not install specs of one package. -/
structure Call.Apart (c d : Call) : Prop where
  added : ∀ name v, c.added? name v = none ∨ d.added? name v = none
  installed : ∀ name, c.installed? name = none ∨ d.installed? name = none

namespace Call.Apart

variable {c d : Call} {s t : PackageSpec}

theorem symm (h : c.Apart d) : d.Apart c where
  added name v := (h.added name v).symm
  installed name := (h.installed name).symm

/-- A call that installs nothing for a package offers nothing for it. -/
theorem offered (h : c.Apart d) (name : PackageName) (v : Version) :
    c.offered? name v = none ∨ d.offered? name v = none := by
  have hnone : ∀ c : Call, c.installed? name = none → c.offered? name v = none := by
    intro c hc
    cases c with
    | add s => rfl
    | install s =>
      simp only [installed?, ite_eq_right_iff, reduceCtorEq, imp_false] at hc
      rw [offered?, if_neg fun hboth => hc hboth.1]
  exact (h.installed name).imp (hnone c) (hnone d)

theorem add_add (h : s.name = t.name → compare s.version t.version ≠ .eq) :
    (add s).Apart (add t) where
  added name v := by
    by_contra hboth
    simp only [added?, ite_eq_right_iff, reduceCtorEq, imp_false, not_or, not_not] at hboth
    obtain ⟨⟨hs, hvs⟩, ht, hvt⟩ := hboth
    exact h (hs.symm.trans ht) (Std.TransCmp.eq_trans (Std.OrientedCmp.eq_symm hvs) hvt)
  installed _ := .inl rfl

theorem install_install (h : s.name ≠ t.name) : (install s).Apart (install t) where
  added _ _ := .inl rfl
  installed name := by
    by_contra hboth
    simp only [installed?, ite_eq_right_iff, reduceCtorEq, imp_false, not_or, not_not] at hboth
    exact h (hboth.1.symm.trans hboth.2)

/-- A spec may be installed beside an added one, also of the same version. -/
theorem add_install : (add s).Apart (install t) where
  added _ _ := .inr rfl
  installed _ := .inl rfl

end Call.Apart

/-- Two registries with the same answers. -/
structure Alike (g g' : Registry) : Prop where
  get? : ∀ (name : PackageName) v, g.get? name.text v = g'.get? name.text v
  installedOf : ∀ name, g.installedOf name = g'.installedOf name

/-- Calls that are apart may be made in any order. -/
theorem alike_of_perm {calls calls' : List Call} (hcalls : calls.Perm calls')
    (hapart : calls.Pairwise Call.Apart) : (g.fill calls).Alike (g.fill calls') := by
  have hback : calls.reverse.Perm calls'.reverse :=
    (List.reverse_perm calls).trans (hcalls.trans (List.reverse_perm calls').symm)
  have hbackApart : calls.reverse.Pairwise Call.Apart :=
    (List.reverse_perm calls).symm.pairwise hapart fun {_ _} => Call.Apart.symm
  constructor
  · intro name v
    rw [get?_fill, get?_fill,
      findSome?_eq_of_perm hback (hbackApart.imp fun {_ _} h => h.added name v),
      findSome?_eq_of_perm hcalls (hapart.imp fun {_ _} h => h.offered name v)]
  · intro name
    rw [installedOf_fill_eq, installedOf_fill_eq,
      findSome?_eq_of_perm hback (hbackApart.imp fun {_ _} h => h.installed name)]

/-- The calls that add some specs and install others are apart where no two specs are added under
equal versions of a package and none is installed for a package twice. -/
theorem pairwise_apart {specs installed : List PackageSpec}
    (hspecs : specs.Pairwise fun s t => s.name = t.name → compare s.version t.version ≠ .eq)
    (hinstalled : installed.Pairwise fun s t => s.name ≠ t.name) :
    (specs.map Call.add ++ installed.map Call.install).Pairwise Call.Apart := by
  refine List.pairwise_append.mpr ⟨List.pairwise_map.mpr (hspecs.imp .add_add),
    List.pairwise_map.mpr (hinstalled.imp .install_install), fun c hc d hd => ?_⟩
  obtain ⟨s, -, rfl⟩ := List.mem_map.mp hc
  obtain ⟨t, -, rfl⟩ := List.mem_map.mp hd
  exact .add_install

end Registry

end Depsolve
