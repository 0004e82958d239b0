import Depsolve.Proofs.Except
import Depsolve.Proofs.Resolver.Provenance

/-!
Groups wanted with roots that are given as texts.

The keys of the wanted groups are put in normal form as they are, while a root is named by what is
left of its text without the white space at both ends.

* `resolveTexts_eq`: a root takes the groups of every key whose normal form is its name.
* `extras_of_own_spelling`: so a root that is spelled as in the map takes just what the map has for
  it, as long as white space at the ends makes no difference to the normal forms of the keys.
* `extras_lost_behind_blanks`: otherwise the groups may be lost without a word.
-/

namespace Depsolve

/-- The requirement with some more groups. -/
def Requirement.withExtras (root : Requirement) (groups : SortedSet String) : Requirement :=
  groups.toList.foldl Requirement.withExtra root

theorem Requirement.withExtras_eq (root : Requirement) (groups : SortedSet String) :
    root.withExtras groups =
      { root with
        extras := groups.toList.foldl (fun gs g => gs.add (normalize g)) root.extras } := by
  rw [withExtras]
  induction groups.toList generalizing root with
  | nil => rfl
  | cons g gs ih =>
    rw [List.foldl_cons, List.foldl_cons, ih]
    rfl

/-- A root is named by its text without the white space at both ends. -/
theorem Requirement.name_of_parse {name constraint : String} {root : Requirement}
    (h : parse name constraint = .ok root) : root.name = normalize (Text.trim name) := by
  rw [parse, ite_error_eq_ok] at h
  obtain ⟨-, h⟩ := h
  generalize Constraint.parse constraint = read at h
  cases read with
  | error cause => cases h
  | ok c =>
    obtain rfl := Except.ok.inj h
    rfl

namespace Resolver

variable {requested merged : RequestedExtras} {pairs : List (String × String)}
  {parsed : List Requirement}

/-- The groups that a map has for a name. -/
def groupsFor (requested : RequestedExtras) (name : String) : SortedSet String :=
  (requested.get? name).getD SortedMap.empty

/-! ### Spellings of one name taken together -/

/-- The groups of one more key go to those of its normal form. -/
def mergeKey (merged : RequestedExtras) (e : String × SortedSet String) : RequestedExtras :=
  merged.insert (normalize e.1)
    (e.2.toList.foldl (fun gs g => gs.add (normalize g)) (groupsFor merged (normalize e.1)))

theorem mergeExtras_eq_foldl (requested : RequestedExtras) :
    mergeExtras requested = requested.entries.foldl mergeKey SortedMap.empty := rfl

/-- A key adds its groups to those of its normal form. -/
theorem mem_groupsFor_mergeKey {e : String × SortedSet String} {name group : String} :
    group ∈ (groupsFor (mergeKey merged e) name).toList ↔
      group ∈ (groupsFor merged name).toList ∨
        normalize e.1 = name ∧ ∃ g ∈ e.2.toList, normalize g = group := by
  rw [groupsFor, mergeKey, SortedMap.get?_insert]
  by_cases h : name = normalize e.1
  · subst h
    rw [if_pos Std.ReflOrd.compare_self, Option.getD_some, SortedSet.mem_toList_foldl_add]
    simp only [true_and]
  · have hne : compare name (normalize e.1) ≠ .eq := fun heq =>
      h (Std.LawfulEqOrd.eq_of_compare heq)
    rw [if_neg hne]
    exact (or_iff_left fun hboth => h hboth.1.symm).symm

theorem mem_groupsFor_foldl {es : List (String × SortedSet String)} {name group : String} :
    group ∈ (groupsFor (es.foldl mergeKey merged) name).toList ↔
      group ∈ (groupsFor merged name).toList ∨
        ∃ e ∈ es, normalize e.1 = name ∧ ∃ g ∈ e.2.toList, normalize g = group := by
  induction es generalizing merged with
  | nil => simp
  | cons e es ih =>
    rw [List.foldl_cons, ih, mem_groupsFor_mergeKey, or_assoc, List.exists_mem_cons_iff]

/-- A name has the groups of every key whose normal form it is. -/
theorem mem_groupsFor_mergeExtras {name group : String} :
    group ∈ (groupsFor (mergeExtras requested) name).toList ↔
      ∃ e ∈ requested.entries, normalize e.1 = name ∧ ∃ g ∈ e.2.toList, normalize g = group := by
  rw [mergeExtras_eq_foldl, mem_groupsFor_foldl]
  exact or_iff_right List.not_mem_nil

/-! ### Roots read off texts -/

/-- Roots of different names take the groups of their names, whichever was read first. -/
theorem readRoots_eq (hparse : pairs.mapM (fun p => Requirement.parse p.1 p.2) = .ok parsed)
    (hnames : (parsed.map (·.name)).Nodup) (merged : RequestedExtras) :
    readRoots merged pairs = .ok (parsed.map fun root =>
      { root with extras := root.extras.union (groupsFor merged root.name) }) := by
  have hread := mapM_eq_ok.mp hparse
  clear hparse
  induction hread generalizing merged with
  | nil => rfl
  | @cons pair root pairs parsed hroot hrest ih =>
    obtain ⟨hfresh, hnames⟩ := List.nodup_cons.mp hnames
    have hrest := ih hnames (merged.erase root.name)
    rw [readRoots, hroot]
    simp only [bind, Except.bind, hrest, pure, Except.pure, List.map_cons]
    refine congrArg (fun rest => Except.ok (_ :: rest)) (List.map_congr_left fun other hother => ?_)
    -- the groups of another name are still there
    have hne : other.name ≠ root.name := fun heq =>
      hfresh (List.mem_map.mpr ⟨other, hother, heq⟩)
    rw [groupsFor, SortedMap.get?_erase_of_ne hne, groupsFor]

/-- A root takes the groups of every key whose normal form is its name. -/
theorem resolveTexts_eq (r : Resolver) (requested : RequestedExtras)
    (hparse : pairs.mapM (fun p => Requirement.parse p.1 p.2) = .ok parsed)
    (hnames : (parsed.map (·.name)).Nodup) :
    r.resolveTexts pairs requested = .ok (r.resolve (parsed.map fun root =>
      { root with
        extras := root.extras.union (groupsFor (mergeExtras requested) root.name) })) := by
  rw [resolveTexts, readRoots_eq hparse hnames]
  rfl

/-! ### Roots under their own spellings -/

theorem map_name_of_parse (hparse : pairs.mapM (fun p => Requirement.parse p.1 p.2) = .ok parsed) :
    parsed.map (·.name) = pairs.map fun p => normalize (Text.trim p.1) := by
  induction mapM_eq_ok.mp hparse with
  | nil => rfl
  | cons hroot hrest ih =>
    rw [List.map_cons, List.map_cons, ih (mapM_eq_ok.mpr hrest),
      Requirement.name_of_parse hroot]

/-- What the map has for a text is what it has for the name of the root that the text spells. -/
theorem mem_groupsFor_spelled {pair : String × String} {group : String}
    (hnames : (pairs.map fun p => normalize (Text.trim p.1)).Nodup)
    (hkeys : ∀ key ∈ requested.keys, key ∈ pairs.map (·.1))
    (hspelled : ∀ key ∈ requested.keys, normalize key = normalize (Text.trim key))
    (hpair : pair ∈ pairs) :
    group ∈ (groupsFor (mergeExtras requested) (normalize (Text.trim pair.1))).toList ↔
      ∃ g ∈ (groupsFor requested pair.1).toList, normalize g = group := by
  rw [mem_groupsFor_mergeExtras]
  constructor
  · rintro ⟨e, he, hname, g, hg, hgroup⟩
    have hkey : e.1 ∈ requested.keys := List.mem_map_of_mem he
    obtain ⟨other, hother, hspelling⟩ := List.mem_map.mp (hkeys e.1 hkey)
    -- roots of one name are one root, so the key is the text of this one
    have hsame : other = pair := List.inj_on_of_nodup_map hnames hother hpair (by
      rw [hspelling, ← hspelled e.1 hkey, hname])
    subst hsame
    refine ⟨g, ?_, hgroup⟩
    rw [groupsFor, hspelling, SortedMap.get?_of_mem_entries he]
    exact hg
  · rintro ⟨g, hg, hgroup⟩
    rw [groupsFor] at hg
    cases hget : requested.get? pair.1 with
    | none =>
      rw [hget] at hg
      cases hg
    | some groups =>
      rw [hget] at hg
      have he := SortedMap.get?_eq_some_iff.mp hget
      exact ⟨_, he, hspelled _ (List.mem_map_of_mem he), g, hg, hgroup⟩

/-- The roots that texts spell take the groups that the map has for these very texts, if it has
no other keys and white space at the ends makes no difference to the normal forms of these. -/
theorem extras_of_own_spelling (r : Resolver)
    (hparse : pairs.mapM (fun p => Requirement.parse p.1 p.2) = .ok parsed)
    (hnames : (parsed.map (·.name)).Nodup)
    (hkeys : ∀ key ∈ requested.keys, key ∈ pairs.map (·.1))
    (hspelled : ∀ key ∈ requested.keys, normalize key = normalize (Text.trim key)) :
    r.resolveTexts pairs requested = .ok (r.resolve (List.zipWith
      (fun pair root => root.withExtras (groupsFor requested pair.1)) pairs parsed)) := by
  rw [resolveTexts_eq r requested hparse hnames]
  rw [map_name_of_parse hparse] at hnames
  refine congrArg (fun roots => Except.ok (r.resolve roots))
    (map_eq_zipWith_of_mapM hparse fun pair hpair root hroot => ?_)
  have hgroups : root.extras.union (groupsFor (mergeExtras requested) root.name) =
      (groupsFor requested pair.1).toList.foldl (fun gs g => gs.add (normalize g)) root.extras := by
    refine SortedSet.ext_toList fun group => ?_
    rw [SortedSet.mem_toList_union, SortedSet.mem_toList_foldl_add,
      Requirement.name_of_parse hroot, mem_groupsFor_spelled hnames hkeys hspelled hpair]
  rw [Requirement.withExtras_eq, hgroups]

/-- The group with which the report is rendered, wanted under one spelling of its name. -/
def pdfUnder (spelling : String) : RequestedExtras :=
  SortedMap.ofList [(spelling, SortedSet.ofList ["PDF"])]

/-- The report is rendered under a spelling of its own, and white space around a root for which
nothing is wanted does no harm. -/
theorem extras_of_own_spelling_report :
    [("Report", "*"), (" renderer ", "*")].mapM (fun p => Requirement.parse p.1 p.2) =
        .ok [Requirement.new "report" Constraint.any,
          Requirement.new "renderer" Constraint.any] ∧
      (pdfUnder "Report").keys = ["Report"] ∧
      normalize "Report" = normalize (Text.trim "Report") ∧
      reports.resolveTexts [("Report", "*"), (" renderer ", "*")] (pdfUnder "Report") =
        .ok (reports.resolve [rendered, Requirement.new "renderer" Constraint.any]) := by
  have hparse : [("Report", "*"), (" renderer ", "*")].mapM
      (fun p => Requirement.parse p.1 p.2) =
        .ok [Requirement.new "report" Constraint.any,
          Requirement.new "renderer" Constraint.any] := by decide +kernel
  have hkeys : (pdfUnder "Report").keys = ["Report"] := rfl
  have hspelled : normalize "Report" = normalize (Text.trim "Report") := by decide +kernel
  refine ⟨hparse, hkeys, hspelled, ?_⟩
  refine extras_of_own_spelling reports hparse (by decide +kernel) ?_ ?_
  · simp [hkeys]
  · simp [hkeys, hspelled]

/-- Where the text that spells a root and wants a group has white space around it, the group is
lost: the root is named without the white space, and no root is named by the key. -/
theorem extras_lost_behind_blanks :
    ¬ ∀ (r : Resolver) (pairs : List (String × String)) (parsed : List Requirement)
      (requested : RequestedExtras),
      pairs.mapM (fun p => Requirement.parse p.1 p.2) = .ok parsed →
      (parsed.map (·.name)).Nodup → (∀ key ∈ requested.keys, key ∈ pairs.map (·.1)) →
      r.resolveTexts pairs requested = .ok (r.resolve (List.zipWith
        (fun pair root => root.withExtras (groupsFor requested pair.1)) pairs parsed)) := by
  intro h
  have hsame := h reports [(" report ", "*")] [Requirement.new "report" Constraint.any]
    (pdfUnder " report ") (by decide +kernel) (by decide +kernel) (by decide +kernel)
  have hread : readRoots (mergeExtras (pdfUnder " report ")) [(" report ", "*")] =
      .ok [Requirement.new "report" Constraint.any] := by decide +kernel
  have hwanted : List.zipWith
      (fun pair root => root.withExtras (groupsFor (pdfUnder " report ") pair.1))
      [(" report ", "*")] [Requirement.new "report" Constraint.any] = [rendered] := by
    decide +kernel
  rw [resolveTexts, hread, hwanted] at hsame
  have hbare : (reports.resolve [Requirement.new "report" Constraint.any]).resolved.entries =
      [("report", report)] := by cbv
  rw [Except.ok.inj hsame, entries_resolve_rendered] at hbare
  cases hbare

end Resolver

end Depsolve
