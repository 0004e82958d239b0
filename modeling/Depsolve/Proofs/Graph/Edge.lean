import Depsolve.Graph.Basic
import Mathlib.Data.List.Nodup
import Mathlib.Logic.Relation
import Mathlib.Order.Basic

/-!
The dependency relation of a graph and what the operations do to it.

* `Edge` is the relation that the links stand for; `mem_dependenciesOf` and
  `mem_dependentsOf` say that both directions of look-up list it, each entry once.
* `add` leaves the relation alone and `link` adds one pair to it (`edge_add`, `edge_link`).
* `acyclic_of_rank`: links that all lead down in some order close no cycle, and
  `Acyclic.link`: a new link closes none if its dependency does not lead back to its dependent.
-/

namespace Depsolve.DependencyGraph

/-- One package directly depends on another. -/
def Edge (g : DependencyGraph) (dependent dependency : String) : Prop :=
  ∃ l ∈ g.links, l.dependent = dependent ∧ l.dependency = dependency

instance (g : DependencyGraph) (dependent dependency : String) :
    Decidable (g.Edge dependent dependency) := by
  unfold Edge; infer_instance

/-- No package depends on itself, directly or through others. -/
def Acyclic (g : DependencyGraph) : Prop := ∀ name, ¬ Relation.TransGen g.Edge name name

variable {g g' : DependencyGraph} {a b x y : String} {e : DependencyEdge} {p : PackageId}

/-! ### Look-ups -/

theorem mem_dependenciesOf : b ∈ g.dependenciesOf a ↔ g.Edge a b := by
  simp only [dependenciesOf, List.mem_map, List.mem_filter, decide_eq_true_eq, Edge, and_assoc]

theorem mem_dependentsOf : a ∈ g.dependentsOf b ↔ g.Edge a b := by
  simp only [dependentsOf, List.mem_map, List.mem_filter, decide_eq_true_eq, Edge, and_assoc]
  exact exists_congr fun l => and_congr_right fun _ => and_comm

theorem Edge.dependent_mem (h : g.Edge a b) : a ∈ g.names := by
  obtain ⟨l, hl, rfl, rfl⟩ := h
  exact (g.ends_known l hl).1

theorem Edge.dependency_mem (h : g.Edge a b) : b ∈ g.names := by
  obtain ⟨l, hl, rfl, rfl⟩ := h
  exact (g.ends_known l hl).2

/-- Two links with the same two ends are the same link, so no dependency is listed twice. -/
theorem nodup_dependenciesOf (g : DependencyGraph) (name : String) :
    (g.dependenciesOf name).Nodup := by
  refine List.pairwise_map.mpr ((g.links_distinct.filter _).imp_of_mem fun {l m} hl hm h => ?_)
  have hl' : l.dependent = name := by simpa using (List.mem_filter.mp hl).2
  have hm' : m.dependent = name := by simpa using (List.mem_filter.mp hm).2
  intro heq
  simp [Link.joins, hl', hm', heq] at h

theorem nodup_dependentsOf (g : DependencyGraph) (name : String) :
    (g.dependentsOf name).Nodup := by
  refine List.pairwise_map.mpr ((g.links_distinct.filter _).imp_of_mem fun {l m} hl hm h => ?_)
  have hl' : l.dependency = name := by simpa using (List.mem_filter.mp hl).2
  have hm' : m.dependency = name := by simpa using (List.mem_filter.mp hm).2
  intro heq
  simp [Link.joins, hl', hm', heq] at h

theorem package?_eq_some {name : String} (h : name ∈ g.names) :
    ∃ p, g.package? name = some p ∧ p.name = name := by
  obtain ⟨p, hp, rfl⟩ := List.mem_map.mp h
  have hfound : (g.packages.find? (·.name = p.name)).isSome :=
    List.find?_isSome.mpr ⟨p, hp, by simp⟩
  obtain ⟨q, hq⟩ := Option.isSome_iff_exists.mp hfound
  exact ⟨q, hq, by simpa using List.find?_some hq⟩

/-! ### One more package -/

theorem links_add : (g.add p).links = g.links := by
  unfold add
  split <;> rfl

/-- A new name goes to the end of the packages. -/
theorem packages_add_of_new (h : p.name ∉ g.names) : (g.add p).packages = g.packages ++ [p] := by
  simp [add, h]

theorem mem_names_add : a ∈ (g.add p).names ↔ a ∈ g.names ∨ a = p.name := by
  by_cases h : p.name ∈ g.names
  · rw [add, dif_pos h]
    exact ⟨.inl, fun ha => ha.elim id fun e => e ▸ h⟩
  · simp only [names, packages_add_of_new h, List.map_append, List.map_cons, List.map_nil,
      List.mem_append, List.mem_singleton]

@[simp] theorem edge_add : (g.add p).Edge a b ↔ g.Edge a b := by
  unfold Edge
  rw [links_add]

/-! ### One more link -/

theorem addDependency_eq_ok (ha : a ∈ g.names) (hb : b ∈ g.names) (e : DependencyEdge) :
    g.addDependency a b e = .ok (g.link a b e ha hb) := by
  rw [addDependency, dif_pos ha, dif_pos hb]

/-- Both ends of a link that was added are packages of the graph. -/
theorem eq_link_of_addDependency (h : g.addDependency a b e = .ok g') :
    ∃ ha hb, g' = g.link a b e ha hb := by
  unfold addDependency at h
  split at h
  · rename_i ha
    split at h
    · rename_i hb
      cases h
      exact ⟨ha, hb, rfl⟩
    · cases h
  · cases h

theorem packages_link (ha : a ∈ g.names) (hb : b ∈ g.names) :
    (g.link a b e ha hb).packages = g.packages := by
  unfold link
  split <;> rfl

/-- A link that is there already adds nothing; any other adds one pair. -/
theorem edge_link (ha : a ∈ g.names) (hb : b ∈ g.names) :
    (g.link a b e ha hb).Edge x y ↔ g.Edge x y ∨ (x = a ∧ y = b) := by
  unfold link
  split
  · rename_i h
    obtain ⟨l, hl, hjoins⟩ := List.any_eq_true.mp h
    simp only [Link.joins, Bool.and_eq_true, beq_iff_eq] at hjoins
    constructor
    · exact .inl
    · rintro (h | ⟨rfl, rfl⟩)
      · exact h
      · exact ⟨l, hl, hjoins⟩
  · constructor
    · rintro ⟨l, hl, rfl, rfl⟩
      rcases List.mem_cons.mp hl with rfl | hl
      · exact .inr ⟨rfl, rfl⟩
      · exact .inl ⟨l, hl, rfl, rfl⟩
    · rintro (⟨l, hl, h⟩ | ⟨rfl, rfl⟩)
      · exact ⟨l, List.mem_cons_of_mem _ hl, h⟩
      · exact ⟨⟨x, y, e⟩, List.mem_cons_self, rfl, rfl⟩

/-- A link that is there already is not made again. -/
theorem link_of_edge (h : g.Edge a b) (ha : a ∈ g.names) (hb : b ∈ g.names) :
    g.link a b e ha hb = g := by
  have hjoins : g.links.any (·.joins a b) = true := by
    obtain ⟨l, hl, rfl, rfl⟩ := h
    exact List.any_eq_true.mpr ⟨l, hl, by simp [Link.joins]⟩
  rw [link, dif_pos hjoins]

/-! ### Freedom from cycles -/

theorem acyclic_empty : empty.Acyclic := by
  intro name h
  obtain ⟨_, ⟨l, hl, _⟩, _⟩ := Relation.TransGen.head'_iff.mp h
  exact absurd hl (List.not_mem_nil)

/-- Packages that can be ranked so that every link leads down lie on no cycle. -/
theorem acyclic_of_rank {α : Type} [Preorder α] (rank : String → α)
    (hdown : ∀ a b, g.Edge a b → rank b < rank a) : g.Acyclic := by
  intro name hcycle
  have hlower : ∀ b, Relation.TransGen g.Edge name b → rank b < rank name := by
    intro b hb
    induction hb with
    | single hedge => exact hdown _ _ hedge
    | tail _ hedge ih => exact (hdown _ _ hedge).trans ih
  exact lt_irrefl _ (hlower name hcycle)

theorem Acyclic.add (h : g.Acyclic) : (g.add p).Acyclic := by
  intro name hcycle
  exact h name (Relation.TransGen.mono (fun _ _ => edge_add.mp) _ _ hcycle)

/-- A walk with the new link in it can be cut at the link's first and last use. -/
theorem transGen_link (ha : a ∈ g.names) (hb : b ∈ g.names)
    (h : Relation.TransGen (g.link a b e ha hb).Edge x y) :
    Relation.TransGen g.Edge x y ∨
      (Relation.ReflTransGen g.Edge x a ∧ Relation.ReflTransGen g.Edge b y) := by
  induction h with
  | single hedge =>
    rcases (edge_link ha hb).mp hedge with hold | ⟨rfl, rfl⟩
    · exact .inl (.single hold)
    · exact .inr ⟨.refl, .refl⟩
  | tail _ hedge ih =>
    rcases (edge_link ha hb).mp hedge with hold | ⟨rfl, rfl⟩
    · rcases ih with ih | ⟨hxa, hby⟩
      · exact .inl (ih.tail hold)
      · exact .inr ⟨hxa, hby.tail hold⟩
    · rcases ih with ih | ⟨hxa, _⟩
      · exact .inr ⟨ih.to_reflTransGen, .refl⟩
      · exact .inr ⟨hxa, .refl⟩

/-- A link closes no cycle if the dependency does not lead back to the dependent. -/
theorem Acyclic.link (h : g.Acyclic) (ha : a ∈ g.names) (hb : b ∈ g.names)
    (hback : ¬ Relation.ReflTransGen g.Edge b a) : (g.link a b e ha hb).Acyclic := by
  intro name hcycle
  rcases transGen_link ha hb hcycle with hold | ⟨hna, hbn⟩
  · exact h name hold
  · exact hback (hbn.trans hna)

end Depsolve.DependencyGraph
