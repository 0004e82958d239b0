import Depsolve.Requirement

/-!
The dependency graph of a resolution. It has one package under each name, in the order in
which they were added, and at most one link from a package to another. Links are listed
newest first, the order in which searches follow them.
-/

namespace Depsolve

/-- A resolved package: its name and the version chosen. -/
structure PackageId where
  name : String
  version : Version
  deriving DecidableEq

/-- What a dependent asked of a dependency, and why. -/
structure DependencyEdge where
  constraint : Constraint
  kind : DependencyKind
  deriving DecidableEq

/-- An edge with the names of its two ends. -/
structure Link where
  dependent : String
  dependency : String
  edge : DependencyEdge
  deriving DecidableEq

/-- Why an operation on a graph fails. -/
inductive GraphError where
  | packageNotFound (name : String)
  | cycle (path : String)
  deriving DecidableEq

namespace PackageId

/-- Name and version. -/
def render (p : PackageId) : String := PackageSpec.idOf p.name p.version

end PackageId

namespace GraphError

/-- The text that reports the error. -/
def message : GraphError → String
  | packageNotFound name => "Package not found in graph: " ++ name
  | cycle path => "Circular dependency detected: " ++ path

end GraphError

/-- Whether a link goes from one package to another. -/
def Link.joins (l : Link) (dependent dependency : String) : Bool :=
  l.dependent == dependent && l.dependency == dependency

/-- A dependency graph. -/
structure DependencyGraph where
  /-- The packages in the order in which they were added. -/
  packages : List PackageId
  /-- The links, newest first. -/
  links : List Link
  names_distinct : (packages.map (·.name)).Nodup
  links_distinct : links.Pairwise fun a b => a.joins b.dependent b.dependency = false
  ends_known : ∀ l ∈ links,
    l.dependent ∈ packages.map (·.name) ∧ l.dependency ∈ packages.map (·.name)

namespace DependencyGraph

/-- The graph without packages. -/
def empty : DependencyGraph := ⟨[], [], .nil, .nil, by simp⟩

instance : Inhabited DependencyGraph := ⟨empty⟩

/-- The names of the packages in the order in which they were added. -/
def names (g : DependencyGraph) : List String := g.packages.map (·.name)

/-- The package under a name. -/
def package? (g : DependencyGraph) (name : String) : Option PackageId :=
  g.packages.find? (·.name = name)

/-- The place of a name in the order of the packages. -/
def position (g : DependencyGraph) (name : String) : Nat := g.names.idxOf name

/-- The direct dependencies of a package, the one linked last first. -/
def dependenciesOf (g : DependencyGraph) (name : String) : List String :=
  (g.links.filter (·.dependent = name)).map (·.dependency)

/-- The packages that directly depend on one, the one linked last first. -/
def dependentsOf (g : DependencyGraph) (name : String) : List String :=
  (g.links.filter (·.dependency = name)).map (·.dependent)

/-- The graph with a package; a name that is known keeps its package. -/
def add (g : DependencyGraph) (p : PackageId) : DependencyGraph :=
  if h : p.name ∈ g.names then g
  else {
    packages := g.packages ++ [p]
    links := g.links
    names_distinct := by
      rw [List.map_append]
      exact List.nodup_append.mpr
        ⟨g.names_distinct, by simp, fun a ha b hb e => h (by simp_all [names])⟩
    links_distinct := g.links_distinct
    ends_known := fun l hl => by
      have := g.ends_known l hl
      simp only [List.map_append, List.mem_append]
      exact ⟨.inl this.1, .inl this.2⟩ }

/-- The graph with a link between two of its packages; a link that is there stays. -/
def link (g : DependencyGraph) (dependent dependency : String) (edge : DependencyEdge)
    (hdependent : dependent ∈ g.names) (hdependency : dependency ∈ g.names) :
    DependencyGraph :=
  if h : g.links.any (·.joins dependent dependency) then g
  else {
    packages := g.packages
    links := ⟨dependent, dependency, edge⟩ :: g.links
    names_distinct := g.names_distinct
    links_distinct := List.pairwise_cons.mpr ⟨fun l hl => by
      rw [Bool.eq_false_iff]
      intro hjoin
      refine h (List.any_eq_true.mpr ⟨l, hl, ?_⟩)
      simp only [Link.joins, Bool.and_eq_true, beq_iff_eq] at hjoin ⊢
      exact ⟨hjoin.1.symm, hjoin.2.symm⟩, g.links_distinct⟩
    ends_known := fun l hl => by
      rcases List.mem_cons.mp hl with rfl | hl
      · exact ⟨hdependent, hdependency⟩
      · exact g.ends_known l hl }

/-- The graph with a link from one package to another, both of which have to be there. -/
def addDependency (g : DependencyGraph) (dependent dependency : String)
    (edge : DependencyEdge) : Except GraphError DependencyGraph :=
  if h : dependent ∈ g.names then
    if h' : dependency ∈ g.names then .ok (g.link dependent dependency edge h h')
    else .error (.packageNotFound dependency)
  else .error (.packageNotFound dependent)

/-- The direct dependencies of a package with the edges to them, in name order. -/
def edgesOf (g : DependencyGraph) (name : String) : List (PackageId × DependencyEdge) :=
  let found := (g.links.filter (·.dependent = name)).filterMap fun l =>
    (g.package? l.dependency).map (·, l.edge)
  found.mergeSort fun a b => (compare a.1.name b.1.name).isLE

end DependencyGraph

end Depsolve
