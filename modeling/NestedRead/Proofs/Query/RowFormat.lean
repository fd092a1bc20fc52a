import NestedRead.Proofs.Config.Valid
import NestedRead.Proofs.Naming.Key
import NestedRead.Proofs.Query.Planned
import NestedRead.Proofs.Query.PlanNodes
import NestedRead.Proofs.Rows.Hydration
import NestedRead.Proofs.Rows.Indexed

/-!
# Rows have the format that they are read in

The columns of a statement are named by its plan, and the layout that reads them back is made of
the same plan. Here the two meet. `Plan.Clear` collects what keeps columns apart: the aliases of
the nodes are plain identifiers and all different, so are the paths, and a node projects each of its
names once. With a valid separator each name of a column is then cut into the alias and the field
that it was made of, each path and each alias is bound once, and a row that has the projected
columns can be read.
-/

set_option autoImplicit false

namespace NestedRead

/-! ## Projected names -/

namespace Entity

/-- The names that are projected where some are asked for: the unique column is among them. -/
def projectedNames (entity : Entity) (names : List String) : List String :=
  if names.contains entity.uniqueColumn then names else names ++ [entity.uniqueColumn]

/-- A projection is made for a name: the column or aggregate that the name stands for, or the
unique column itself. -/
def Projects (entity : Entity) (tableAlias separator name : String) (p : Projection) : Prop :=
  p.name = columnKey tableAlias separator name ∧
    (entity.column tableAlias name = .ok p.expression ∨
      name = entity.uniqueColumn ∧ p.expression = .qualified tableAlias name)

theorem projectionsOf_eq_ok {entity : Entity} {tableAlias separator : String} :
    ∀ {names : List String} {ps : List Projection},
      entity.projectionsOf tableAlias separator names = .ok ps →
      List.Forall₂ (entity.Projects tableAlias separator) names ps
  | [], ps, h => by cases h; exact .nil
  | name :: rest, ps, h => by
    rw [projectionsOf] at h
    obtain ⟨expression, hexpression, h⟩ := Outcome.bind_eq_ok_iff.mp h
    obtain ⟨more, hmore, h⟩ := Outcome.bind_eq_ok_iff.mp h
    cases h
    exact .cons ⟨rfl, Or.inl hexpression⟩ (projectionsOf_eq_ok hmore)

theorem project_eq_ok {entity : Entity} {tableAlias separator : String} {names : List String}
    {ps : List Projection} (h : entity.project tableAlias separator names = .ok ps) :
    List.Forall₂ (entity.Projects tableAlias separator) (entity.projectedNames names) ps := by
  unfold project at h
  obtain ⟨found, hfound, h⟩ := Outcome.bind_eq_ok_iff.mp h
  have hall := projectionsOf_eq_ok hfound
  unfold projectedNames
  split at h
  · rename_i hunique
    cases h
    rw [if_pos hunique]
    exact hall
  · rename_i hunique
    cases h
    rw [if_neg hunique]
    exact List.rel_append hall (.cons ⟨rfl, Or.inr ⟨rfl, rfl⟩⟩ .nil)

theorem names_of_projects {entity : Entity} {tableAlias separator : String} {names : List String}
    {ps : List Projection} (h : List.Forall₂ (entity.Projects tableAlias separator) names ps) :
    ps.map (·.name) = names.map (columnKey tableAlias separator) := by
  induction h with
  | nil => rfl
  | cons hp _ ih => rw [List.map_cons, List.map_cons, ih, hp.1]

theorem mem_projectedNames {entity : Entity} {names : List String} {name : String} :
    name ∈ entity.projectedNames names ↔ name ∈ names ∨ name = entity.uniqueColumn := by
  unfold projectedNames
  split
  · rename_i h
    have h : entity.uniqueColumn ∈ names := by simpa using h
    exact ⟨Or.inl, fun hname => hname.elim id fun heq => heq ▸ h⟩
  · rw [List.mem_append, List.mem_singleton]

theorem uniqueColumn_mem_projectedNames (entity : Entity) (names : List String) :
    entity.uniqueColumn ∈ entity.projectedNames names :=
  mem_projectedNames.mpr (Or.inr rfl)

theorem nodup_projectedNames {entity : Entity} {names : List String} (h : names.Nodup) :
    (entity.projectedNames names).Nodup := by
  unfold projectedNames
  split
  · exact h
  · rename_i hunique
    refine List.nodup_append.mpr ⟨h, List.nodup_singleton _, ?_⟩
    rintro a ha b hb rfl
    rw [List.mem_singleton] at hb
    exact hunique (by simpa using hb ▸ ha)

end Entity

def NodePlan.names (n : NodePlan) : List String := n.entity.projectedNames n.scalars

/-! ## What keeps columns apart -/

namespace Plan

def layout (plan : Plan) (separator : String) : Layout := ⟨separator, plan.bindings⟩

/-- Aliases, paths and names are told apart. -/
structure Clear (separator : String) (plan : Plan) : Prop where
  separator : Config.isSeparator separator = true
  plain : ∀ n ∈ plan.nodes, Identifier.isPlain n.tableAlias = true
  aliases : (plan.nodes.map (·.tableAlias)).Nodup
  paths : (plan.nodes.map (·.path)).Nodup
  names : ∀ n ∈ plan.nodes, n.names.Nodup
  root : plan.node.path = .root

theorem nodup_nodeAliases {plan : Plan} (h : plan.aliases.Nodup) :
    (plan.nodes.map (·.tableAlias)).Nodup := by
  refine List.Nodup.sublist ?_ h
  rw [nodes, aliases, List.map_cons, List.map_map]
  refine List.Sublist.cons_cons _ ?_
  induction plan.links with
  | nil => exact List.Sublist.slnil
  | cons l rest ih =>
    rw [List.map_cons, List.flatMap_cons]
    exact List.Sublist.append (List.singleton_sublist.mpr List.mem_cons_self) ih

theorem mem_nodes_iff {plan : Plan} {n : NodePlan} :
    n ∈ plan.nodes ↔ n = plan.node ∨ ∃ l ∈ plan.links, l.child = n := by
  rw [nodes, List.mem_cons, List.mem_map]

theorem Valid.get?_entity {catalog : Catalog} {separator : String} {plan : Plan}
    (h : plan.Valid catalog separator) {n : NodePlan} (hn : n ∈ plan.nodes) :
    ∃ name, catalog.get? name = some n.entity := by
  rcases mem_nodes_iff.mp hn with rfl | ⟨l, hl, rfl⟩
  · exact ⟨_, h.entity⟩
  · exact ⟨_, (h.links l hl).target⟩

theorem Valid.get?_name {catalog : Catalog} {separator : String} {plan : Plan}
    (h : plan.Valid catalog separator) {n : NodePlan} (hn : n ∈ plan.nodes) :
    catalog.get? n.entity.name = some n.entity := by
  obtain ⟨name, hname⟩ := h.get?_entity hn
  rw [Catalog.name_of_get? hname]
  exact hname

theorem Valid.project {catalog : Catalog} {separator : String} {plan : Plan}
    (h : plan.Valid catalog separator) {n : NodePlan} (hn : n ∈ plan.nodes) :
    n.entity.project n.tableAlias separator n.scalars = .ok n.projections := by
  rcases mem_nodes_iff.mp hn with rfl | ⟨l, hl, rfl⟩
  · exact h.projections
  · exact (h.links l hl).projections

theorem For.exists_selected {catalog : Catalog} {config : Config} {tree : SelectionTree}
    {plan : Plan} (hfor : plan.For catalog config tree) {n : NodePlan} (hn : n ∈ plan.nodes) :
    ∃ s ∈ tree.root.nodes, s.entity = n.entity.name ∧ s.path = n.path ∧ s.scalars = n.scalars := by
  have hmem : outline n ∈ plan.nodes.map outline := List.mem_map_of_mem hn
  rw [outline_nodes, hfor.selection] at hmem
  obtain ⟨s, hs, heq⟩ := List.mem_map.mp hmem
  simp only [outline, Prod.mk.injEq] at heq
  exact ⟨s, hs, heq⟩

theorem For.nodup_paths {catalog : Catalog} {config : Config} {tree : SelectionTree} {plan : Plan}
    (hfor : plan.For catalog config tree) (hroot : tree.root.WellFormed catalog) :
    (plan.nodes.map (·.path)).Nodup := by
  have hpaths := congrArg (List.map fun o => o.2.1) (outline_nodes plan)
  rw [List.map_map, List.map_map, hfor.selection] at hpaths
  have hnodup := SelectionNode.nodup_paths hroot
  rwa [← show plan.nodes.map (·.path) = tree.root.nodes.map SelectionNode.path from hpaths]
    at hnodup

/-- The plan of a tree that was built, under settings that are valid, keeps columns apart. -/
theorem For.clear {catalog : Catalog} {config : Config} {tree : SelectionTree} {plan : Plan}
    (hfor : plan.For catalog config tree) (hcat : catalog.Accepted)
    (hconfig : config.isValid = true) (hroot : tree.root.WellFormed catalog)
    (hpath : tree.root.path = .root) : plan.Clear config.aliasSeparator where
  separator := Config.isSeparator_of_isValid hconfig
  plain n hn := by
    rcases mem_nodes_iff.mp hn with rfl | ⟨l, hl, rfl⟩
    · rw [hfor.base]
      exact Config.isPlain_baseAlias_of_isValid hconfig
    · obtain ⟨registry, halias⟩ := (hfor.valid.links l hl).tableAlias
      rw [halias]
      exact Identifier.isPlain_choose registry (hcat.clean (hfor.valid.links l hl).target).name
  aliases := nodup_nodeAliases hfor.aliases
  paths := hfor.nodup_paths hroot
  names n hn := by
    obtain ⟨s, hs, -, -, hscalars⟩ := hfor.exists_selected hn
    have hwf := SelectionNode.wellFormed_of_mem_nodes hroot s hs
    obtain ⟨name, path, scalars, relations⟩ := s
    obtain ⟨entity, -, hnodup, -⟩ := hwf
    exact Entity.nodup_projectedNames (hscalars ▸ hnodup)
  root := by
    rw [← hpath, ← hfor.selection]
    cases plan
    rfl

/-! ## Looking up in the layout -/

/-- Among items that a key tells apart, each is found by its key. -/
theorem find?_of_nodup {α κ : Type} [DecidableEq κ] {key : α → κ} {x : α} : ∀ {xs : List α},
    (xs.map key).Nodup → x ∈ xs → xs.find? (fun y => key y == key x) = some x
  | [], _, hx => absurd hx (by simp)
  | y :: ys, hnodup, hx => by
    rw [List.map_cons, List.nodup_cons] at hnodup
    rcases List.mem_cons.mp hx with rfl | hx
    · rw [List.find?_cons, beq_self_eq_true]
    · have hne : (key y == key x) = false :=
        beq_eq_false_iff_ne.mpr fun heq => hnodup.1 (heq ▸ List.mem_map_of_mem hx)
      rw [List.find?_cons, hne]
      exact find?_of_nodup hnodup.2 hx

theorem byPath?_of_nodup {plan : Plan} (separator : String)
    (hpaths : (plan.nodes.map (·.path)).Nodup) {n : NodePlan} (hn : n ∈ plan.nodes) :
    (plan.layout separator).byPath? n.path = some n.binding := by
  have hpaths : (plan.bindings.map (·.path)).Nodup := by
    rw [bindings, List.map_map]
    exact hpaths
  exact find?_of_nodup hpaths (List.mem_map_of_mem hn)

theorem byAlias?_of_nodup {plan : Plan} (separator : String)
    (haliases : (plan.nodes.map (·.tableAlias)).Nodup) {n : NodePlan} (hn : n ∈ plan.nodes) :
    (plan.layout separator).byAlias? n.tableAlias = some n.binding := by
  have haliases : (plan.bindings.map (·.tableAlias)).Nodup := by
    rw [bindings, List.map_map]
    exact haliases
  exact find?_of_nodup haliases (List.mem_map_of_mem hn)

section layout

variable {separator : String} {plan : Plan} (h : plan.Clear separator)

include h

theorem Clear.byPath? {n : NodePlan} (hn : n ∈ plan.nodes) :
    (plan.layout separator).byPath? n.path = some n.binding :=
  byPath?_of_nodup separator h.paths hn

theorem Clear.byAlias? {n : NodePlan} (hn : n ∈ plan.nodes) :
    (plan.layout separator).byAlias? n.tableAlias = some n.binding :=
  byAlias?_of_nodup separator h.aliases hn

theorem Clear.root? : (plan.layout separator).root? = some plan.node.binding := by
  have hroot : plan.node.binding.path.isRoot = true := by
    rw [NodePlan.binding, h.root]
    rfl
  rw [Layout.root?, layout, bindings, nodes, List.map_cons, List.find?_cons, hroot]

theorem Clear.split? {n : NodePlan} (hn : n ∈ plan.nodes) (field : String) :
    (plan.layout separator).split? (columnKey n.tableAlias separator field)
      = some (n.tableAlias, field) :=
  Text.cutAt?_columnKey field h.separator (h.plain n hn)

/-- The edges of the selection are the links, with a binding at both ends. -/
theorem Clear.edges : RowIndex.edges (plan.layout separator) plan.selection.edges =
    .ok (plan.links.map fun l => ⟨l.parent.binding, l.child.binding⟩) := by
  have hbinding : ∀ n ∈ plan.nodes,
      RowIndex.bindingAt (plan.layout separator) n.path = .ok n.binding := by
    intro n hn
    rw [RowIndex.bindingAt, h.byPath? hn]
  have hall : ∀ ls : List Link, (∀ l ∈ ls, l ∈ plan.links) →
      RowIndex.edges (plan.layout separator) (ls.map fun l => (l.parent.path, l.child.path)) =
        .ok (ls.map fun l => ⟨l.parent.binding, l.child.binding⟩) := by
    intro ls
    induction ls with
    | nil => exact fun _ => rfl
    | cons l rest ih =>
      intro hls
      obtain ⟨hl, hrest⟩ := List.forall_mem_cons.mp hls
      rw [List.map_cons, RowIndex.edges, hbinding _ (parent_mem_nodes hl),
        hbinding _ (child_mem_nodes hl), ih hrest]
      rfl
  rw [edges_selection]
  exact hall plan.links fun _ hl => hl

/-- The layout of a plan tells rows apart. -/
theorem Clear.separated : RowIndex.Separated (plan.layout separator) plan.node.binding
    (plan.links.map fun l => ⟨l.parent.binding, l.child.binding⟩) where
  aliases := by
    rw [layout, bindings, List.map_map]
    exact h.aliases
  root := List.mem_map_of_mem List.mem_cons_self
  parents e he := by
    obtain ⟨l, hl, rfl⟩ := List.mem_map.mp he
    exact List.mem_map_of_mem (parent_mem_nodes hl)
  children e he := by
    obtain ⟨l, hl, rfl⟩ := List.mem_map.mp he
    exact List.mem_map_of_mem (child_mem_nodes hl)
  paths := by
    have hpaths := h.paths
    rw [nodes, List.map_cons, List.map_map, List.nodup_cons] at hpaths
    rw [List.map_map]
    exact hpaths.2

end layout

/-! ## Columns -/

def columnNames (separator : String) (plan : Plan) : List String :=
  plan.nodes.flatMap fun n => n.names.map (columnKey n.tableAlias separator)

section columns

variable {catalog : Catalog} {separator : String} {plan : Plan}

/-- The statement names its columns by the nodes of the plan. -/
theorem Valid.names_projections (h : plan.Valid catalog separator) :
    (plan.nodes.flatMap (·.projections)).map (·.name) = plan.columnNames separator := by
  rw [List.map_flatMap, columnNames]
  refine List.flatMap_congr fun n hn => ?_
  exact Entity.names_of_projects (Entity.project_eq_ok (h.project hn))

/-- What stands in the second of two lists has a counterpart in the first. -/
theorem exists_of_mem_right {α β : Type} {R : α → β → Prop} {xs : List α} {ys : List β}
    (h : List.Forall₂ R xs ys) {y : β} (hy : y ∈ ys) : ∃ x ∈ xs, R x y := by
  induction h with
  | nil => cases hy
  | cons hhead _ ih =>
    rcases List.mem_cons.mp hy with rfl | hy
    · exact ⟨_, List.mem_cons_self, hhead⟩
    · obtain ⟨x, hx, hr⟩ := ih hy
      exact ⟨x, List.mem_cons_of_mem _ hx, hr⟩

theorem Valid.exists_projects (h : plan.Valid catalog separator) {p : Projection}
    (hp : p ∈ plan.nodes.flatMap (·.projections)) : ∃ n ∈ plan.nodes, ∃ name ∈ n.names,
      n.entity.Projects n.tableAlias separator name p := by
  obtain ⟨n, hn, hp⟩ := List.mem_flatMap.mp hp
  exact ⟨n, hn, exists_of_mem_right (Entity.project_eq_ok (h.project hn)) hp⟩

/-- No two columns have one name. -/
theorem Clear.nodup_columnNames (h : plan.Clear separator) :
    (plan.columnNames separator).Nodup := by
  rw [columnNames, List.nodup_flatMap]
  constructor
  · intro n hn
    refine (h.names n hn).map_on fun f _ g _ hfg => ?_
    exact ((columnKey_inj h.separator (h.plain n hn) (h.plain n hn)).mp hfg).2
  · have haliases := h.aliases
    rw [List.nodup_iff_pairwise_ne, List.pairwise_map] at haliases
    refine haliases.imp_of_mem fun {m n} hm hn hne => ?_
    rintro key hkey hkey'
    obtain ⟨f, -, rfl⟩ := List.mem_map.mp hkey
    obtain ⟨g, -, heq⟩ := List.mem_map.mp hkey'
    exact hne ((columnKey_inj h.separator (h.plain n hn) (h.plain m hm)).mp heq).1.symm

end columns

end Plan
end NestedRead
