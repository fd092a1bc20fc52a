import NestedRead.Proofs.Selection.WellFormed

/-!
# Nodes and edges of a built tree

Later passes find a node of a selection tree by its path, and take the first that they find. That
is right because a built tree has no two nodes of one path, because the path of a node spells the
relations that lead to it, and because the edges, depth first, give every node but the root once and
after its parent. `SelectionTree.Rooted` says all of this of a tree.

The edges of a tree are the paths at the ends of its relations (`edges_eq`), so what is known of
`SelectionNode.descents` carries over. That parents come first is an induction along the tree in
which the list of edges is cut at any place.
-/

set_option autoImplicit false

namespace NestedRead

namespace SelectionNode

/-! ## The relations below a node -/

mutual

/-- The relations below a node are those that its nodes select. -/
theorem mem_descents_iff {d : Descent} : ∀ {node : SelectionNode},
    d ∈ node.descents ↔ d.parent ∈ node.nodes ∧ d.relation ∈ d.parent.relations
  | .mk name path scalars relations => by
    rw [descents, nodes, List.mem_cons, mem_descentsFrom_iff]
    constructor
    · rintro (⟨hparent, hrelation⟩ | ⟨hparent, hrelation⟩)
      · exact ⟨.inl hparent, hparent ▸ hrelation⟩
      · exact ⟨.inr hparent, hrelation⟩
    · rintro ⟨hparent | hparent, hrelation⟩
      · rw [hparent] at hrelation
        exact .inl ⟨hparent, hrelation⟩
      · exact .inr ⟨hparent, hrelation⟩

theorem mem_descentsFrom_iff {d : Descent} {parent : SelectionNode} :
    ∀ {relations : List RelationSelection}, d ∈ descentsFrom parent relations ↔
      (d.parent = parent ∧ d.relation ∈ relations) ∨
        (d.parent ∈ nodesOf relations ∧ d.relation ∈ d.parent.relations)
  | [] => by simp [descentsFrom, nodesOf]
  | .mk field args node :: rest => by
    obtain ⟨parent', relation⟩ := d
    rw [descentsFrom, nodesOf, List.mem_cons, List.mem_append, List.mem_append, List.mem_cons,
      mem_descents_iff, mem_descentsFrom_iff, Descent.mk.injEq]
    tauto

end

mutual

/-- An edge joins the paths of a relation's parent and of the node that the relation leads to. -/
theorem edges_eq : ∀ node : SelectionNode,
    node.edges = node.descents.map fun d => (d.parent.path, d.relation.node.path)
  | .mk name path scalars relations => by
    rw [edges, descents]
    exact edgesFrom_eq (.mk name path scalars relations) relations

theorem edgesFrom_eq (parent : SelectionNode) : ∀ relations : List RelationSelection,
    edgesFrom parent.path relations =
      (descentsFrom parent relations).map fun d => (d.parent.path, d.relation.node.path)
  | [] => rfl
  | .mk field args node :: rest => by
    rw [edgesFrom, descentsFrom, edges_eq node, edgesFrom_eq parent rest, List.map_cons,
      List.map_append]
    rfl

end

/-! ## Parents come before their children -/

mutual

/-- Wherever the edges are cut, the parent of the next one is the node itself or has been a child
before. -/
theorem parent_mem_before {e : FieldPath × FieldPath} : ∀ {node : SelectionNode}
    {before after : List (FieldPath × FieldPath)}, node.edges = before ++ e :: after →
      e.1 = node.path ∨ e.1 ∈ before.map Prod.snd
  | .mk _ _ _ _, _, _, h => parent_mem_before_edgesFrom h

theorem parent_mem_before_edgesFrom {e : FieldPath × FieldPath} {parent : FieldPath} :
    ∀ {relations : List RelationSelection} {before after : List (FieldPath × FieldPath)},
      edgesFrom parent relations = before ++ e :: after →
        e.1 = parent ∨ e.1 ∈ before.map Prod.snd
  | [], before, after, h => by simp [edgesFrom] at h
  | .mk field args node :: rest, [], after, h => by
    rw [edgesFrom, List.nil_append, List.cons.injEq] at h
    exact .inl (congrArg Prod.fst h.1).symm
  | .mk field args node :: rest, first :: before, after, h => by
    rw [edgesFrom, List.cons_append, List.cons.injEq] at h
    obtain ⟨rfl, h⟩ := h
    rcases List.append_eq_append_iff.mp h with ⟨passed, rfl, hrest⟩ | ⟨left, hbelow, hcut⟩
    · -- The cut is behind the edges below the first node.
      rcases parent_mem_before_edgesFrom hrest with hparent | hbefore
      · exact .inl hparent
      · refine .inr ?_
        rw [List.map_cons, List.map_append]
        exact List.mem_cons_of_mem _ (List.mem_append_right _ hbefore)
    · cases left with
      | nil =>
        -- It is right behind them: the next edge is the first of the relations that are left.
        rw [List.nil_append] at hcut
        have hnext : edgesFrom parent rest = [] ++ e :: after := hcut.symm
        exact (parent_mem_before_edgesFrom hnext).imp_right (absurd · (by simp))
      | cons next left =>
        rw [List.cons_append, List.cons.injEq] at hcut
        obtain ⟨rfl, -⟩ := hcut
        rcases parent_mem_before hbelow with hparent | hbefore
        · exact .inr (hparent ▸ List.mem_cons_self)
        · exact .inr (List.mem_cons_of_mem _ hbefore)

end

end SelectionNode

/-! ## The fields of a node -/

/-- What a node asks for are fields of its entity, each once: names of scalars that are neither
relations nor left to the caller, and relations that lead to nodes of their targets one field
further down. -/
structure SelectionNode.Selects (node : SelectionNode) (entity : Entity) : Prop where
  scalars_nodup : node.scalars.Nodup
  scalars : ∀ s ∈ node.scalars, entity.relation? s = none ∧ ¬ "__".toList <+: s.toList
  relations_nodup : (node.relations.map (·.field)).Nodup
  relations : ∀ r ∈ node.relations, ∃ relation, entity.relation? r.field = some relation ∧
    r.node.entity = relation.target ∧ r.node.path = node.path.child r.field

namespace SelectionNode

theorem WellFormed.exists_selects {catalog : Catalog} {node : SelectionNode}
    (h : node.WellFormed catalog) :
    ∃ entity, catalog.get? node.entity = some entity ∧ node.Selects entity := by
  cases node with
  | mk name path scalars relations =>
    obtain ⟨entity, hentity, hscalars, hkinds, hfields, hrelations⟩ := h
    refine ⟨entity, hentity, hscalars, ?_, hfields, RelationsWellFormed.of_mem hrelations⟩
    intro s hs
    obtain ⟨hnone, hseen⟩ := hkinds s hs
    refine ⟨hnone, ?_⟩
    rw [RequestedFields.isIntrospection, Bool.eq_false_iff, Ne, List.isPrefixOf_iff_prefix] at hseen
    exact hseen

end SelectionNode

/-! ## The whole tree -/

/-- A tree for an entity of a catalog. Every node asks for fields of its entity and has a path of
its own; the edges are the relations between the nodes, each node but the root is the child of one
of them, and its parent is the root or a child of an edge before. -/
structure SelectionTree.Rooted (catalog : Catalog) (entity : String) (tree : SelectionTree) :
    Prop where
  root : tree.root.entity = entity ∧ tree.root.path = .root
  nodes : ∀ node ∈ tree.root.nodes, ∃ e, catalog.get? node.entity = some e ∧ node.Selects e
  below : ∀ node ∈ tree.root.nodes, ∀ r ∈ node.relations, r.node ∈ tree.root.nodes
  paths_nodup : (tree.root.nodes.map (·.path)).Nodup
  edges : ∀ edge, edge ∈ tree.edges ↔
    ∃ node ∈ tree.root.nodes, ∃ r ∈ node.relations, edge = (node.path, r.node.path)
  children : tree.root.path :: tree.edges.map Prod.snd = tree.root.nodes.map (·.path)
  parents_first : ∀ before edge after, tree.edges = before ++ edge :: after →
    edge.1 = .root ∨ edge.1 ∈ before.map Prod.snd

/-- **Built trees are well formed**: their nodes are bound to the catalog, their paths tell them
apart, and their edges lead from the root to every node once. -/
theorem SelectionTree.build_rooted {catalog : Catalog} {entity : String}
    {selection : FieldSelection} {tree : SelectionTree}
    (h : (build catalog entity selection).outcome = .ok tree) : tree.Rooted catalog entity := by
  obtain ⟨hroot, hentity, hpath⟩ := build_wellFormed h
  have hedges : tree.edges =
      tree.root.descents.map fun d => (d.parent.path, d.relation.node.path) := tree.root.edges_eq
  refine ⟨⟨hentity, hpath⟩, fun node hnode => ?_, fun node hnode r hr => ?_,
    SelectionNode.nodup_paths hroot, fun edge => ?_, ?_, fun before edge after hcut => ?_⟩
  · exact (SelectionNode.wellFormed_of_mem_nodes hroot node hnode).exists_selects
  · have hd : (⟨node, r⟩ : Descent) ∈ tree.root.descents :=
      SelectionNode.mem_descents_iff.mpr ⟨hnode, hr⟩
    rw [SelectionNode.nodes_eq]
    exact List.mem_cons_of_mem _ (List.mem_map_of_mem (f := (·.relation.node)) hd)
  · rw [hedges, List.mem_map]
    constructor
    · rintro ⟨d, hd, rfl⟩
      obtain ⟨hparent, hrelation⟩ := SelectionNode.mem_descents_iff.mp hd
      exact ⟨d.parent, hparent, d.relation, hrelation, rfl⟩
    · rintro ⟨node, hnode, r, hr, rfl⟩
      exact ⟨⟨node, r⟩, SelectionNode.mem_descents_iff.mpr ⟨hnode, hr⟩, rfl⟩
  · rw [hedges, SelectionNode.nodes_eq, List.map_cons, List.map_map, List.map_map]
    rfl
  · rw [← hpath]
    exact SelectionNode.parent_mem_before hcut

/-- In the library the sequels stand below the books. -/
theorem SelectionTree.build_rooted_library : Sample.tree.Rooted Sample.catalog "Author" :=
  SelectionTree.build_rooted Sample.build_selection

end NestedRead
