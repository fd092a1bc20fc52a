import NestedRead.Proofs.Query.Scope

/-!
# Statement and layout mirror the selection

A compiled statement is flat, and so is the layout of its rows, but nothing of the shape of the
selection is lost: depth first, each node has its binding and its columns, and each relation its
joins. `CompiledRead.Mirrors` says so of the tree itself. The lists of bindings, joins and columns
are set beside the relations of the tree (`SelectionNode.descents`) one by one, and what a relation
becomes is spelled out of the catalog and of the bindings at its two ends.

A plan has a link for each relation, in the same order (`descents_selection`), so the proof is one
statement for each kind of list about a single link.
-/

set_option autoImplicit false

namespace NestedRead

/-! ## Join kinds -/

namespace JoinKind

/-- The words that ask for a kind of join, in lower case. -/
def words : JoinKind → List String
  | .inner => ["join", "inner", "innerjoin"]
  | .left => ["left", "leftjoin"]
  | .right => ["right", "rightjoin"]
  | .fullOuter => ["full", "fullouter", "fullouterjoin"]
  | .cross => ["cross", "crossjoin"]

/-- The kind that is asked for; an inner join where none is. -/
def Requested (kind : JoinKind) : Option String → Prop
  | none => kind = .inner
  | some word => Text.lowerAscii word ∈ kind.words

theorem requested_of_ofWord {word : Option String} {kind : JoinKind} (h : ofWord word = .ok kind) :
    kind.Requested word := by
  cases word with
  | none => cases h; rfl
  | some word =>
    unfold ofWord at h
    dsimp only at h
    split at h <;> cases h <;> rename_i hword <;> simp [Requested, words, hword]

end JoinKind

/-! ## What a relation and a node become -/

namespace Descent

/-- The relation that is selected, as its parent's entity has it, and the entity that it leads to.
-/
structure Resolves (catalog : Catalog) (d : Descent) (relation : Relation) (child : Entity) :
    Prop where
  parent : ∃ e, catalog.get? d.parent.entity = some e ∧
    e.relation? d.relation.field = some relation
  target : catalog.get? relation.target = some child

structure Binds (catalog : Catalog) (d : Descent) (b : Binding) : Prop where
  path : b.path = d.relation.node.path
  entity : b.entity = d.relation.node.entity
  relation : ∃ relation child, d.Resolves catalog relation child ∧ b.entity = child.name ∧
    b.uniqueColumn = child.uniqueColumn ∧ b.multiplicity = some relation.multiplicity

/-- What the joins of a relation are made of: the relation with its child, the aliases that its
two ends are bound to, the kind that is asked for and the conditions that its filter compiles to.
-/
structure Parts (catalog : Catalog) (layout : Layout) (d : Descent) (relation : Relation)
    (child : Entity) (parentAlias childAlias : String) (kind : JoinKind)
    (conditions : List Condition) : Prop where
  resolves : d.Resolves catalog relation child
  parentBound : ∃ b, layout.byPath? d.parent.path = some b ∧ b.tableAlias = parentAlias
  childBound : ∃ b, layout.byPath? d.relation.node.path = some b ∧ b.tableAlias = childAlias
  requested : kind.Requested d.relation.args.joinType
  filtered : FilterScope.Conditions ⟨child, childAlias, .join⟩ d.relation.args.joinFilter
    conditions

/-- The joins of a relation. A cross join has no conditions at all; any other one starts with the
equation of its two columns, and the conditions of the filter follow on the child's join alone. -/
inductive Joined (catalog : Catalog) (layout : Layout) (d : Descent) : List Join → Prop
  | direct {relation : Relation} {child : Entity} {parentAlias childAlias : String}
      {kind : JoinKind} {conditions : List Condition}
      (parts : d.Parts catalog layout relation child parentAlias childAlias kind conditions)
      (direct : relation.through = none) :
      Joined catalog layout d
        [⟨kind, child.table, childAlias, if kind = .cross then [] else
          .compareColumns (.qualified parentAlias relation.fromColumn) .eq
            (.qualified childAlias relation.toColumn) :: conditions⟩]
  | through {relation : Relation} {child : Entity} {parentAlias childAlias : String}
      {kind : JoinKind} {conditions : List Condition}
      (parts : d.Parts catalog layout relation child parentAlias childAlias kind conditions)
      {through : Through} {between : String} (associative : relation.through = some through) :
      Joined catalog layout d
        [⟨kind, through.table, between, if kind = .cross then [] else
          [.compareColumns (.qualified parentAlias relation.fromColumn) .eq
            (.qualified between through.fromColumn)]⟩,
        ⟨kind, child.table, childAlias, if kind = .cross then [] else
          .compareColumns (.qualified between through.toColumn) .eq
            (.qualified childAlias relation.toColumn) :: conditions⟩]

end Descent

/-- The columns of a node: what its entity projects under the alias that the node is bound to, one
for each name that is asked for and for the unique column. -/
def SelectionNode.Projected (catalog : Catalog) (layout : Layout) (node : SelectionNode)
    (ps : List Projection) : Prop :=
  ∃ e b, catalog.get? node.entity = some e ∧ layout.byPath? node.path = some b ∧
    e.project b.tableAlias layout.separator node.scalars = .ok ps ∧
    List.Forall₂ (e.Projects b.tableAlias layout.separator) (e.projectedNames node.scalars) ps

/-- Everything in a statement and its layout stands for a part of the tree, and in its order. -/
structure CompiledRead.Mirrors (catalog : Catalog) (config : Config) (tree : SelectionTree)
    (compiled : CompiledRead) : Prop where
  root : ∃ e, catalog.get? tree.root.entity = some e ∧
    compiled.statement.source = some (e.table, config.baseAlias) ∧
    compiled.layout.bindings.head? =
      some ⟨tree.root.path, config.baseAlias, tree.root.entity, e.uniqueColumn, none⟩
  separator : compiled.layout.separator = config.aliasSeparator
  paths : compiled.layout.bindings.map (·.path) = tree.root.nodes.map (·.path)
  bindings : List.Forall₂ (fun b d => d.Binds catalog b) compiled.layout.bindings.tail
    tree.root.descents
  joins : ∃ joins, compiled.statement.joins = joins.flatten ∧
    List.Forall₂ (fun js d => d.Joined catalog compiled.layout js) joins tree.root.descents
  projections : ∃ projections, compiled.statement.projections = projections.flatten ∧
    List.Forall₂ (fun ps node => node.Projected catalog compiled.layout ps) projections
      tree.root.nodes

/-! ## Links and relations one by one -/

namespace Plan

/-- A link is made for a selected relation. -/
structure MadeForDescent (l : Link) (d : Descent) : Prop where
  parent : MadeFor l.parent d.parent
  field : d.relation.field = l.edge.field
  args : d.relation.args = l.edge.args
  child : MadeFor l.child d.relation.node

mutual

theorem descents_selection : ∀ plan : Plan,
    List.Forall₂ MadeForDescent plan.links plan.selection.descents
  | .mk n branches => by
    rw [links, selection, SelectionNode.descents]
    exact descentsFrom_selectionsOf (madeFor_selection (.mk n branches)) branches

theorem descentsFrom_selectionsOf {n : NodePlan} {s : SelectionNode} (hs : MadeFor n s) :
    ∀ branches : List Branch, List.Forall₂ MadeForDescent (linksOf n branches)
      (s.descentsFrom (selectionsOf branches))
  | [] => .nil
  | .mk e below :: rest => by
    rw [linksOf, selectionsOf, SelectionNode.descentsFrom]
    exact .cons ⟨hs, rfl, rfl, madeFor_selection below⟩
      (List.rel_append (descents_selection below) (descentsFrom_selectionsOf hs rest))

end

/-- A list that is made link by link stands beside the relations of the selection. -/
theorem forall₂_descents {α : Type} {R : α → Descent → Prop} {plan : Plan} (f : Link → α)
    (h : ∀ l ∈ plan.links, ∀ d, MadeForDescent l d → R (f l) d) :
    List.Forall₂ R (plan.links.map f) plan.selection.descents := by
  rw [List.forall₂_map_left_iff]
  have hall := (List.forall₂_and_left _ _).mpr ⟨fun l hl => hl, descents_selection plan⟩
  exact hall.imp fun l d hd => h l hd.1 d hd.2

theorem forall₂_nodes (plan : Plan) :
    List.Forall₂ MadeFor plan.nodes plan.selection.nodes := by
  rw [nodes, SelectionNode.nodes_eq]
  refine .cons (madeFor_selection plan) ?_
  rw [List.forall₂_map_right_iff]
  exact forall₂_descents _ fun l _ d hd => hd.child

variable {catalog : Catalog} {config : Config} {tree : SelectionTree} {plan : Plan}

theorem Valid.get?_madeFor {separator : String} (h : plan.Valid catalog separator) {n : NodePlan}
    (hn : n ∈ plan.nodes) {s : SelectionNode} (hs : MadeFor n s) :
    catalog.get? s.entity = some n.entity := by
  rw [hs.entity]
  exact h.get?_name hn

theorem Valid.resolves {separator : String} (h : plan.Valid catalog separator) {l : Link}
    (hl : l ∈ plan.links) {d : Descent} (hd : MadeForDescent l d) :
    d.Resolves catalog l.edge.relation l.child.entity := by
  refine ⟨⟨l.parent.entity, h.get?_madeFor (parent_mem_nodes hl) hd.parent, ?_⟩,
    (h.links l hl).target⟩
  rw [hd.field]
  exact (h.links l hl).relation

theorem Valid.binds {separator : String} (h : plan.Valid catalog separator) {l : Link}
    (hl : l ∈ plan.links) {d : Descent} (hd : MadeForDescent l d) :
    d.Binds catalog l.child.binding :=
  ⟨hd.child.path.symm, hd.child.entity.symm, l.edge.relation, l.child.entity,
    h.resolves hl hd, rfl, rfl, (h.links l hl).multiplicity⟩

/-- Nodes with paths of their own are bound where the selection looks for them. -/
theorem byPath?_madeFor (separator : String) (hpaths : (plan.nodes.map (·.path)).Nodup)
    {n : NodePlan} (hn : n ∈ plan.nodes) {s : SelectionNode} (hs : MadeFor n s) :
    (plan.layout separator).byPath? s.path = some n.binding := by
  rw [hs.path]
  exact byPath?_of_nodup separator hpaths hn

theorem Valid.parts {separator : String} (h : plan.Valid catalog separator)
    (hpaths : (plan.nodes.map (·.path)).Nodup) {l : Link} (hl : l ∈ plan.links) {d : Descent}
    (hd : MadeForDescent l d) :
    d.Parts catalog (plan.layout separator) l.edge.relation l.child.entity l.parent.tableAlias
      l.child.tableAlias l.edge.kind l.edge.conditions := by
  have hvalid := h.links l hl
  refine ⟨h.resolves hl hd, ⟨_, byPath?_madeFor separator hpaths (parent_mem_nodes hl) hd.parent,
    rfl⟩, ⟨_, byPath?_madeFor separator hpaths (child_mem_nodes hl) hd.child, rfl⟩, ?_, ?_⟩
  · rw [hd.args]
    exact JoinKind.requested_of_ofWord hvalid.kind
  · rw [hd.args]
    exact (JoinPlan.joinConditions_eq_ok hvalid.conditions).1

/-- With a cross join the filter of the relation has left no conditions either. -/
theorem keys_append_conditions {separator : String} {l : Link} (h : l.Valid catalog separator)
    (leftAlias left rightAlias right : String) :
    Join.keys l.edge.kind leftAlias left rightAlias right ++ l.edge.conditions =
      if l.edge.kind = .cross then [] else
        .compareColumns (.qualified leftAlias left) .eq (.qualified rightAlias right)
          :: l.edge.conditions := by
  rw [Join.keys]
  split
  · rename_i hcross
    exact (JoinPlan.joinConditions_eq_ok h.conditions).2 hcross
  · rfl

theorem Valid.joined {separator : String} (h : plan.Valid catalog separator)
    (hpaths : (plan.nodes.map (·.path)).Nodup) {l : Link} (hl : l ∈ plan.links) {d : Descent}
    (hd : MadeForDescent l d) : d.Joined catalog (plan.layout separator) l.joins := by
  have hparts := h.parts hpaths hl hd
  have hvalid := h.links l hl
  rcases hvalid.joins_cases with ⟨hthrough, -, hjoins⟩ | ⟨through, between, hthrough, -, -, hjoins⟩
  · rw [hjoins, Link.childJoin, keys_append_conditions hvalid]
    exact .direct hparts hthrough
  · rw [hjoins, Link.childJoin, keys_append_conditions hvalid]
    exact .through hparts hthrough

theorem Valid.projected {separator : String} (h : plan.Valid catalog separator)
    (hpaths : (plan.nodes.map (·.path)).Nodup) {n : NodePlan} (hn : n ∈ plan.nodes)
    {s : SelectionNode} (hs : MadeFor n s) :
    s.Projected catalog (plan.layout separator) n.projections := by
  have hproject := h.project hn
  rw [← hs.scalars] at hproject
  exact ⟨n.entity, n.binding, h.get?_madeFor hn hs, byPath?_madeFor separator hpaths hn hs,
    hproject, Entity.project_eq_ok hproject⟩

end Plan

/-! ## The whole tree -/

/-- **Statement and layout mirror the tree that they are compiled from**, whatever the catalog and
the settings. -/
theorem SelectionTree.compile_mirrors {catalog : Catalog} {config : Config} {entity : String}
    {selection : FieldSelection} {tree : SelectionTree} {compiled : CompiledRead}
    (htree : (SelectionTree.build catalog entity selection).outcome = .ok tree)
    (h : (tree.compile catalog config).outcome = .ok compiled) :
    compiled.Mirrors catalog config tree := by
  obtain ⟨hroot, -, -⟩ := SelectionTree.build_wellFormed htree
  obtain ⟨plan, root, hfor, -, rfl⟩ := SelectionTree.compile_eq_ok hroot h
  have hpaths := hfor.nodup_paths hroot
  have hmade := plan.madeFor_selection
  rw [hfor.selection] at hmade
  refine ⟨⟨plan.node.entity, ?_, ?_, ?_⟩, rfl, ?_, ?_, ⟨plan.links.map Link.joins, rfl, ?_⟩,
    ⟨plan.nodes.map (·.projections), rfl, ?_⟩⟩
  · exact hfor.valid.get?_madeFor List.mem_cons_self hmade
  · rw [← hfor.base]
    rfl
  · rw [← hfor.base, ← hfor.multiplicity, hmade.entity, hmade.path]
    rfl
  · have houtlines := congrArg (List.map fun o => o.2.1) plan.outline_nodes
    rw [List.map_map, List.map_map, hfor.selection] at houtlines
    rw [Plan.bindings, List.map_map]
    exact houtlines
  · rw [← hfor.selection]
    rw [Plan.bindings, Plan.nodes, List.map_cons, List.tail_cons, List.map_map]
    exact Plan.forall₂_descents _ fun l hl d hd => hfor.valid.binds hl hd
  · rw [← hfor.selection]
    exact Plan.forall₂_descents _ fun l hl d hd => hfor.valid.joined hpaths hl hd
  · rw [← hfor.selection, List.forall₂_map_left_iff]
    have hall := (List.forall₂_and_left _ _).mpr ⟨fun n hn => hn, plan.forall₂_nodes⟩
    exact hall.imp fun n s hs => hfor.valid.projected hpaths hs.1 hs.2

/-- In the library, whose second relation goes through a table in between. -/
theorem SelectionTree.compile_mirrors_library :
    Sample.compiled.Mirrors Sample.catalog {} Sample.tree :=
  SelectionTree.compile_mirrors Sample.build_selection Sample.compile_tree

end NestedRead
