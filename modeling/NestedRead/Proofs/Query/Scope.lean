import NestedRead.Proofs.Filter.Columns
import NestedRead.Proofs.Query.RowFormat

/-!
# Compiled statements are well scoped

A link introduces the alias of its child and, where its relation leads through a table in between,
the alias of that table. The child's alias is handed out first and joined last, so what has to be
seen is that a condition never runs ahead of the joins: `Link.Valid.inScope_joins` is the step for
one link, `inScope_links` the run over a list of links whose parents come first.
-/

set_option autoImplicit false

namespace NestedRead

/-! ## What the parts of a plan refer to -/

theorem Entity.Projects.offers {entity : Entity} {tableAlias separator name : String}
    {p : Projection} (h : entity.Projects tableAlias separator name p) :
    entity.Offers tableAlias p.expression := by
  rcases h.2 with h | ⟨rfl, h⟩
  · exact Entity.offers_column h
  · rw [h]
    exact .unique

theorem Join.mem_keys {kind : JoinKind} {leftAlias left rightAlias right : String} {c : Condition}
    (h : c ∈ keys kind leftAlias left rightAlias right) :
    c = .compareColumns (.qualified leftAlias left) .eq (.qualified rightAlias right) := by
  unfold keys at h
  split at h
  · cases h
  · exact List.mem_singleton.mp h

namespace FilterScope

variable {scope : FilterScope} {filter : Option FilterExpr}

theorem Conditions.offers {cs : List Condition} (h : scope.Conditions filter cs) :
    ∀ c ∈ cs, ∀ column ∈ c.columns, scope.entity.Offers scope.tableAlias column := by
  cases filter with
  | none => rw [Conditions] at h; simp [h]
  | some filter => exact offers_conditions h

theorem offers_filterTerms {ts : List Term} (h : RootPlan.FilterTerms scope filter ts) :
    ∀ column ∈ Condition.termColumns ts, scope.entity.Offers scope.tableAlias column := by
  cases filter with
  | none => rw [RootPlan.FilterTerms] at h; simp [h, Condition.termColumns]
  | some filter => exact offers_terms h

end FilterScope

theorem RootPlan.Valid.offers {config : Config} {entity : Entity} {args : RootArgs}
    {root : RootPlan} (h : root.Valid config entity args) (plan : Plan) :
    ∀ column ∈ (plan.statement root).clauseColumns, entity.Offers config.baseAlias column := by
  intro column hcolumn
  simp only [Statement.clauseColumns, Plan.statement, List.mem_append] at hcolumn
  rcases hcolumn with ((hcolumn | hcolumn) | hcolumn) | hcolumn
  · exact FilterScope.offers_filterTerms h.filters column hcolumn
  · obtain ⟨name, -, hname⟩ := Plan.exists_of_mem_right h.groupBy hcolumn
    exact Entity.offers_plainColumn hname
  · exact FilterScope.offers_filterTerms h.having column hcolumn
  · obtain ⟨ordering, hordering, rfl⟩ := List.mem_map.mp hcolumn
    obtain ⟨item, -, hitem⟩ := Plan.exists_of_mem_right h.orderBy hordering
    exact Entity.offers_column hitem.2

/-! ## Links -/

namespace Link

variable {catalog : Catalog} {separator : String} {l : Link}

theorem Valid.offers_conditions (h : l.Valid catalog separator) :
    ∀ c ∈ l.edge.conditions, ∀ column ∈ c.columns,
      l.child.entity.Offers l.child.tableAlias column :=
  (JoinPlan.joinConditions_eq_ok h.conditions).1.offers

/-- The join to a child sees its own alias and the one on its left. -/
theorem Valid.of_childJoin (h : l.Valid catalog separator) {leftAlias left : String} :
    ∀ c ∈ (l.childJoin leftAlias left).conditions, ∀ column ∈ c.columns,
      column.Of leftAlias ∨ column.Of l.child.tableAlias := by
  intro c hc column hcolumn
  rcases List.mem_append.mp hc with hc | hc
  · rw [Join.mem_keys hc, Condition.columns, List.mem_pair] at hcolumn
    rcases hcolumn with rfl | rfl
    · exact Or.inl rfl
    · exact Or.inr rfl
  · exact Or.inr (h.offers_conditions c hc column hcolumn).of

theorem of_betweenJoin {through : Through} {between : String} :
    ∀ c ∈ (l.betweenJoin through between).conditions, ∀ column ∈ c.columns,
      column.Of l.parent.tableAlias ∨ column.Of between := by
  intro c hc column hcolumn
  rw [Join.mem_keys hc, Condition.columns, List.mem_pair] at hcolumn
  rcases hcolumn with rfl | rfl
  · exact Or.inl rfl
  · exact Or.inr rfl

/-- The joins of a link are one, or two with the table in between first. -/
theorem Valid.joins_cases (h : l.Valid catalog separator) :
    (l.edge.relation.through = none ∧ l.aliases = [l.child.tableAlias] ∧
      l.joins = [l.childJoin l.parent.tableAlias l.edge.relation.fromColumn]) ∨
    ∃ through between, l.edge.relation.through = some through ∧
      (∃ registry : AliasRegistry, between = registry.choose through.bareTable) ∧
      l.aliases = [l.child.tableAlias, between] ∧
      l.joins = [l.betweenJoin through between, l.childJoin between through.toColumn] := by
  cases hthrough : l.edge.relation.through with
  | none =>
    have hnone : l.edge.throughAlias = none := by
      rw [← Option.not_isSome_iff_eq_none, h.through, hthrough]
      decide
    refine Or.inl ⟨rfl, ?_, joins_direct hthrough⟩
    rw [aliases, hnone]
    rfl
  | some through =>
    obtain ⟨registry, hbetween⟩ := h.between through hthrough
    refine Or.inr ⟨through, _, rfl, ⟨registry, rfl⟩, ?_, joins_through hthrough hbetween⟩
    rw [aliases, hbetween]
    rfl

theorem Valid.perm_aliases (h : l.Valid catalog separator) :
    (l.joins.map (·.tableAlias)).Perm l.aliases := by
  rcases h.joins_cases with ⟨-, haliases, hjoins⟩ | ⟨through, between, -, -, haliases, hjoins⟩
  · rw [haliases, hjoins]
    exact .refl _
  · rw [haliases, hjoins]
    exact .swap _ _ _

/-- Where the parent is in scope, so are the joins of a link, and what follows them sees the aliases
of the link too. -/
theorem Valid.inScope_joins (h : l.Valid catalog separator) {known : List String}
    {rest : List Join} (hparent : l.parent.tableAlias ∈ known)
    (hrest : Join.InScope (l.aliases ++ known) rest) : Join.InScope known (l.joins ++ rest) := by
  rcases h.joins_cases with ⟨-, haliases, hjoins⟩ | ⟨through, between, -, -, haliases, hjoins⟩
  · rw [haliases] at hrest
    rw [hjoins]
    refine .cons (fun c hc column hcolumn => ?_) hrest
    rcases h.of_childJoin c hc column hcolumn with hof | hof
    · exact ⟨_, List.mem_cons_of_mem _ hparent, hof⟩
    · exact ⟨_, List.mem_cons_self, hof⟩
  · rw [haliases] at hrest
    rw [hjoins]
    refine .cons (fun c hc column hcolumn => ?_) (.cons (fun c hc column hcolumn => ?_) hrest)
    · rcases of_betweenJoin c hc column hcolumn with hof | hof
      · exact ⟨_, List.mem_cons_of_mem _ hparent, hof⟩
      · exact ⟨_, List.mem_cons_self, hof⟩
    · rcases h.of_childJoin c hc column hcolumn with hof | hof
      · exact ⟨_, List.mem_cons_of_mem _ List.mem_cons_self, hof⟩
      · exact ⟨_, List.mem_cons_self, hof⟩

end Link

/-! ## Plans -/

namespace Plan

variable {catalog : Catalog} {separator : String}

theorem inScope_links : ∀ {links : List Link} {nodes : List NodePlan} {known : List String},
    ParentsFirst nodes links → (∀ l ∈ links, l.Valid catalog separator) →
      (∀ n ∈ nodes, n.tableAlias ∈ known) → Join.InScope known (links.flatMap Link.joins)
  | [], _, _, _, _, _ => .nil
  | l :: rest, nodes, known, hparents, hvalid, hknown => by
    obtain ⟨hl, hrest⟩ := List.forall_mem_cons.mp hvalid
    rw [List.flatMap_cons]
    -- The child of the link may be the parent of a later one, so its alias is known from here on.
    refine hl.inScope_joins (hknown _ hparents.1) (inScope_links hparents.2 hrest ?_)
    intro n hn
    rcases List.mem_cons.mp hn with rfl | hn
    · exact List.mem_append_left _ List.mem_cons_self
    · exact List.mem_append_right _ (hknown n hn)

theorem Valid.perm_aliases {plan : Plan} (h : plan.Valid catalog separator) (root : RootPlan) :
    (plan.statement root).aliases.Perm plan.aliases := by
  refine List.Perm.cons _ ?_
  show ((plan.links.flatMap Link.joins).map (·.tableAlias)).Perm _
  rw [List.map_flatMap]
  exact List.Perm.flatMap_left _ fun l hl => (h.links l hl).perm_aliases

theorem mem_aliases_of_mem_links {plan : Plan} {l : Link} (hl : l ∈ plan.links) {a : String}
    (ha : a ∈ l.aliases) : a ∈ plan.aliases :=
  List.mem_cons_of_mem _ (List.mem_flatMap.mpr ⟨l, hl, ha⟩)

theorem tableAlias_mem_aliases {plan : Plan} {n : NodePlan} (hn : n ∈ plan.nodes) :
    n.tableAlias ∈ plan.aliases := by
  rcases mem_nodes_iff.mp hn with rfl | ⟨l, hl, rfl⟩
  · exact List.mem_cons_self
  · exact mem_aliases_of_mem_links hl l.child_mem_aliases

end Plan

/-- **A compiled statement is well scoped**, whatever the catalog and the settings: its aliases are
all different, and each column is referred to only where its table is in scope. -/
theorem SelectionTree.compile_wellScoped {catalog : Catalog} {config : Config} {entity : String}
    {selection : FieldSelection} {tree : SelectionTree} {compiled : CompiledRead}
    (htree : (SelectionTree.build catalog entity selection).outcome = .ok tree)
    (h : (tree.compile catalog config).outcome = .ok compiled) :
    compiled.statement.WellScoped config.baseAlias := by
  obtain ⟨hroot, -, -⟩ := SelectionTree.build_wellFormed htree
  obtain ⟨plan, root, hfor, hvalid, rfl⟩ := SelectionTree.compile_eq_ok hroot h
  have hperm := hfor.valid.perm_aliases root
  refine ⟨⟨plan.node.entity.table, ?_⟩, ?_, ?_, ?_, ?_⟩
  · rw [← hfor.base]
    rfl
  · exact hperm.nodup_iff.mpr hfor.aliases
  · refine Plan.inScope_links (Plan.parentsFirst_links (List.mem_singleton.mpr rfl))
      hfor.valid.links ?_
    intro n hn
    rw [List.mem_singleton.mp hn, hfor.base]
    exact List.mem_singleton.mpr rfl
  · intro p hp
    obtain ⟨n, hn, name, -, hprojects⟩ := hfor.valid.exists_projects hp
    exact ⟨n.tableAlias, hperm.mem_iff.mpr (Plan.tableAlias_mem_aliases hn), hprojects.offers.of⟩
  · intro column hcolumn
    exact (hvalid.offers plan column hcolumn).of

/-- In the library, where one table is joined twice and a third one stands in between. -/
theorem SelectionTree.compile_wellScoped_library :
    Sample.compiled.statement.WellScoped "base" ∧
      Sample.compiled.statement.aliases = ["base", "Book", "links", "Book_2"] :=
  ⟨SelectionTree.compile_wellScoped Sample.build_selection Sample.compile_tree, rfl⟩

end NestedRead
