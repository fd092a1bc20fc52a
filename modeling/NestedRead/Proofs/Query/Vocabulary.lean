import NestedRead.Proofs.Naming.Column
import NestedRead.Proofs.Query.Operands
import NestedRead.Proofs.Query.Scope
import NestedRead.Proofs.Sql.Words

/-!
# Statements speak the vocabulary of the catalog

A request is made of texts that anyone may write. None of them gets into a statement as a table, an
alias or a column: the tables are those of the catalog, an alias is one of its names, with an ending
perhaps, and a column is one that the entity behind its alias offers, or that a relation is declared
over. A column of the result comes out under the alias of a selected node and a name that was asked
for there, and that name is a word of the catalog too: a scalar column, or an aggregate over one.

`CompiledRead.Within` says so of the parts of a statement. What its text is made of follows part by
part (`CompiledRead.Within.spelled`): besides the vocabulary of the catalog there are keywords and
two numbers. The values of a request are bound, each in its place.
-/

set_option autoImplicit false

namespace NestedRead

/-! ## The vocabulary -/

namespace Catalog

variable (catalog : Catalog)

/-- A relation that one of the entities has. -/
def Declares (relation : Relation) : Prop :=
  ∃ e ∈ catalog.entities, ∃ field, e.relation? field = some relation

inductive HasTable : String → Prop
  | entity {e : Entity} (known : e ∈ catalog.entities) : HasTable e.table
  | between {relation : Relation} {through : Through} (declared : catalog.Declares relation)
      (associative : relation.through = some through) : HasTable through.table

/-- The names that tables get their aliases from. -/
inductive HasName : String → Prop
  | entity {e : Entity} (known : e ∈ catalog.entities) : HasName e.name
  | between {relation : Relation} {through : Through} (declared : catalog.Declares relation)
      (associative : relation.through = some through) : HasName through.bareTable

/-- A name of the catalog as it is, or with an ending. -/
def HasAlias (tableAlias : String) : Prop :=
  ∃ name, catalog.HasName name ∧
    (tableAlias = name ∨ ∃ k, tableAlias = AliasRegistry.numbered name k)

end Catalog

/-- The columns that a relation equates: the one of the table that is there, and the one of the
table that is joined. -/
inductive Relation.Equates (relation : Relation) : String → String → Prop
  | direct (direct : relation.through = none) :
      Equates relation relation.fromColumn relation.toColumn
  | first {through : Through} (associative : relation.through = some through) :
      Equates relation relation.fromColumn through.fromColumn
  | second {through : Through} (associative : relation.through = some through) :
      Equates relation through.toColumn relation.toColumn

/-- An alias is bound to an entity. -/
def Layout.Binds (catalog : Catalog) (layout : Layout) (tableAlias : String) (entity : Entity) :
    Prop :=
  ∃ b, layout.byAlias? tableAlias = some b ∧ catalog.get? b.entity = some entity

/-- The column is offered by the entity that its alias is bound to. -/
def Layout.Offers (catalog : Catalog) (layout : Layout) (column : ColumnRef) : Prop :=
  ∃ tableAlias entity, layout.Binds catalog tableAlias entity ∧ entity.Offers tableAlias column

/-- The equation of a relation between two of these aliases, or else a condition on columns that are
offered. -/
inductive Condition.Within (catalog : Catalog) (layout : Layout) (aliases : List String) :
    Condition → Prop
  | key {relation : Relation} {left right leftAlias rightAlias : String}
      (declared : catalog.Declares relation) (equates : relation.Equates left right)
      (leftKnown : leftAlias ∈ aliases) (rightKnown : rightAlias ∈ aliases) :
      Within catalog layout aliases
        (.compareColumns (.qualified leftAlias left) .eq (.qualified rightAlias right))
  | offered {c : Condition} (columns : ∀ column ∈ c.columns, layout.Offers catalog column) :
      Within catalog layout aliases c

/-- A selected node is one of this entity, and its columns stand under this alias. -/
structure Layout.Places (catalog : Catalog) (layout : Layout) (node : SelectionNode)
    (tableAlias : String) (entity : Entity) : Prop where
  known : catalog.get? node.entity = some entity
  path : ∃ b, layout.byPath? node.path = some b ∧ b.tableAlias = tableAlias
  binds : layout.Binds catalog tableAlias entity

/-- The columns that come out of a statement for a selected node: what a name stands for that is
projected there, which is one that was asked for or the unique column, and the unique column itself.
Each comes out under the alias of the node, the separator and the name. -/
inductive Layout.Titles (catalog : Catalog) (layout : Layout) (separator : String)
    (node : SelectionNode) : Projection → Prop
  | denoted {tableAlias name : String} {entity : Entity} {column : ColumnRef}
      (places : layout.Places catalog node tableAlias entity)
      (projected : name ∈ entity.projectedNames node.scalars)
      (denotes : entity.Denotes tableAlias name column) :
      Titles catalog layout separator node ⟨column, tableAlias ++ separator ++ name⟩
  | unique {tableAlias : String} {entity : Entity}
      (places : layout.Places catalog node tableAlias entity) :
      Titles catalog layout separator node ⟨.qualified tableAlias entity.uniqueColumn,
        tableAlias ++ separator ++ entity.uniqueColumn⟩

/-- Every text in the parts of a statement is a word of the catalog or the base alias, but for the
values of its placeholders. Its numbers are those of the request, or what the configuration makes of
them. -/
structure CompiledRead.Within (catalog : Catalog) (config : Config) (tree : SelectionTree)
    (compiled : CompiledRead) : Prop where
  source : ∃ e ∈ catalog.entities, compiled.statement.source = some (e.table, config.baseAlias)
  joins : ∀ j ∈ compiled.statement.joins, catalog.HasTable j.table ∧
    catalog.HasAlias j.tableAlias ∧
    ∀ c ∈ j.conditions, c.Within catalog compiled.layout compiled.statement.aliases
  bound : ∀ b ∈ compiled.layout.bindings, b.tableAlias ∈ compiled.statement.aliases
  projections : ∀ p ∈ compiled.statement.projections, ∃ node ∈ tree.root.nodes,
    compiled.layout.Titles catalog config.aliasSeparator node p
  clauses : ∀ column ∈ compiled.statement.clauseColumns, ∃ entity,
    compiled.layout.Binds catalog config.baseAlias entity ∧
      entity.Offers config.baseAlias column
  limit : compiled.statement.limit = (config.limit? tree.args.limit).map (·.1)
  offset : compiled.statement.offset = tree.args.offset

section Word

variable (catalog : Catalog) (config : Config) (tree : SelectionTree) (compiled : CompiledRead)

/-- What the text of a statement is written with: keywords, names of the catalog and the base alias
in quotes, columns that are offered or that a relation equates, the names that columns come out
under, and the two numbers. -/
inductive CompiledRead.Word : String → Prop
  | keyword {w : String} (fixed : w ∈ Sql.keywords) : Word w
  | table {table : String} (known : catalog.HasTable table) : Word (Sql.table table)
  | tableAlias {tableAlias : String}
      (known : tableAlias = config.baseAlias ∨ catalog.HasAlias tableAlias) :
      Word (Sql.identifier tableAlias)
  | column {column : ColumnRef} (offered : compiled.layout.Offers catalog column) :
      Word column.sql
  | key {relation : Relation} {tableAlias left right column : String}
      (declared : catalog.Declares relation) (equates : relation.Equates left right)
      (side : column = left ∨ column = right) (known : tableAlias ∈ compiled.statement.aliases) :
      Word (Sql.qualified tableAlias column)
  | title {p : Projection} {node : SelectionNode} (selected : node ∈ tree.root.nodes)
      (titles : compiled.layout.Titles catalog config.aliasSeparator node p) :
      Word (Sql.identifier p.name)
  | count {n : Nat} (asked : compiled.statement.limit = some n ∨
      compiled.statement.offset = some n) : Word (toString n)

end Word

/-! ## What a plan is made of -/

namespace Plan

variable {catalog : Catalog} {separator : String} {plan : Plan}

theorem Valid.binds_entity (h : plan.Valid catalog separator)
    (haliases : (plan.nodes.map (·.tableAlias)).Nodup) {n : NodePlan} (hn : n ∈ plan.nodes) :
    (plan.layout separator).Binds catalog n.tableAlias n.entity :=
  ⟨n.binding, byAlias?_of_nodup separator haliases hn, h.get?_name hn⟩

section joins

variable (h : plan.Valid catalog separator) (haliases : (plan.nodes.map (·.tableAlias)).Nodup)
  {known : List String} (hknown : plan.aliases ⊆ known) {l : Link} (hl : l ∈ plan.links)

include h haliases hknown hl

end joins

end Plan

/-! ## The text -/

theorem Entity.Denotes.offers {entity : Entity} {tableAlias name : String} {column : ColumnRef}
    (h : entity.Denotes tableAlias name column) : entity.Offers tableAlias column := by
  cases h with
  | scalar found => exact .scalar (Entity.scalarType?_eq_some_iff.mpr found)
  | aggregate found _ offered => exact .aggregate (Entity.scalarType?_eq_some_iff.mpr found) offered

theorem Layout.Titles.offers {catalog : Catalog} {layout : Layout} {separator : String}
    {node : SelectionNode} {p : Projection} (h : layout.Titles catalog separator node p) :
    layout.Offers catalog p.expression := by
  cases h with
  | denoted places _ denotes => exact ⟨_, _, places.binds, denotes.offers⟩
  | unique places => exact ⟨_, _, places.binds, .unique⟩

namespace CompiledRead.Within

variable {catalog : Catalog} {config : Config} {tree : SelectionTree} {compiled : CompiledRead}
  (h : compiled.Within catalog config tree)

theorem word_of_condition {c : Condition}
    (hc : c.Within catalog compiled.layout compiled.statement.aliases) :
    ∀ column ∈ c.columns, compiled.Word catalog config tree column.sql := by
  intro column hcolumn
  cases hc with
  | key declared equates leftKnown rightKnown =>
    rw [Condition.columns, List.mem_pair] at hcolumn
    rcases hcolumn with rfl | rfl
    · exact .key declared equates (.inl rfl) leftKnown
    · exact .key declared equates (.inr rfl) rightKnown
  | offered columns => exact .column (columns column hcolumn)

include h

/-- The text of a statement within the vocabulary is written with it. -/
theorem spelled : Sql.Spelled (compiled.Word catalog config tree) compiled.statement.sql := by
  refine Statement.Uses.spelled ⟨fun w hw => .keyword hw, ?_, ?_, ?_, ?_, fun n hn => .count hn⟩
  · intro table tableAlias hsource
    obtain ⟨e, he, hentity⟩ := h.source
    cases hsource.symm.trans hentity
    exact ⟨.table (.entity he), .tableAlias (.inl rfl)⟩
  · intro p hp
    obtain ⟨node, hnode, htitles⟩ := h.projections p hp
    exact ⟨.column htitles.offers, .title hnode htitles⟩
  · intro j hj
    obtain ⟨htable, halias, hconditions⟩ := h.joins j hj
    exact ⟨.table htable, .tableAlias (.inr halias),
      fun c hc => word_of_condition (hconditions c hc)⟩
  · intro column hcolumn
    obtain ⟨entity, hbinds, hoffers⟩ := h.clauses column hcolumn
    exact .column ⟨_, entity, hbinds, hoffers⟩

end CompiledRead.Within

/-! ## The whole statement -/

namespace Plan

variable {catalog : Catalog} {config : Config} {tree : SelectionTree} {plan : Plan}

/-- The columns of a plan come out for the nodes of the tree that it was made for. -/
theorem For.titles (hfor : plan.For catalog config tree) (hroot : tree.root.WellFormed catalog)
    {p : Projection} (hp : p ∈ plan.nodes.flatMap (·.projections)) : ∃ node ∈ tree.root.nodes,
      (plan.layout config.aliasSeparator).Titles catalog config.aliasSeparator node p := by
  obtain ⟨n, hn, name, hname, hprojects⟩ := hfor.valid.exists_projects hp
  obtain ⟨s, hs, hentity, hpath, hscalars⟩ := hfor.exists_selected hn
  have hplaces : (plan.layout config.aliasSeparator).Places catalog s n.tableAlias n.entity := by
    refine ⟨?_, ⟨n.binding, ?_, rfl⟩, hfor.valid.binds_entity (nodup_nodeAliases hfor.aliases) hn⟩
    · rw [hentity]
      exact hfor.valid.get?_name hn
    · rw [hpath]
      exact byPath?_of_nodup _ (hfor.nodup_paths hroot) hn
  obtain ⟨expression, title⟩ := p
  obtain ⟨rfl, hcolumn | ⟨rfl, rfl⟩⟩ := hprojects
  · exact ⟨s, hs, .denoted hplaces (hscalars ▸ hname) (Entity.denotes_of_column hcolumn)⟩
  · exact ⟨s, hs, .unique hplaces⟩

end Plan

namespace Sample

end Sample

end NestedRead
