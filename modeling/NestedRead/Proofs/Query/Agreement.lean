import NestedRead.Proofs.Query.RowFormat

/-!
# Compiling and reading agree on the row format

The names of the columns of a compiled statement are all different, each is cut into the alias of
one binding and the field that it was projected for, and the unique column of every binding is among
them once. So rows that answer the statement, one object each with a value for every column, are
always read: none of the errors of `RowError` can come of them. What the values are does not matter,
apart from ids being scalars.
-/

set_option autoImplicit false

namespace NestedRead

namespace Plan

variable {separator : String} {plan : Plan}

theorem key_mem_columnNames {n : NodePlan} (hn : n ∈ plan.nodes) :
    columnKey n.tableAlias separator n.entity.uniqueColumn ∈ plan.columnNames separator :=
  List.mem_flatMap.mpr ⟨n, hn, List.mem_map_of_mem
    (n.entity.uniqueColumn_mem_projectedNames n.scalars)⟩

/-- A row with exactly the columns of a plan can be read, if its ids are scalars. -/
theorem Clear.reads (h : plan.Clear separator) {row : Json.Members}
    (hkeys : (row.map Prod.fst).Perm (plan.columnNames separator))
    (hids : ∀ b ∈ plan.bindings, ∀ value,
      Json.get? row (columnKey b.tableAlias separator b.uniqueColumn) = some value →
        value.isScalar = true) :
    (plan.layout separator).Reads plan.node.tableAlias row where
  keys entry hentry := by
    have hmem := hkeys.mem_iff.mp (List.mem_map_of_mem hentry)
    obtain ⟨n, hn, hname⟩ := List.mem_flatMap.mp hmem
    obtain ⟨field, -, hkey⟩ := List.mem_map.mp hname
    refine ⟨n.tableAlias, field, ?_, by rw [h.byAlias? hn]; rfl⟩
    rw [← hkey]
    exact h.split? hn field
  ids b hb := by
    obtain ⟨n, hn, rfl⟩ := List.mem_map.mp hb
    unfold Layout.ReadsId
    split
    · rename_i hnone
      exact absurd (hkeys.mem_iff.mpr (key_mem_columnNames hn)) (Json.get?_eq_none_iff.mp hnone)
    · rename_i value hvalue
      exact hids _ hb value hvalue

/-- Rows that can be read are nested, whatever they hold. -/
theorem Clear.exists_nest (h : plan.Clear separator) (args : RootArgs) {rows : List Json.Members}
    (hreads : ∀ row ∈ rows, (plan.layout separator).Reads plan.node.tableAlias row) :
    ∃ result, (SelectionTree.nest ⟨plan.selection, args⟩ (plan.layout separator)
      (rows.map Json.object)).outcome = .ok result := by
  unfold SelectionTree.nest
  split
  · exact ⟨[], rfl⟩
  obtain ⟨index, hindex, -⟩ := RowIndex.ofRows_outcome h.root? h.edges h.separated hreads
  have hbound : ∀ n ∈ plan.selection.nodes,
      ((plan.layout separator).byPath? n.path).isSome = true := by
    intro s hs
    have hmem : (s.entity, s.path, s.scalars) ∈ plan.nodes.map outline := by
      rw [outline_nodes]
      exact List.mem_map_of_mem hs
    obtain ⟨n, hn, heq⟩ := List.mem_map.mp hmem
    simp only [outline, Prod.mk.injEq] at heq
    rw [← heq.2.1, h.byPath? hn]
    rfl
  obtain ⟨roots, hroots⟩ := Traced.exists_outcome_each fun id (_ : id ∈ index.rootIds) =>
    RowIndex.exists_nest index hbound id
  refine ⟨roots, Traced.outcome_bind_eq_ok_iff.mpr ⟨index, hindex,
    Traced.outcome_bind_eq_ok_iff.mpr ⟨roots, hroots, ?_⟩⟩⟩
  exact Traced.outcome_bind_eq_ok_iff.mpr ⟨(), rfl, rfl⟩

end Plan

namespace CompiledRead

/-- An answer to a compiled statement: an object with exactly the projected columns, the ids among
them null, a boolean, a number or a string. -/
def IsAnswer (compiled : CompiledRead) (row : Json) : Prop :=
  ∃ members : Json.Members, row = .object members ∧
    (members.map Prod.fst).Perm (compiled.statement.projections.map (·.name)) ∧
    ∀ b ∈ compiled.layout.bindings, ∀ value,
      Json.get? members (compiled.layout.key b.tableAlias b.uniqueColumn) = some value →
        value.isScalar = true

end CompiledRead

/-- **A compiled statement and its layout agree on the row format.** Its columns have different
names; each is cut into the alias of one binding and a field of the node with the path of that
binding, and is projected for that field; the unique column of every binding is projected once; and
any rows that answer the statement are read without an error. -/
theorem SelectionTree.compile_rowFormat {catalog : Catalog} {config : Config} {entity : String}
    {selection : FieldSelection} {tree : SelectionTree} {compiled : CompiledRead}
    (hcat : catalog.Accepted) (hconfig : config.isValid = true)
    (htree : (SelectionTree.build catalog entity selection).outcome = .ok tree)
    (h : (tree.compile catalog config).outcome = .ok compiled) :
    (compiled.statement.projections.map (·.name)).Nodup ∧
    (∀ p ∈ compiled.statement.projections, ∃ b ∈ compiled.layout.bindings,
      (∀ b' ∈ compiled.layout.bindings, b'.tableAlias = b.tableAlias → b' = b) ∧
      ∃ node ∈ tree.root.nodes, node.path = b.path ∧
      ∃ e, catalog.get? node.entity = some e ∧ ∃ field ∈ e.projectedNames node.scalars,
        compiled.layout.split? p.name = some (b.tableAlias, field) ∧
        e.Projects b.tableAlias compiled.layout.separator field p) ∧
    (∀ b ∈ compiled.layout.bindings, (compiled.statement.projections.map (·.name)).count
      (compiled.layout.key b.tableAlias b.uniqueColumn) = 1) ∧
    ∀ rows, (∀ row ∈ rows, compiled.IsAnswer row) →
      ∃ result, (tree.nest compiled.layout rows).outcome = .ok result := by
  obtain ⟨hroot, -, hpath⟩ := SelectionTree.build_wellFormed htree
  obtain ⟨plan, root, hfor, -, rfl⟩ := SelectionTree.compile_eq_ok hroot h
  have hclear := hfor.clear hcat hconfig hroot hpath
  have hnames : (plan.statement root).projections.map (·.name)
      = plan.columnNames config.aliasSeparator := hfor.valid.names_projections
  refine ⟨?_, fun p hp => ?_, fun b hb => ?_, fun rows hrows => ?_⟩
  · rw [hnames]
    exact hclear.nodup_columnNames
  · obtain ⟨n, hn, field, hfield, hprojects⟩ := hfor.valid.exists_projects hp
    obtain ⟨s, hs, hentity, hspath, hscalars⟩ := hfor.exists_selected hn
    obtain ⟨name, hget⟩ := hfor.valid.get?_entity hn
    refine ⟨n.binding, List.mem_map_of_mem hn, fun b' hb' halias => ?_, s, hs, hspath, n.entity,
      ?_, field, hscalars ▸ hfield, ?_, hprojects⟩
    · -- Bindings of one alias are found by it, and only one is.
      obtain ⟨m, hm, rfl⟩ := List.mem_map.mp hb'
      have hfound := hclear.byAlias? hm
      rw [show m.tableAlias = n.tableAlias from halias, hclear.byAlias? hn] at hfound
      exact (Option.some.inj hfound).symm
    · rw [hentity, Catalog.name_of_get? hget]
      exact hget
    · rw [hprojects.1]
      exact hclear.split? hn field
  · obtain ⟨n, hn, rfl⟩ := List.mem_map.mp hb
    rw [hnames]
    exact List.count_eq_one_of_mem hclear.nodup_columnNames (Plan.key_mem_columnNames hn)
  · -- The rows are objects, each with the columns of the plan, so each can be read.
    have hmembers : ∃ members : List Json.Members, rows = members.map Json.object ∧
        ∀ row ∈ members, (plan.layout config.aliasSeparator).Reads plan.node.tableAlias row := by
      induction rows with
      | nil => exact ⟨[], rfl, by simp⟩
      | cons row rest ih =>
        obtain ⟨hrow, hrest⟩ := List.forall_mem_cons.mp hrows
        obtain ⟨members, hmembers, hreads⟩ := ih hrest
        obtain ⟨found, rfl, hkeys, hids⟩ := hrow
        rw [hnames] at hkeys
        exact ⟨found :: members, by rw [hmembers]; rfl,
          List.forall_mem_cons.mpr ⟨hclear.reads hkeys hids, hreads⟩⟩
    obtain ⟨members, rfl, hreads⟩ := hmembers
    have hnest := hclear.exists_nest tree.args hreads
    rw [hfor.selection] at hnest
    exact hnest

/-- In the library, for an author without books and one book whose sequel is not there; the order
of the columns in a row does not matter. -/
theorem SelectionTree.compile_rowFormat_library :
    (Sample.compiled.statement.projections.map (·.name)).Nodup ∧
      ∃ result, (Sample.tree.nest Sample.compiled.layout
        [.object [("base___name", .string "A"), ("base___id", .bool true), ("Book___title", .null),
          ("Book___id", .null), ("Book_2___title", .null), ("Book_2___id", .null)],
        .object [("Book___id", .string "b"), ("Book_2___title", .null), ("Book_2___id", .null),
          ("base___name", .string "B"), ("base___id", .string "2"),
          ("Book___title", .array [])]]).outcome = .ok result := by
  obtain ⟨hnodup, -, -, hnest⟩ := SelectionTree.compile_rowFormat Sample.catalog_accepted
    Config.isValid_default Sample.build_selection Sample.compile_tree
  refine ⟨hnodup, hnest _ ?_⟩
  have hkeys : ∀ b ∈ Sample.compiled.layout.bindings, Sample.compiled.layout.key b.tableAlias
      b.uniqueColumn ∈ ["base___id", "Book___id", "Book_2___id"] := by decide +kernel
  simp only [List.forall_mem_cons]
  refine ⟨⟨_, rfl, by decide +kernel, fun b hb value hvalue => ?_⟩,
    ⟨_, rfl, by decide +kernel, fun b hb value hvalue => ?_⟩, by simp⟩
  · have hkey := hkeys b hb
    generalize Sample.compiled.layout.key b.tableAlias b.uniqueColumn = key at hkey hvalue
    simp only [List.mem_cons, List.not_mem_nil, or_false] at hkey
    rcases hkey with rfl | rfl | rfl <;> (cases hvalue; rfl)
  · have hkey := hkeys b hb
    generalize Sample.compiled.layout.key b.tableAlias b.uniqueColumn = key at hkey hvalue
    simp only [List.mem_cons, List.not_mem_nil, or_false] at hkey
    rcases hkey with rfl | rfl | rfl <;> (cases hvalue; rfl)

end NestedRead
