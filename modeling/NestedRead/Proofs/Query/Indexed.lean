import NestedRead.Proofs.Query.RowFormat
import NestedRead.Proofs.Rows.Contents

/-!
# The index of a compiled layout is the one that its rows declare

`RowIndex.Describes` is the index of rows as a reader would define it, without a scan: everything in
it is said of the rows as they stand. An index that is built for a compiled layout is described by
its rows, whatever they are: columns may be missing or null, rows repeated, and values differ
between rows that carry one id.

The layout comes in through `Plan.Clear` only, by which a key of a row is the key of one field of
one alias (`Plan.Clear.get?_fieldsIn`).
-/

set_option autoImplicit false

namespace NestedRead

/-! ## Rows -/

/-- The value that a row has in a column. -/
def Json.column? : Json → String → Option Json
  | .object members, key => get? members key
  | _, _ => none

/-- The id that a row carries in the unique column of a binding. -/
def Layout.idOf? (layout : Layout) (b : Binding) (row : Json) : Option EntityId :=
  (row.column? (layout.key b.tableAlias b.uniqueColumn)).bind EntityId.ofJson?

namespace RowIndex

/-! ## The declared index -/

/-- The index says of rows what they say themselves, for the bindings of a layout and the relations
between its paths, and nothing else. -/
structure Describes (layout : Layout) (relations : List (FieldPath × FieldPath))
    (rows : List Json) (index : RowIndex) : Prop where
  /-- The roots are the ids of the rows, each once, in the order in which they first appear. -/
  rootIds : ∃ root, layout.root? = some root ∧
    index.rootIds = (rows.filterMap (layout.idOf? root)).eraseDups ∧
    ∀ id ∈ index.rootIds, (index.object? root.tableAlias id).isSome = true
  /-- An id has an object under an alias exactly when some row carries it. -/
  object : ∀ tableAlias id, (index.object? tableAlias id).isSome = true ↔
    ∃ b, layout.byAlias? tableAlias = some b ∧ ∃ row ∈ rows, layout.idOf? b row = some id
  /-- A field of an object has the value of the first row that carries the id and has the column.
  -/
  field : ∀ tableAlias b, layout.byAlias? tableAlias = some b → ∀ id field,
    (index.object? tableAlias id).bind (Json.get? · field) =
      rows.findSome? fun row => if layout.idOf? b row = some id then
        row.column? (layout.key tableAlias field) else none
  /-- The children of an id are those that single rows carry beside it, in ascending order. -/
  children : ∀ relation ∈ relations, ∃ parent child,
    layout.byPath? relation.1 = some parent ∧ layout.byPath? relation.2 = some child ∧
    ∀ p, Ordered.Ascending EntityId.cmp (index.children relation.2 p) ∧
      (index.children relation.2 p).Nodup ∧
      ∀ k, k ∈ index.children relation.2 p ↔
        ∃ row ∈ rows, layout.idOf? parent row = some p ∧ layout.idOf? child row = some k
  /-- Every entry belongs to a relation, and all ids in it have objects. -/
  linked : ∀ path p kids, index.linked? path p = some kids →
    ∃ relation ∈ relations, relation.2 = path ∧ ∃ parent child,
      layout.byPath? relation.1 = some parent ∧ layout.byPath? path = some child ∧
      (index.object? parent.tableAlias p).isSome = true ∧
      kids ≠ [] ∧ ∀ k ∈ kids, (index.object? child.tableAlias k).isSome = true

end RowIndex

namespace Plan

variable {separator : String} {plan : Plan}

/-- A field of an alias stands in a row under its key. -/
theorem Clear.get?_fieldsIn (h : plan.Clear separator) {n : NodePlan} (hn : n ∈ plan.nodes)
    (field : String) : ∀ row : Json.Members,
      Json.get? ((plan.layout separator).fieldsIn row n.tableAlias) field
        = Json.get? row (columnKey n.tableAlias separator field)
  | [] => rfl
  | (key, value) :: rest => by
    have hkey := h.split? hn field
    rw [Json.get?_cons]
    cases hsplit : (plan.layout separator).split? key with
    | none =>
      have hne : key ≠ columnKey n.tableAlias separator field := by
        rintro rfl
        rw [hsplit] at hkey
        cases hkey
      rw [Layout.fieldsIn_cons_of_none _ _ _ hsplit, if_neg hne, h.get?_fieldsIn hn field rest]
    | some parts =>
      obtain ⟨tableAlias, found⟩ := parts
      have hjoined : key = columnKey tableAlias separator found :=
        Text.eq_columnKey_of_cutAt? hsplit
      -- The key is this one exactly when it was cut into this alias and this field.
      have heq : key = columnKey n.tableAlias separator field ↔
          tableAlias = n.tableAlias ∧ found = field := by
        constructor
        · intro heq
          rw [heq, hkey] at hsplit
          cases hsplit
          exact ⟨rfl, rfl⟩
        · rintro ⟨rfl, rfl⟩
          exact hjoined
      rw [Layout.fieldsIn_cons_of_some _ _ _ hsplit]
      by_cases halias : tableAlias = n.tableAlias
      · rw [if_pos halias, Json.get?_cons, h.get?_fieldsIn hn field rest]
        simp only [heq, halias, true_and]
      · rw [if_neg halias, h.get?_fieldsIn hn field rest,
          if_neg fun hkeys => halias (heq.mp hkeys).1]

/-- What an index of rows holds for the bindings and the links of a plan. -/
structure Recorded (separator : String) (plan : Plan) (rows : List Json.Members)
    (index : RowIndex) : Prop where
  object : ∀ n ∈ plan.nodes, ∀ id, (index.object? n.tableAlias id).isSome = true ↔
    ∃ row ∈ rows, (plan.layout separator).idIn? row n.binding = some id
  field : ∀ n ∈ plan.nodes, ∀ id field, (index.object? n.tableAlias id).bind (Json.get? · field) =
    rows.findSome? fun row => if (plan.layout separator).idIn? row n.binding = some id then
      Json.get? row (columnKey n.tableAlias separator field) else none
  nodup : ∀ n ∈ plan.nodes, ∀ id object, index.object? n.tableAlias id = some object →
    (object.map Prod.fst).Nodup
  ascending : ∀ l ∈ plan.links, ∀ p,
    Ordered.Ascending EntityId.cmp (index.children l.child.path p)
  children : ∀ l ∈ plan.links, ∀ p k, k ∈ index.children l.child.path p ↔
    ∃ row ∈ rows, (plan.layout separator).idIn? row l.parent.binding = some p ∧
      (plan.layout separator).idIn? row l.child.binding = some k
  rootIds : index.rootIds =
    (rows.filterMap ((plan.layout separator).idIn? · plan.node.binding)).eraseDups

theorem Clear.recorded (h : plan.Clear separator) {rows : List Json.Members} {index : RowIndex}
    (hholds : RowIndex.Holds (plan.layout separator) plan.node.binding
      (plan.links.map fun l => ⟨l.parent.binding, l.child.binding⟩) rows index) :
    plan.Recorded separator rows index where
  object n hn id := by
    rw [← RowIndex.isSome_objectOf?, ← hholds.object n.binding (List.mem_map_of_mem hn) id]
    rfl
  field n hn id field := by
    simp only [← h.get?_fieldsIn hn]
    exact (congrArg (Option.bind · (Json.get? · field))
      (hholds.object n.binding (List.mem_map_of_mem hn) id)).trans (RowIndex.get?_objectOf? field)
  nodup n hn id object h :=
    RowIndex.nodup_objectOf? ((hholds.object n.binding (List.mem_map_of_mem hn) id).symm.trans h)
  ascending l hl p := by
    rw [show index.children l.child.path p = _ from
      hholds.children ⟨l.parent.binding, l.child.binding⟩ (List.mem_map.mpr ⟨l, hl, rfl⟩) p]
    exact RowIndex.ascending_childrenOf
  children l hl p k := by
    rw [show index.children l.child.path p = _ from
      hholds.children ⟨l.parent.binding, l.child.binding⟩ (List.mem_map.mpr ⟨l, hl, rfl⟩) p]
    exact RowIndex.mem_childrenOf
  rootIds := hholds.rootIds.trans (RowIndex.rootIdsOf_eq_eraseDups _ _)

/-- A binding that is found by its alias is that of a node with the alias. -/
theorem exists_node_of_byAlias? {tableAlias : String} {b : Binding}
    (hb : (plan.layout separator).byAlias? tableAlias = some b) :
    ∃ n ∈ plan.nodes, n.tableAlias = tableAlias ∧ n.binding = b := by
  obtain ⟨n, hn, rfl⟩ := List.mem_map.mp (List.mem_of_find?_eq_some hb)
  have halias := List.find?_some hb
  rw [beq_iff_eq] at halias
  exact ⟨n, hn, halias, rfl⟩

/-- An index of rows is described by them. -/
theorem Clear.describes (h : plan.Clear separator) {rows : List Json.Members} {index : RowIndex}
    (hrecorded : plan.Recorded separator rows index)
    (hconfined : RowIndex.Confined (plan.layout separator)
      (plan.links.map fun l => ⟨l.parent.binding, l.child.binding⟩) index) :
    index.Describes (plan.layout separator) plan.selection.edges (rows.map Json.object) where
  rootIds := by
    refine ⟨plan.node.binding, h.root?, ?_, fun id hid => ?_⟩
    · rw [hrecorded.rootIds, List.filterMap_map]
      rfl
    · rw [hrecorded.rootIds, List.mem_eraseDups, List.mem_filterMap] at hid
      exact (hrecorded.object plan.node List.mem_cons_self id).mpr hid
  object tableAlias id := by
    constructor
    · intro hsome
      -- An alias with an object is one of the layout, and the binding of a node.
      have halias : tableAlias ∈ (plan.layout separator).bindings.map (·.tableAlias) := by
        by_contra hnot
        rw [hconfined.object tableAlias hnot id] at hsome
        cases hsome
      rw [layout, bindings, List.map_map] at halias
      obtain ⟨n, hn, rfl⟩ := List.mem_map.mp halias
      obtain ⟨row, hrow, hid⟩ := (hrecorded.object n hn id).mp hsome
      exact ⟨n.binding, h.byAlias? hn, _, List.mem_map_of_mem hrow, hid⟩
    · rintro ⟨b, hb, row, hrow, hid⟩
      obtain ⟨n, hn, rfl, rfl⟩ := exists_node_of_byAlias? hb
      obtain ⟨members, hmembers, rfl⟩ := List.mem_map.mp hrow
      exact (hrecorded.object n hn id).mpr ⟨members, hmembers, hid⟩
  field tableAlias b hb id field := by
    obtain ⟨n, hn, rfl, rfl⟩ := exists_node_of_byAlias? hb
    rw [List.findSome?_map]
    exact hrecorded.field n hn id field
  children relation hrelation := by
    rw [edges_selection] at hrelation
    obtain ⟨l, hl, rfl⟩ := List.mem_map.mp hrelation
    refine ⟨l.parent.binding, l.child.binding, h.byPath? (parent_mem_nodes hl),
      h.byPath? (child_mem_nodes hl), fun p => ⟨hrecorded.ascending l hl p,
        (hrecorded.ascending l hl p).nodup, fun k => ?_⟩⟩
    rw [hrecorded.children l hl p k]
    simp only [List.mem_map, exists_exists_and_eq_and]
    rfl
  linked path p kids hlinked := by
    have hpath := hconfined.path path p kids hlinked
    rw [List.map_map] at hpath
    obtain ⟨l, hl, rfl⟩ := List.mem_map.mp hpath
    have hkids : index.children l.child.path p = kids := congrArg (·.getD []) hlinked
    have hne : kids ≠ [] := fun hnil => hconfined.children _ p (hnil ▸ hlinked)
    refine ⟨(l.parent.path, l.child.path), ?_, rfl, l.parent.binding, l.child.binding,
      h.byPath? (parent_mem_nodes hl), h.byPath? (child_mem_nodes hl), ?_, hne, fun k hk => ?_⟩
    · rw [edges_selection]
      exact List.mem_map_of_mem (f := fun l : Link => (l.parent.path, l.child.path)) hl
    · obtain ⟨k, hk⟩ := List.exists_mem_of_ne_nil _ hne
      rw [← hkids] at hk
      obtain ⟨row, hrow, hp, -⟩ := (hrecorded.children l hl p k).mp hk
      exact (hrecorded.object l.parent (parent_mem_nodes hl) p).mpr ⟨row, hrow, hp⟩
    · rw [← hkids] at hk
      obtain ⟨row, hrow, -, hk⟩ := (hrecorded.children l hl p k).mp hk
      exact (hrecorded.object l.child (child_mem_nodes hl) k).mpr ⟨row, hrow, hk⟩

end Plan

/-- **An index that is built of rows for a compiled tree is the one that the rows declare.** -/
theorem SelectionTree.index_described {catalog : Catalog} {config : Config} {entity : String}
    {selection : FieldSelection} {tree : SelectionTree} {compiled : CompiledRead}
    (hcat : catalog.Accepted) (hconfig : config.isValid = true)
    (htree : (SelectionTree.build catalog entity selection).outcome = .ok tree)
    (h : (tree.compile catalog config).outcome = .ok compiled) {rows : List Json}
    {index : RowIndex}
    (hindex : (RowIndex.ofRows compiled.layout tree.edges rows).outcome = .ok index) :
    index.Describes compiled.layout tree.edges rows := by
  obtain ⟨hroot, -, hpath⟩ := SelectionTree.build_wellFormed htree
  obtain ⟨plan, root, hfor, -, rfl⟩ := SelectionTree.compile_eq_ok hroot h
  have hclear := hfor.clear hcat hconfig hroot hpath
  rw [show tree.edges = plan.selection.edges by rw [hfor.selection]; rfl] at hindex ⊢
  obtain ⟨found, rfl, -, hholds, hconfined⟩ :=
    RowIndex.ofRows_eq_ok hclear.root? hclear.edges hclear.separated hindex
  exact hclear.describes (hclear.recorded hholds) hconfined

/-! ## Rows of the library -/

namespace Sample

/-- Rows in which a name is missing, then another, a sequel is null or not there, and one row comes
twice. -/
def unevenRows : List Json :=
  [.object [("base___id", .ofNat 2), ("base___name", .string "B"), ("Book___id", .ofNat 7),
      ("Book___title", .null), ("Book_2___id", .null)],
    .object [("base___id", .ofNat 1), ("Book___id", .ofNat 5), ("Book_2___id", .ofNat 7)],
    .object [("base___id", .ofNat 2), ("base___name", .string "C"), ("Book___id", .ofNat 5)],
    .object [("base___id", .ofNat 1), ("Book___id", .ofNat 5), ("Book_2___id", .ofNat 7)]]

def unevenIndex : RowIndex where
  pool :=
    [("base", [(.integer 2, [("id", .ofNat 2), ("name", .string "B")]),
        (.integer 1, [("id", .ofNat 1)])]),
      ("Book", [(.integer 7, [("id", .ofNat 7), ("title", .null)]),
        (.integer 5, [("id", .ofNat 5)])]),
      ("Book_2", [(.integer 7, [("id", .ofNat 7)])])]
  adjacency :=
    [(⟨["books"]⟩, [(.integer 2, [.integer 5, .integer 7]), (.integer 1, [.integer 5])]),
      (⟨["books", "sequel"]⟩, [(.integer 5, [.integer 7])])]
  rootIds := [.integer 2, .integer 1]

theorem ofRows_unevenRows :
    (RowIndex.ofRows compiled.layout tree.edges unevenRows).outcome = .ok unevenIndex :=
  rfl

end Sample

theorem SelectionTree.index_described_library :
    Sample.unevenIndex.Describes Sample.compiled.layout Sample.tree.edges Sample.unevenRows :=
  SelectionTree.index_described Sample.catalog_accepted Config.isValid_default
    Sample.build_selection Sample.compile_tree Sample.ofRows_unevenRows

end NestedRead
