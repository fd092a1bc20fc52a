import Mathlib
import NestedRead.Proofs.Query.Indexed
import NestedRead.Proofs.Rows.Erased

/-!
# Relations are reconstructed independently of each other

All relations of a tree share the rows, and a join multiplies siblings together. Still, what a
result shows at some of the nodes depends on the columns of these nodes alone: two lists of rows
that agree there, row by row, have results that are the same once all other relations are erased.

Two runs are compared by their indexes. What a plan has recorded of rows is told by two views of
them, the value that a field of an id is given (`Layout.firstValue?`) and the links between ids
(`Layout.Linked`); where the rows of two runs have the same views at the kept nodes, their indexes
are alike there (`Plan.Recorded.alike`), and so is what they are nested into. The nodes that are
kept can be any that contain the root: a node whose parent is erased is erased with it.
-/

set_option autoImplicit false

namespace NestedRead

/-! ## Views of rows -/

namespace Layout

/-- What a row says of a field of an id, if it carries the id. -/
def valueIn? (layout : Layout) (b : Binding) (id : EntityId) (field : String)
    (row : Json.Members) : Option Json :=
  if layout.idIn? row b = some id then Json.get? row (layout.key b.tableAlias field) else none

/-- The value of a field of an id: the one in the first row that carries both. -/
def firstValue? (layout : Layout) (b : Binding) (id : EntityId) (field : String)
    (rows : List Json.Members) : Option Json :=
  rows.findSome? (layout.valueIn? b id field)

/-- Some row carries the two ids side by side. -/
def Linked (layout : Layout) (parent child : Binding) (rows : List Json.Members)
    (p k : EntityId) : Prop :=
  ∃ row ∈ rows, layout.idIn? row parent = some p ∧ layout.idIn? row child = some k

/-- Two rows agree in the columns of a binding: they have the same columns of its alias with the
same values, and the same id. The id has to be said, for the zeros of either sign are one value and
two ids. -/
structure AgreeAt (layout : Layout) (row row' : Json) (b : Binding) : Prop where
  id : layout.idOf? b row = layout.idOf? b row'
  column : ∀ field, Option.Rel (fun value value' => value.same value' = true)
    (row.column? (layout.key b.tableAlias field)) (row'.column? (layout.key b.tableAlias field))

end Layout

namespace Plan

variable {catalog : Catalog} {config : Config} {separator : String} {plan : Plan}

/-- Indexes are alike at the kept nodes if the rows have the same views there. -/
theorem Recorded.alike {rows rows' : List Json.Members} {index index' : RowIndex}
    {kept : FieldPath → Bool} (h : plan.Recorded separator rows index)
    (h' : plan.Recorded separator rows' index')
    (hvalue : ∀ n ∈ plan.nodes, kept n.path = true → ∀ id field,
      Option.Rel (fun value value' => value.same value' = true)
        ((plan.layout separator).firstValue? n.binding id field rows)
        ((plan.layout separator).firstValue? n.binding id field rows'))
    (hlinked : ∀ l ∈ plan.links, kept l.parent.path = true → kept l.child.path = true →
      ∀ p k, (plan.layout separator).Linked l.parent.binding l.child.binding rows p k ↔
        (plan.layout separator).Linked l.parent.binding l.child.binding rows' p k) :
    RowIndex.Alike (plan.layout separator) plan.selection.edges kept index index' where
  nodup b hb id := by
    obtain ⟨n, hn, rfl⟩ := List.mem_map.mp hb
    have hone : ∀ {rows : List Json.Members} {index : RowIndex},
        plan.Recorded separator rows index →
          (((index.object? n.binding.tableAlias id).getD []).map Prod.fst).Nodup := by
      intro rows index hrecorded
      cases hobject : index.object? n.binding.tableAlias id with
      | none => exact List.nodup_nil
      | some object => exact hrecorded.nodup n hn id object hobject
    exact ⟨hone h, hone h'⟩
  object b hb hkept id field := by
    obtain ⟨n, hn, rfl⟩ := List.mem_map.mp hb
    have hrel := hvalue n hn hkept id field
    rwa [show (plan.layout separator).firstValue? n.binding id field rows = _ from
      (h.field n hn id field).symm, show (plan.layout separator).firstValue? n.binding id field
      rows' = _ from (h'.field n hn id field).symm] at hrel
  children relation hrelation hparent hchild id := by
    rw [edges_selection] at hrelation
    obtain ⟨l, hl, rfl⟩ := List.mem_map.mp hrelation
    refine (h.ascending l hl id).ext (h'.ascending l hl id) fun k => ?_
    rw [h.children l hl id k, h'.children l hl id k]
    exact hlinked l hl hparent hchild id k

/-- Nothing is recorded of no rows. -/
theorem Clear.recorded_nil (h : plan.Clear separator) : plan.Recorded separator [] {} :=
  h.recorded (RowIndex.holds_nil _ _ _)

end Plan

/-- A compiled tree has a plan that keeps columns apart, and every result of it is nested out of an
index in which the plan has recorded the rows. -/
theorem SelectionTree.exists_plan {catalog : Catalog} {config : Config} {entity : String}
    {selection : FieldSelection} {tree : SelectionTree} {compiled : CompiledRead}
    (hcat : catalog.Accepted) (hconfig : config.isValid = true)
    (htree : (SelectionTree.build catalog entity selection).outcome = .ok tree)
    (h : (tree.compile catalog config).outcome = .ok compiled) :
    ∃ plan : Plan, plan.selection = tree.root ∧ plan.Clear config.aliasSeparator ∧
      compiled.layout = plan.layout config.aliasSeparator ∧
      ∀ {rows results : List Json}, (tree.nest compiled.layout rows).outcome = .ok results →
        ∃ (found : List Json.Members) (index : RowIndex), rows = found.map Json.object ∧
          plan.Recorded config.aliasSeparator found index ∧
          List.Forall₂
            (fun id value => (index.nest compiled.layout id tree.root).outcome = .ok value)
            index.rootIds results := by
  obtain ⟨hwf, -, hpath⟩ := SelectionTree.build_wellFormed htree
  obtain ⟨plan, root, hfor, -, rfl⟩ := SelectionTree.compile_eq_ok hwf h
  have hclear := hfor.clear hcat hconfig hwf hpath
  refine ⟨plan, hfor.selection, hclear, rfl, fun hnest => ?_⟩
  obtain ⟨rfl, rfl⟩ | ⟨index, hindex, hroots⟩ := SelectionTree.nest_eq_ok hnest
  · exact ⟨[], {}, rfl, hclear.recorded_nil, .nil⟩
  · rw [show tree.edges = plan.selection.edges by rw [hfor.selection]; rfl] at hindex
    obtain ⟨found, rfl, -, hholds, -⟩ :=
      RowIndex.ofRows_eq_ok hclear.root? hclear.edges hclear.separated hindex
    exact ⟨found, index, rfl, hclear.recorded hholds, hroots⟩

/-! ## Rows that agree one by one -/

section pointwise

variable {α β : Type} {R : α → α → Prop} {xs ys : List α}

/-- What is found first in related lists is related. -/
theorem rel_findSome? {S : β → β → Prop} {f : α → Option β} (hxs : List.Forall₂ R xs ys)
    (h : ∀ x y, R x y → Option.Rel S (f x) (f y)) :
    Option.Rel S (xs.findSome? f) (ys.findSome? f) := by
  induction hxs with
  | nil => exact .none
  | @cons x y xs ys hxy _ ih =>
    have hhead := h x y hxy
    rw [List.findSome?_cons, List.findSome?_cons]
    generalize f x = a, f y = b at hhead
    cases hhead with
    | none => exact ih
    | some hvalue => exact .some hvalue

theorem exists_mem_iff_of_forall₂ {P : α → Prop} (hxs : List.Forall₂ R xs ys)
    (h : ∀ x y, R x y → (P x ↔ P y)) : (∃ x ∈ xs, P x) ↔ ∃ y ∈ ys, P y := by
  induction hxs with
  | nil => simp
  | @cons x y xs ys hxy _ ih => simp only [List.exists_mem_cons_iff, h x y hxy, ih]

theorem filterMap_eq_of_forall₂ {f : α → Option β} (hxs : List.Forall₂ R xs ys)
    (h : ∀ x y, R x y → f x = f y) : xs.filterMap f = ys.filterMap f := by
  induction hxs with
  | nil => rfl
  | @cons x y xs ys hxy _ ih => rw [List.filterMap_cons, List.filterMap_cons, h x y hxy, ih]

end pointwise

theorem Layout.AgreeAt.value {layout : Layout} {row row' : Json.Members} {b : Binding}
    (h : layout.AgreeAt (.object row) (.object row') b) (id : EntityId) (field : String) :
    Option.Rel (fun value value' => value.same value' = true)
      (layout.valueIn? b id field row) (layout.valueIn? b id field row') := by
  have hid : layout.idIn? row b = layout.idIn? row' b := h.id
  rw [valueIn?, valueIn?, hid]
  split
  · exact h.column field
  · exact .none

/-- **Relations are reconstructed independently of each other.** Two lists of rows that agree, row
by row, in the columns of the kept nodes have results that are the same once the relations to all
other nodes are erased. -/
theorem SelectionTree.nest_independent {catalog : Catalog} {config : Config} {entity : String}
    {selection : FieldSelection} {tree : SelectionTree} {compiled : CompiledRead}
    (hcat : catalog.Accepted) (hconfig : config.isValid = true)
    (htree : (SelectionTree.build catalog entity selection).outcome = .ok tree)
    (h : (tree.compile catalog config).outcome = .ok compiled) {kept : FieldPath → Bool}
    (hkept : kept .root = true) {rows rows' results results' : List Json}
    (hrows : List.Forall₂ (fun row row' => ∀ b ∈ compiled.layout.bindings, kept b.path = true →
      compiled.layout.AgreeAt row row' b) rows rows')
    (hnest : (tree.nest compiled.layout rows).outcome = .ok results)
    (hnest' : (tree.nest compiled.layout rows').outcome = .ok results') :
    List.Forall₂ (fun value value' =>
      (tree.root.erase kept value).same (tree.root.erase kept value') = true) results results' := by
  obtain ⟨hwf, -, hpath⟩ := SelectionTree.build_wellFormed htree
  obtain ⟨plan, hselection, hclear, hlayout, hruns⟩ :=
    SelectionTree.exists_plan hcat hconfig htree h
  obtain ⟨found, index, rfl, hrecorded, hroots⟩ := hruns hnest
  obtain ⟨found', index', rfl, hrecorded', hroots'⟩ := hruns hnest'
  rw [hlayout] at hrows hroots hroots'
  rw [List.forall₂_map_left_iff, List.forall₂_map_right_iff] at hrows
  have hagree : List.Forall₂ (fun row row' => ∀ n ∈ plan.nodes, kept n.path = true →
      (plan.layout config.aliasSeparator).AgreeAt (.object row) (.object row') n.binding)
      found found' := by
    refine hrows.imp fun row row' hb n hn => ?_
    exact hb n.binding (List.mem_map_of_mem hn)
  have halike : RowIndex.Alike (plan.layout config.aliasSeparator) plan.selection.edges kept
      index index' := hrecorded.alike hrecorded'
    (fun n hn hnode id field => rel_findSome? hagree fun row row' hrow =>
      (hrow n hn hnode).value id field)
    (fun l hl hparent hchild p k => exists_mem_iff_of_forall₂ hagree fun row row' hrow => by
      have hp : (plan.layout config.aliasSeparator).idIn? row l.parent.binding = _ :=
        (hrow _ (Plan.parent_mem_nodes hl) hparent).id
      have hk : (plan.layout config.aliasSeparator).idIn? row l.child.binding = _ :=
        (hrow _ (Plan.child_mem_nodes hl) hchild).id
      rw [hp, hk]
      rfl)
  have hrootPath : kept plan.node.path = true := by rw [hclear.root]; exact hkept
  have hids : index.rootIds = index'.rootIds := by
    rw [hrecorded.rootIds, hrecorded'.rootIds]
    refine congrArg List.eraseDups (filterMap_eq_of_forall₂ hagree fun row row' hrow => ?_)
    exact (hrow plan.node List.mem_cons_self hrootPath).id
  rw [← hids] at hroots'
  rw [hselection] at halike
  exact forall₂_of_common hroots hroots' fun id _ value value' hvalue hvalue' =>
    halike.erase_nest hwf (fun _ hedge => hedge) (hpath ▸ hkept) hvalue hvalue'

/-! ## Rows of the library -/

namespace Sample

/-- The author and the books. -/
def withoutSequel (path : FieldPath) : Bool := path = .root || path = ⟨["books"]⟩

/-- What the rows say of the author and one of the books. -/
def bookColumns (id : String) : Json.Members :=
  [("base___name", .string "A"), ("base___id", .bool true), ("Book___title", .null),
    ("Book___id", .string id)]

/-- What a row says of a sequel. -/
def sequelColumns (id title : Json) : Json.Members :=
  [("Book_2___title", title), ("Book_2___id", id)]

/-- Two books, the first one with a sequel. -/
def sequelRows : List Json :=
  [.object (bookColumns "x" ++ sequelColumns (.ofNat 9) (.string "S")),
    .object (bookColumns "w" ++ sequelColumns .null .null)]

/-- The same books, the second one with a sequel. -/
def otherSequelRows : List Json :=
  [.object (bookColumns "x" ++ []),
    .object (bookColumns "w" ++ sequelColumns (.ofNat 8) (.string "T"))]

/-- The author with both books and their sequels. -/
def booksWith (first second : Json) : List Json :=
  [.object [("name", .string "A"), ("id", .bool true), ("books", .array
    [.object [("title", .null), ("id", .string "w"), ("sequel", second)],
      .object [("title", .null), ("id", .string "x"), ("sequel", first)]])]]

theorem nest_sequelRows : (tree.nest compiled.layout sequelRows).outcome
    = .ok (booksWith (.object [("title", .string "S"), ("id", .ofNat 9)]) .null) := by
  cbv

theorem nest_otherSequelRows : (tree.nest compiled.layout otherSequelRows).outcome
    = .ok (booksWith .null (.object [("title", .string "T"), ("id", .ofNat 8)])) := by
  cbv

/-- What stands behind the columns of an alias, under the keys of another one, does not count. -/
theorem column?_append (members : Json.Members) {more : Json.Members} {tableAlias : String}
    (hplain : Identifier.isPlain tableAlias = true) (hne : tableAlias ≠ "Book_2")
    (hmore : ∀ entry ∈ more, ∃ field, entry.1 = columnKey "Book_2" "___" field) (field : String) :
    (Json.object (members ++ more)).column? (columnKey tableAlias "___" field)
      = Json.get? members (columnKey tableAlias "___" field) := by
  have hnone : Json.get? more (columnKey tableAlias "___" field) = none := by
    rw [Json.get?_eq_none_iff]
    intro hmem
    obtain ⟨entry, hentry, hkey⟩ := List.mem_map.mp hmem
    obtain ⟨other, hother⟩ := hmore entry hentry
    exact hne ((columnKey_inj (by decide) hplain (by decide)).mp (hkey.symm.trans hother)).1
  rw [Json.get?] at hnone
  rw [Json.column?, Json.get?, List.lookup_append, hnone, Option.or_none]
  rfl

theorem agreeAt_append {id : String} {more more' : Json.Members}
    (hmore : ∀ entry ∈ more, ∃ field, entry.1 = columnKey "Book_2" "___" field)
    (hmore' : ∀ entry ∈ more', ∃ field, entry.1 = columnKey "Book_2" "___" field) :
    ∀ b ∈ compiled.layout.bindings, withoutSequel b.path = true →
      compiled.layout.AgreeAt (.object (bookColumns id ++ more))
        (.object (bookColumns id ++ more')) b := by
  intro b hb hkept
  have hbound : ∀ b ∈ compiled.layout.bindings, withoutSequel b.path = true →
      Identifier.isPlain b.tableAlias = true ∧ b.tableAlias ≠ "Book_2" := by decide
  obtain ⟨hplain, hne⟩ := hbound b hb hkept
  have hcolumn := column?_append (bookColumns id) hplain hne hmore
  have hcolumn' := column?_append (bookColumns id) hplain hne hmore'
  refine ⟨?_, fun field => ?_⟩
  · rw [Layout.idOf?, Layout.idOf?]
    exact congrArg (Option.bind · EntityId.ofJson?) ((hcolumn _).trans (hcolumn' _).symm)
  · rw [show compiled.layout.key b.tableAlias field = columnKey b.tableAlias "___" field from rfl,
      hcolumn, hcolumn']
    cases hvalue : Json.get? (bookColumns id) (columnKey b.tableAlias "___" field) with
    | none => exact .none
    | some value =>
      have hkeyed : Json.MembersWellKeyed (bookColumns id) :=
        ⟨trivial, trivial, trivial, trivial, trivial⟩
      exact .some (Json.members_same_refl hkeyed _ (Json.mem_of_get? hvalue))

theorem sequelColumns_keys (id title : Json) : ∀ entry ∈ sequelColumns id title,
    ∃ field, entry.1 = columnKey "Book_2" "___" field := by
  simp only [sequelColumns, List.forall_mem_cons]
  exact ⟨⟨"title", rfl⟩, ⟨"id", rfl⟩, by simp⟩

end Sample

theorem SelectionTree.nest_independent_library :
    List.Forall₂ (fun value value' => (Sample.tree.root.erase Sample.withoutSequel value).same
        (Sample.tree.root.erase Sample.withoutSequel value') = true)
      (Sample.booksWith (.object [("title", .string "S"), ("id", .ofNat 9)]) .null)
      (Sample.booksWith .null (.object [("title", .string "T"), ("id", .ofNat 8)])) :=
  SelectionTree.nest_independent Sample.catalog_accepted Config.isValid_default
    Sample.build_selection Sample.compile_tree rfl
    (.cons (Sample.agreeAt_append (Sample.sequelColumns_keys _ _) (by simp))
      (.cons (Sample.agreeAt_append (Sample.sequelColumns_keys _ _)
        (Sample.sequelColumns_keys _ _)) .nil))
    Sample.nest_sequelRows Sample.nest_otherSequelRows

end NestedRead
