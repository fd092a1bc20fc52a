import Mathlib
import NestedRead.Proofs.Query.Indexed
import NestedRead.Proofs.Rows.Filled

/-!
# What a nested result keeps of the rows

An object of a result is made of two parts: the fields that its node projects, which come from the
first row with the id, and the relations, which are put over them under their own names. Neither
part loses anything as long as no name is in both. A requested scalar is never a relation, but the
unique column is projected whether it is requested or not, and nothing prevents a relation of the
entity from having its name. Then its value is in the rows and not in the result.

`SelectionNode.Keeps` says of one object and everything below it what is kept, in terms of the rows
alone. It follows the tree, as nesting does, so `Plan.nest_keeps` is an induction on the plan with
one case for an object and one for the relations that are put into it.
-/

set_option autoImplicit false

namespace NestedRead

/-! ## Nested objects, told from the rows -/

/-- The ids that rows carry for a child beside the one of a parent, in ascending order. -/
structure Layout.Links (layout : Layout) (rows : List Json) (parent child : Binding)
    (id : EntityId) (kids : List EntityId) : Prop where
  ascending : Ordered.Ascending EntityId.cmp kids
  mem : ∀ k, k ∈ kids ↔
    ∃ row ∈ rows, layout.idOf? parent row = some id ∧ layout.idOf? child row = some k

/-- An object of an entity has the projected names and the relations as its keys, and the columns of
a row under the names. Only the unique column may give way to a relation. -/
structure Entity.Keeps (entity : Entity) (scalars relations : List String)
    (column? : String → Option Json) (members : Json.Members) : Prop where
  nodup : (members.map Prod.fst).Nodup
  keys : ∀ key, key ∈ members.map Prod.fst ↔
    key ∈ entity.projectedNames scalars ∨ key ∈ relations
  scalars : ∀ name ∈ scalars, ∃ value, column? name = some value ∧
    Json.get? members name = some value
  unique : ∃ value, column? entity.uniqueColumn = some value ∧
    (entity.uniqueColumn ∉ relations → Json.get? members entity.uniqueColumn = some value)

namespace SelectionNode

mutual

/-- The value of a node for an id is an object that keeps the columns of the first row with the id,
and in which each relation gathers the values of the ids that rows link to this one. -/
def Keeps (catalog : Catalog) (layout : Layout) (rows : List Json) :
    SelectionNode → EntityId → Json → Prop
  | .mk name path scalars relations, id, value => ∃ entity b row members,
    catalog.get? name = some entity ∧ layout.byPath? path = some b ∧
    rows.find? (layout.idOf? b · = some id) = some row ∧ value = .object members ∧
    entity.Keeps scalars (relations.map RelationSelection.field)
      (fun field => row.column? (layout.key b.tableAlias field)) members ∧
    RelationsKept catalog layout rows entity b id members relations

def RelationsKept (catalog : Catalog) (layout : Layout) (rows : List Json) (entity : Entity)
    (parent : Binding) (id : EntityId) (members : Json.Members) : List RelationSelection → Prop
  | [] => True
  | .mk field _ node :: rest =>
    (∃ relation child kids value, entity.relation? field = some relation ∧
      layout.byPath? node.path = some child ∧ layout.Links rows parent child id kids ∧
      Json.get? members field = some value ∧
      relation.multiplicity.Gathers (Keeps catalog layout rows node) kids value) ∧
    RelationsKept catalog layout rows entity parent id members rest

end

end SelectionNode

/-- A row with exactly the projected columns. -/
def CompiledRead.HasColumns (compiled : CompiledRead) (row : Json) : Prop :=
  ∃ members : Json.Members, row = .object members ∧
    (members.map Prod.fst).Perm (compiled.statement.projections.map (·.name))

/-! ## The objects of an index -/

/-- Where all items have the same values, the first value of those that satisfy a condition is that
of the first one that does. -/
theorem findSome?_ite_of_forall {α β : Type} {p : α → Prop} [DecidablePred p] {f : α → Option β} :
    ∀ {xs : List α}, (∀ x ∈ xs, ∀ y ∈ xs, f x = none → f y = none) →
      (xs.findSome? fun x => if p x then f x else none) = (xs.find? fun x => p x).bind f
  | [], _ => rfl
  | x :: rest, h => by
    have ih := findSome?_ite_of_forall (p := p) fun y hy z hz =>
      h y (List.mem_cons_of_mem _ hy) z (List.mem_cons_of_mem _ hz)
    rw [List.findSome?_cons]
    by_cases hp : p x
    · rw [if_pos hp, List.find?_cons_of_pos (by simpa using hp), Option.bind_some]
      cases hx : f x with
      | some value => rfl
      | none =>
        -- What the first one lacks, all the others lack as well.
        dsimp only
        rw [List.findSome?_eq_none_iff]
        intro y hy
        split
        · exact h x List.mem_cons_self y (List.mem_cons_of_mem _ hy) hx
        · rfl
    · rw [if_neg hp, List.find?_cons_of_neg (by simpa using hp)]
      exact ih

namespace Plan

variable {catalog : Catalog} {separator : String} {plan : Plan} {rows : List Json.Members}
  {index : RowIndex}

/-- A column of a node is projected exactly for the names of the node. -/
theorem Clear.mem_columnNames_iff (h : plan.Clear separator) {n : NodePlan} (hn : n ∈ plan.nodes)
    {field : String} :
    columnKey n.tableAlias separator field ∈ plan.columnNames separator ↔ field ∈ n.names := by
  constructor
  · intro hmem
    obtain ⟨m, hm, hmem⟩ := List.mem_flatMap.mp hmem
    obtain ⟨name, hname, heq⟩ := List.mem_map.mp hmem
    obtain ⟨halias, rfl⟩ := (columnKey_inj h.separator (h.plain m hm) (h.plain n hn)).mp heq
    obtain rfl : m = n := List.inj_on_of_nodup_map h.aliases hm hn halias
    exact hname
  · intro hfield
    exact List.mem_flatMap.mpr ⟨n, hn, List.mem_map_of_mem hfield⟩

/-- An object has the columns of the first row with its id, if all rows have the same columns. -/
theorem Recorded.get?_object (hrecorded : plan.Recorded separator rows index)
    (hexact : ∀ row ∈ rows, (row.map Prod.fst).Perm (plan.columnNames separator)) {n : NodePlan}
    (hn : n ∈ plan.nodes) {id : EntityId} {row object : Json.Members}
    (hrow : rows.find? ((plan.layout separator).idIn? · n.binding = some id) = some row)
    (hobject : index.object? n.tableAlias id = some object) (field : String) :
    Json.get? object field = Json.get? row (columnKey n.tableAlias separator field) := by
  have hfield := hrecorded.field n hn id field
  rw [findSome?_ite_of_forall, hrow, hobject] at hfield
  · exact hfield
  · intro x hx y hy hnone
    rw [Json.get?_eq_none_iff] at hnone ⊢
    rwa [(hexact y hy).mem_iff, ← (hexact x hx).mem_iff]

/-- What is put over an object leaves its columns alone, except where it has their names. -/
theorem Recorded.keeps (hrecorded : plan.Recorded separator rows index)
    (h : plan.Clear separator)
    (hexact : ∀ row ∈ rows, (row.map Prod.fst).Perm (plan.columnNames separator))
    {n : NodePlan} (hn : n ∈ plan.nodes) {id : EntityId}
    {row object members : Json.Members} {relations : List RelationSelection}
    (hrow : rows.find? ((plan.layout separator).idIn? · n.binding = some id) = some row)
    (hobject : index.object? n.tableAlias id = some object)
    (hfilled : RowIndex.Filled index (plan.layout separator) id object relations members)
    (hapart : ∀ name ∈ n.scalars, name ∉ relations.map RelationSelection.field) :
    n.entity.Keeps n.scalars (relations.map RelationSelection.field)
      (fun field => Json.get? row (columnKey n.tableAlias separator field)) members := by
  have hget := hrecorded.get?_object hexact hn hrow hobject
  have hkeys : ∀ field, field ∈ object.map Prod.fst ↔ field ∈ n.names := by
    intro field
    rw [← h.mem_columnNames_iff hn, ← (hexact row (List.mem_of_find?_eq_some hrow)).mem_iff,
      ← not_iff_not, ← Json.get?_eq_none_iff, ← Json.get?_eq_none_iff, hget]
  have hvalue : ∀ name ∈ n.names, ∃ value,
      Json.get? row (columnKey n.tableAlias separator name) = some value ∧
        Json.get? object name = some value := by
    intro name hname
    have hsome : Json.get? object name ≠ none :=
      mt Json.get?_eq_none_iff.mp (not_not_intro ((hkeys name).mpr hname))
    obtain ⟨value, hvalue⟩ := Option.ne_none_iff_exists'.mp hsome
    exact ⟨value, (hget name).symm.trans hvalue, hvalue⟩
  refine ⟨hfilled.nodup (hrecorded.nodup n hn id object hobject), fun key => ?_,
    fun name hname => ?_, ?_⟩
  · rw [hfilled.mem_keys_iff, hkeys]
    rfl
  · obtain ⟨value, hcolumn, hvalue⟩ := hvalue name (Entity.mem_projectedNames.mpr (Or.inl hname))
    exact ⟨value, hcolumn, (hfilled.other name (hapart name hname)).trans hvalue⟩
  · obtain ⟨value, hcolumn, hvalue⟩ := hvalue _ (n.entity.uniqueColumn_mem_projectedNames _)
    exact ⟨value, hcolumn, fun hspared => (hfilled.other _ hspared).trans hvalue⟩

mutual

/-- An id that a row carries is nested into what the rows say of it. -/
theorem nest_keeps (h : plan.Clear separator) (hvalid : plan.Valid catalog separator)
    (hrecorded : plan.Recorded separator rows index)
    (hexact : ∀ row ∈ rows, (row.map Prod.fst).Perm (plan.columnNames separator)) :
    ∀ {p : Plan}, p.node ∈ plan.nodes → (∀ l ∈ p.links, l ∈ plan.links) →
      p.selection.WellFormed catalog → ∀ {id : EntityId} {value : Json},
        (∃ row ∈ rows, (plan.layout separator).idIn? row p.node.binding = some id) →
        (index.nest (plan.layout separator) id p.selection).outcome = .ok value →
        p.selection.Keeps catalog (plan.layout separator) (rows.map Json.object) id value
  | .mk n branches, hn, hlinks, hwf, id, value, hid, hnest => by
    obtain ⟨entity, hget, hscalars, hnone, hfields, hrels⟩ := hwf
    obtain rfl : entity = n.entity := Option.some.inj (hget.symm.trans (hvalid.get?_name hn))
    rw [node] at hn hid
    obtain ⟨members, rfl, hfilled⟩ := RowIndex.nest_eq_ok (h.byPath? hn) hfields hnest
    obtain ⟨object, hobject⟩ := Option.isSome_iff_exists.mp ((hrecorded.object n hn id).mpr hid)
    rw [show index.object? n.binding.tableAlias id = _ from hobject] at hfilled
    obtain ⟨row, hrow⟩ : ∃ row, rows.find?
        ((plan.layout separator).idIn? · n.binding = some id) = some row := by
      rw [← Option.isSome_iff_exists, List.find?_isSome]
      obtain ⟨row, hrow, hid⟩ := hid
      exact ⟨row, hrow, decide_eq_true hid⟩
    refine ⟨n.entity, n.binding, .object row, members, hget, h.byPath? hn, ?_, rfl,
      hrecorded.keeps h hexact hn hrow hobject hfilled ?_,
      relations_kept h hvalid hrecorded hexact hlinks hrels hfilled.relation⟩
    · rw [List.find?_map]
      exact congrArg (Option.map Json.object) hrow
    · -- A scalar is no relation of the entity.
      intro name hname hrelation
      obtain ⟨r, hr, rfl⟩ := List.mem_map.mp hrelation
      obtain ⟨relation, hrelation, -⟩ := SelectionNode.RelationsWellFormed.of_mem hrels _ hr
      rw [(hnone _ hname).1] at hrelation
      cases hrelation

theorem relations_kept (h : plan.Clear separator) (hvalid : plan.Valid catalog separator)
    (hrecorded : plan.Recorded separator rows index)
    (hexact : ∀ row ∈ rows, (row.map Prod.fst).Perm (plan.columnNames separator))
    {n : NodePlan} {path : FieldPath} : ∀ {branches : List Branch},
      (∀ l ∈ linksOf n branches, l ∈ plan.links) →
      SelectionNode.RelationsWellFormed catalog n.entity path (selectionsOf branches) →
      ∀ {id : EntityId} {members : Json.Members},
        (∀ r ∈ selectionsOf branches, ∃ value, Json.get? members r.field = some value ∧
          (index.nestRelation (plan.layout separator) id r).outcome = .ok (r.field, value)) →
        SelectionNode.RelationsKept catalog (plan.layout separator) (rows.map Json.object)
          n.entity n.binding id members (selectionsOf branches)
  | [], _, _, _, _, _ => trivial
  | .mk e below :: rest, hlinks, hwf, id, members, hvalues => by
    rw [linksOf, List.forall_mem_cons, List.forall_mem_append] at hlinks
    obtain ⟨hlink, hbelow, hrest⟩ := hlinks
    obtain ⟨-, -, hwfBelow, hwfRest⟩ := hwf
    rw [selectionsOf, List.forall_mem_cons] at hvalues
    obtain ⟨⟨value, hmember, hvalue⟩, hvalues⟩ := hvalues
    have hpath : below.selection.path = below.node.path := by cases below; rfl
    have hb := h.byPath? (child_mem_nodes hlink)
    dsimp only at hb
    obtain ⟨-, hgathers⟩ := RowIndex.nestRelation_eq_ok hvalue
    rw [hpath, hb, Option.bind_some] at hgathers
    have hmultiplicity : below.node.binding.multiplicity = some e.relation.multiplicity :=
      (hvalid.links _ hlink).multiplicity
    rw [hmultiplicity, Option.getD_some] at hgathers
    refine ⟨⟨e.relation, below.node.binding, _, value, (hvalid.links _ hlink).relation,
      hpath ▸ hb, ⟨hrecorded.ascending _ hlink id, fun k => ?_⟩, hmember,
      hgathers.imp fun k hk v hv => ?_⟩,
      relations_kept h hvalid hrecorded hexact hrest hwfRest hvalues⟩
    · simp only [List.mem_map, exists_exists_and_eq_and]
      exact hrecorded.children _ hlink id k
    · obtain ⟨row, hrow, -, hid⟩ := (hrecorded.children _ hlink id k).mp hk
      exact nest_keeps h hvalid hrecorded hexact (child_mem_nodes hlink) hbelow hwfBelow
        ⟨row, hrow, hid⟩ hv

end

end Plan

/-- **Nested results keep what they project.** Rows with the projected columns that are read at all
give one object for each id of the root, in the order in which the ids first appear, and every
object at every depth keeps the columns of the first row with its id, but for a unique column that
a relation has the name of. -/
theorem SelectionTree.nest_kept {catalog : Catalog} {config : Config} {entity : String}
    {selection : FieldSelection} {tree : SelectionTree} {compiled : CompiledRead}
    (hcat : catalog.Accepted) (hconfig : config.isValid = true)
    (htree : (SelectionTree.build catalog entity selection).outcome = .ok tree)
    (h : (tree.compile catalog config).outcome = .ok compiled) {rows results : List Json}
    (hrows : ∀ row ∈ rows, compiled.HasColumns row)
    (hnest : (tree.nest compiled.layout rows).outcome = .ok results) :
    ∃ root, compiled.layout.root? = some root ∧
      List.Forall₂ (tree.root.Keeps catalog compiled.layout rows)
        (rows.filterMap (compiled.layout.idOf? root)).eraseDups results := by
  obtain ⟨hwf, -, hpath⟩ := SelectionTree.build_wellFormed htree
  obtain ⟨plan, root, hfor, -, rfl⟩ := SelectionTree.compile_eq_ok hwf h
  have hclear := hfor.clear hcat hconfig hwf hpath
  refine ⟨plan.node.binding, hclear.root?, ?_⟩
  obtain ⟨rfl, rfl⟩ | ⟨index, hindex, hroots⟩ := SelectionTree.nest_eq_ok hnest
  · exact .nil
  rw [show tree.edges = plan.selection.edges by rw [hfor.selection]; rfl] at hindex
  obtain ⟨found, rfl, -, hholds, -⟩ :=
    RowIndex.ofRows_eq_ok hclear.root? hclear.edges hclear.separated hindex
  have hrecorded := hclear.recorded hholds
  have hexact : ∀ row ∈ found,
      (row.map Prod.fst).Perm (plan.columnNames config.aliasSeparator) := by
    intro row hrow
    obtain ⟨members, hmembers, hperm⟩ := hrows _ (List.mem_map_of_mem hrow)
    cases hmembers
    rw [← hfor.valid.names_projections]
    exact hperm
  rw [hrecorded.rootIds, ← hfor.selection] at hroots
  rw [List.filterMap_map, ← hfor.selection]
  have hcarried := (List.forall₂_and_left _ results).mpr ⟨fun _ hid => hid, hroots⟩
  refine hcarried.imp fun id value hid => ?_
  obtain ⟨hid, hvalue⟩ := hid
  rw [List.mem_eraseDups, List.mem_filterMap] at hid
  exact Plan.nest_keeps hclear hfor.valid hrecorded hexact List.mem_cons_self (fun _ hl => hl)
    (hfor.selection ▸ hwf) hid hvalue

/-! ## Rows of the library -/

namespace Sample

/-- An author with two books, the later row with another name, and a sequel that has a title. -/
def fullRows : List Json :=
  [.object [("base___name", .string "A"), ("base___id", .ofNat 1), ("Book___title", .string "T"),
      ("Book___id", .ofNat 7), ("Book_2___title", .null), ("Book_2___id", .null)],
    .object [("Book_2___id", .ofNat 7), ("Book_2___title", .string "S"), ("Book___id", .ofNat 5),
      ("Book___title", .null), ("base___id", .ofNat 1), ("base___name", .string "B")]]

def fullResults : List Json :=
  [.object [("name", .string "A"), ("id", .ofNat 1), ("books", .array
    [.object [("id", .ofNat 5), ("title", .null),
        ("sequel", .object [("id", .ofNat 7), ("title", .string "S")])],
      .object [("title", .string "T"), ("id", .ofNat 7), ("sequel", .null)]])]]

theorem hasColumns_fullRows : ∀ row ∈ fullRows, compiled.HasColumns row := by
  simp only [fullRows, List.forall_mem_cons]
  exact ⟨⟨_, rfl, by decide +kernel⟩, ⟨_, rfl, by decide +kernel⟩, by simp⟩

theorem nest_fullRows : (tree.nest compiled.layout fullRows).outcome = .ok fullResults := by cbv

end Sample

theorem SelectionTree.nest_kept_library : ∃ root, Sample.compiled.layout.root? = some root ∧
    List.Forall₂ (Sample.tree.root.Keeps Sample.catalog Sample.compiled.layout Sample.fullRows)
      (Sample.fullRows.filterMap (Sample.compiled.layout.idOf? root)).eraseDups
      Sample.fullResults :=
  SelectionTree.nest_kept Sample.catalog_accepted Config.isValid_default Sample.build_selection
    Sample.compile_tree Sample.hasColumns_fullRows Sample.nest_fullRows

/-! ## A unique column that gives way -/

namespace Sample

/-- A profile is told apart by its user, and leads to the user under the same name. -/
def profile : Entity where
  name := "Profile"
  table := "profiles"
  uniqueColumn := "user"
  fields := [("bio", .scalar .string), ("user", .relation ⟨"User", "user", "id", none, .one⟩)]

def user : Entity where
  name := "User"
  table := "users"
  uniqueColumn := "id"
  fields := [("name", .scalar .string)]

def profiles : Catalog := ⟨[profile, user]⟩

def profileSelection : FieldSelection where
  name := "profiles"
  args := []
  selections := [.leaf "bio", ⟨"user", [("joinType", .string "left")], [.leaf "name"]⟩]

def profileTree : SelectionTree where
  root := .mk "Profile" .root ["bio"]
    [.mk "user" { joinType := some "left" } (.mk "User" ⟨["user"]⟩ ["name"] [])]
  args := {}

def profileCompiled : CompiledRead where
  statement :=
    { source := some ("profiles", "base")
      projections := [⟨.qualified "base" "bio", "base___bio"⟩,
        ⟨.qualified "base" "user", "base___user"⟩, ⟨.qualified "User" "name", "User___name"⟩,
        ⟨.qualified "User" "id", "User___id"⟩]
      joins := [⟨.left, "users", "User",
        [.compareColumns (.qualified "base" "user") .eq (.qualified "User" "id")]⟩] }
  layout := ⟨"___", [⟨.root, "base", "Profile", "user", none⟩,
    ⟨⟨["user"]⟩, "User", "User", "id", some .one⟩]⟩

/-- A profile whose user is not there. -/
def profileRow : Json :=
  .object [("base___bio", .string "x"), ("base___user", .ofNat 1), ("User___name", .null),
    ("User___id", .null)]

/-- **A unique column can be lost.** The catalog is accepted and the row has all columns, the unique
one among them, but its value is nowhere in the result: the relation has put null in its place. -/
theorem uniqueColumn_lost : profiles.Accepted ∧ ({} : Config).isValid = true ∧
    (SelectionTree.build profiles "Profile" profileSelection).outcome = .ok profileTree ∧
    (profileTree.compile profiles {}).outcome = .ok profileCompiled ∧
    profileCompiled.HasColumns profileRow ∧
    profile.uniqueColumn ∈ profile.projectedNames ["bio"] ∧
    profileRow.column? (profileCompiled.layout.key "base" profile.uniqueColumn)
      = some (.ofNat 1) ∧
    ∃ members, (profileTree.nest profileCompiled.layout [profileRow]).outcome
        = .ok [.object members] ∧
      Json.get? members profile.uniqueColumn = some .null := by
  have hcatalog : profiles.Accepted := ⟨[user, profile], rfl⟩
  have hcolumns : profileCompiled.HasColumns profileRow := ⟨_, rfl, by decide +kernel⟩
  have hresult : (profileTree.nest profileCompiled.layout [profileRow]).outcome
      = .ok [.object [("bio", .string "x"), ("user", .null)]] := by cbv
  exact ⟨hcatalog, Config.isValid_default, rfl, rfl, hcolumns, by decide, rfl, _, hresult, rfl⟩

end Sample
end NestedRead
