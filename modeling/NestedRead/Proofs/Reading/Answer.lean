import NestedRead.Proofs.Reading.Joins

/-!
# Reading a database through a statement

A selection tree is compiled, the statement is answered by a database, and the rows of the answer
are nested: the result is the nested reading of the database. The answer consists of the
environments that the joins of the plan reach from the rows of the root's table, each of them
written as a row. The rows of the tables populate the plan (`Plan.Populates`), so the answer is
nested into unfoldings, and unfolding a row along the plan is its object in the reading.
-/

set_option autoImplicit false

namespace NestedRead

variable {d : Dialect} {db : Database} {catalog : Catalog} {config : Config}
  {tree : SelectionTree} {plan : Plan}

/-! ## Objects are unfoldings -/

namespace Plan

variable {separator : String}

mutual

theorem object_selection (h : plan.Valid catalog separator) : ∀ {p : Plan},
    p.node ∈ plan.nodes → (∀ l ∈ p.links, l ∈ plan.links) →
      ∀ t : Tuple, d.object db catalog p.selection t = p.unfold (d.view db) t
  | .mk n branches, hn, hlinks, t => by
    rw [node] at hn
    rw [selection, Dialect.object, h.get?_name hn, unfold]
    dsimp only
    rw [members_selectionsOf h hlinks]
    rfl

theorem members_selectionsOf (h : plan.Valid catalog separator) {n : NodePlan} :
    ∀ {branches : List Branch}, (∀ l ∈ linksOf n branches, l ∈ plan.links) →
      ∀ t : Tuple, d.members db catalog n.entity (selectionsOf branches) t
        = unfoldOf (d.view db) n t branches
  | [], _, _ => rfl
  | .mk e below :: rest, hlinks, t => by
    rw [linksOf, List.forall_mem_cons, List.forall_mem_append] at hlinks
    obtain ⟨hlink, hbelow, hrest⟩ := hlinks
    have hchild := child_mem_nodes hlink
    have hentity : catalog.get? below.selection.entity = some below.node.entity := by
      rw [show below.selection.entity = below.node.entity.name by cases below; rfl]
      exact h.get?_name hchild
    rw [selectionsOf, Dialect.members, unfoldOf]
    rw [show n.entity.relation? e.field = some e.relation from (h.links _ hlink).relation, hentity]
    dsimp only
    rw [members_selectionsOf h hrest t]
    refine congrArg (fun value => (e.field, e.relation.multiplicity.value value) :: _) ?_
    exact List.map_congr_left fun k _ => object_selection h hchild hbelow k

end

/-! ## The rows of an answer -/

/-- A projected name that is no aggregate is projected as the column of that name. -/
theorem expression_of_projects {e : Entity} {tableAlias name : String} {p : Projection}
    (h : e.Projects tableAlias separator name p) (hname : Text.cutAt? aggregateMark name = none) :
    p.expression = .qualified tableAlias name := by
  rcases h.2 with hcolumn | ⟨-, hcolumn⟩
  · rw [Entity.column, hname] at hcolumn
    dsimp only at hcolumn
    unfold Entity.plainColumn at hcolumn
    split at hcolumn
    · exact (Except.ok.inj hcolumn).symm
    · cases hcolumn
  · exact hcolumn

theorem For.cutAt?_name (h : plan.For catalog config tree) (hcat : catalog.Accepted)
    (hplain : tree.AsksPlainly catalog) {n : NodePlan} (hn : n ∈ plan.nodes) {name : String}
    (hname : name ∈ n.names) : Text.cutAt? aggregateMark name = none := by
  rcases Entity.mem_projectedNames.mp hname with hname | rfl
  · obtain ⟨s, hs, -, -, hscalars⟩ := h.exists_selected hn
    exact hplain.columns s hs name (hscalars ▸ hname)
  · exact Text.cutAt?_aggregateMark (hcat.clean (h.valid.get?_name hn)).uniqueColumn

/-- The row that the statement makes of an environment is the row of the plan. -/
theorem For.rowOf (h : plan.For catalog config tree) (hcat : catalog.Accepted)
    (hplain : tree.AsksPlainly catalog) (root : RootPlan) (env : Env Tuple) :
    (plan.statement root).rowOf env = plan.row config.aliasSeparator (d.view db) env := by
  rw [Statement.rowOf, statement, List.map_flatMap, row]
  refine List.flatMap_congr fun n hn => ?_
  have hshown : (d.view db).shown n (env n.tableAlias) = n.names.map fun name =>
      (name, Dialect.valueIn env (.qualified n.tableAlias name)) := by
    cases henv : env n.tableAlias with
    | none =>
      refine List.map_congr_left fun name _ => ?_
      rw [Dialect.valueIn, henv]
      rfl
    | some t =>
      exact List.map_congr_left fun name _ => by rw [Dialect.valueIn_of_eq_some henv]
  have hprojects := (List.forall₂_and_left _ _).mpr
    ⟨fun name hname => h.cutAt?_name hcat hplain hn hname,
      Entity.project_eq_ok (h.valid.project hn)⟩
  rw [hshown, NodePlan.cells, List.map_map]
  -- Both sides go through the projected names, and each name has its own projection.
  symm
  rw [← List.forall₂_eq_eq_eq, List.forall₂_map_left_iff, List.forall₂_map_right_iff]
  refine hprojects.imp fun name p hp => ?_
  rw [hp.2.1, expression_of_projects hp.2 hp.1]
  rfl

/-! ## The statement of a plain tree -/

theorem For.kind_eq_left (h : plan.For catalog config tree) (hplain : tree.AsksPlainly catalog)
    {l : Link} (hl : l ∈ plan.links) : l.edge.kind = .left := by
  obtain ⟨s, hs, -, r, hr, hfollows⟩ := exists_relation l hl
  rw [h.selection] at hs
  have hkind := (h.valid.links l hl).kind
  rw [← hfollows.args, hplain.left s hs r hr] at hkind
  exact (Except.ok.inj hkind).symm

theorem kind_of_mem_joins {l : Link} {j : Join} (h : j ∈ l.joins) : j.kind = l.edge.kind := by
  unfold Link.joins at h
  split at h <;> simp only [List.mem_cons, List.not_mem_nil, or_false] at h
  · rcases h with rfl | rfl <;> rfl
  · rw [h]

theorem For.isPlain (h : plan.For catalog config tree) (hcat : catalog.Accepted)
    (hplain : tree.AsksPlainly catalog) (hlimit : config.defaultLimit = none) {root : RootPlan}
    (hroot : root.Valid config plan.node.entity tree.args) :
    (plan.statement root).isPlain = true := by
  have hgroupBy := hroot.groupBy
  have hhaving := hroot.having
  have horderBy := hroot.orderBy
  have hrootLimit := hroot.limit
  have hoffset := hroot.offset
  have hdistinct := hroot.distinct
  rw [hplain.args] at hgroupBy hhaving horderBy hrootLimit hoffset hdistinct
  have hjoins : (plan.statement root).joins.all (fun j => j.kind.keepsLeft) = true := by
    refine List.all_eq_true.mpr fun j hj => ?_
    obtain ⟨l, hl, hj⟩ := List.mem_flatMap.mp hj
    rw [kind_of_mem_joins hj, h.kind_eq_left hplain hl]
    rfl
  have hprojections : (plan.statement root).projections.all
      (fun p => p.expression.isQualified) = true := by
    refine List.all_eq_true.mpr fun p hp => ?_
    obtain ⟨n, hn, name, hname, hprojects⟩ := h.valid.exists_projects hp
    rw [expression_of_projects hprojects (h.cutAt?_name hcat hplain hn hname)]
    rfl
  -- No limit is asked for and there is no default one.
  rw [Config.limit?, hlimit] at hrootLimit
  rw [Statement.isPlain, hjoins, hprojections]
  rw [statement]
  dsimp only
  rw [List.forall₂_nil_left_iff.mp hgroupBy, List.forall₂_nil_left_iff.mp horderBy, hrootLimit,
    hoffset, hdistinct, show root.having = [] from hhaving]
  rfl

/-- WHERE keeps the rows of the root that its filter is satisfied by. -/
theorem For.keeps_eq (h : plan.For catalog config tree) {root : RootPlan}
    (hroot : root.Valid config plan.node.entity tree.args) {env : Env Tuple} {t : Tuple}
    (ht : env plan.node.tableAlias = some t) :
    (plan.statement root).keeps d env = d.admits plan.node.entity tree.args.filter t := by
  have hfilters := hroot.filters
  rw [Statement.keeps, statement]
  dsimp only
  cases hfilter : tree.args.filter with
  | none =>
    rw [hfilter] at hfilters
    rw [show root.filters = [] from hfilters]
    rfl
  | some filter =>
    rw [hfilter] at hfilters
    have hmeaning : filter.meaning (d.within env) ⟨plan.node.entity, config.baseAlias, .filter⟩
        = filter.meaning (d.of t) ⟨plan.node.entity, plan.node.entity.name, .filter⟩ :=
      Dialect.meaning_within (h.base ▸ ht) (by decide) (by decide) filter
    rw [(FilterScope.terms_spec (d.within env) hfilters).2, hmeaning]
    rfl

/-! ## The environments of an answer -/

theorem For.offers (h : plan.For catalog config tree) (hplain : tree.AsksPlainly catalog) :
    ∀ l ∈ plan.links, l.Offers (d.view db).kids (Link.step d db) := by
  intro l hl
  obtain ⟨hparent, hnodup⟩ := (fresh_links h.aliases).link l hl
  exact (h.valid.links l hl).offers (h.kind_eq_left hplain hl) hparent hnodup

theorem Valid.keyed {separator : String} (h : plan.Valid catalog separator)
    (hdb : db.Keyed catalog) {n : NodePlan} (hn : n ∈ plan.nodes) :
    (∀ t ∈ db n.entity.table, EntityId.ofJson (t n.entity.uniqueColumn)
      = .ok (some ((d.view db).id n t))) ∧ ((db n.entity.table).map n.entity.idOf).Nodup := by
  have hmem := Catalog.mem_of_get? (h.get?_name hn)
  refine ⟨fun t ht => ?_, hdb.distinct _ hmem⟩
  obtain ⟨id, inRange, hid⟩ := hdb.ids _ hmem t ht
  simp [Dialect.view, Entity.idOf, hid, EntityId.ofJson]

/-- The rows of the tables populate the plan, from any rows of the root's table on. -/
theorem For.populates_database (h : plan.For catalog config tree)
    (hclear : plan.Clear config.aliasSeparator) (hdb : db.Keyed catalog) {roots : List Tuple}
    (hroots : roots.Sublist (db plan.node.entity.table)) :
    plan.Populates (d.view db) (fun n t => t ∈ db n.entity.table) roots where
  root t ht := hroots.subset ht
  child l hl t ht k hk := (Dialect.mem_related.mp hk).1
  names n hn t ht := .of_eq (Dialect.keys_view n t)
  id n hn t ht := by
    refine ⟨t n.entity.uniqueColumn, ?_, (h.valid.keyed hdb hn).1 t ht⟩
    have hnodup : (((d.view db).fields n t).map Prod.fst).Nodup := by
      rw [Dialect.keys_view]
      exact hclear.names n hn
    refine Json.get?_of_mem hnodup (List.mem_map.mpr ⟨_, ?_, rfl⟩)
    exact n.entity.uniqueColumn_mem_projectedNames n.scalars
  same n hn t t' ht ht' hid := by
    have hids := (h.valid.keyed (d := d) hdb hn).2
    exact List.inj_on_of_nodup_map hids ht ht' (EntityId.integer.inj hid)
  ascending l hl t ht := by
    have hids := (h.valid.keyed (d := d) hdb (child_mem_nodes hl)).2
    refine List.pairwise_map.mpr ((Dialect.pairwise_related hids).imp fun {a b} hab => ?_)
    exact Int.compare_eq_lt.mpr hab
  distinct := by
    have hids := (h.valid.keyed (d := d) hdb List.mem_cons_self).2
    rw [show (d.view db).id plan.node = EntityId.integer ∘ plan.node.entity.idOf from rfl,
      ← List.map_map]
    exact (hids.sublist (hroots.map plan.node.entity.idOf)).map
      fun a b hab => EntityId.integer.inj hab

end Plan

/-- Where a test has one outcome on all that is made of an item, it can be put to the items. -/
theorem filter_flatMap_of_forall {α β : Type} {f : α → List β} {p : β → Bool} {q : α → Bool}
    (h : ∀ x, ∀ y ∈ f x, p y = q x) :
    ∀ xs : List α, (xs.flatMap f).filter p = (xs.filter q).flatMap f
  | [] => rfl
  | x :: xs => by
    rw [List.flatMap_cons, List.filter_append, filter_flatMap_of_forall h xs, List.filter_cons]
    split
    · rename_i hq
      rw [List.flatMap_cons, List.filter_eq_self.mpr fun y hy => (h x y hy).trans hq]
    · rename_i hq
      have hnone : (f x).filter p = [] :=
        List.filter_eq_nil_iff.mpr fun y hy => by rw [h x y hy]; exact hq
      rw [hnone, List.nil_append]

namespace Plan

/-- The rows that a statement answers: a row for each environment that the joins reach from the
rows of the root that its filter is satisfied by. -/
theorem For.answer? (h : plan.For catalog config tree) (hcat : catalog.Accepted)
    (hplain : tree.AsksPlainly catalog) (hlimit : config.defaultLimit = none) {root : RootPlan}
    (hroot : root.Valid config plan.node.entity tree.args) :
    (plan.statement root).answer? d db = some ((((db plan.node.entity.table).filter
      (d.admits plan.node.entity tree.args.filter)).flatMap (reached (Link.step d db) plan)).map
        (plan.row config.aliasSeparator (d.view db))) := by
  have hoffers : ∀ l ∈ plan.links, l.Offers (d.view db).kids (Link.step d db) :=
    h.offers hplain
  have hloops : ∀ t : Tuple, extend (Join.step d db) (plan.statement root).joins
      (Env.only plan.node.tableAlias t) = reached (Link.step d db) plan t :=
    fun t => extend_flatMap ..
  -- WHERE looks at the root alone, which no join changes.
  have hkeeps : ∀ t, ∀ env ∈ reached (Link.step d db) plan t,
      (plan.statement root).keeps d env = d.admits plan.node.entity tree.args.filter t :=
    fun t env henv => h.keeps_eq hroot (eq_root_of_mem_reached h.aliases hoffers henv)
  have hrows : (plan.statement root).rowOf = plan.row config.aliasSeparator (d.view db) :=
    funext fun env => h.rowOf hcat hplain root env
  have hsource : (plan.statement root).source
      = some (plan.node.entity.table, plan.node.tableAlias) := rfl
  rw [Statement.answer?, h.isPlain hcat hplain hlimit hroot, hsource, hrows,
    ← filter_flatMap_of_forall hkeeps]
  simp only [if_true, hloops]

end Plan

/-- **A nested read gives the nested reading of the database.** For a plain tree over a database
whose records have ids, the statement is answered, and the rows of the answer are nested into the
objects that the tree asks for. -/
theorem SelectionTree.nest_answer {entity : String} {selection : FieldSelection}
    {compiled : CompiledRead} (hcat : catalog.Accepted) (hconfig : config.isValid = true)
    (hlimit : config.defaultLimit = none)
    (htree : (build catalog entity selection).outcome = .ok tree)
    (hplain : tree.AsksPlainly catalog)
    (h : (tree.compile catalog config).outcome = .ok compiled) (hdb : db.Keyed catalog) :
    ∃ rows, compiled.statement.answer? d db = some rows ∧
      (tree.nest compiled.layout (rows.map .object)).outcome
        = .ok (d.reading db catalog tree) := by
  obtain ⟨hroot, -, hpath⟩ := build_wellFormed htree
  obtain ⟨plan, root, hfor, hvalid, rfl⟩ := compile_eq_ok hroot h
  have hclear := hfor.clear hcat hconfig hroot hpath
  -- The reading is the unfoldings of the rows that the root's filter is satisfied by.
  have hreading : d.reading db catalog tree = ((db plan.node.entity.table).filter
      (d.admits plan.node.entity tree.args.filter)).map (plan.unfold (d.view db)) := by
    have hnode : plan.node ∈ plan.nodes := List.mem_cons_self
    have hentity : tree.root.entity = plan.node.entity.name := by
      rw [← hfor.selection]
      exact (congrArg Prod.fst (Plan.madeFor_selection plan)).symm
    rw [Dialect.reading, hentity, hfor.valid.get?_name hnode]
    refine List.map_congr_left fun t _ => ?_
    rw [← hfor.selection]
    exact Plan.object_selection hfor.valid hnode (fun l hl => hl) t
  refine ⟨_, hfor.answer? hcat hplain hlimit hvalid, ?_⟩
  have hpopulates : plan.Populates (d.view db) (fun n t => t ∈ db n.entity.table)
      ((db plan.node.entity.table).filter (d.admits plan.node.entity tree.args.filter)) :=
    hfor.populates_database hclear hdb List.filter_sublist
  have hnest := hpopulates.nest_rows hclear hfor.aliases (hfor.offers hplain)
    (fun l hl => (hfor.valid.links l hl).multiplicity)
    (Plan.fieldsApart_of_wellFormed (hfor.selection ▸ hroot)
      (fun n hn => hfor.valid.get?_name hn) (hfor.selection ▸ hplain.spares)) tree.args
  rw [hfor.selection] at hnest
  rw [hreading]
  exact hnest

/-! ## In the library -/

namespace Sample

/-- A database that compares values as they are and orders integers. -/
def dialect : Dialect where
  compare
    | .is, x, y => if x.same y then .yes else .no
    | .isNot, x, y => if x.same y then .no else .yes
    | _, .null, _ => .unknown
    | _, _, .null => .unknown
    | .eq, x, y => if x.same y then .yes else .no
    | .ne, x, y => if x.same y then .no else .yes
    | .lt, .number (.int a _), .number (.int b _) => if a < b then .yes else .no
    | .lte, .number (.int a _), .number (.int b _) => if a ≤ b then .yes else .no
    | .gt, .number (.int a _), .number (.int b _) => if b < a then .yes else .no
    | .gte, .number (.int a _), .number (.int b _) => if b ≤ a then .yes else .no
    | _, _, _ => .unknown
  null_left c y his hisNot := by cases c <;> simp_all
  null_right c x his hisNot := by cases c <;> cases x <;> simp_all

def row (columns : Json.Members) : Tuple := fun column => (Json.get? columns column).getD .null

def integer (n : Int) : Json := (Json.int? n).getD .null

/-- Three authors, one of them nameless, and the first with three books, two of which have a
sequel; one has two, and one of its links is there twice. -/
def database : Database
  | "authors" => [row [("id", integer 7), ("name", .string "Ann")],
      row [("id", integer 3), ("name", .string "Anon")], row [("id", integer 4)],
      row [("id", integer 5), ("name", .string "Bob")]]
  | "books" => [row [("id", integer 3), ("author_id", integer 7)],
      row [("id", integer 2), ("author_id", integer 7), ("title", .string "Two")],
      row [("id", integer 1), ("author_id", integer 7)]]
  | "links" => [row [("from_id", integer 1), ("to_id", integer 3)],
      row [("from_id", integer 1), ("to_id", integer 2)],
      row [("from_id", integer 1), ("to_id", integer 3)]]
  | _ => []

theorem reading_tree : dialect.reading database Sample.catalog Sample.tree =
    [.object [("name", .string "Ann"), ("id", integer 7), ("books", .array [
      .object [("title", .null), ("id", integer 1),
        ("sequel", .object [("title", .string "Two"), ("id", integer 2)])],
      .object [("title", .null), ("id", integer 3), ("sequel", .null)]])],
    .object [("name", .string "Bob"), ("id", integer 5), ("books", .array [])]] :=
  rfl

theorem asksPlainly_tree : Sample.tree.AsksPlainly Sample.catalog where
  left := by
    simp only [Sample.tree, SelectionNode.nodes, SelectionNode.nodesOf, SelectionNode.relations,
      RelationSelection.args, List.append_nil, List.forall_mem_cons]
    exact ⟨⟨rfl, by simp⟩, ⟨rfl, by simp⟩, by simp⟩
  columns := by decide
  spares := sparesUniqueColumn
  args := rfl

theorem keyed_database : database.Keyed Sample.catalog where
  ids := by
    simp only [Sample.catalog, List.forall_mem_cons]
    refine ⟨?authors, ?books, by simp⟩
    case authors =>
      simp only [Sample.author, database, List.forall_mem_cons]
      exact ⟨⟨7, by decide, rfl⟩, ⟨3, by decide, rfl⟩, ⟨4, by decide, rfl⟩, ⟨5, by decide, rfl⟩,
        by simp⟩
    case books =>
      simp only [Sample.book, database, List.forall_mem_cons]
      exact ⟨⟨3, by decide, rfl⟩, ⟨2, by decide, rfl⟩, ⟨1, by decide, rfl⟩, by simp⟩
  distinct := by decide

end Sample

/-- In the library: the nameless author is left out, for a comparison with null is unknown. -/
theorem SelectionTree.nest_answer_library :
    ∃ rows, Sample.compiled.statement.answer? Sample.dialect Sample.database = some rows ∧
      (Sample.tree.nest Sample.compiled.layout (rows.map .object)).outcome = .ok
        [.object [("name", .string "Ann"), ("id", Sample.integer 7), ("books", .array [
          .object [("title", .null), ("id", Sample.integer 1),
            ("sequel", .object [("title", .string "Two"), ("id", Sample.integer 2)])],
          .object [("title", .null), ("id", Sample.integer 3), ("sequel", .null)]])],
        .object [("name", .string "Bob"), ("id", Sample.integer 5), ("books", .array [])]] := by
  rw [← Sample.reading_tree]
  exact SelectionTree.nest_answer Sample.catalog_accepted Config.isValid_default rfl
    Sample.build_selection Sample.asksPlainly_tree Sample.compile_tree Sample.keyed_database

end NestedRead
