import NestedRead.Proofs.Forest.Flatten
import NestedRead.Proofs.Config.Valid

/-!
# A forest is read back from its rows

The records that occur in a forest at the nodes of a tree populate the plan of the tree, as the
shape of the forest and its coherence say. Flattening is a nested loop whose steps pick them, so the
rows of a forest nest into the objects of its records.
-/

set_option autoImplicit false

namespace NestedRead

namespace Plan

variable {catalog : Catalog} {config : Config} {tree : SelectionTree} {plan : Plan}
  {forest : List Record}

/-- The record occurs in the forest at the node that the plan's node is made for. -/
def At (tree : SelectionTree) (forest : List Record) (n : NodePlan) (r : Record) : Prop :=
  ∃ s ∈ tree.root.nodes, MadeFor n s ∧ tree.Occurs forest s r

/-- Two nodes of a well-formed tree that a node is made for are the same. -/
theorem MadeFor.unique {n : NodePlan} {s s' : SelectionNode} (hroot : tree.root.WellFormed catalog)
    (hs : s ∈ tree.root.nodes) (hs' : s' ∈ tree.root.nodes) (h : MadeFor n s)
    (h' : MadeFor n s') : s = s' := by
  have heq : (s.entity, s.path, s.scalars) = (s'.entity, s'.path, s'.scalars) := h.symm.trans h'
  rw [Prod.mk.injEq, Prod.mk.injEq] at heq
  exact List.inj_on_of_nodup_map (SelectionNode.nodup_paths hroot) hs hs' heq.2.1

namespace For

theorem exists_relation_of_at (h : plan.For catalog config tree)
    (hroot : tree.root.WellFormed catalog) {l : Link} (hl : l ∈ plan.links) {r : Record}
    (hr : At tree forest l.parent r) :
    ∃ s, tree.Occurs forest s r ∧ ∃ relation ∈ s.relations, Follows l relation tree.root.nodes := by
  obtain ⟨s, hs, hparent, relation, hrelation, hfollows⟩ := exists_relation l hl
  rw [h.selection] at hs hfollows
  obtain ⟨s', hs', hmade, hoccurs⟩ := hr
  obtain rfl := hmade.unique hroot hs' hs hparent
  exact ⟨_, hoccurs, relation, hrelation, hfollows⟩

theorem idAt?_of_at (h : plan.For catalog config tree) (hshapes : tree.Shapes catalog forest)
    {n : NodePlan} (hn : n ∈ plan.nodes) {r : Record} (hr : At tree forest n r) :
    r.idAt? n.entity.uniqueColumn = some (Record.view.id n r) := by
  obtain ⟨s, -, hmade, hoccurs⟩ := hr
  have hentity : n.entity.name = s.entity := congrArg Prod.fst hmade
  obtain ⟨id, hid⟩ := Option.isSome_iff_exists.mp
    (hshapes.id s r hoccurs _ (hentity ▸ h.valid.get?_name hn))
  rw [hid, Record.view_id_of_idAt? hid]

/-- Different roots have different ids. -/
theorem nodup_rootIds (h : plan.For catalog config tree) (hshapes : tree.Shapes catalog forest)
    (hcoherent : tree.Coherent catalog forest) :
    (forest.map (Record.view.id plan.node)).Nodup := by
  have hroot : plan.node ∈ plan.nodes := List.mem_cons_self
  have hmem : tree.root ∈ tree.root.nodes := h.selection ▸ selection_mem_nodes plan
  have hmade : MadeFor plan.node tree.root := h.selection ▸ madeFor_selection plan
  have hentity : plan.node.entity.name = tree.root.entity := congrArg Prod.fst hmade
  have hids : (forest.map (Record.view.id plan.node)).map some
      = forest.map (·.idAt? plan.node.entity.uniqueColumn) := by
    rw [List.map_map]
    exact List.map_congr_left fun r hr =>
      (h.idAt?_of_at hshapes hroot ⟨_, hmem, hmade, .root hr⟩).symm
  exact (hids ▸ hcoherent.roots _ (hentity ▸ h.valid.get?_name hroot)).of_map some

/-- The records of a forest that has a shape and is coherent populate the plan. -/
theorem populates_forest (h : plan.For catalog config tree) (hroot : tree.root.WellFormed catalog)
    (hshapes : tree.Shapes catalog forest) (hcoherent : tree.Coherent catalog forest) :
    plan.Populates Record.view (At tree forest) forest where
  root r hr := by
    refine ⟨tree.root, ?_, h.selection ▸ madeFor_selection plan, .root hr⟩
    rw [← h.selection]
    exact selection_mem_nodes plan
  child l hl r hr k hk := by
    obtain ⟨s, hoccurs, relation, hrelation, hfollows⟩ := h.exists_relation_of_at hroot hl hr
    exact ⟨_, hfollows.node, hfollows.child, hoccurs.kid hrelation (hfollows.field ▸ hk)⟩
  names n hn r hr := by
    obtain ⟨s, -, hmade, hoccurs⟩ := hr
    rw [MadeFor, outline, Prod.mk.injEq, Prod.mk.injEq] at hmade
    rw [NodePlan.names, hmade.2.2]
    exact hshapes.names s r hoccurs _ (hmade.1 ▸ h.valid.get?_name hn)
  id n hn r hr := by
    obtain ⟨value, hvalue, hid⟩ := Option.bind_eq_some_iff.mp (h.idAt?_of_at hshapes hn hr)
    exact ⟨value, hvalue, EntityId.ofJson_of_ofJson? hid⟩
  same n hn r r' hr hr' hid := by
    -- Both records stand at the path of the node and have one id, so coherence makes them equal.
    have hids := h.idAt?_of_at hshapes hn hr
    rw [hid, ← h.idAt?_of_at hshapes hn hr'] at hids
    obtain ⟨s, -, hmade, hoccurs⟩ := hr
    obtain ⟨s', -, hmade', hoccurs'⟩ := hr'
    rw [MadeFor, outline, Prod.mk.injEq, Prod.mk.injEq] at hmade hmade'
    exact hcoherent.same s r hoccurs s' r' hoccurs' (hmade.2.1.symm.trans hmade'.2.1) _
      (hmade.1 ▸ h.valid.get?_name hn) hids
  ascending l hl r hr := by
    obtain ⟨s, hoccurs, relation, hrelation, hfollows⟩ := h.exists_relation_of_at hroot hl hr
    have hentity : l.child.entity.name = relation.node.entity :=
      congrArg Prod.fst hfollows.child
    have hpairs := hshapes.ascending s r hoccurs relation hrelation _
      (hentity ▸ h.valid.get?_name (child_mem_nodes hl))
    rw [hfollows.field] at hpairs
    refine List.pairwise_map.mpr (hpairs.imp fun {a b} hab => ?_)
    obtain ⟨i, j, hi, hj, hlt⟩ := hab
    rw [Record.view_id_of_idAt? hi, Record.view_id_of_idAt? hj]
    exact hlt
  distinct := h.nodup_rootIds hshapes hcoherent

end For
end Plan

/-- **Reading undoes flattening.** Whatever the tree, the rows of a coherent forest of its shape are
nested into the objects of the forest's records. -/
theorem SelectionTree.nest_flatten {catalog : Catalog} {config : Config} {entity : String}
    {selection : FieldSelection} {tree : SelectionTree} {compiled : CompiledRead}
    {forest : List Record} (hcat : catalog.Accepted) (hconfig : config.isValid = true)
    (htree : (build catalog entity selection).outcome = .ok tree)
    (h : (tree.compile catalog config).outcome = .ok compiled)
    (hspares : ∀ s ∈ tree.root.nodes, s.SparesUniqueColumn catalog)
    (hshapes : tree.Shapes catalog forest) (hcoherent : tree.Coherent catalog forest) :
    (tree.nest compiled.layout ((forest.flatMap fun r =>
      tree.root.flatten catalog compiled.layout (some r)).map .object)).outcome
        = .ok (forest.map (tree.root.toJson catalog)) := by
  obtain ⟨hroot, -, hpath⟩ := build_wellFormed htree
  obtain ⟨plan, root, hfor, -, rfl⟩ := compile_eq_ok hroot h
  have hclear := hfor.clear hcat hconfig hroot hpath
  have hoffers : ∀ l ∈ plan.links, l.Offers Record.view.kids Record.pick :=
    fun l hl => Record.pick_offers ((Plan.fresh_links hfor.aliases).link l hl).1
  -- Flattening is picking one record for each link, in all ways.
  have hflatten : ∀ r : Record, tree.root.flatten catalog (plan.layout config.aliasSeparator)
      (some r) = (Plan.reached Record.pick plan r).map
        (plan.row config.aliasSeparator Record.view) := by
    intro r
    rw [← hfor.selection, Plan.reached, ← Plan.flatten_selection hfor.valid hclear hoffers
      List.mem_cons_self (fun l hl => hl) hfor.aliases, Env.only_self]
  have hobjects : forest.map (tree.root.toJson catalog) = forest.map (plan.unfold Record.view) := by
    rw [← hfor.selection]
    exact List.map_congr_left fun r _ => Plan.toJson_selection hfor.valid (fun l hl => hl) r
  have hnest := (hfor.populates_forest hroot hshapes hcoherent).nest_rows hclear hfor.aliases
    hoffers (fun l hl => (hfor.valid.links l hl).multiplicity)
    (Plan.fieldsApart_of_wellFormed (hfor.selection ▸ hroot)
      (fun n hn => hfor.valid.get?_name hn) (hfor.selection ▸ hspares)) tree.args
  rw [hfor.selection, List.map_flatMap] at hnest
  simp only [← hflatten] at hnest
  rw [hobjects]
  exact hnest

/-! ## In the library -/

namespace Sample

/-- A book that is the sequel of another one and has none itself. -/
def second : Record := .mk [("title", .null), ("id", .string "b2")] []

def first : Record := .mk [("id", .string "b1"), ("title", .string "One")] [("sequel", [second])]

def ann : Record :=
  .mk [("name", .string "Ann"), ("id", .number (.int 7 (by decide)))] [("books", [first, second])]

def bob : Record := .mk [("name", .string "Bob"), ("id", .bool true)] []

def sequelNode : SelectionNode := .mk "Book" ⟨["books", "sequel"]⟩ ["title"] []

def booksNode : SelectionNode :=
  .mk "Book" ⟨["books"]⟩ ["title"] [.mk "sequel" { joinType := some "LEFT" } sequelNode]

/-- Where the records of two authors stand. -/
def places : List (SelectionNode × Record) :=
  [(tree.root, ann), (tree.root, bob), (booksNode, first), (booksNode, second),
    (sequelNode, second)]

theorem mem_places_of_occurs {s : SelectionNode} {r : Record} (h : tree.Occurs [ann, bob] s r) :
    (s, r) ∈ places := by
  induction h with
  | root h =>
    simp only [List.mem_cons, List.not_mem_nil, or_false] at h
    rcases h with rfl | rfl <;> simp [places]
  | kid inside hrelation hkid ih =>
    simp only [places, List.mem_cons, List.not_mem_nil, or_false, Prod.mk.injEq] at ih
    rcases ih with ⟨rfl, rfl⟩ | ⟨rfl, rfl⟩ | ⟨rfl, rfl⟩ | ⟨rfl, rfl⟩ | ⟨rfl, rfl⟩ <;>
      simp_all [tree, booksNode, sequelNode, places, SelectionNode.relations,
        RelationSelection.field, RelationSelection.node, Record.kids, ann, bob, first, second]

/-- What holds at each of the places holds of all records of the forest. -/
theorem forall_occurs {P : SelectionNode → Record → Prop} (hann : P tree.root ann)
    (hbob : P tree.root bob) (hfirst : P booksNode first) (hsecond : P booksNode second)
    (hsequel : P sequelNode second) : ∀ s r, tree.Occurs [ann, bob] s r → P s r := by
  intro s r h
  have hplaces := mem_places_of_occurs h
  simp only [places, List.mem_cons, List.not_mem_nil, or_false, Prod.mk.injEq] at hplaces
  rcases hplaces with ⟨rfl, rfl⟩ | ⟨rfl, rfl⟩ | ⟨rfl, rfl⟩ | ⟨rfl, rfl⟩ | ⟨rfl, rfl⟩ <;> assumption

theorem shapes_forest : tree.Shapes catalog [ann, bob] where
  names := by apply forall_occurs <;> (intro e he; cases he; decide)
  id := by apply forall_occurs <;> (intro e he; cases he; decide)
  one := by
    apply forall_occurs <;> intro relation hrelation hone
    · cases List.mem_singleton.mp hrelation
      exact absurd hone (by decide)
    · cases List.mem_singleton.mp hrelation
      exact absurd hone (by decide)
    · cases List.mem_singleton.mp hrelation
      decide
    · cases List.mem_singleton.mp hrelation
      decide
    · cases hrelation
  ascending := by
    apply forall_occurs <;> intro relation hrelation e he
    · cases List.mem_singleton.mp hrelation
      cases he
      exact List.pairwise_pair.mpr ⟨_, _, rfl, rfl, by decide⟩
    · cases List.mem_singleton.mp hrelation
      exact List.Pairwise.nil
    · cases List.mem_singleton.mp hrelation
      exact List.pairwise_singleton ..
    · cases List.mem_singleton.mp hrelation
      exact List.Pairwise.nil
    · cases hrelation

theorem coherent_forest : tree.Coherent catalog [ann, bob] where
  same := by
    apply forall_occurs <;> apply forall_occurs <;> intro hpath e he hid
    all_goals first
      | rfl
      | exact absurd hpath (by decide)
      | (cases he; exact absurd hid (by decide))
  roots := by
    intro e he
    cases he
    decide

/-- Ann takes a row for each of her books, Bob one in which everything else is null. -/
def rows : List Json :=
  [.object [("base___name", .string "Ann"), ("base___id", .number (.int 7 (by decide))),
    ("Book___id", .string "b1"), ("Book___title", .string "One"),
    ("Book_2___title", .null), ("Book_2___id", .string "b2")],
  .object [("base___name", .string "Ann"), ("base___id", .number (.int 7 (by decide))),
    ("Book___title", .null), ("Book___id", .string "b2"),
    ("Book_2___title", .null), ("Book_2___id", .null)],
  .object [("base___name", .string "Bob"), ("base___id", .bool true),
    ("Book___title", .null), ("Book___id", .null),
    ("Book_2___title", .null), ("Book_2___id", .null)]]

def objects : List Json :=
  [.object [("name", .string "Ann"), ("id", .number (.int 7 (by decide))),
    ("books", .array [
      .object [("id", .string "b1"), ("title", .string "One"),
        ("sequel", .object [("title", .null), ("id", .string "b2")])],
      .object [("title", .null), ("id", .string "b2"), ("sequel", .null)]])],
  .object [("name", .string "Bob"), ("id", .bool true), ("books", .array [])]]

theorem flatten_forest : ([ann, bob].flatMap fun r =>
    tree.root.flatten catalog compiled.layout (some r)).map Json.object = rows := rfl

theorem toJson_forest : [ann, bob].map (tree.root.toJson catalog) = objects := rfl

end Sample

/-- In the library, where Ann wrote a book and its sequel, and Bob none. -/
theorem SelectionTree.nest_flatten_library :
    (Sample.tree.nest Sample.compiled.layout Sample.rows).outcome = .ok Sample.objects := by
  rw [← Sample.flatten_forest, ← Sample.toJson_forest]
  exact SelectionTree.nest_flatten Sample.catalog_accepted Config.isValid_default
    Sample.build_selection Sample.compile_tree Sample.sparesUniqueColumn Sample.shapes_forest
    Sample.coherent_forest

end NestedRead
