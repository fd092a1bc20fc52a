import NestedRead.Proofs.Query.Rows

/-!
# Nesting the rows of environments

The main step behind both directions of reading: rows that were made of environments are nested into
what the environments were made of. `Plan.unfold` says what that is, a value with its relations
followed down the plan, and `Plan.Shows` what the environments have to be like: each link shows a
child of its parent's value or nothing, every child is shown beside its parent somewhere, ids tell
the values of a node apart, and children are in the order of their ids.

The index of such rows holds the fields and the children of each value that is shown, by the
invariant of the scan, and nesting follows the plan down from there (`nest_eq`, by induction on it).
-/

set_option autoImplicit false

namespace NestedRead

variable {V : Type}

/-- The value of a relation with these objects at its end: a list of them, or the first or null. -/
def Multiplicity.value : Multiplicity → List Json → Json
  | .one, values => values.head?.getD .null
  | .many, values => .array values

def Branch.field : Branch → String
  | .mk e _ => e.field

namespace Plan

mutual

/-- The nested object of a value: its fields, and its children along each relation. -/
def unfold (view : View V) : Plan → V → Json
  | .mk n branches, v => .object (view.fields n v ++ unfoldOf view n v branches)

/-- The members that the relations of a node add. -/
def unfoldOf (view : View V) (n : NodePlan) (v : V) : List Branch → Json.Members
  | [] => []
  | .mk e below :: rest =>
    (e.field, e.relation.multiplicity.value
      ((view.kids ⟨n, e, below.node⟩ v).map (unfold view below))) :: unfoldOf view n v rest

end

theorem field_selectionsOf (branches : List Branch) :
    (selectionsOf branches).map RelationSelection.field = branches.map Branch.field := by
  induction branches with
  | nil => rfl
  | cons branch rest ih =>
    cases branch
    rw [selectionsOf, List.map_cons, List.map_cons, ih]
    rfl

mutual

/-- No field of a node is projected and selected as a relation as well, and no relation is selected
twice. -/
def FieldsApart : Plan → Prop
  | .mk n branches => (n.names ++ branches.map Branch.field).Nodup ∧ FieldsApartOf branches

def FieldsApartOf : List Branch → Prop
  | [] => True
  | .mk _ below :: rest => FieldsApart below ∧ FieldsApartOf rest

end

mutual

theorem fieldsApart_of_wellFormed {catalog : Catalog} : ∀ {p : Plan},
    p.selection.WellFormed catalog →
    (∀ n ∈ p.nodes, catalog.get? n.entity.name = some n.entity) →
    (∀ s ∈ p.selection.nodes, s.SparesUniqueColumn catalog) → p.FieldsApart
  | .mk n branches, hwf, hentities, hspares => by
    obtain ⟨entity, hget, hscalars, hnone, hfields, hrels⟩ := hwf
    have hentity := hentities n List.mem_cons_self
    cases hget.symm.trans hentity
    rw [selection, SelectionNode.nodes, List.forall_mem_cons] at hspares
    rw [field_selectionsOf] at hfields
    refine ⟨List.nodup_append.mpr ⟨Entity.nodup_projectedNames hscalars, hfields, ?_⟩, ?_⟩
    · rintro name hname field hfield rfl
      rw [← field_selectionsOf] at hfield
      obtain ⟨r, hr, rfl⟩ := List.mem_map.mp hfield
      rcases Entity.mem_projectedNames.mp hname with hname | hname
      · obtain ⟨relation, hrelation, -⟩ := SelectionNode.RelationsWellFormed.of_mem hrels _ hr
        rw [(hnone _ hname).1] at hrelation
        cases hrelation
      · exact hspares.1 r hr n.entity hentity hname
    · refine fieldsApartOf_of_wellFormed n hrels (fun l hl => hentities _ ?_) hspares.2
      exact List.mem_cons_of_mem _ (List.mem_map_of_mem hl)

theorem fieldsApartOf_of_wellFormed {catalog : Catalog} {entity : Entity} {path : FieldPath}
    (n : NodePlan) : ∀ {branches : List Branch},
      SelectionNode.RelationsWellFormed catalog entity path (selectionsOf branches) →
      (∀ l ∈ linksOf n branches, catalog.get? l.child.entity.name = some l.child.entity) →
      (∀ s ∈ SelectionNode.nodesOf (selectionsOf branches), s.SparesUniqueColumn catalog) →
      FieldsApartOf branches
  | [], _, _, _ => trivial
  | .mk e below :: rest, hwf, hentities, hspares => by
    obtain ⟨-, -, hbelow, hrest⟩ := hwf
    rw [linksOf, List.forall_mem_cons, List.forall_mem_append] at hentities
    rw [selectionsOf, SelectionNode.nodesOf, List.forall_mem_append] at hspares
    refine ⟨fieldsApart_of_wellFormed hbelow ?_ hspares.1,
      fieldsApartOf_of_wellFormed n hrest hentities.2.2 hspares.2⟩
    intro m hm
    rcases mem_nodes_iff.mp hm with rfl | ⟨l, hl, rfl⟩
    · exact hentities.1
    · exact hentities.2.1 l hl

end

/-- Environments that show values with all their children. -/
structure Shows (plan : Plan) (view : View V) (envs : List (Env V)) : Prop where
  proper : ∀ env ∈ envs, plan.Proper view env
  same : ∀ n ∈ plan.nodes, ∀ env ∈ envs, ∀ env' ∈ envs, ∀ v v',
    env n.tableAlias = some v → env' n.tableAlias = some v' → view.id n v = view.id n v' → v = v'
  sound : ∀ env ∈ envs, ∀ l ∈ plan.links, l.Fits view.kids env
  complete : ∀ env ∈ envs, ∀ l ∈ plan.links, ∀ v, env l.parent.tableAlias = some v →
    ∀ k ∈ view.kids l v, ∃ found ∈ envs, found l.parent.tableAlias = some v ∧
      found l.child.tableAlias = some k
  ascending : ∀ env ∈ envs, ∀ l ∈ plan.links, ∀ v, env l.parent.tableAlias = some v →
    Ordered.Ascending EntityId.cmp ((view.kids l v).map (view.id l.child))

section nest

variable {separator : String} {plan : Plan} {view : View V} {envs : List (Env V)}

/-- The value of a node that some environment shows. -/
def Shown (envs : List (Env V)) (n : NodePlan) (v : V) : Prop :=
  ∃ env ∈ envs, env n.tableAlias = some v

/-- What is known of a value that is shown holds of its index entry. -/
structure Indexed (plan : Plan) (view : View V) (envs : List (Env V)) (index : RowIndex) :
    Prop where
  object : ∀ n ∈ plan.nodes, ∀ v, Shown envs n v →
    index.object? n.tableAlias (view.id n v) = some (view.fields n v)
  children : ∀ l ∈ plan.links, ∀ v, Shown envs l.parent v →
    index.children l.child.path (view.id l.parent v) = (view.kids l v).map (view.id l.child)
  shown : ∀ l ∈ plan.links, ∀ v, Shown envs l.parent v → ∀ k ∈ view.kids l v, Shown envs l.child k

/-- The index of the rows of environments has the fields and children of all that they show. -/
theorem Shows.indexed (h : plan.Clear separator) (hshows : plan.Shows view envs)
    {index : RowIndex} (hindex : RowIndex.Holds (plan.layout separator) plan.node.binding
      (plan.links.map fun l => ⟨l.parent.binding, l.child.binding⟩)
      (envs.map (plan.row separator view)) index) : plan.Indexed view envs index where
  object n hn v hv := by
    -- Whatever row has the id is the row of an environment that shows the same value, since ids
    -- tell values apart, so all such rows have the same fields.
    obtain ⟨env, henv, hv⟩ := hv
    have hproper := hshows.proper env henv
    refine (hindex.object n.binding (List.mem_map_of_mem hn) (view.id n v)).trans ?_
    refine RowIndex.objectOf?_of_forall ?_ ⟨_, List.mem_map_of_mem henv, ?_⟩ ?_
    · exact (hproper.names n hn v hv).nodup_iff.mpr (h.names n hn)
    · rw [h.idIn?_row hproper hn, hv]
      rfl
    · intro row hrow hid
      obtain ⟨other, hother, rfl⟩ := List.mem_map.mp hrow
      rw [h.idIn?_row (hshows.proper other hother) hn] at hid
      obtain ⟨v', hv', hid⟩ := Option.map_eq_some_iff.mp hid
      obtain rfl := hshows.same n hn other hother env henv v' v hv' hv hid
      exact (h.fieldsIn_row view other hn).trans (by rw [hv']; rfl)
  children l hl v hv := by
    obtain ⟨env, henv, hv⟩ := hv
    have hparent := parent_mem_nodes hl
    have hchild := child_mem_nodes hl
    refine (hindex.children _ (List.mem_map_of_mem hl) (view.id l.parent v)).trans ?_
    -- Two ascending lists with the same members are the same list.
    refine RowIndex.ascending_childrenOf.ext (hshows.ascending env henv l hl v hv) fun id => ?_
    rw [RowIndex.mem_childrenOf]
    constructor
    · -- A row links only a parent and a child of its own environment, which fits.
      rintro ⟨row, hrow, hpid, hcid⟩
      obtain ⟨other, hother, rfl⟩ := List.mem_map.mp hrow
      dsimp only at hpid hcid
      rw [h.idIn?_row (hshows.proper other hother) hparent] at hpid
      rw [h.idIn?_row (hshows.proper other hother) hchild] at hcid
      obtain ⟨v', hv', hpid⟩ := Option.map_eq_some_iff.mp hpid
      obtain ⟨k, hk, rfl⟩ := Option.map_eq_some_iff.mp hcid
      obtain rfl := hshows.same _ hparent other hother env henv v' v hv' hv hpid
      rcases hshows.sound other hother l hl with hnone | ⟨w, hw, k', hk', hsome⟩
      · rw [hk] at hnone; cases hnone
      · rw [hv'] at hw
        rw [hk] at hsome
        cases hw
        cases hsome
        exact List.mem_map_of_mem hk'
    · -- And some environment shows each child together with its parent.
      intro hid
      obtain ⟨k, hk, rfl⟩ := List.mem_map.mp hid
      obtain ⟨found, hfound, hpv, hck⟩ := hshows.complete env henv l hl v hv k hk
      refine ⟨_, List.mem_map_of_mem hfound, ?_, ?_⟩
      · exact (h.idIn?_row (hshows.proper found hfound) hparent).trans (by rw [hpv]; rfl)
      · exact (h.idIn?_row (hshows.proper found hfound) hchild).trans (by rw [hck]; rfl)
  shown l hl v hv k hk := by
    obtain ⟨env, henv, hv⟩ := hv
    obtain ⟨found, hfound, -, hck⟩ := hshows.complete env henv l hl v hv k hk
    exact ⟨found, hfound, hck⟩

/-- A relation has the objects of its children as its value. -/
theorem nestRelation_outcome {index : RowIndex} {layout : Layout} {child : SelectionNode}
    (field : String) (args : RelationArgs) {id : EntityId} {b : Binding} {m : Multiplicity}
    {kids : List V} {kidId : V → EntityId} {value : V → Json}
    (hb : layout.byPath? child.path = some b) (hm : b.multiplicity = some m)
    (hids : index.children child.path id = kids.map kidId)
    (hkids : ∀ k ∈ kids, (index.nest layout (kidId k) child).outcome = .ok (value k)) :
    (index.nestRelation layout id (.mk field args child)).outcome
      = .ok (field, m.value (kids.map value)) := by
  rw [RowIndex.nestRelation, hb, Option.bind_some, hm, Option.getD_some, hids]
  dsimp only
  cases m with
  | one =>
    cases kids with
    | nil => rfl
    | cons k rest =>
      have hfirst := hkids k List.mem_cons_self
      dsimp only [List.map_cons]
      split
      · exact Traced.outcome_bind_eq_ok_iff.mpr ⟨(), rfl,
          Traced.outcome_bind_eq_ok_iff.mpr ⟨value k, hfirst, rfl⟩⟩
      · exact Traced.outcome_bind_eq_ok_iff.mpr ⟨value k, hfirst, rfl⟩
  | many =>
    refine Traced.outcome_bind_eq_ok_iff.mpr ⟨kids.map value, ?_, rfl⟩
    rw [Traced.outcome_each_eq_ok_iff, List.forall₂_map_left_iff, List.forall₂_map_right_iff,
      List.forall₂_same]
    exact hkids

variable {index : RowIndex}

mutual

/-- The object of a value that is shown is nested into its unfolding. -/
theorem nest_eq (h : plan.Clear separator) (hindexed : plan.Indexed view envs index)
    (hmultiplicity : ∀ l ∈ plan.links, l.child.multiplicity = some l.edge.relation.multiplicity)
    (hnames : ∀ n ∈ plan.nodes, ∀ v, Shown envs n v →
      ((view.fields n v).map Prod.fst).Perm n.names) :
    ∀ {p : Plan}, p.node ∈ plan.nodes → (∀ l ∈ p.links, l ∈ plan.links) → p.FieldsApart →
      ∀ {v : V}, Shown envs p.node v →
        (index.nest (plan.layout separator) (view.id p.node v) p.selection).outcome
          = .ok (p.unfold view v)
  | .mk n branches, hn, hlinks, hapart, v, hv => by
    rw [Plan.node] at hn hv ⊢
    rw [Plan.selection, RowIndex.nest, h.byPath? hn, unfold]
    refine Traced.outcome_bind_eq_ok_iff.mpr
      ⟨view.fields n v ++ unfoldOf view n v branches, ?_, rfl⟩
    rw [show index.object? n.binding.tableAlias _ = _ from hindexed.object n hn v hv]
    refine nestRelations_eq h hindexed hmultiplicity hnames hlinks hapart.2 hv ?_
    exact ((hnames n hn v hv).append_right _).nodup_iff.mpr hapart.1

theorem nestRelations_eq (h : plan.Clear separator) (hindexed : plan.Indexed view envs index)
    (hmultiplicity : ∀ l ∈ plan.links, l.child.multiplicity = some l.edge.relation.multiplicity)
    (hnames : ∀ n ∈ plan.nodes, ∀ v, Shown envs n v →
      ((view.fields n v).map Prod.fst).Perm n.names) {n : NodePlan} :
    ∀ {branches : List Branch}, (∀ l ∈ linksOf n branches, l ∈ plan.links) →
      FieldsApartOf branches → ∀ {v : V}, Shown envs n v → ∀ {object : Json.Members},
        (object.map Prod.fst ++ branches.map Branch.field).Nodup →
        (index.nestRelations (plan.layout separator) (view.id n v) object
          (selectionsOf branches)).outcome = .ok (object ++ unfoldOf view n v branches)
  | [], _, _, v, _, object, _ => by
    rw [selectionsOf, RowIndex.nestRelations, unfoldOf, List.append_nil]
    rfl
  | .mk e below :: rest, hlinks, hapart, v, hv, object, hnodup => by
    rw [linksOf, List.forall_mem_cons, List.forall_mem_append] at hlinks
    obtain ⟨hlink, hbelow, hrest⟩ := hlinks
    have hpath : below.selection.path = below.node.path := by cases below; rfl
    have hrelation := nestRelation_outcome e.field e.args
      (hpath ▸ h.byPath? (child_mem_nodes hlink)) (hmultiplicity _ hlink)
      (hpath ▸ hindexed.children _ hlink v hv) fun k hk =>
        nest_eq h hindexed hmultiplicity hnames (child_mem_nodes hlink) hbelow hapart.1
          (hindexed.shown _ hlink v hv k hk)
    rw [selectionsOf, RowIndex.nestRelations]
    refine Traced.outcome_bind_eq_ok_iff.mpr ⟨_, hrelation, ?_⟩
    dsimp only
    rw [List.map_cons, Branch.field] at hnodup
    -- The field is new to the object, so its value is put at the end.
    have hnew : e.field ∉ object.map Prod.fst := fun hmem =>
      (List.nodup_append.mp hnodup).2.2 _ hmem _ List.mem_cons_self rfl
    rw [Json.put_of_not_mem _ hnew, unfoldOf]
    refine (nestRelations_eq h hindexed hmultiplicity hnames hrest hapart.2 hv ?_).trans ?_
    · simpa using hnodup
    · rw [List.append_assoc]
      rfl

end

/-- **Rows that show values with all their children are nested into the unfoldings of the roots**,
in the order in which the roots first appear. -/
theorem nest_rows (h : plan.Clear separator) (hshows : plan.Shows view envs)
    (hmultiplicity : ∀ l ∈ plan.links, l.child.multiplicity = some l.edge.relation.multiplicity)
    (hapart : plan.FieldsApart) (args : RootArgs) {roots : List V} {group : V → List (Env V)}
    (henvs : envs = roots.flatMap group) (hne : ∀ v ∈ roots, group v ≠ [])
    (hbase : ∀ v ∈ roots, ∀ env ∈ group v, env plan.node.tableAlias = some v)
    (hids : (roots.map (view.id plan.node)).Nodup) :
    (SelectionTree.nest ⟨plan.selection, args⟩ (plan.layout separator)
      ((envs.map (plan.row separator view)).map Json.object)).outcome
        = .ok (roots.map (plan.unfold view)) := by
  have hroot : plan.node ∈ plan.nodes := List.mem_cons_self
  have hshown : ∀ v ∈ roots, Shown envs plan.node v := by
    intro v hv
    obtain ⟨env, henv⟩ := List.exists_mem_of_ne_nil _ (hne v hv)
    refine ⟨env, ?_, hbase v hv env henv⟩
    rw [henvs]
    exact List.mem_flatMap.mpr ⟨v, hv, henv⟩
  unfold SelectionTree.nest
  -- Without rows there are no roots, for each root has a row.
  split
  · rename_i hempty
    have hroots : roots = [] := by
      cases roots with
      | nil => rfl
      | cons v rest =>
        obtain ⟨env, henv, -⟩ := hshown v List.mem_cons_self
        rw [List.isEmpty_iff, List.map_eq_nil_iff, List.map_eq_nil_iff] at hempty
        rw [hempty] at henv
        cases henv
    rw [hroots]
    rfl
  have hreads : ∀ row ∈ envs.map (plan.row separator view),
      (plan.layout separator).Reads plan.node.tableAlias row := by
    intro row hrow
    obtain ⟨env, henv, rfl⟩ := List.mem_map.mp hrow
    exact h.reads_row (hshows.proper env henv)
  obtain ⟨index, hindex, hholds⟩ := RowIndex.ofRows_outcome h.root? h.edges h.separated hreads
  have hindexed := hshows.indexed h hholds
  have hrootIds : index.rootIds = roots.map (view.id plan.node) := by
    rw [hholds.rootIds, henvs, List.map_flatMap]
    refine RowIndex.rootIdsOf_flatMap (fun v hv => ?_) (fun v hv row hrow => ?_) hids
    · simpa using hne v hv
    · obtain ⟨env, henv, rfl⟩ := List.mem_map.mp hrow
      have hmem : env ∈ envs := henvs ▸ List.mem_flatMap.mpr ⟨v, hv, henv⟩
      rw [h.idIn?_row (hshows.proper env hmem) hroot, hbase v hv env henv]
      rfl
  refine Traced.outcome_bind_eq_ok_iff.mpr ⟨index, hindex, Traced.outcome_bind_eq_ok_iff.mpr
    ⟨roots.map (plan.unfold view), ?_, Traced.outcome_bind_eq_ok_iff.mpr ⟨(), rfl, rfl⟩⟩⟩
  rw [hrootIds, Traced.outcome_each_eq_ok_iff, List.forall₂_map_left_iff,
    List.forall₂_map_right_iff, List.forall₂_same]
  exact fun v hv => nest_eq h hindexed hmultiplicity
    (fun n hn v ⟨env, henv, hv⟩ => (hshows.proper env henv).names n hn v hv) hroot
    (fun l hl => hl) hapart (hshown v hv)

end nest

end Plan
end NestedRead
