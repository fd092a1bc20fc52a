import NestedRead.Proofs.Naming.Alias
import NestedRead.Proofs.Query.Plan
import NestedRead.Proofs.Statement.Clauses

/-!
# Compiling follows a plan

A compilation that succeeds on a well-formed tree has a plan: a valid one, made for that tree, whose
bindings are those of the layout and whose clauses are those of the statement, with every alias
handed out once. `JoinPlan.nodes_eq_ok` is the induction over the tree; it takes one successful
run of the planner apart into its links. From it comes `SelectionTree.compile_eq_ok`, by which all
later proofs see a compiled statement: they never look at the planner again.
-/

set_option autoImplicit false

namespace NestedRead

def Compiling.clauses (trail : List Emission) : List Clause := trail.filterMap Emission.clause?

namespace Compiling

@[simp] theorem clauses_nil : clauses [] = [] := rfl

@[simp] theorem clauses_append (t u : List Emission) :
    clauses (t ++ u) = clauses t ++ clauses u := List.filterMap_append

@[simp] theorem clauses_map_clause {α : Type} (f : α → Clause) (xs : List α) :
    clauses (xs.map fun x => .clause (f x)) = xs.map f := by
  induction xs with
  | nil => rfl
  | cons x xs ih => rw [List.map_cons, List.map_cons, ← ih]; rfl

@[simp] theorem clauses_clause (c : Clause) (t : List Emission) :
    clauses (.clause c :: t) = c :: clauses t := rfl

@[simp] theorem clauses_notice (n : Notice) (t : List Emission) :
    clauses (.notice n :: t) = clauses t := rfl

/-- A notice on the way, given or not, leaves no clause. -/
theorem notice_or_not_eq_ok {α : Type} {b : Bool} {n : Notice} {f : Unit → Compiling α}
    {trail : List Emission} {a : α}
    (h : (if b = true then notice n >>= f else f ()) = ⟨trail, .ok a⟩) :
    ∃ u, f () = ⟨u, .ok a⟩ ∧ clauses trail = clauses u := by
  split at h
  · obtain ⟨u, hu, rfl⟩ := Traced.emitAll_bind_eq_ok_iff.mp h
    exact ⟨u, hu, rfl⟩
  · exact ⟨trail, h, rfl⟩

end Compiling

open Compiling (clauses)

namespace JoinPlan

/-- What is found for a relation field is its relation and the entity of its target. -/
theorem target_eq_ok_iff {plan : JoinPlan} {parent : Entity} {field : String} {relation : Relation}
    {child : Entity} : plan.target parent field = .ok (relation, child) ↔
      parent.relation? field = some relation ∧ plan.catalog.get? relation.target = some child := by
  unfold target
  constructor
  · intro h
    split at h
    · cases h
    · rename_i relation' hrelation
      split at h
      · cases h
      · rename_i child' hchild
        cases h
        exact ⟨hrelation, hchild⟩
  · rintro ⟨hrelation, hchild⟩
    simp only [hrelation, hchild]

/-- The conditions of a relation are those of its filter, and a cross join has none. -/
theorem joinConditions_eq_ok {kind : JoinKind} {field childAlias : String} {child : Entity}
    {filter : Option FilterExpr} {cs : List Condition}
    (h : joinConditions kind field child childAlias filter = .ok cs) :
    FilterScope.Conditions ⟨child, childAlias, .join⟩ filter cs ∧ (kind = .cross → cs = []) := by
  unfold joinConditions at h
  cases filter with
  | none =>
    obtain ⟨found, hfound, h⟩ := Outcome.bind_eq_ok_iff.mp h
    cases hfound
    dsimp only at h
    split at h <;> cases h
    exact ⟨rfl, fun _ => rfl⟩
  | some filter =>
    obtain ⟨found, hfound, h⟩ := Outcome.bind_eq_ok_iff.mp h
    dsimp only at h
    split at h <;> cases h
    rename_i hcross
    exact ⟨hfound, fun hkind => by simpa [hkind] using hcross⟩

/-- The joins of a relation are those of a link that has the alias of the table in between, and
that alias is the only one they take. -/
theorem forRelation_eq (parent child : NodePlan) (field : String) (args : RelationArgs)
    (relation : Relation) (kind : JoinKind) (conditions : List Condition)
    (aliases : AliasRegistry) :
    ∃ throughAlias : Option String, throughAlias.isSome = relation.through.isSome ∧
      (∀ t, relation.through = some t →
        ∃ registry : AliasRegistry, throughAlias = some (registry.choose t.bareTable)) ∧
      (Join.forRelation kind relation parent.tableAlias child.entity child.tableAlias conditions
        aliases).1 = Link.joins ⟨parent, ⟨field, args, relation, kind, throughAlias, conditions⟩,
          child⟩ ∧
      (Join.forRelation kind relation parent.tableAlias child.entity child.tableAlias conditions
        aliases).2.taken = throughAlias.toList ++ aliases.taken ∧
      ∀ a ∈ throughAlias, a ∉ aliases.taken := by
  unfold Join.forRelation Link.joins
  obtain ⟨target, fromColumn, toColumn, through, multiplicity⟩ := relation
  cases through with
  | none => exact ⟨none, rfl, by simp, rfl, rfl, by simp⟩
  | some through =>
    refine ⟨some (aliases.choose _), rfl, ?_, rfl, rfl, ?_⟩
    · rintro t ⟨⟩
      exact ⟨aliases, rfl⟩
    · rintro a ⟨⟩
      exact aliases.choose_not_mem _

/-- The aliases that some links take on the way from one registry to another: all of them were
free. -/
structure Takes (before after : AliasRegistry) (links : List Link) : Prop where
  taken : after.taken.Perm (links.flatMap Link.aliases ++ before.taken)
  nodup : before.taken.Nodup → after.taken.Nodup

theorem Takes.nil (registry : AliasRegistry) : Takes registry registry [] := ⟨.refl _, id⟩

theorem Takes.append {before between after : AliasRegistry} {ls ms : List Link}
    (hl : Takes before between ls) (hm : Takes between after ms) :
    Takes before after (ls ++ ms) := by
  refine ⟨hm.taken.trans ?_, fun h => hm.nodup (hl.nodup h)⟩
  rw [List.flatMap_append]
  refine (hl.taken.append_left _).trans ?_
  rw [← List.append_assoc]
  exact List.perm_append_comm.append_right _

/-- A successful run on a relation, step by step: what it looks up, the walk below the child, and
the clauses in their order. -/
theorem edge_run {plan : JoinPlan} {parent : Entity} {parentAlias field : String}
    {args : RelationArgs} {child : SelectionNode} {aliases aliases' : AliasRegistry}
    {bindings : List Binding} {trail : List Emission}
    (h : JoinPlan.edge plan parent parentAlias aliases (.mk field args child)
      = ⟨trail, .ok (bindings, aliases')⟩) :
    ∃ relation entity kind conditions joins between projections below rest,
      plan.target parent field = .ok (relation, entity) ∧
      JoinKind.ofWord args.joinType = .ok kind ∧
      joinConditions kind field entity (aliases.choose entity.name) args.joinFilter
        = .ok conditions ∧
      Join.forRelation kind relation parentAlias entity (aliases.choose entity.name) conditions
        (aliases.assign entity.name).2 = (joins, between) ∧
      entity.project (aliases.choose entity.name) plan.separator child.scalars
        = .ok projections ∧
      JoinPlan.node plan (aliases.choose entity.name) between child
        = ⟨rest, .ok (below, aliases')⟩ ∧
      bindings = ⟨child.path, aliases.choose entity.name, entity.name, entity.uniqueColumn,
        some relation.multiplicity⟩ :: below ∧
      clauses trail = joins.map Clause.join ++ .select projections :: clauses rest := by
  rw [JoinPlan.edge] at h
  -- What the run looks up before it emits anything.
  obtain ⟨⟨relation, entity⟩, htarget, h⟩ := Traced.ofExcept_bind_eq_ok_iff.mp h
  obtain ⟨kind, hkind, h⟩ := Traced.ofExcept_bind_eq_ok_iff.mp h
  obtain ⟨conditions, hconditions, h⟩ := Traced.ofExcept_bind_eq_ok_iff.mp h
  obtain ⟨t, h, hclauses⟩ := Compiling.notice_or_not_eq_ok h
  rcases hplanned : Join.forRelation kind relation parentAlias entity
    (aliases.choose entity.name) conditions (aliases.assign entity.name).2 with ⟨joins, between⟩
  simp only [AliasRegistry.assign] at h hplanned
  simp only [hplanned] at h
  -- What it emits, and the walk below the child.
  obtain ⟨t₁, h₁, rfl⟩ := Traced.emitAll_bind_eq_ok_iff.mp h
  obtain ⟨t₂, h₂, rfl⟩ := Traced.emitAll_bind_eq_ok_iff.mp h₁
  obtain ⟨projections, hprojections, h₃⟩ := Traced.ofExcept_bind_eq_ok_iff.mp h₂
  obtain ⟨t₄, h₄, rfl⟩ := Traced.emitAll_bind_eq_ok_iff.mp h₃
  obtain ⟨⟨below, after⟩, rest, v, hbelow, h₅, rfl⟩ := Traced.bind_eq_ok_iff.mp h₄
  obtain ⟨heq, rfl⟩ := Traced.pure_eq_ok_iff.mp h₅
  cases heq
  refine ⟨relation, entity, kind, conditions, joins, between, projections, below, rest, htarget,
    hkind, hconditions, hplanned, hprojections, hbelow, rfl, ?_⟩
  rw [hclauses]
  simp

/-- A relation that is planned successfully is a valid link, and what is left of the run is that of
the node below. -/
theorem edge_eq_ok {catalog : Catalog} {separator field : String} {args : RelationArgs}
    {parent : NodePlan} {child : SelectionNode} {aliases aliases' : AliasRegistry}
    {bindings : List Binding} {trail : List Emission} (hpath : child.path = parent.path.child field)
    (h : JoinPlan.edge ⟨catalog, separator⟩ parent.entity parent.tableAlias aliases
      (.mk field args child) = ⟨trail, .ok (bindings, aliases')⟩) :
    ∃ (e : EdgePlan) (n : NodePlan) (between : AliasRegistry) (below : List Binding)
      (rest : List Emission),
      e.field = field ∧ e.args = args ∧ n.path = child.path ∧ n.scalars = child.scalars ∧
      Link.Valid catalog separator ⟨parent, e, n⟩ ∧ Takes aliases between [⟨parent, e, n⟩] ∧
      JoinPlan.node ⟨catalog, separator⟩ n.tableAlias between child
        = ⟨rest, .ok (below, aliases')⟩ ∧
      bindings = n.binding :: below ∧
      clauses trail = Link.clauses ⟨parent, e, n⟩ ++ clauses rest := by
  obtain ⟨relation, entity, kind, conditions, joins, between, projections, below, rest, htarget,
    hkind, hconditions, hplanned, hprojections, hbelow, rfl, hclauses⟩ := edge_run h
  obtain ⟨hrelation, hentity⟩ := target_eq_ok_iff.mp htarget
  let n : NodePlan := ⟨entity, child.path, aliases.choose entity.name, some relation.multiplicity,
    child.scalars, projections⟩
  obtain ⟨throughAlias, hthrough, hbetween, hjoins, htaken, hfresh⟩ := forRelation_eq parent n field
    args relation kind conditions (aliases.assign entity.name).2
  simp only [n, hplanned] at hjoins htaken hfresh
  refine ⟨⟨field, args, relation, kind, throughAlias, conditions⟩, n, between, below, rest,
    rfl, rfl, rfl, rfl, ?_, ⟨?_, fun hnodup => ?_⟩, hbelow, rfl, ?_⟩
  · exact ⟨hrelation, hentity, hkind, hconditions, hthrough, hbetween, hpath, rfl, hprojections,
      aliases, rfl⟩
  · rw [htaken]
    simp only [List.flatMap_cons, List.flatMap_nil, List.append_nil, Link.aliases, n]
    exact List.perm_middle
  · rw [htaken]
    -- The child's alias is taken first, and the one of the table in between is free after it.
    have hchosen : (aliases.choose entity.name :: aliases.taken).Nodup :=
      List.nodup_cons.mpr ⟨aliases.choose_not_mem _, hnodup⟩
    cases throughAlias with
    | none => exact hchosen
    | some a => exact List.nodup_cons.mpr ⟨hfresh a rfl, hchosen⟩
  · rw [hclauses, Link.clauses, ← hjoins]
    simp [n]

mutual

/-- A successful walk below a node is a list of branches of it. -/
theorem node_eq_ok {catalog : Catalog} {separator : String} (parent : NodePlan)
    {aliases aliases' : AliasRegistry} {bindings : List Binding} {trail : List Emission} :
    ∀ {node : SelectionNode}, node.WellFormed catalog →
      catalog.get? node.entity = some parent.entity → node.path = parent.path →
      node.scalars = parent.scalars →
      JoinPlan.node ⟨catalog, separator⟩ parent.tableAlias aliases node
        = ⟨trail, .ok (bindings, aliases')⟩ →
      ∃ branches, (Plan.mk parent branches).selection = node ∧
        bindings = (Plan.linksOf parent branches).map (·.child.binding) ∧
        clauses trail = (Plan.linksOf parent branches).flatMap Link.clauses ∧
        (∀ l ∈ Plan.linksOf parent branches, l.Valid catalog separator) ∧
        Takes aliases aliases' (Plan.linksOf parent branches)
  | .mk name path scalars relations, hwf, hentity, hpath, hscalars, h => by
    -- The recursion follows that of the walk: a node is the walk over its relations.
    obtain ⟨entity, hget, -, -, -, hrels⟩ := hwf
    cases hget.symm.trans hentity
    rw [JoinPlan.node] at h
    simp only [hget] at h
    obtain ⟨branches, hsel, hrest⟩ := nodes_eq_ok (by rw [← hpath]; exact hrels) h
    refine ⟨branches, ?_, hrest⟩
    rw [Plan.selection, hsel, ← hpath, ← hscalars, Catalog.name_of_get? hentity]
    rfl

/-- A successful walk over relations is a list of branches. -/
theorem nodes_eq_ok {catalog : Catalog} {separator : String} {parent : NodePlan} :
    ∀ {relations : List RelationSelection} {aliases aliases' : AliasRegistry}
      {bindings : List Binding} {trail : List Emission},
      SelectionNode.RelationsWellFormed catalog parent.entity parent.path relations →
      JoinPlan.nodes ⟨catalog, separator⟩ parent.entity parent.tableAlias aliases relations
        = ⟨trail, .ok (bindings, aliases')⟩ →
      ∃ branches, Plan.selectionsOf branches = relations ∧
        bindings = (Plan.linksOf parent branches).map (·.child.binding) ∧
        clauses trail = (Plan.linksOf parent branches).flatMap Link.clauses ∧
        (∀ l ∈ Plan.linksOf parent branches, l.Valid catalog separator) ∧
        Takes aliases aliases' (Plan.linksOf parent branches)
  | [], aliases, aliases', bindings, trail, _, h => by
    rw [JoinPlan.nodes, Traced.pure_eq_ok_iff] at h
    obtain ⟨heq, rfl⟩ := h
    cases heq
    exact ⟨[], rfl, rfl, rfl, by simp [Plan.linksOf], .nil aliases⟩
  | .mk field args child :: rest, aliases, aliases', bindings, trail, hwf, h => by
    obtain ⟨⟨relation, hrelation, htarget⟩, hpath, hchild, hrest⟩ := hwf
    rw [JoinPlan.nodes] at h
    obtain ⟨⟨first, between⟩, t, u, hfirst, h₁, rfl⟩ := Traced.bind_eq_ok_iff.mp h
    obtain ⟨⟨more, after⟩, v, w, hmore, h₂, rfl⟩ := Traced.bind_eq_ok_iff.mp h₁
    obtain ⟨heq, rfl⟩ := Traced.pure_eq_ok_iff.mp h₂
    cases heq
    obtain ⟨e, n, inner, below, rest', rfl, rfl, hnpath, hscalars, hvalid, htakes, hnode, rfl,
      hclauses⟩ := edge_eq_ok hpath hfirst
    -- The child is made for the entity that its relation leads to.
    have hentity : catalog.get? child.entity = some n.entity := by
      rw [htarget]
      cases hrelation.symm.trans hvalid.relation
      exact hvalid.target
    obtain ⟨branches, hsel, rfl, hbelow, hbvalid, hbtakes⟩ :=
      node_eq_ok n hchild hentity hnpath.symm hscalars.symm hnode
    obtain ⟨more', hmsel, rfl, hmclauses, hmvalid, hmtakes⟩ := nodes_eq_ok hrest hmore
    refine ⟨.mk e (.mk n branches) :: more', ?_, ?_, ?_, ?_, ?_⟩
    · rw [Plan.selectionsOf, hsel, hmsel]
    · simp [Plan.linksOf, Plan.links, Plan.node]
    · simp [Plan.linksOf, Plan.links, Plan.node, hclauses, hbelow, hmclauses]
    · intro l hl
      rw [Plan.linksOf, List.mem_cons, List.mem_append] at hl
      rcases hl with rfl | hl | hl
      · exact hvalid
      · exact hbvalid l hl
      · exact hmvalid l hl
    · exact (htakes.append (hbtakes.append hmtakes))

end

end JoinPlan

/-! ## The clauses of the root -/

theorem Plan.ofClauses_clauses (plan : Plan) (root : RootPlan) :
    Statement.ofClauses (plan.clauses root) = plan.statement root := by
  obtain ⟨filters, groupBy, having, orderBy, limit, offset, distinct⟩ := root
  rw [Statement.ofClauses_eq, Plan.clauses]
  unfold Plan.statement RootPlan.clauses Plan.nodes Link.clauses
  rw [Statement.mk.injEq]
  cases limit <;> cases offset <;> cases distinct <;>
    simp [Clause.sources, Clause.projections, Clause.joins, Clause.filters, Clause.groupings,
      Clause.havings, Clause.orderings, Clause.limits, Clause.offsets, Clause.isDistinct,
      List.flatMap_map, List.flatMap_assoc, flatMap_nil_right, Function.comp_def]

namespace Compiling

theorem filterTerms_eq_ok {scope : FilterScope} {filter : Option FilterExpr} {ts : List Term}
    {trail : List Emission} (h : filterTerms scope filter = ⟨trail, .ok ts⟩) :
    RootPlan.FilterTerms scope filter ts ∧ trail = [] := by
  cases filter with
  | none => cases h; exact ⟨rfl, rfl⟩
  | some filter =>
    rw [filterTerms, check, Traced.ofExcept, Traced.mk.injEq] at h
    exact ⟨h.2, h.1.symm⟩

theorem groupings_eq_ok {entity : Entity} {base : String} :
    ∀ {names : List String} {trail : List Emission},
      groupings entity base names = ⟨trail, .ok ()⟩ →
      ∃ columns, clauses trail = columns.map Clause.groupBy ∧
        List.Forall₂ (fun name column => entity.plainColumn base name = .ok column) names columns
  | [], trail, h => by cases h; exact ⟨[], rfl, .nil⟩
  | name :: rest, trail, h => by
    rw [groupings] at h
    obtain ⟨column, hcolumn, h₁⟩ := Traced.ofExcept_bind_eq_ok_iff.mp h
    obtain ⟨t, h₂, rfl⟩ := Traced.emitAll_bind_eq_ok_iff.mp h₁
    obtain ⟨columns, hclauses, hcolumns⟩ := groupings_eq_ok h₂
    exact ⟨column :: columns, by simp [hclauses], .cons hcolumn hcolumns⟩

theorem orderings_eq_ok {entity : Entity} {base : String} :
    ∀ {items : List OrderItem} {trail : List Emission},
      orderings entity base items = ⟨trail, .ok ()⟩ →
      ∃ found, clauses trail = found.map (fun ordering => Clause.orderBy ordering.1 ordering.2) ∧
        List.Forall₂ (fun (item : OrderItem) (ordering : ColumnRef × SortDirection) =>
          SortDirection.ofWord item.direction = .ok ordering.2 ∧
            entity.column base item.column = .ok ordering.1) items found
  | [], trail, h => by cases h; exact ⟨[], rfl, .nil⟩
  | item :: rest, trail, h => by
    rw [orderings] at h
    obtain ⟨direction, hdirection, h₁⟩ := Traced.ofExcept_bind_eq_ok_iff.mp h
    obtain ⟨column, hcolumn, h₂⟩ := Traced.ofExcept_bind_eq_ok_iff.mp h₁
    obtain ⟨t, h₃, rfl⟩ := Traced.emitAll_bind_eq_ok_iff.mp h₂
    obtain ⟨found, hclauses, hfound⟩ := orderings_eq_ok h₃
    exact ⟨(column, direction) :: found, by simp [hclauses], .cons ⟨hdirection, hcolumn⟩ hfound⟩

/-- A limit is found without a clause, clamped or not. -/
theorem effectiveLimit_eq_ok {config : Config} {requested limit : Option Nat}
    {trail : List Emission}
    (h : (config.effectiveLimit requested).bimap Emission.notice id = ⟨trail, .ok limit⟩) :
    limit = (config.limit? requested).map (·.1) ∧ clauses trail = [] := by
  unfold Config.effectiveLimit at h
  split at h
  · rename_i n asked hlimit hasked
    cases h
    exact ⟨by rw [hlimit]; rfl, rfl⟩
  · cases h
    exact ⟨rfl, rfl⟩

/-- The clauses of the root are what its arguments ask for, in a fixed order. -/
theorem rootClauses_eq_ok {config : Config} {entity : Entity} {args : RootArgs}
    {trail : List Emission} (h : rootClauses config entity args = ⟨trail, .ok ()⟩) :
    ∃ root : RootPlan, root.Valid config entity args ∧ clauses trail = root.clauses := by
  unfold rootClauses at h
  obtain ⟨filters, _, _, hrun, h₁, rfl⟩ := Traced.bind_eq_ok_iff.mp h
  obtain ⟨hfilters, rfl⟩ := filterTerms_eq_ok hrun
  obtain ⟨_, h₂, rfl⟩ := Traced.emitAll_bind_eq_ok_iff.mp h₁
  obtain ⟨_, _, _, hgroupings, h₃, rfl⟩ := Traced.bind_eq_ok_iff.mp h₂
  obtain ⟨groupBy, hgclauses, hgroupBy⟩ := groupings_eq_ok hgroupings
  obtain ⟨having, _, _, hrun', h₄, rfl⟩ := Traced.bind_eq_ok_iff.mp h₃
  obtain ⟨hhaving, rfl⟩ := filterTerms_eq_ok hrun'
  obtain ⟨_, h₅, rfl⟩ := Traced.emitAll_bind_eq_ok_iff.mp h₄
  obtain ⟨_, _, _, horderings, h₆, rfl⟩ := Traced.bind_eq_ok_iff.mp h₅
  obtain ⟨orderBy, hoclauses, horderBy⟩ := orderings_eq_ok horderings
  obtain ⟨limit, _, _, hrun'', h₇, rfl⟩ := Traced.bind_eq_ok_iff.mp h₆
  obtain ⟨hlimit, hlclauses⟩ := effectiveLimit_eq_ok hrun''
  refine ⟨⟨filters, groupBy, having, orderBy, limit, args.offset, args.distinct⟩,
    ⟨hfilters, hgroupBy, hhaving, horderBy, hlimit, rfl, rfl⟩, ?_⟩
  -- What is left emits the last three clauses, each or nothing.
  cases limit <;> cases hoffset : args.offset <;> cases hdistinct : args.distinct <;>
    simp only [hoffset, hdistinct] at h₇ <;> cases h₇ <;>
    simp [RootPlan.clauses, hgclauses, hoclauses, hlclauses, clause, Traced.bind_eq, Traced.bind]

end Compiling

/-! ## The whole tree -/

namespace SelectionTree

/-- A tree that is assembled, step by step. -/
theorem assemble_run {catalog : Catalog} {config : Config} {tree : SelectionTree}
    {layout : Layout} {trail : List Emission}
    (h : tree.assemble catalog config = ⟨trail, .ok layout⟩) :
    ∃ entity projections below aliases walk, ∃ root : RootPlan,
      catalog.get? tree.root.entity = some entity ∧
      entity.project config.baseAlias config.aliasSeparator tree.root.scalars
        = .ok projections ∧
      JoinPlan.node ⟨catalog, config.aliasSeparator⟩ config.baseAlias
        (.withBase config.baseAlias) tree.root = ⟨walk, .ok (below, aliases)⟩ ∧
      root.Valid config entity tree.args ∧
      layout = ⟨config.aliasSeparator, ⟨tree.root.path, config.baseAlias, entity.name,
        entity.uniqueColumn, none⟩ :: below⟩ ∧
      clauses trail = .source entity.table config.baseAlias :: .select projections ::
        (clauses walk ++ root.clauses) := by
  unfold assemble at h
  split at h
  · cases h
  rename_i entity hentity
  obtain ⟨_, h₁, rfl⟩ := Traced.emitAll_bind_eq_ok_iff.mp h
  obtain ⟨projections, hprojections, h₂⟩ := Traced.ofExcept_bind_eq_ok_iff.mp h₁
  obtain ⟨_, h₃, rfl⟩ := Traced.emitAll_bind_eq_ok_iff.mp h₂
  obtain ⟨⟨below, aliases⟩, t, _, hnode, h₄, rfl⟩ := Traced.bind_eq_ok_iff.mp h₃
  obtain ⟨_, u, _, hargs, h₅, rfl⟩ := Traced.bind_eq_ok_iff.mp h₄
  obtain ⟨rfl, rfl⟩ := Traced.pure_eq_ok_iff.mp h₅
  obtain ⟨root, hroot, hclauses⟩ := Compiling.rootClauses_eq_ok hargs
  refine ⟨entity, projections, below, aliases, t, root, hentity, hprojections, hnode, hroot, rfl,
    ?_⟩
  simp [hclauses]

/-- The clauses of a tree that is assembled follow a plan for it. -/
theorem assemble_eq_ok {catalog : Catalog} {config : Config} {tree : SelectionTree}
    {layout : Layout} {trail : List Emission} (hroot : tree.root.WellFormed catalog)
    (h : tree.assemble catalog config = ⟨trail, .ok layout⟩) :
    ∃ (plan : Plan) (root : RootPlan), plan.For catalog config tree ∧
      root.Valid config plan.node.entity tree.args ∧
      layout = ⟨config.aliasSeparator, plan.bindings⟩ ∧ clauses trail = plan.clauses root := by
  obtain ⟨entity, projections, below, aliases, walk, root, hentity, hprojections, hnode, hargs,
    rfl, hclauses⟩ := assemble_run h
  let n : NodePlan := ⟨entity, tree.root.path, config.baseAlias, none, tree.root.scalars,
    projections⟩
  have hname := Catalog.name_of_get? hentity
  obtain ⟨branches, hsel, rfl, hbelow, hvalid, htakes⟩ :=
    JoinPlan.node_eq_ok n hroot hentity rfl rfl hnode
  refine ⟨.mk n branches, root, ⟨hsel, ⟨?_, hprojections, hvalid⟩, rfl, rfl, ?_⟩, hargs, ?_, ?_⟩
  · rw [← hname] at hentity
    exact hentity
  · have hnodup := htakes.taken.nodup_iff.mp (htakes.nodup (List.nodup_singleton _))
    exact List.perm_append_singleton _ _ |>.nodup_iff.mp hnodup
  · simp [Plan.bindings, Plan.nodes, Plan.node, Plan.links, NodePlan.binding, n]
  · rw [hclauses, hbelow]
    simp [Plan.clauses, Plan.node, Plan.links, n]

/-- A compiled tree was assembled, and its statement is what the clauses make. -/
theorem compile_run {catalog : Catalog} {config : Config} {tree : SelectionTree}
    {compiled : CompiledRead} (h : (tree.compile catalog config).outcome = .ok compiled) :
    ∃ trail, tree.assemble catalog config = ⟨trail, .ok compiled.layout⟩ ∧
      compiled.statement = Statement.ofClauses (clauses trail) := by
  unfold compile at h
  dsimp only at h
  rcases hassembled : tree.assemble catalog config with ⟨trail, outcome⟩
  rw [hassembled] at h
  cases outcome with
  | error e => cases h
  | ok layout =>
    cases h
    exact ⟨trail, rfl, rfl⟩

/-- A compiled tree follows a plan: its statement and its layout are those of the plan. -/
theorem compile_eq_ok {catalog : Catalog} {config : Config} {tree : SelectionTree}
    {compiled : CompiledRead} (hroot : tree.root.WellFormed catalog)
    (h : (tree.compile catalog config).outcome = .ok compiled) :
    ∃ (plan : Plan) (root : RootPlan), plan.For catalog config tree ∧
      root.Valid config plan.node.entity tree.args ∧
      compiled = ⟨plan.statement root, ⟨config.aliasSeparator, plan.bindings⟩⟩ := by
  obtain ⟨trail, hassembled, hstatement⟩ := compile_run h
  obtain ⟨plan, root, hfor, hvalid, hlayout, hclauses⟩ := assemble_eq_ok hroot hassembled
  refine ⟨plan, root, hfor, hvalid, ?_⟩
  obtain ⟨statement, layout⟩ := compiled
  dsimp only at hstatement hlayout
  rw [hstatement, hlayout, hclauses, Plan.ofClauses_clauses]

end SelectionTree

/-! ## What the tree of the library compiles to -/

namespace Sample

def compiled : CompiledRead where
  statement :=
    { source := some ("authors", "base")
      projections := [⟨.qualified "base" "name", "base___name"⟩,
        ⟨.qualified "base" "id", "base___id"⟩, ⟨.qualified "Book" "title", "Book___title"⟩,
        ⟨.qualified "Book" "id", "Book___id"⟩, ⟨.qualified "Book_2" "title", "Book_2___title"⟩,
        ⟨.qualified "Book_2" "id", "Book_2___id"⟩]
      joins := [⟨.left, "books", "Book", [.compareColumns (.qualified "base" "id") .eq
            (.qualified "Book" "author_id"), .compare (.qualified "Book" "title") .is .null]⟩,
        ⟨.left, "links", "links", [.compareColumns (.qualified "Book" "id") .eq
            (.qualified "links" "from_id")]⟩,
        ⟨.left, "books", "Book_2", [.compareColumns (.qualified "links" "to_id") .eq
            (.qualified "Book_2" "id")]⟩]
      filters := [(.and, .compare (.qualified "base" "name") .ne (.string "Anon"))] }
  layout := ⟨"___", [⟨.root, "base", "Author", "id", none⟩,
    ⟨⟨["books"]⟩, "Book", "Book", "id", some .many⟩,
    ⟨⟨["books", "sequel"]⟩, "Book_2", "Book", "id", some .one⟩]⟩

theorem compile_tree : (tree.compile catalog {}).outcome = .ok compiled := rfl

end Sample
end NestedRead
