import NestedRead.Proofs.Query.Mirror
import NestedRead.Proofs.Selection.Edges
import NestedRead.Proofs.Selection.Failures

/-!
# Errors of compiling a tree

Compiling looks entities and relations up again: the entity of a node, a relation of that entity and
the entity that the relation leads to. On a tree that was built none of these look-ups fails, at any
node. What is left to go wrong with a relation is its kind, the conditions of its filter and the
columns of its child (`Descent.Fails`), and the planner fails only with such an error.

A relation is planned in five steps. `JoinPlan.failsOnly_edge` says of one relation that it fails
only where a step after the look-up does; the induction over the tree then goes along the nodes and
their relations, as the planner does.
-/

set_option autoImplicit false

namespace NestedRead

open CompileError (InClause)
open Outcome (FailsOnly)

/-! ## Columns and filters -/

namespace Entity

variable {entity : Entity}

theorem failsOnly_plainColumn (tableAlias name : String) :
    FailsOnly InClause (entity.plainColumn tableAlias name) := by
  unfold plainColumn
  split
  · exact .ok _
  · exact .error trivial

theorem failsOnly_column (tableAlias name : String) :
    FailsOnly InClause (entity.column tableAlias name) := by
  unfold column
  split
  · exact failsOnly_plainColumn tableAlias name
  · split
    · exact .error trivial
    · split
      · exact .ok _
      · exact .error trivial

theorem failsOnly_projectionsOf (tableAlias separator : String) (names : List String) :
    FailsOnly InClause (entity.projectionsOf tableAlias separator names) := by
  induction names with
  | nil => exact .ok []
  | cons name rest ih =>
    apply (failsOnly_column tableAlias name).bind
    intro column _
    exact ih.bind_pure

theorem failsOnly_project (tableAlias separator : String) (names : List String) :
    FailsOnly InClause (entity.project tableAlias separator names) := by
  apply (failsOnly_projectionsOf tableAlias separator names).bind
  intro projections _
  split
  · exact .ok _
  · exact .ok _

end Entity

theorem FilterOperator.failsOnly_ofName (name : String) : FailsOnly InClause (ofName name) := by
  intro e h
  unfold ofName at h
  split at h <;> cases h
  trivial

namespace Condition

theorem failsOnly_ofComparison (column : ColumnRef) (name : String) (comparison : Comparison)
    (value : Json) : FailsOnly InClause (ofComparison column name comparison value) := by
  unfold ofComparison
  split
  · split
    · exact .ok _
    · exact .ok _
    · exact .error trivial
  · split
    · exact .ok _
    · exact .error trivial

theorem failsOnly_ofOperator (column : ColumnRef) (name : String) (value : Json) :
    FailsOnly InClause (ofOperator column name value) := by
  apply (FilterOperator.failsOnly_ofName name).bind
  intro operator _
  cases operator with
  | compare comparison => exact failsOnly_ofComparison column name comparison value
  | member negated =>
    dsimp only
    split
    · exact .ok _
    · exact .error trivial
  | between negated =>
    dsimp only
    split
    · exact .ok _
    · exact .error trivial

theorem failsOnly_ofOperators (column : ColumnRef) (operators : List (String × Json)) :
    FailsOnly InClause (ofOperators column operators) := by
  induction operators with
  | nil => exact .ok []
  | cons o rest ih =>
    apply (failsOnly_ofOperator column o.1 o.2).bind
    intro condition _
    exact ih.bind_pure

end Condition

namespace FilterScope

variable {scope : FilterScope}

theorem failsOnly_column (name : String) : FailsOnly InClause (scope.column name) := by
  unfold column
  split
  · exact Entity.failsOnly_column _ _
  · exact Entity.failsOnly_plainColumn _ _
  · exact Entity.failsOnly_plainColumn _ _

theorem failsOnly_fieldTerms (fields : List FieldFilter) :
    FailsOnly InClause (scope.fieldTerms fields) := by
  induction fields with
  | nil => exact .ok []
  | cons f rest ih =>
    have hfield : FailsOnly InClause (scope.fieldConditions f) := by
      unfold fieldConditions
      split
      · exact .error trivial
      · apply (failsOnly_column f.field).bind
        intro column _
        exact Condition.failsOnly_ofOperators column f.operators
    apply hfield.bind
    intro conditions _
    exact ih.bind_pure

mutual

theorem failsOnly_terms : ∀ filter : FilterExpr, FailsOnly InClause (scope.terms filter)
  | ⟨fields, allOf, anyOf⟩ => by
    rw [terms]
    split
    · exact .error trivial
    · apply (failsOnly_fieldTerms fields).bind
      intro fieldTerms _
      apply (failsOnly_groups .and allOf).bind
      intro allTerms _
      exact (failsOnly_groups .or anyOf).bind_pure

theorem failsOnly_groups (conjunction : Conjunction) : ∀ members : List FilterExpr,
    FailsOnly InClause (scope.groups conjunction members)
  | [] => .ok []
  | member :: rest => by
    rw [groups]
    apply (failsOnly_terms member).bind
    intro inner _
    exact (failsOnly_groups conjunction rest).bind_pure

end

end FilterScope

/-! ## Words -/

theorem JoinKind.failsOnly_ofWord (word : Option String) : FailsOnly InClause (ofWord word) := by
  intro e h
  unfold ofWord at h
  split at h
  · cases h
  · split at h <;> cases h
    trivial

theorem SortDirection.failsOnly_ofWord (word : Option String) :
    FailsOnly InClause (ofWord word) := by
  intro e h
  unfold ofWord at h
  split at h
  · cases h
  · split at h <;> cases h
    trivial

/-! ## Relations -/

/-- What goes wrong with a relation once it is found in the catalog: its kind is no word for one,
its filter does not compile or is not taken by a cross join, or its child lacks a column. -/
inductive Descent.Fails (catalog : Catalog) (separator : String) (d : Descent) :
    CompileError → Prop
  | kind {relation : Relation} {child : Entity} {e : CompileError}
      (resolves : d.Resolves catalog relation child)
      (fails : JoinKind.ofWord d.relation.args.joinType = .error e) :
      Fails catalog separator d e
  | conditions {relation : Relation} {child : Entity} {kind : JoinKind} {childAlias : String}
      {e : CompileError} (resolves : d.Resolves catalog relation child)
      (requested : JoinKind.ofWord d.relation.args.joinType = .ok kind)
      (fails : JoinPlan.joinConditions kind d.relation.field child childAlias
        d.relation.args.joinFilter = .error e) :
      Fails catalog separator d e
  | columns {relation : Relation} {child : Entity} {childAlias : String} {e : CompileError}
      (resolves : d.Resolves catalog relation child)
      (fails : child.project childAlias separator d.relation.node.scalars = .error e) :
      Fails catalog separator d e

namespace JoinPlan

theorem failsOnly_joinConditions (kind : JoinKind) (field : String) (child : Entity)
    (childAlias : String) (filter : Option FilterExpr) :
    FailsOnly InClause (joinConditions kind field child childAlias filter) := by
  have hcross : ∀ conditions : List Condition, FailsOnly InClause
      (if kind = .cross ∧ !conditions.isEmpty then
        .error (.invalidOperand "on" (.crossJoinCondition field)) else pure conditions) := by
    intro conditions
    split
    · exact .error trivial
    · exact .ok conditions
  cases filter with
  | none => exact hcross []
  | some filter =>
    apply (FilterScope.failsOnly_terms filter).bind_pure.bind
    intro conditions _
    exact hcross conditions

end JoinPlan

theorem Descent.Fails.inClause {catalog : Catalog} {separator : String} {d : Descent}
    {e : CompileError} (h : d.Fails catalog separator e) : e.InClause := by
  cases h with
  | kind _ fails => exact JoinKind.failsOnly_ofWord _ e fails
  | conditions _ _ fails => exact JoinPlan.failsOnly_joinConditions _ _ _ _ _ e fails
  | columns _ fails => exact Entity.failsOnly_project _ _ _ e fails

/-- A notice on the way, given or not, does not fail. -/
theorem Compiling.failsOnly_notice_or_not {kind : CompileError → Prop} {α : Type} {b : Bool}
    {n : Notice} {f : Unit → Compiling α} (hf : Traced.FailsOnly kind (f ())) :
    Traced.FailsOnly kind (if b = true then Compiling.notice n >>= f else f ()) := by
  split
  · exact .emit_bind hf
  · exact hf

namespace JoinPlan

/-- A relation that is found fails only where its kind, its conditions, the columns of its child or
the walk below the child do. -/
theorem failsOnly_edge {kind : CompileError → Prop} {plan : JoinPlan} {parent entity : Entity}
    {field : String} {relation : Relation} {args : RelationArgs} {child : SelectionNode}
    (htarget : plan.target parent field = .ok (relation, entity))
    (hkind : FailsOnly kind (JoinKind.ofWord args.joinType))
    (hconditions : ∀ joinKind childAlias, JoinKind.ofWord args.joinType = .ok joinKind →
      FailsOnly kind (joinConditions joinKind field entity childAlias args.joinFilter))
    (hproject : ∀ childAlias,
      FailsOnly kind (entity.project childAlias plan.separator child.scalars))
    (hbelow : ∀ childAlias aliases, Traced.FailsOnly kind (node plan childAlias aliases child))
    (parentAlias : String) (aliases : AliasRegistry) :
    Traced.FailsOnly kind (edge plan parent parentAlias aliases (.mk field args child)) := by
  rw [edge, htarget, Compiling.check, Traced.ofExcept_ok_bind]
  dsimp only
  refine .ofExcept_bind hkind fun joinKind hrequested => ?_
  refine .ofExcept_bind (hconditions joinKind _ hrequested) fun filter _ => ?_
  refine Compiling.failsOnly_notice_or_not ?_
  -- The joins are emitted whatever the columns are.
  refine .emitAll_bind (.emit_bind ?_)
  refine .ofExcept_bind (hproject _) fun projections _ => ?_
  refine .emit_bind ?_
  exact (hbelow _ _).bind_pure

variable {catalog : Catalog} {separator : String}

mutual

/-- Below a well-formed node the planner fails only with what goes wrong with a relation that it has
found. -/
theorem failsOnly_node : ∀ {s : SelectionNode}, s.WellFormed catalog →
    ∀ (parentAlias : String) (aliases : AliasRegistry),
      Traced.FailsOnly (fun e => ∃ d ∈ s.descents, d.Fails catalog separator e)
        (node ⟨catalog, separator⟩ parentAlias aliases s)
  | .mk name path scalars relations, h, parentAlias, aliases => by
    obtain ⟨entity, hentity, -, -, -, hrelations⟩ := h
    rw [node, SelectionNode.descents]
    dsimp only
    rw [hentity]
    have hparent : catalog.get? (SelectionNode.mk name path scalars relations).entity
      = some entity := hentity
    exact failsOnly_nodes hparent hrelations parentAlias aliases

theorem failsOnly_nodes {parent : SelectionNode} {entity : Entity}
    (hentity : catalog.get? parent.entity = some entity) :
    ∀ {relations : List RelationSelection},
      SelectionNode.RelationsWellFormed catalog entity parent.path relations →
        ∀ (parentAlias : String) (aliases : AliasRegistry),
          Traced.FailsOnly (fun e => ∃ d ∈ parent.descentsFrom relations,
            d.Fails catalog separator e)
            (nodes ⟨catalog, separator⟩ entity parentAlias aliases relations)
  | [], _, _, _ => by
    rw [nodes]
    exact .pure _
  | .mk field args child :: rest, h, parentAlias, aliases => by
    obtain ⟨⟨relation, hrelation, hchildEntity⟩, -, hchild, hrest⟩ := h
    -- The child is well formed, so that the target of the relation is there.
    obtain ⟨target, htarget, -⟩ := hchild.exists_selects
    rw [hchildEntity] at htarget
    have hresolves : Descent.Resolves catalog ⟨parent, .mk field args child⟩ relation target :=
      ⟨⟨entity, hentity, hrelation⟩, htarget⟩
    have hfound : JoinPlan.target ⟨catalog, separator⟩ entity field = .ok (relation, target) :=
      target_eq_ok_iff.mpr ⟨hrelation, htarget⟩
    rw [nodes, SelectionNode.descentsFrom]
    refine .bind ?_ fun ⟨first, between⟩ _ => ?_
    · refine failsOnly_edge hfound ?_ ?_ ?_ ?_ parentAlias aliases
      · intro e he
        exact ⟨_, List.mem_cons_self, .kind hresolves he⟩
      · intro joinKind childAlias hrequested e he
        exact ⟨_, List.mem_cons_self, .conditions hresolves hrequested he⟩
      · intro childAlias e he
        exact ⟨_, List.mem_cons_self, .columns hresolves he⟩
      · intro childAlias between
        refine (failsOnly_node hchild childAlias between).mono ?_
        rintro e ⟨d, hd, hfails⟩
        exact ⟨d, List.mem_cons_of_mem _ (List.mem_append_left _ hd), hfails⟩
    · refine .bind_pure ((failsOnly_nodes hentity hrest parentAlias between).mono ?_)
      rintro e ⟨d, hd, hfails⟩
      exact ⟨d, List.mem_cons_of_mem _ (List.mem_append_right _ hd), hfails⟩

end

end JoinPlan

/-! ## The clauses of the root -/

namespace Compiling

variable {entity : Entity}

theorem failsOnly_filterTerms (scope : FilterScope) (filter : Option FilterExpr) :
    Traced.FailsOnly InClause (filterTerms scope filter) := by
  cases filter with
  | none => exact .pure []
  | some filter => exact FilterScope.failsOnly_terms filter

theorem failsOnly_groupings (base : String) (names : List String) :
    Traced.FailsOnly InClause (groupings entity base names) := by
  induction names with
  | nil => exact .pure ()
  | cons name rest ih =>
    refine .ofExcept_bind (Entity.failsOnly_plainColumn base name) fun column _ => ?_
    exact .emit_bind ih

theorem failsOnly_orderings (base : String) (items : List OrderItem) :
    Traced.FailsOnly InClause (orderings entity base items) := by
  induction items with
  | nil => exact .pure ()
  | cons item rest ih =>
    refine .ofExcept_bind (SortDirection.failsOnly_ofWord item.direction) fun direction _ => ?_
    refine .ofExcept_bind (Entity.failsOnly_column base item.column) fun column _ => ?_
    exact .emit_bind ih

/-- A limit that is asked for is clamped and never refused. -/
theorem failsOnly_effectiveLimit (config : Config) (requested : Option Nat) :
    Traced.FailsOnly InClause ((config.effectiveLimit requested).bimap Emission.notice id) := by
  unfold Config.effectiveLimit
  split
  · exact .ok _
  · exact .ok _

theorem failsOnly_rootClauses (config : Config) (args : RootArgs) :
    Traced.FailsOnly InClause (rootClauses config entity args) := by
  unfold rootClauses
  refine .bind (failsOnly_filterTerms _ args.filter) fun filters _ => ?_
  refine .emitAll_bind (.bind (failsOnly_groupings _ args.groupBy) fun _ _ => ?_)
  refine .bind (failsOnly_filterTerms _ args.having) fun having _ => ?_
  refine .emitAll_bind (.bind (failsOnly_orderings _ args.orderBy) fun _ _ => ?_)
  refine .bind (failsOnly_effectiveLimit config args.limit) fun limit _ => ?_
  -- What is left emits the last three clauses, each or nothing.
  cases limit <;> cases args.offset <;> cases args.distinct <;> exact FailsOnly.ok ()

end Compiling

/-! ## The whole tree -/

namespace SelectionTree

variable {catalog : Catalog} {config : Config} {tree : SelectionTree}

/-- A well-formed tree is not refused for what it takes from the catalog. -/
theorem failsOnly_compile (hroot : tree.root.WellFormed catalog) :
    Traced.FailsOnly InClause (tree.compile catalog config) := by
  obtain ⟨entity, hentity, -⟩ := hroot.exists_selects
  have hassemble : Traced.FailsOnly InClause (tree.assemble catalog config) := by
    rw [assemble, hentity]
    refine .emit_bind (.ofExcept_bind (Entity.failsOnly_project _ _ _) fun projections _ => ?_)
    refine .emit_bind (.bind ?_ fun below _ => ?_)
    · refine (JoinPlan.failsOnly_node hroot _ _).mono ?_
      rintro e ⟨d, -, hfails⟩
      exact hfails.inClause
    · exact .bind_pure (Compiling.failsOnly_rootClauses config tree.args)
  intro e h
  apply hassemble e
  unfold compile at h
  dsimp only at h
  split at h
  · rename_i e' he
    cases h
    exact he
  · cases h

/-- **The catalog answers every look-up for a request.** With a catalog that was accepted, a tree is
refused because the entity of the request is not known, or for the way in which the selection is
written. A tree that was built is not refused for what it takes from the catalog, whatever the
settings: at every node the entity is found, and at every relation below it the relation and its
target. The joins fail only with what goes wrong with a relation that was found. -/
theorem lookups_succeed (hcat : catalog.Accepted) (entity : String) (selection : FieldSelection) :
    (∀ e, (build catalog entity selection).outcome = .error e →
      (e = .unknownEntity entity ∧ catalog.get? entity = none) ∨ e.InSelection) ∧
    ∀ tree, (build catalog entity selection).outcome = .ok tree → ∀ config : Config,
      (∀ e, (tree.compile catalog config).outcome = .error e → e.InClause) ∧
      (∀ node ∈ tree.root.nodes, ∃ parent, catalog.get? node.entity = some parent ∧
        ∀ r ∈ node.relations, ∃ relation child,
          JoinPlan.target ⟨catalog, config.aliasSeparator⟩ parent r.field
            = .ok (relation, child)) ∧
      ∀ e, (JoinPlan.node ⟨catalog, config.aliasSeparator⟩ config.baseAlias
          (.withBase config.baseAlias) tree.root).outcome = .error e →
        ∃ d ∈ tree.root.descents, d.Fails catalog config.aliasSeparator e := by
  refine ⟨failsOnly_build hcat entity selection, fun tree htree config => ?_⟩
  obtain ⟨hroot, -, -⟩ := build_wellFormed htree
  refine ⟨failsOnly_compile hroot, fun node hnode => ?_, JoinPlan.failsOnly_node hroot _ _⟩
  obtain ⟨parent, hparent, hselects⟩ :=
    (SelectionNode.wellFormed_of_mem_nodes hroot node hnode).exists_selects
  refine ⟨parent, hparent, fun r hr => ?_⟩
  obtain ⟨relation, hrelation, -⟩ := hselects.relations r hr
  obtain ⟨child, hchild⟩ := hcat.target hparent hrelation
  exact ⟨relation, child, JoinPlan.target_eq_ok_iff.mpr ⟨hrelation, hchild⟩⟩

end SelectionTree

/-! ## A column that is not there -/

namespace Sample

/-- The books of the authors, by a field that books do not have. -/
def strayedSelection : FieldSelection :=
  ⟨"authors", [], [.leaf "name", ⟨"books", [("joinType", .string "left")], [.leaf "pages"]⟩]⟩

def strayedTree : SelectionTree where
  root := .mk "Author" .root ["name"]
    [.mk "books" { joinType := some "left" } (.mk "Book" ⟨["books"]⟩ ["pages"] [])]
  args := {}

theorem build_strayedSelection :
    (SelectionTree.build catalog "Author" strayedSelection).outcome = .ok strayedTree := rfl

end Sample

/-- The entities and the relation are found, and the error is that of the books' column. -/
theorem SelectionTree.lookups_succeed_strayed :
    (Sample.strayedTree.compile Sample.catalog {}).outcome
      = .error (.unknownField "Book" "pages") ∧
    ∃ d ∈ Sample.strayedTree.root.descents,
      d.Fails Sample.catalog "___" (.unknownField "Book" "pages") := by
  obtain ⟨-, hbuilt⟩ :=
    SelectionTree.lookups_succeed Sample.catalog_accepted "Author" Sample.strayedSelection
  obtain ⟨-, -, hfails⟩ := hbuilt Sample.strayedTree Sample.build_strayedSelection {}
  exact ⟨rfl, hfails _ rfl⟩

end NestedRead
