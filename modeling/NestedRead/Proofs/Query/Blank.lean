import NestedRead.Proofs.Filter.Blank
import NestedRead.Proofs.Outcome
import NestedRead.Query.Compile

/-!
# Selection trees without their operands

A tree is blanked by blanking the filters in it, wherever they stand. No step of a compilation looks
at what is lost: the walk over the relations emits the same joins with blanked conditions, and the
same notices, and it stops at the same errors. So the statement of a blanked tree is the statement
of the tree, blanked (`SelectionTree.compile_blank`), and this holds of every tree, built or not.
-/

set_option autoImplicit false

namespace NestedRead

/-! ## Trees -/

def RelationArgs.blank (args : RelationArgs) : RelationArgs :=
  { args with joinFilter := args.joinFilter.map FilterExpr.blank }

theorem RelationArgs.joinFilter_blank (args : RelationArgs) :
    args.blank.joinFilter = args.joinFilter.map FilterExpr.blank := rfl

theorem RelationArgs.joinType_blank (args : RelationArgs) :
    args.blank.joinType = args.joinType := rfl

def RootArgs.blank (args : RootArgs) : RootArgs :=
  { args with
    filter := args.filter.map FilterExpr.blank
    having := args.having.map FilterExpr.blank }

namespace SelectionNode

mutual

def blank : SelectionNode → SelectionNode
  | .mk entity path scalars relations => .mk entity path scalars (blankRelations relations)

def blankRelations : List RelationSelection → List RelationSelection
  | [] => []
  | r :: rest => blankRelation r :: blankRelations rest

def blankRelation : RelationSelection → RelationSelection
  | .mk field args node => .mk field args.blank (blank node)

end

theorem entity_blank (node : SelectionNode) : node.blank.entity = node.entity := by
  cases node
  rfl

theorem path_blank (node : SelectionNode) : node.blank.path = node.path := by
  cases node
  rfl

theorem scalars_blank (node : SelectionNode) : node.blank.scalars = node.scalars := by
  cases node
  rfl

end SelectionNode

def SelectionTree.blank (tree : SelectionTree) : SelectionTree := ⟨tree.root.blank, tree.args.blank⟩

/-! ## Steps of a compilation -/

def Emission.blank : Emission → Emission
  | .clause c => .clause c.blank
  | .notice n => .notice n

theorem Emission.filterMap_clause?_blank (trail : List Emission) :
    (trail.map Emission.blank).filterMap Emission.clause? =
      (trail.filterMap Emission.clause?).map Clause.blank := by
  induction trail with
  | nil => rfl
  | cons item rest ih =>
    cases item with
    | clause c => exact congrArg (c.blank :: ·) ih
    | notice n => exact ih

namespace Compiling

/-- The same step with its clauses blanked. -/
def blank {α : Type} (x : Compiling α) : Compiling α := x.bimap Emission.blank id

variable {α β : Type}

theorem blank_bind (x : Compiling α) (f : α → Compiling β) :
    blank (x >>= f) = blank x >>= fun a => blank (f a) := by
  obtain ⟨trail, outcome⟩ := x
  cases outcome with
  | error e => rfl
  | ok a => simp [blank, Traced.bimap, Traced.bind_eq, Traced.bind, Except.mapError]

theorem blank_pure (a : α) : blank (pure a : Compiling α) = pure a := rfl

theorem blank_check (x : Except CompileError α) : blank (check x) = check x := by
  cases x <;> rfl

theorem blank_emitAll (items : List Emission) :
    blank (Traced.emitAll items) = Traced.emitAll (items.map Emission.blank) := rfl

theorem blank_clause (c : Clause) : blank (clause c) = clause c.blank := rfl

theorem blank_notice (n : Notice) : blank (notice n) = notice n := rfl

/-- A step that goes on from a result that is seen differently. -/
theorem check_map_bind (x : Except CompileError α) {γ : Type} (g : α → γ)
    (f : γ → Compiling β) : check (x.map g) >>= f = check x >>= fun a => f (g a) := by
  cases x <;> rfl

theorem blank_joins (joins : List Join) :
    blank (Traced.emitAll (joins.map fun j => .clause (.join j))) =
      Traced.emitAll ((joins.map Join.blank).map fun j => .clause (.join j)) := by
  rw [blank_emitAll, List.map_map, List.map_map]
  rfl

end Compiling

/-! ## Joins -/

theorem Join.keys_blank (kind : JoinKind) (leftAlias left rightAlias right : String) :
    (keys kind leftAlias left rightAlias right).map Condition.blank =
      keys kind leftAlias left rightAlias right := by
  unfold keys
  split <;> rfl

theorem Join.forRelation_blank (kind : JoinKind) (relation : Relation) (parentAlias : String)
    (child : Entity) (childAlias : String) (filter : List Condition) (aliases : AliasRegistry) :
    forRelation kind relation parentAlias child childAlias (filter.map Condition.blank) aliases =
      ((forRelation kind relation parentAlias child childAlias filter aliases).1.map blank,
        (forRelation kind relation parentAlias child childAlias filter aliases).2) := by
  unfold forRelation
  cases relation.through with
  | none => simp [blank, keys_blank]
  | some through => simp [blank, keys_blank]

namespace JoinPlan

theorem joinConditions_blank (kind : JoinKind) (field : String) (child : Entity)
    (childAlias : String) (filter : Option FilterExpr) :
    joinConditions kind field child childAlias (filter.map FilterExpr.blank) =
      (joinConditions kind field child childAlias filter).map (List.map Condition.blank) := by
  unfold joinConditions
  cases filter with
  | none => cases kind <;> rfl
  | some filter =>
    dsimp only [Option.map_some]
    rw [FilterScope.conditions_blank]
    cases FilterScope.conditions ⟨child, childAlias, .join⟩ filter with
    | error e => rfl
    | ok cs =>
      dsimp only [Except.map, bind, Except.bind]
      rw [List.isEmpty_map]
      split <;> rfl

theorem paginates_blank (args : RelationArgs) : paginates args.blank = paginates args := rfl

mutual

theorem node_blank (plan : JoinPlan) (parentAlias : String) (aliases : AliasRegistry) :
    ∀ node : SelectionNode,
      JoinPlan.node plan parentAlias aliases node.blank =
        Compiling.blank (JoinPlan.node plan parentAlias aliases node)
  | .mk entity path scalars relations => by
    rw [SelectionNode.blank, JoinPlan.node, JoinPlan.node]
    cases plan.catalog.get? entity with
    | none => rfl
    | some parent => exact nodes_blank plan parent parentAlias relations aliases

theorem nodes_blank (plan : JoinPlan) (parent : Entity) (parentAlias : String) :
    ∀ (relations : List RelationSelection) (aliases : AliasRegistry),
      JoinPlan.nodes plan parent parentAlias aliases (SelectionNode.blankRelations relations) =
        Compiling.blank (JoinPlan.nodes plan parent parentAlias aliases relations)
  | [], aliases => rfl
  | r :: rest, aliases => by
    rw [SelectionNode.blankRelations, JoinPlan.nodes, JoinPlan.nodes,
      edge_blank plan parent parentAlias aliases r]
    simp only [Compiling.blank_bind, Compiling.blank_pure,
      nodes_blank plan parent parentAlias rest]

theorem edge_blank (plan : JoinPlan) (parent : Entity) (parentAlias : String)
    (aliases : AliasRegistry) : ∀ r : RelationSelection,
      JoinPlan.edge plan parent parentAlias aliases (SelectionNode.blankRelation r) =
        Compiling.blank (JoinPlan.edge plan parent parentAlias aliases r)
  | .mk field args child => by
    rw [SelectionNode.blankRelation, JoinPlan.edge, JoinPlan.edge]
    -- What the filter decides about is blanked conditions; the steps after them are the same.
    simp only [Compiling.blank_bind, Compiling.blank_check, SelectionNode.path_blank,
      SelectionNode.scalars_blank, RelationArgs.joinFilter_blank, RelationArgs.joinType_blank,
      joinConditions_blank, Compiling.check_map_bind, Join.forRelation_blank, paginates_blank,
      apply_ite Compiling.blank, Compiling.blank_notice, Compiling.blank_joins,
      Compiling.blank_clause, Compiling.blank_pure, Clause.blank,
      fun a aliases => node_blank plan a aliases child]

end

end JoinPlan

/-! ## The root -/

namespace Compiling

variable (scope : FilterScope) (entity : Entity) (base : String)

theorem filterTerms_blank_bind (filter : Option FilterExpr) {α : Type}
    (f : List Term → Compiling α) :
    filterTerms scope (filter.map FilterExpr.blank) >>= f =
      filterTerms scope filter >>= fun ts => f (Condition.blankTerms ts) := by
  cases filter with
  | none => rfl
  | some filter =>
    rw [Option.map_some, filterTerms, filterTerms, FilterScope.terms_blank]
    exact check_map_bind _ _ _

theorem blank_filterTerms (filter : Option FilterExpr) :
    blank (filterTerms scope filter) = filterTerms scope filter := by
  cases filter with
  | none => rfl
  | some filter => exact blank_check _

theorem blank_terms (clauseOf : Term → Clause)
    (h : ∀ t, (clauseOf t).blank = clauseOf (t.1, t.2.blank)) (ts : List Term) :
    blank (Traced.emitAll (ts.map fun t => .clause (clauseOf t))) =
      Traced.emitAll ((Condition.blankTerms ts).map fun t => .clause (clauseOf t)) := by
  rw [blank_emitAll, Condition.blankTerms_eq_map, List.map_map, List.map_map]
  refine congrArg _ (List.map_congr_left fun t _ => ?_)
  exact congrArg Emission.clause (h t)

theorem blank_groupings (names : List String) :
    blank (groupings entity base names) = groupings entity base names := by
  induction names with
  | nil => rfl
  | cons name rest ih =>
    simp only [groupings, blank_bind, blank_check, blank_clause, Clause.blank, ih]

theorem blank_orderings (items : List OrderItem) :
    blank (orderings entity base items) = orderings entity base items := by
  induction items with
  | nil => rfl
  | cons item rest ih =>
    simp only [orderings, blank_bind, blank_check, blank_clause, Clause.blank, ih]

theorem blank_effectiveLimit (config : Config) (requested : Option Nat) :
    blank ((config.effectiveLimit requested).bimap .notice id) =
      (config.effectiveLimit requested).bimap .notice id := by
  unfold Config.effectiveLimit
  split <;> rfl

theorem rootClauses_blank (config : Config) (args : RootArgs) :
    rootClauses config entity args.blank = blank (rootClauses config entity args) := by
  obtain ⟨filter, distinct, groupBy, having, orderBy, limit, offset⟩ := args
  unfold rootClauses
  simp only [RootArgs.blank, filterTerms_blank_bind, blank_bind, blank_filterTerms,
    blank_groupings, blank_orderings, blank_effectiveLimit, blank_terms .filter fun _ => rfl,
    blank_terms .having fun _ => rfl]
  -- What is left are the numbers and the distinct flag.
  refine bind_congr fun filters => bind_congr fun _ => bind_congr fun _ => bind_congr fun having =>
    bind_congr fun _ => bind_congr fun _ => bind_congr fun limit => ?_
  cases limit <;> cases offset <;> cases distinct <;> rfl

end Compiling

/-! ## The whole tree -/

def CompiledRead.blank (compiled : CompiledRead) : CompiledRead :=
  { compiled with statement := compiled.statement.blank }

namespace SelectionTree

theorem assemble_blank (catalog : Catalog) (config : Config) (tree : SelectionTree) :
    tree.blank.assemble catalog config = Compiling.blank (tree.assemble catalog config) := by
  unfold assemble
  rw [show tree.blank.root = tree.root.blank from rfl, SelectionNode.entity_blank]
  cases catalog.get? tree.root.entity with
  | none => rfl
  | some entity =>
    simp only [Compiling.blank_bind, Compiling.blank_check, Compiling.blank_clause, Clause.blank,
      Compiling.blank_pure, SelectionNode.path_blank, SelectionNode.scalars_blank,
      JoinPlan.node_blank, show tree.blank.args = tree.args.blank from rfl,
      Compiling.rootClauses_blank]

/-- **The statement of a blanked tree is the statement of the tree, blanked**, with the same layout;
and where the one fails, so does the other, with the same error. -/
theorem compile_blank (catalog : Catalog) (config : Config) (tree : SelectionTree) :
    (tree.blank.compile catalog config).outcome =
      (tree.compile catalog config).outcome.map CompiledRead.blank := by
  unfold compile
  rw [assemble_blank]
  obtain ⟨trail, outcome⟩ := tree.assemble catalog config
  cases outcome with
  | error e => rfl
  | ok layout =>
    dsimp only [Compiling.blank, Traced.bimap, Except.mapError, Except.map]
    rw [Emission.filterMap_clause?_blank, Statement.ofClauses_blank]
    rfl

end SelectionTree
end NestedRead
