import NestedRead.Proofs.Filter.Operands
import NestedRead.Proofs.Query.Blank
import NestedRead.Proofs.Query.Planned

/-!
# The text of a statement does not tell its operands

Two trees that differ in alike operands alone are the same tree once they are blanked, so they
compile to the same text and the same layout, or fail alike. Where they differ is in the values that
they bind, and there only at the placeholders of the operands that differ: a statement binds the
values of the operands of its tree, first those of the filters on relations, depth first, then those
of the filter and of the filter on groups (`SelectionTree.compile_bindings`). The trees need not be
built from a request.
-/

set_option autoImplicit false

namespace NestedRead

/-! ## Trees with alike operands -/

structure RelationArgs.Alike (a b : RelationArgs) : Prop where
  joinFilter : Option.Rel FilterExpr.Alike a.joinFilter b.joinFilter
  joinType : a.joinType = b.joinType
  orderBy : a.orderBy = b.orderBy
  limit : a.limit = b.limit
  offset : a.offset = b.offset

structure RootArgs.Alike (a b : RootArgs) : Prop where
  filter : Option.Rel FilterExpr.Alike a.filter b.filter
  having : Option.Rel FilterExpr.Alike a.having b.having
  distinct : a.distinct = b.distinct
  groupBy : a.groupBy = b.groupBy
  orderBy : a.orderBy = b.orderBy
  limit : a.limit = b.limit
  offset : a.offset = b.offset

namespace SelectionNode

mutual

def Alike : SelectionNode → SelectionNode → Prop
  | .mk entity path scalars relations, .mk entity' path' scalars' relations' =>
    entity = entity' ∧ path = path' ∧ scalars = scalars' ∧ AllAlike relations relations'

def AllAlike : List RelationSelection → List RelationSelection → Prop
  | [], [] => True
  | .mk field args node :: rest, .mk field' args' node' :: rest' =>
    field = field' ∧ args.Alike args' ∧ Alike node node' ∧ AllAlike rest rest'
  | _, _ => False

end

end SelectionNode

/-- Trees that are equal but for operands in their filters, and these are alike. -/
structure SelectionTree.Alike (t u : SelectionTree) : Prop where
  root : t.root.Alike u.root
  args : t.args.Alike u.args

/-! ## Alike trees are blanked to one -/

theorem FilterExpr.blank_eq_of_rel {f g : Option FilterExpr} (h : Option.Rel FilterExpr.Alike f g) :
    f.map FilterExpr.blank = g.map FilterExpr.blank := by
  cases h with
  | some h => exact congrArg some h.blank_eq
  | none => rfl

theorem RelationArgs.Alike.blank_eq {a b : RelationArgs} (h : a.Alike b) : a.blank = b.blank := by
  unfold RelationArgs.blank
  rw [FilterExpr.blank_eq_of_rel h.joinFilter, h.joinType, h.orderBy, h.limit, h.offset]

theorem RootArgs.Alike.blank_eq {a b : RootArgs} (h : a.Alike b) : a.blank = b.blank := by
  unfold RootArgs.blank
  rw [FilterExpr.blank_eq_of_rel h.filter, FilterExpr.blank_eq_of_rel h.having, h.distinct,
    h.groupBy, h.orderBy, h.limit, h.offset]

namespace SelectionNode

mutual

theorem Alike.blank_eq : ∀ {m n : SelectionNode}, m.Alike n → m.blank = n.blank
  | .mk entity path scalars relations, .mk entity' path' scalars' relations', h => by
    obtain ⟨rfl, rfl, rfl, hrelations⟩ := h
    rw [blank, blank, AllAlike.blank_eq hrelations]

theorem AllAlike.blank_eq : ∀ {rs rs' : List RelationSelection}, AllAlike rs rs' →
    blankRelations rs = blankRelations rs'
  | [], [], _ => rfl
  | .mk field args node :: rest, .mk field' args' node' :: rest', h => by
    obtain ⟨rfl, hargs, hnode, hrest⟩ := h
    rw [blankRelations, blankRelations, blankRelation, blankRelation, hargs.blank_eq,
      Alike.blank_eq hnode, AllAlike.blank_eq hrest]

end

end SelectionNode

theorem SelectionTree.Alike.blank_eq {t u : SelectionTree} (h : t.Alike u) : t.blank = u.blank := by
  rw [blank, blank, h.root.blank_eq, h.args.blank_eq]

/-! ## The operands of a tree -/

def FilterExpr.operandsOf : Option FilterExpr → List Operand
  | none => []
  | some f => f.operands

def Descent.operands (d : Descent) : List Operand :=
  FilterExpr.operandsOf d.relation.args.joinFilter

/-- The operands in the order of their placeholders. -/
def SelectionTree.operands (tree : SelectionTree) : List Operand :=
  tree.root.descents.flatMap Descent.operands ++ FilterExpr.operandsOf tree.args.filter
    ++ FilterExpr.operandsOf tree.args.having

theorem FilterExpr.forall₂_operandsOf {f g : Option FilterExpr}
    (h : Option.Rel FilterExpr.Alike f g) :
    List.Forall₂ Operand.Alike (operandsOf f) (operandsOf g) := by
  cases h with
  | some h => exact h.operands
  | none => exact .nil

namespace SelectionNode

mutual

theorem Alike.operands : ∀ {m n : SelectionNode}, m.Alike n → List.Forall₂ Operand.Alike
    (m.descents.flatMap Descent.operands) (n.descents.flatMap Descent.operands)
  | .mk _ _ _ _, .mk _ _ _ _, h => AllAlike.operands h.2.2.2

theorem AllAlike.operands {m n : SelectionNode} : ∀ {rs rs' : List RelationSelection},
    AllAlike rs rs' → List.Forall₂ Operand.Alike ((m.descentsFrom rs).flatMap Descent.operands)
      ((n.descentsFrom rs').flatMap Descent.operands)
  | [], [], _ => .nil
  | .mk _ _ _ :: _, .mk _ _ _ :: _, h => by
    obtain ⟨-, hargs, hnode, hrest⟩ := h
    rw [descentsFrom, descentsFrom, List.flatMap_cons, List.flatMap_cons, List.flatMap_append,
      List.flatMap_append]
    exact List.rel_append (FilterExpr.forall₂_operandsOf hargs.joinFilter)
      (List.rel_append (Alike.operands hnode) (AllAlike.operands hrest))

end

end SelectionNode

theorem SelectionTree.Alike.operands {t u : SelectionTree} (h : t.Alike u) :
    List.Forall₂ Operand.Alike t.operands u.operands :=
  List.rel_append (List.rel_append h.root.operands (FilterExpr.forall₂_operandsOf h.args.filter))
    (FilterExpr.forall₂_operandsOf h.args.having)

/-! ## What a statement binds -/

theorem FilterScope.Conditions.bindings {scope : FilterScope} {filter : Option FilterExpr}
    {cs : List Condition} (h : scope.Conditions filter cs) :
    cs.flatMap Condition.bindings = (FilterExpr.operandsOf filter).flatMap Operand.bound := by
  cases filter with
  | none => cases h; rfl
  | some filter => exact FilterScope.bindings_conditions h

theorem RootPlan.FilterTerms.bindings {scope : FilterScope} {filter : Option FilterExpr}
    {ts : List Term} (h : RootPlan.FilterTerms scope filter ts) :
    Condition.termBindings ts = (FilterExpr.operandsOf filter).flatMap Operand.bound := by
  cases filter with
  | none => cases h; rfl
  | some filter => exact FilterScope.termBindings_terms h

theorem Join.bindings_keys (kind : JoinKind) (leftAlias left rightAlias right : String) :
    (keys kind leftAlias left rightAlias right).flatMap Condition.bindings = [] := by
  unfold keys
  split <;> rfl

/-- The joins of a relation bind what its filter binds, and nothing besides. -/
theorem Join.bindings_forRelation {kind : JoinKind} {relation : Relation} {parentAlias : String}
    {child : Entity} {childAlias : String} {filter : List Condition}
    {aliases between : AliasRegistry} {joins : List Join}
    (h : forRelation kind relation parentAlias child childAlias filter aliases = (joins, between)) :
    joins.flatMap Join.bindings = filter.flatMap Condition.bindings := by
  unfold forRelation at h
  split at h <;> cases h <;> simp [Join.bindings, Join.bindings_keys]

namespace JoinPlan

/-- Clauses that put the values of some operands behind the joins, and nothing anywhere else. -/
structure Binds (os : List Operand) (cs : List Clause) : Prop where
  joins : (cs.flatMap Clause.joins).flatMap Join.bindings = os.flatMap Operand.bound
  filters : cs.flatMap Clause.filters = []
  havings : cs.flatMap Clause.havings = []

theorem Binds.nil : Binds [] [] := ⟨rfl, rfl, rfl⟩

theorem Binds.append {os os' : List Operand} {cs cs' : List Clause} (h : Binds os cs)
    (h' : Binds os' cs') : Binds (os ++ os') (cs ++ cs') := by
  refine ⟨?_, ?_, ?_⟩
  · rw [List.flatMap_append, List.flatMap_append, List.flatMap_append, h.joins, h'.joins]
  · rw [List.flatMap_append, h.filters, h'.filters, List.nil_append]
  · rw [List.flatMap_append, h.havings, h'.havings, List.nil_append]

theorem Binds.joins_select {os : List Operand} {joins : List Join}
    (h : joins.flatMap Join.bindings = os.flatMap Operand.bound) (ps : List Projection) :
    Binds os (joins.map Clause.join ++ [.select ps]) := by
  refine ⟨?_, ?_, ?_⟩
  · rw [← h, List.flatMap_append, List.flatMap_map]
    simp [Clause.joins]
  · simp [List.flatMap_map, Clause.filters]
  · simp [List.flatMap_map, Clause.havings]

mutual

theorem binds_node {plan : JoinPlan} {parentAlias : String} {aliases aliases' : AliasRegistry}
    {bindings : List Binding} {trail : List Emission} : ∀ {node : SelectionNode},
      JoinPlan.node plan parentAlias aliases node = ⟨trail, .ok (bindings, aliases')⟩ →
        Binds (node.descents.flatMap Descent.operands) (Compiling.clauses trail)
  | .mk entity path scalars relations, h => by
    rw [JoinPlan.node] at h
    split at h
    · cases h
    · exact binds_nodes (.mk entity path scalars relations) h

theorem binds_nodes {plan : JoinPlan} {parent : Entity} {parentAlias : String}
    (n : SelectionNode) : ∀ {relations : List RelationSelection}
      {aliases aliases' : AliasRegistry} {bindings : List Binding} {trail : List Emission},
      JoinPlan.nodes plan parent parentAlias aliases relations
        = ⟨trail, .ok (bindings, aliases')⟩ →
        Binds ((n.descentsFrom relations).flatMap Descent.operands) (Compiling.clauses trail)
  | [], aliases, aliases', bindings, trail, h => by
    rw [JoinPlan.nodes, Traced.pure_eq_ok_iff] at h
    obtain ⟨-, rfl⟩ := h
    exact .nil
  | .mk field args child :: rest, aliases, aliases', bindings, trail, h => by
    rw [JoinPlan.nodes] at h
    obtain ⟨⟨first, between⟩, t, u, hfirst, h₁, rfl⟩ := Traced.bind_eq_ok_iff.mp h
    obtain ⟨⟨more, after⟩, v, w, hmore, h₂, rfl⟩ := Traced.bind_eq_ok_iff.mp h₁
    obtain ⟨-, rfl⟩ := Traced.pure_eq_ok_iff.mp h₂
    obtain ⟨relation, entity, kind, conditions, joins, inner, projections, below, rest', -, -,
      hconditions, hjoins, -, hnode, -, hclauses⟩ := edge_run hfirst
    -- The clauses of the relation, of the walk below its child, and of the relations after it.
    have hown : Binds (Descent.operands ⟨n, .mk field args child⟩)
        (joins.map Clause.join ++ [.select projections]) := by
      refine .joins_select ?_ projections
      rw [Join.bindings_forRelation hjoins]
      exact (joinConditions_eq_ok hconditions).1.bindings
    have hall := hown.append ((binds_node hnode).append (binds_nodes n hmore))
    rw [SelectionNode.descentsFrom, List.flatMap_cons, List.flatMap_append, List.append_nil,
      Compiling.clauses_append, hclauses, List.append_assoc, List.cons_append]
    rwa [List.append_assoc, List.singleton_append] at hall

end

end JoinPlan

namespace RootPlan

/-- What the clauses of the root add: no joins, the terms of the two filters. -/
theorem flatMap_clauses (root : RootPlan) : root.clauses.flatMap Clause.joins = [] ∧
    root.clauses.flatMap Clause.filters = root.filters ∧
    root.clauses.flatMap Clause.havings = root.having := by
  obtain ⟨filters, groupBy, having, orderBy, limit, offset, distinct⟩ := root
  cases limit <;> cases offset <;> cases distinct <;>
    simp [RootPlan.clauses, List.flatMap_map, Clause.joins, Clause.filters, Clause.havings,
      flatMap_nil_right]

end RootPlan

/-- **A compiled statement binds the values of the operands of its tree**, in their order. -/
theorem SelectionTree.compile_bindings {catalog : Catalog} {config : Config} {tree : SelectionTree}
    {compiled : CompiledRead} (h : (tree.compile catalog config).outcome = .ok compiled) :
    compiled.statement.bindings = tree.operands.flatMap Operand.bound := by
  obtain ⟨trail, hassembled, hstatement⟩ := compile_run h
  obtain ⟨entity, projections, below, aliases, walk, root, -, -, hnode, hvalid, -, hclauses⟩ :=
    assemble_run hassembled
  have hbinds := JoinPlan.binds_node hnode
  obtain ⟨hjoins, hfilters, hhaving⟩ := root.flatMap_clauses
  rw [hstatement, hclauses, Statement.ofClauses_eq]
  simp only [Statement.bindings, List.flatMap_cons, List.flatMap_append, Clause.joins,
    Clause.filters, Clause.havings, List.nil_append, hjoins, hfilters, hhaving, hbinds.joins,
    hbinds.filters, hbinds.havings, List.append_nil, hvalid.filters.bindings,
    hvalid.having.bindings, SelectionTree.operands]

/-! ## Placeholders and their operands -/

namespace Operand

/-- The values that operands bind, each with the number of its operand, counted from `k`. -/
def placeholdersFrom (k : Nat) : List Operand → List (Nat × Json)
  | [] => []
  | o :: os => o.bound.map (k, ·) ++ placeholdersFrom (k + 1) os

theorem values_placeholdersFrom (os : List Operand) (k : Nat) :
    (placeholdersFrom k os).map (·.2) = os.flatMap bound := by
  induction os generalizing k with
  | nil => rfl
  | cons o os ih =>
    rw [placeholdersFrom, List.map_append, ih, List.map_map, List.flatMap_cons]
    exact congrArg (· ++ _) (List.map_id _)

/-- Alike operands bind their values side by side, and the same values where they are equal. -/
theorem Alike.forall₂_bound {o o' : Operand} (h : Alike o o') :
    List.Forall₂ (fun v w => o = o' → v = w) o.bound o'.bound := by
  by_cases heq : o = o'
  · subst heq
    exact List.forall₂_same.mpr fun _ _ _ => rfl
  · refine List.forall₂_iff_get.mpr ⟨h.blank_eq_and_length_bound.2, fun i _ _ ho => ?_⟩
    exact absurd ho heq

theorem Alike.forall₂_placeholdersFrom {os os' : List Operand} (h : List.Forall₂ Alike os os')
    (k : Nat) : List.Forall₂ (fun p q =>
        p.1 = q.1 ∧ k ≤ p.1 ∧ (os[p.1 - k]? = os'[p.1 - k]? → p.2 = q.2))
      (placeholdersFrom k os) (placeholdersFrom k os') := by
  induction h generalizing k with
  | nil => exact .nil
  | @cons o o' os os' ho _ ih =>
    refine List.rel_append ?_ ((ih (k + 1)).imp fun p q hpq => ?_)
    · rw [List.forall₂_map_left_iff, List.forall₂_map_right_iff]
      refine ho.forall₂_bound.imp fun v w hvw => ⟨rfl, Nat.le_refl k, fun heads => hvw ?_⟩
      simpa using heads
    · obtain ⟨hnumber, hle, hvalue⟩ := hpq
      refine ⟨hnumber, Nat.le_of_succ_le hle, fun tails => hvalue ?_⟩
      -- The number counts from one operand further on.
      have hsucc : p.1 - k = p.1 - (k + 1) + 1 := by omega
      rwa [hsucc, List.getElem?_cons_succ, List.getElem?_cons_succ] at tails

end Operand

namespace SelectionTree

def placeholders (tree : SelectionTree) : List (Nat × Json) :=
  Operand.placeholdersFrom 0 tree.operands

/-- The number of the operand that a placeholder is of. -/
def origin? (tree : SelectionTree) (i : Nat) : Option Nat := tree.placeholders[i]?.map (·.1)

/-- Two compiled trees differ in values alone, and there only at placeholders of operands that
differ. -/
structure SameText (t u : SelectionTree) (c d : CompiledRead) : Prop where
  sql : c.statement.render.sql = d.statement.render.sql
  layout : c.layout = d.layout
  length : c.statement.render.bindings.length = d.statement.render.bindings.length
  left : c.statement.render.bindings = t.placeholders.map (·.2)
  right : d.statement.render.bindings = u.placeholders.map (·.2)
  origin : ∀ i, t.origin? i = u.origin? i
  agree : ∀ i k, t.origin? i = some k → t.operands[k]? = u.operands[k]? →
    c.statement.render.bindings[i]? = d.statement.render.bindings[i]?

theorem bindings_eq_placeholders {catalog : Catalog} {config : Config} {tree : SelectionTree}
    {compiled : CompiledRead} (h : (tree.compile catalog config).outcome = .ok compiled) :
    compiled.statement.render.bindings = tree.placeholders.map (·.2) := by
  rw [placeholders, Operand.values_placeholdersFrom]
  exact compile_bindings h

/-- Alike trees have the same origins, and where the operand of a placeholder is the same in both,
so is its value. -/
theorem Alike.placeholders {t u : SelectionTree} (h : t.Alike u) (i : Nat) :
    t.origin? i = u.origin? i ∧ ∀ k, t.origin? i = some k → t.operands[k]? = u.operands[k]? →
      (t.placeholders.map (·.2))[i]? = (u.placeholders.map (·.2))[i]? := by
  obtain ⟨hlength, hget⟩ :=
    List.forall₂_iff_get.mp (Operand.Alike.forall₂_placeholdersFrom h.operands 0)
  simp only [origin?, SelectionTree.placeholders, List.getElem?_map]
  by_cases hi : i < (Operand.placeholdersFrom 0 t.operands).length
  · have hi' : i < (Operand.placeholdersFrom 0 u.operands).length := hlength ▸ hi
    obtain ⟨hnumber, -, hvalue⟩ := hget i hi hi'
    simp only [List.get_eq_getElem, Nat.sub_zero] at hnumber hvalue
    rw [List.getElem?_eq_getElem hi, List.getElem?_eq_getElem hi', Option.map_some,
      Option.map_some, Option.map_some, Option.map_some]
    refine ⟨congrArg some hnumber, fun k hk heq => congrArg some (hvalue ?_)⟩
    rwa [Option.some.inj hk]
  · have hi' : ¬ i < (Operand.placeholdersFrom 0 u.operands).length := hlength ▸ hi
    rw [List.getElem?_eq_none (Nat.le_of_not_lt hi), List.getElem?_eq_none (Nat.le_of_not_lt hi')]
    exact ⟨rfl, fun _ _ _ => rfl⟩

/-- **The text of a statement does not tell its operands.** Trees that differ in alike operands
compile alike: both or neither, to one text with one layout, and to values that are equal wherever
the operand is. -/
theorem compile_alike {t u : SelectionTree} (h : t.Alike u) (catalog : Catalog) (config : Config) :
    ((∃ c, (t.compile catalog config).outcome = .ok c) ↔
      ∃ d, (u.compile catalog config).outcome = .ok d) ∧
    ∀ c d, (t.compile catalog config).outcome = .ok c →
      (u.compile catalog config).outcome = .ok d → SameText t u c d := by
  have hblank : (t.compile catalog config).outcome.map CompiledRead.blank =
      (u.compile catalog config).outcome.map CompiledRead.blank := by
    rw [← compile_blank, ← compile_blank, h.blank_eq]
  constructor
  · cases ht : (t.compile catalog config).outcome with
    | error e =>
      cases hu : (u.compile catalog config).outcome with
      | error e' => simp
      | ok d => rw [ht, hu] at hblank; cases hblank
    | ok c =>
      cases hu : (u.compile catalog config).outcome with
      | error e' => rw [ht, hu] at hblank; cases hblank
      | ok d => exact ⟨fun _ => ⟨d, rfl⟩, fun _ => ⟨c, rfl⟩⟩
  · intro c d hc hd
    rw [hc, hd] at hblank
    have hread : c.blank = d.blank := Except.ok.inj hblank
    have hlayout : c.blank.layout = d.blank.layout := congrArg CompiledRead.layout hread
    have hsql : c.blank.statement.sql = d.blank.statement.sql :=
      congrArg (fun read => read.statement.sql) hread
    have hleft := bindings_eq_placeholders hc
    have hright := bindings_eq_placeholders hd
    refine ⟨?_, hlayout, ?_, hleft, hright, fun i => (h.placeholders i).1, fun i k hk heq => ?_⟩
    · calc c.statement.sql = c.blank.statement.sql := (Statement.sql_blank _).symm
        _ = d.blank.statement.sql := hsql
        _ = d.statement.sql := Statement.sql_blank _
    · rw [hleft, hright, List.length_map, List.length_map]
      exact (Operand.Alike.forall₂_placeholdersFrom h.operands 0).length_eq
    · rw [hleft, hright]
      exact (h.placeholders i).2 k hk heq

end SelectionTree

/-! ## Two alike trees -/

namespace Sample

/-- Authors whose name is another or whose key is in a range, with some of their books. -/
def asking (name low high : Json) (titles : List Json) : SelectionTree where
  root := .mk "Author" .root ["name"]
    [.mk "books"
      { joinFilter := some ⟨[⟨"title", [("IN", .array titles), ("nis", .null)]⟩], [], []⟩ }
      (.mk "Book" ⟨["books"]⟩ ["title"] [])]
  args :=
    { filter := some ⟨[⟨"name", [("ne", name)]⟩], [],
        [⟨[⟨"id", [("between", .array [low, high])]⟩], [], []⟩]⟩ }

def asked : SelectionTree := asking (.string "Anon") (.string "a") (.string "m") [.null, .null]

def askedOtherwise : SelectionTree :=
  asking (.bool true) .null (.string "z") [.string "Emma", .string "\"; DROP TABLE authors"]

theorem asked_alike : asked.Alike askedOtherwise where
  root := by
    refine ⟨rfl, rfl, rfl, rfl, ⟨.some ⟨.cons ⟨rfl, ?_⟩ .nil, trivial, trivial⟩, rfl, rfl, rfl,
      rfl⟩, ⟨rfl, rfl, rfl, trivial⟩, trivial⟩
    exact .cons (.member (by decide) rfl) (.cons (.same _) .nil)
  args := by
    refine ⟨.some ⟨.cons ⟨rfl, ?_⟩ .nil, trivial, ⟨.cons ⟨rfl, ?_⟩ .nil, trivial, trivial⟩,
      trivial⟩, .none, rfl, rfl, rfl, rfl, rfl⟩
    · exact .cons (.equation (by decide) rfl rfl nofun nofun) .nil
    · exact .cons (.between (by decide)) .nil

end Sample

/-- Operands of a list, of a range and of a test for inequality differ; one of them is null. -/
theorem SelectionTree.compile_alike_asked : Sample.asked.Alike Sample.askedOtherwise ∧
    ∃ c d, (Sample.asked.compile Sample.catalog {}).outcome = .ok c ∧
      (Sample.askedOtherwise.compile Sample.catalog {}).outcome = .ok d ∧
      SameText Sample.asked Sample.askedOtherwise c d := by
  obtain ⟨hiff, hsame⟩ := SelectionTree.compile_alike Sample.asked_alike Sample.catalog {}
  obtain ⟨c, hc⟩ : ∃ c, (Sample.asked.compile Sample.catalog {}).outcome = .ok c := ⟨_, rfl⟩
  obtain ⟨d, hd⟩ := hiff.mp ⟨c, hc⟩
  exact ⟨Sample.asked_alike, c, d, hc, hd, hsame c d hc hd⟩

end NestedRead
