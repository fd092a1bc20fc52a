import NestedRead.Proofs.Filter.Compiled
import NestedRead.Proofs.Reading.Basic

/-!
# Left joins offer related rows

The joins of a link, one or two, extend an environment by the rows that the relation of the link
leads to from the row of the parent, or by none. Where the parent has no row its columns are null,
no condition on them holds, and neither the table in between nor the child finds a row. With that
each link is a loop step of the kind that `Query.Loops` is about.
-/

set_option autoImplicit false

namespace NestedRead

variable {d : Dialect} {db : Database}

/-! ## Values in an environment -/

namespace Dialect

theorem valueIn_of_eq_some {env : Env Tuple} {tableAlias : String} {t : Tuple}
    (h : env tableAlias = some t) (column : String) :
    valueIn env (.qualified tableAlias column) = t column := by
  rw [valueIn, h]
  rfl

/-- A column equals something only where its alias has a row. -/
theorem equal_valueIn_iff {env : Env Tuple} {tableAlias column : String} {y : Json} :
    d.equal (valueIn env (.qualified tableAlias column)) y = true ↔
      ∃ t, env tableAlias = some t ∧ d.equal (t column) y = true := by
  rw [valueIn]
  cases env tableAlias with
  | none => simp [d.equal_null_left]
  | some t => simp

/-- Under the alias of a row its filter holds as it does of the row alone. -/
theorem meaning_within {env : Env Tuple} {e e' : Entity} {tableAlias other : String}
    {clause clause' : FilterClause} {t : Tuple} (h : env tableAlias = some t)
    (hclause : clause ≠ .having) (hclause' : clause' ≠ .having) (filter : FilterExpr) :
    filter.meaning (d.within env) ⟨e, tableAlias, clause⟩
      = filter.meaning (d.of t) ⟨e', other, clause'⟩ := by
  refine FilterExpr.meaning_congr (by rfl) (fun name => ?_) filter
  have hvalue := valueIn_of_eq_some h name
  cases clause with
  | having => exact absurd rfl hclause
  | filter | join =>
    cases clause' with
    | having => exact absurd rfl hclause'
    | filter | join => exact hvalue

end Dialect

/-! ## One join -/

namespace Join

theorem mem_step {j : Join} (hleft : j.kind = .left) {env env' : Env Tuple} :
    env' ∈ j.step d db env ↔
      j.found d db env = [] ∧ env' = env.set j.tableAlias none ∨
        ∃ t ∈ db j.table, j.holds d (env.set j.tableAlias (some t)) = true ∧
          env' = env.set j.tableAlias (some t) := by
  rw [step, if_pos hleft, List.mem_map]
  constructor
  · rintro ⟨choice, hchoice, rfl⟩
    rcases mem_orNone.mp hchoice with ⟨hnil, rfl⟩ | ⟨t, ht, rfl⟩
    · exact Or.inl ⟨hnil, rfl⟩
    · obtain ⟨ht, hholds⟩ := List.mem_filter.mp ht
      exact Or.inr ⟨t, ht, hholds, rfl⟩
  · rintro (⟨hnil, rfl⟩ | ⟨t, ht, hholds, rfl⟩)
    · exact ⟨none, mem_orNone.mpr (Or.inl ⟨hnil, rfl⟩), rfl⟩
    · exact ⟨some t, mem_orNone.mpr (Or.inr ⟨t, List.mem_filter.mpr ⟨ht, hholds⟩, rfl⟩), rfl⟩

theorem step_ne_nil {j : Join} (hleft : j.kind = .left) (env : Env Tuple) :
    j.step d db env ≠ [] := by
  rw [step, if_pos hleft, Ne, List.map_eq_nil_iff]
  exact orNone_ne_nil _

theorem frame_of_mem_step {j : Join} {env env' : Env Tuple} (h : env' ∈ j.step d db env)
    {a : String} (ha : a ≠ j.tableAlias) : env' a = env a := by
  obtain ⟨choice, -, rfl⟩ := List.mem_map.mp h
  exact Env.set_of_ne env choice ha

/-- A row joins where the column on the left equals its own and the further conditions hold. -/
theorem holds_keys_iff {kind : JoinKind} (hkind : kind ≠ .cross)
    {table tableAlias leftAlias left right : String} {more : List Condition} {env : Env Tuple}
    {t : Tuple} (hne : leftAlias ≠ tableAlias) :
    holds d ⟨kind, table, tableAlias, keys kind leftAlias left tableAlias right ++ more⟩
        (env.set tableAlias (some t)) = true ↔
      (∃ v, env leftAlias = some v ∧ d.equal (v left) (t right) = true) ∧
        Truth.all (Condition.truths (d.within (env.set tableAlias (some t))) more) = .yes := by
  have hright := Dialect.valueIn_of_eq_some (Env.set_self env tableAlias (some t)) right
  have hequal : d.equal (Dialect.valueIn (env.set tableAlias (some t)) (.qualified leftAlias left))
      (t right) = true ↔ ∃ v, env leftAlias = some v ∧ d.equal (v left) (t right) = true := by
    rw [Dialect.equal_valueIn_iff, Env.set_of_ne env _ hne]
  rw [holds, keys, if_neg hkind, decide_eq_true_iff, Condition.truths, List.singleton_append,
    List.map_cons, Truth.all_cons, Truth.and_eq_yes_iff, ← hequal, Dialect.equal,
    decide_eq_true_iff, ← hright]
  rfl

end Join

/-! ## The conditions of a relation -/

namespace JoinPlan

variable {kind : JoinKind} {field childAlias : String} {child : Entity}

theorem joinConditions_none (h : kind ≠ .cross) :
    joinConditions kind field child childAlias none = .ok [] := by
  simp [joinConditions, h]

theorem joinConditions_some (h : kind ≠ .cross) {filter : FilterExpr} :
    joinConditions kind field child childAlias (some filter)
      = FilterScope.conditions ⟨child, childAlias, .join⟩ filter := by
  simp [joinConditions, h]

end JoinPlan

/-! ## The joins of a link -/

/-- Rows as records: the projected columns, the id, and the rows that a link's relation leads to. -/
def Dialect.view (d : Dialect) (db : Database) : View Tuple where
  fields n t := n.names.map fun column => (column, t column)
  id n t := .integer (n.entity.idOf t)
  kids l t := d.related db l.edge.relation l.child.entity l.edge.args.joinFilter t

theorem Dialect.keys_view (n : NodePlan) (t : Tuple) :
    ((d.view db).fields n t).map Prod.fst = n.names := by
  rw [view, List.map_map]
  exact List.map_id _

namespace Link

/-- What an environment becomes in the joins of a link. -/
def step (d : Dialect) (db : Database) (l : Link) : Env Tuple → List (Env Tuple) :=
  extend (Join.step d db) l.joins

variable {catalog : Catalog} {separator : String} {l : Link}

/-- The further conditions of a link say of the child's row what the filter of its relation says. -/
theorem Valid.conditions_iff (h : l.Valid catalog separator) (hleft : l.edge.kind = .left)
    {env : Env Tuple} {k : Tuple} (hk : env l.child.tableAlias = some k) :
    Truth.all (Condition.truths (d.within env) l.edge.conditions) = .yes ↔
      d.admits l.child.entity l.edge.args.joinFilter k = true := by
  have hcross : l.edge.kind ≠ .cross := by simp [hleft]
  have hconditions := h.conditions
  cases hfilter : l.edge.args.joinFilter with
  | none =>
    rw [hfilter, JoinPlan.joinConditions_none hcross] at hconditions
    rw [← Except.ok.inj hconditions]
    simp [Dialect.admits, Condition.truths]
  | some filter =>
    rw [hfilter, JoinPlan.joinConditions_some hcross] at hconditions
    have hmeaning : filter.meaning (d.within env) ⟨l.child.entity, l.child.tableAlias, .join⟩
        = filter.meaning (d.of k) ⟨l.child.entity, l.child.entity.name, .filter⟩ :=
      Dialect.meaning_within hk (by decide) (by decide) filter
    rw [FilterScope.truths_conditions _ rfl hconditions, hmeaning, Dialect.admits,
      decide_eq_true_iff]

/-- The join to the child finds the rows that equal the column and satisfy the filter. -/
theorem Valid.holds_childJoin_iff (h : l.Valid catalog separator) (hleft : l.edge.kind = .left)
    {leftAlias left : String} (hne : leftAlias ≠ l.child.tableAlias) {env : Env Tuple} {k : Tuple} :
    (l.childJoin leftAlias left).holds d (env.set l.child.tableAlias (some k)) = true ↔
      (∃ v, env leftAlias = some v ∧ d.equal (v left) (k l.edge.relation.toColumn) = true) ∧
        d.admits l.child.entity l.edge.args.joinFilter k = true := by
  rw [childJoin, Join.holds_keys_iff (by simp [hleft]) hne,
    h.conditions_iff hleft (Env.set_self env _ (some k))]

theorem holds_betweenJoin_iff (hleft : l.edge.kind = .left) {through : Through} {between : String}
    (hne : l.parent.tableAlias ≠ between) {env : Env Tuple} {t : Tuple} :
    (l.betweenJoin through between).holds d (env.set between (some t)) = true ↔
      ∃ v, env l.parent.tableAlias = some v ∧
        d.equal (v l.edge.relation.fromColumn) (t through.fromColumn) = true := by
  rw [betweenJoin, ← List.append_nil (Join.keys ..), Join.holds_keys_iff (by simp [hleft]) hne]
  simp [Condition.truths]

/-! ### Direct links -/

theorem step_direct (hthrough : l.edge.relation.through = none) (env : Env Tuple) :
    l.step d db env =
      (l.childJoin l.parent.tableAlias l.edge.relation.fromColumn).step d db env := by
  rw [step, joins_direct hthrough]
  exact extend_singleton ..

theorem mem_kids_direct (hthrough : l.edge.relation.through = none) {v k : Tuple} :
    k ∈ (d.view db).kids l v ↔ k ∈ db l.child.entity.table ∧
      d.equal (v l.edge.relation.fromColumn) (k l.edge.relation.toColumn) = true ∧
      d.admits l.child.entity l.edge.args.joinFilter k = true := by
  rw [Dialect.view, Dialect.mem_related, Dialect.leads, hthrough]

/-- A direct link is one join, and it offers the related rows. -/
theorem Valid.offers_direct (h : l.Valid catalog separator) (hleft : l.edge.kind = .left)
    (hthrough : l.edge.relation.through = none) (hparent : l.parent.tableAlias ∉ l.aliases) :
    l.Offers (d.view db).kids (Link.step d db) := by
  have hne : l.parent.tableAlias ≠ l.child.tableAlias :=
    fun heq => hparent (heq ▸ l.child_mem_aliases)
  refine ⟨fun env env' henv a ha => ?_, fun env env' henv => ?_, fun env v hv k hk => ?_,
    fun env => ?_⟩
  · rw [step_direct hthrough] at henv
    exact Join.frame_of_mem_step henv fun heq => ha (heq ▸ l.child_mem_aliases)
  · rw [step_direct hthrough] at henv
    rcases (Join.mem_step hleft).mp henv with ⟨-, rfl⟩ | ⟨k, hk, hholds, rfl⟩
    · exact Or.inl (Env.set_self ..)
    · obtain ⟨⟨v, hv, hequal⟩, hadmits⟩ := (h.holds_childJoin_iff hleft hne).mp hholds
      refine Or.inr ⟨v, ?_, k, (mem_kids_direct hthrough).mpr ⟨hk, hequal, hadmits⟩,
        Env.set_self ..⟩
      exact (Env.set_of_ne _ _ hne).trans hv
  · obtain ⟨hk, hequal, hadmits⟩ := (mem_kids_direct hthrough).mp hk
    refine ⟨env.set l.child.tableAlias (some k), ?_, Env.set_self ..⟩
    rw [step_direct hthrough]
    exact (Join.mem_step hleft).mpr (Or.inr ⟨k, hk,
      (h.holds_childJoin_iff hleft hne).mpr ⟨⟨v, hv, hequal⟩, hadmits⟩, rfl⟩)
  · rw [step_direct hthrough]
    exact Join.step_ne_nil hleft env

/-! ### Links through a table in between -/

section through

variable {through : Through} {between : String}

theorem step_through (hthrough : l.edge.relation.through = some through)
    (hbetween : l.edge.throughAlias = some between) (env : Env Tuple) :
    l.step d db env = ((l.betweenJoin through between).step d db env).flatMap
      ((l.childJoin between through.toColumn).step d db) := by
  rw [step, joins_through hthrough hbetween, extend]
  exact List.flatMap_congr fun mid _ => extend_singleton ..

theorem mem_kids_through (hthrough : l.edge.relation.through = some through) {v k : Tuple} :
    k ∈ (d.view db).kids l v ↔ k ∈ db l.child.entity.table ∧
      (∃ t ∈ db through.table,
        d.equal (v l.edge.relation.fromColumn) (t through.fromColumn) = true ∧
        d.equal (t through.toColumn) (k l.edge.relation.toColumn) = true) ∧
      d.admits l.child.entity l.edge.args.joinFilter k = true := by
  rw [Dialect.view, Dialect.mem_related, Dialect.leads, hthrough]
  simp

/-- A link through a table in between is two joins, and they offer the related rows. -/
theorem Valid.offers_through (h : l.Valid catalog separator) (hleft : l.edge.kind = .left)
    (hthrough : l.edge.relation.through = some through)
    (hparent : l.parent.tableAlias ∉ l.aliases) (hnodup : l.aliases.Nodup) :
    l.Offers (d.view db).kids (Link.step d db) := by
  obtain ⟨between, hbetween⟩ : ∃ between, l.edge.throughAlias = some between := by
    rw [← Option.isSome_iff_exists, h.through, hthrough]
    rfl
  have haliases : l.aliases = [l.child.tableAlias, between] := by
    rw [aliases, hbetween]
    rfl
  rw [haliases] at hparent hnodup
  have hparentBetween : l.parent.tableAlias ≠ between := fun heq => hparent (by simp [heq])
  have hparentChild : l.parent.tableAlias ≠ l.child.tableAlias :=
    fun heq => hparent (by simp [heq])
  have hne : between ≠ l.child.tableAlias := fun heq => by simp [heq] at hnodup
  refine ⟨fun env env' henv a ha => ?_, fun env env' henv => ?_, fun env v hv k hk => ?_,
    fun env => ?_⟩
  · rw [step_through hthrough hbetween] at henv
    obtain ⟨mid, hmid, henv⟩ := List.mem_flatMap.mp henv
    rw [haliases, List.mem_cons, List.mem_singleton, not_or] at ha
    rw [Join.frame_of_mem_step henv ha.1, Join.frame_of_mem_step hmid ha.2]
  · rw [step_through hthrough hbetween] at henv
    obtain ⟨mid, hmid, henv⟩ := List.mem_flatMap.mp henv
    rcases (Join.mem_step hleft).mp henv with ⟨-, rfl⟩ | ⟨k, hk, hchild, rfl⟩
    · exact Or.inl (Env.set_self ..)
    -- The child has a row, so the table in between has one, and so has the parent.
    obtain ⟨⟨t, ht, hto⟩, hadmits⟩ := (h.holds_childJoin_iff hleft hne).mp hchild
    rcases (Join.mem_step hleft).mp hmid with ⟨-, rfl⟩ | ⟨t', ht', hlink, rfl⟩
    · exact absurd ((Env.set_self ..).symm.trans ht) (by simp)
    · obtain rfl : t' = t := Option.some.inj ((Env.set_self ..).symm.trans ht)
      obtain ⟨v, hv, hfrom⟩ := (holds_betweenJoin_iff hleft hparentBetween).mp hlink
      refine Or.inr ⟨v, ?_, k,
        (mem_kids_through hthrough).mpr ⟨hk, ⟨t', ht', hfrom, hto⟩, hadmits⟩, Env.set_self ..⟩
      exact ((Env.set_of_ne _ _ hparentChild).trans (Env.set_of_ne _ _ hparentBetween)).trans hv
  · obtain ⟨hk, ⟨t, ht, hfrom, hto⟩, hadmits⟩ := (mem_kids_through hthrough).mp hk
    refine ⟨(env.set between (some t)).set l.child.tableAlias (some k), ?_, Env.set_self ..⟩
    rw [step_through hthrough hbetween]
    refine List.mem_flatMap.mpr ⟨env.set between (some t), ?_, ?_⟩
    · exact (Join.mem_step hleft).mpr (Or.inr ⟨t, ht,
        (holds_betweenJoin_iff hleft hparentBetween).mpr ⟨v, hv, hfrom⟩, rfl⟩)
    · exact (Join.mem_step hleft).mpr (Or.inr ⟨k, hk, (h.holds_childJoin_iff hleft hne).mpr
        ⟨⟨t, Env.set_self .., hto⟩, hadmits⟩, rfl⟩)
  · rw [step_through hthrough hbetween, Ne, List.flatMap_eq_nil_iff]
    intro hnil
    obtain ⟨mid, hmid⟩ := List.exists_mem_of_ne_nil _
      (Join.step_ne_nil (j := l.betweenJoin through between) hleft env)
    exact absurd (hnil mid hmid) (Join.step_ne_nil hleft mid)

end through

/-- **The joins of a valid link offer the rows that its relation leads to.** -/
theorem Valid.offers (h : l.Valid catalog separator) (hleft : l.edge.kind = .left)
    (hparent : l.parent.tableAlias ∉ l.aliases) (hnodup : l.aliases.Nodup) :
    l.Offers (d.view db).kids (Link.step d db) := by
  cases hthrough : l.edge.relation.through with
  | none => exact h.offers_direct hleft hthrough hparent
  | some through => exact h.offers_through hleft hthrough hparent hnodup

end Link
end NestedRead
