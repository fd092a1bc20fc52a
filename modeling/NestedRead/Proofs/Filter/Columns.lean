import NestedRead.Proofs.Filter.Steps
import NestedRead.Proofs.Sql.Columns

/-!
# The columns of a compiled filter

Whatever names a request uses, a column that comes out of them is one that the entity offers: a
scalar field, or an aggregate over one, and where it calculates, over numbers. `Entity.Offers` says
so without the names. Compiling a filter looks up every name (`FilterScope.column`) and makes
conditions on nothing else, so `terms_columns` is an induction on the filter that only collects what
the lookups give.
-/

set_option autoImplicit false

namespace NestedRead

/-- The columns that an entity offers under a table alias. -/
inductive Entity.Offers (entity : Entity) (tableAlias : String) : ColumnRef → Prop
  | scalar {name : String} {type : ScalarType} (found : entity.scalarType? name = some type) :
      Offers entity tableAlias (.qualified tableAlias name)
  | unique : Offers entity tableAlias (.qualified tableAlias entity.uniqueColumn)
  | aggregate {f : AggregateFn} {source : String} {type : ScalarType}
      (found : entity.scalarType? source = some type)
      (numeric : f.requiresNumeric = true → type.isNumeric = true) :
      Offers entity tableAlias (.raw (f.expression tableAlias source))

namespace Entity

variable {entity : Entity} {tableAlias name : String} {column : ColumnRef}

theorem Offers.of (h : entity.Offers tableAlias column) : column.Of tableAlias := by
  cases h with
  | scalar | unique => rfl
  | aggregate => exact ⟨_, _, rfl⟩

theorem offers_plainColumn (h : entity.plainColumn tableAlias name = .ok column) :
    entity.Offers tableAlias column := by
  unfold plainColumn at h
  split at h
  · rename_i hfound
    cases h
    obtain ⟨type, htype⟩ := Option.isSome_iff_exists.mp hfound
    exact .scalar htype
  · cases h

theorem offers_column (h : entity.column tableAlias name = .ok column) :
    entity.Offers tableAlias column := by
  unfold Entity.column at h
  split at h
  · exact offers_plainColumn h
  split at h
  · cases h
  rename_i source function hcut _ type htype
  split at h
  · rename_i f hf
    cases h
    -- The function was let through, so it needs no numbers or the field has them.
    have hguard := (Option.filter_eq_some_iff.mp hf).2
    refine .aggregate htype fun hnumeric => ?_
    simpa [hnumeric] using hguard
  · cases h

end Entity

/-! ## Conditions -/

theorem Condition.columns_ofOperator {column : ColumnRef} {name : String} {value : Json}
    {c : Condition} (h : ofOperator column name value = .ok c) : c.columns = [column] := by
  obtain ⟨op, -, h⟩ := Outcome.bind_eq_ok_iff.mp h
  cases op with
  | compare comparison =>
    dsimp only at h
    unfold ofComparison at h
    split at h
    · split at h <;> cases h <;> rfl
    · split at h <;> cases h
      rfl
  | member negated | between negated =>
    dsimp only at h
    split at h <;> cases h
    rfl

theorem Condition.columns_ofOperators {column : ColumnRef} {operators : List (String × Json)}
    {cs : List Condition} (h : ofOperators column operators = .ok cs) :
    ∀ c ∈ cs, c.columns = [column] := by
  induction operators generalizing cs with
  | nil => cases h; simp
  | cons operator rest ih =>
    obtain ⟨c, more, hc, hmore, rfl⟩ := ofOperators_cons_eq_ok h
    intro d hd
    rcases List.mem_cons.mp hd with rfl | hd
    · exact columns_ofOperator hc
    · exact ih hmore d hd

/-! ## Filters -/

namespace FilterScope

variable {scope : FilterScope}

theorem offers_column {name : String} {column : ColumnRef} (h : scope.column name = .ok column) :
    scope.entity.Offers scope.tableAlias column := by
  unfold FilterScope.column at h
  split at h
  · exact Entity.offers_column h
  · exact Entity.offers_plainColumn h
  · exact Entity.offers_plainColumn h

theorem offers_fieldTerms {fields : List FieldFilter} {ts : List Term}
    (h : scope.fieldTerms fields = .ok ts) :
    ∀ column ∈ Condition.termColumns ts, scope.entity.Offers scope.tableAlias column := by
  induction fields generalizing ts with
  | nil => cases h; simp [Condition.termColumns]
  | cons f rest ih =>
    obtain ⟨found, cs, more, hfound, hcs, hmore, rfl⟩ := fieldTerms_cons_eq_ok h
    intro column hcolumn
    rw [Condition.termColumns_append, Condition.termColumns_map, List.mem_append] at hcolumn
    rcases hcolumn with hcolumn | hcolumn
    · -- The conditions of one field are all on its column.
      obtain ⟨c, hc, hmem⟩ := List.mem_flatMap.mp hcolumn
      rw [Condition.columns_ofOperators hcs c hc, List.mem_singleton] at hmem
      rw [hmem]
      exact offers_column hfound
    · exact ih hmore column hcolumn

theorem termColumns_parenthesised (conjunction : Conjunction) (ts : List Term) :
    Condition.termColumns (parenthesised conjunction ts) = Condition.termColumns ts := by
  cases ts with
  | nil => rfl
  | cons t ts => simp [parenthesised, Condition.termColumns, Condition.columns]

mutual

/-- **A compiled filter refers to columns that its entity offers**, under the alias that it was
compiled for. -/
theorem offers_terms : ∀ {filter : FilterExpr} {ts : List Term}, scope.terms filter = .ok ts →
    ∀ column ∈ Condition.termColumns ts, scope.entity.Offers scope.tableAlias column
  | ⟨fields, allOf, anyOf⟩, ts, h => by
    obtain ⟨fieldTerms, allTerms, anyTerms, hfields, hall, hany, rfl⟩ := terms_eq_ok h
    intro column hcolumn
    simp only [Condition.termColumns_append, List.mem_append] at hcolumn
    rcases hcolumn with (hcolumn | hcolumn) | hcolumn
    · exact offers_fieldTerms hfields column hcolumn
    · exact offers_groups hall column hcolumn
    · exact offers_groups hany column hcolumn

theorem offers_groups {conjunction : Conjunction} : ∀ {members : List FilterExpr}
    {ts : List Term}, scope.groups conjunction members = .ok ts →
      ∀ column ∈ Condition.termColumns ts, scope.entity.Offers scope.tableAlias column
  | [], ts, h => by cases h; simp [Condition.termColumns]
  | member :: rest, ts, h => by
    obtain ⟨inner, more, hinner, hmore, rfl⟩ := groups_cons_eq_ok h
    intro column hcolumn
    rw [Condition.termColumns_append, termColumns_parenthesised, List.mem_append] at hcolumn
    rcases hcolumn with hcolumn | hcolumn
    · exact offers_terms hinner column hcolumn
    · exact offers_groups hmore column hcolumn

end

theorem offers_conditions {filter : FilterExpr} {cs : List Condition}
    (h : scope.conditions filter = .ok cs) :
    ∀ c ∈ cs, ∀ column ∈ c.columns, scope.entity.Offers scope.tableAlias column := by
  obtain ⟨ts, hts, rfl⟩ := conditions_eq_ok h
  intro c hc column hcolumn
  obtain ⟨t, ht, rfl⟩ := List.mem_map.mp hc
  exact offers_terms hts column (Condition.columns_subset_termColumns ht hcolumn)

end FilterScope
end NestedRead
