import NestedRead.Query.Column

/-!
# The columns that conditions refer to

A condition refers to columns at its leaves, in parentheses or not. A column belongs to the table
alias that it is read from; an aggregate belongs to the alias of the column that it is over. Terms
refer to what each of them refers to, and bind the values that each of them binds.

`Join.InScope` is the scope rule of a FROM clause: joins are read in their order, and the condition
of each sees the tables that are there so far and its own.
-/

set_option autoImplicit false

namespace NestedRead

/-- A column, and no expression. -/
def ColumnRef.isQualified : ColumnRef → Bool
  | .qualified _ _ => true
  | .raw _ => false

/-- The column is one of the table with this alias, or an aggregate over one. -/
def ColumnRef.Of (tableAlias : String) : ColumnRef → Prop
  | .qualified a _ => a = tableAlias
  | .raw e => ∃ (f : AggregateFn) (source : String), e = f.expression tableAlias source

namespace Condition

mutual

def columns : Condition → List ColumnRef
  | .compare column _ _ => [column]
  | .compareColumns left _ right => [left, right]
  | .member column _ _ => [column]
  | .between column _ _ _ => [column]
  | .group terms => termColumns terms

def termColumns : List (Conjunction × Condition) → List ColumnRef
  | [] => []
  | (_, condition) :: rest => columns condition ++ termColumns rest

end

@[simp] theorem termColumns_append (ts us : List Term) :
    termColumns (ts ++ us) = termColumns ts ++ termColumns us := by
  induction ts with
  | nil => rfl
  | cons t ts ih => rw [List.cons_append, termColumns, termColumns, ih, List.append_assoc]

@[simp] theorem termColumns_map (conjunction : Conjunction) (cs : List Condition) :
    termColumns (cs.map (conjunction, ·)) = cs.flatMap columns := by
  induction cs with
  | nil => rfl
  | cons c cs ih => rw [List.map_cons, termColumns, ih, List.flatMap_cons]

theorem termColumns_eq_flatMap (ts : List Term) : termColumns ts = ts.flatMap (·.2.columns) := by
  induction ts with
  | nil => rfl
  | cons t ts ih => rw [termColumns, ih, List.flatMap_cons]

theorem columns_subset_termColumns {t : Term} {ts : List Term} (h : t ∈ ts) :
    t.2.columns ⊆ termColumns ts := fun _ hcolumn => by
  rw [termColumns_eq_flatMap]
  exact List.mem_flatMap.mpr ⟨t, h, hcolumn⟩

theorem termBindings_eq_flatMap (ts : List Term) : termBindings ts = ts.flatMap (·.2.bindings) := by
  induction ts with
  | nil => rfl
  | cons t ts ih => rw [termBindings, ih, List.flatMap_cons]

@[simp] theorem termBindings_append (ts us : List Term) :
    termBindings (ts ++ us) = termBindings ts ++ termBindings us := by
  simp only [termBindings_eq_flatMap, List.flatMap_append]

end Condition

/-! ## Scopes -/

/-- Joins in their order, where these aliases are there before the first of them. -/
inductive Join.InScope : List String → List Join → Prop
  | nil {known : List String} : InScope known []
  | cons {known : List String} {j : Join} {more : List Join}
      (conditions : ∀ c ∈ j.conditions, ∀ column ∈ c.columns,
        ∃ a ∈ j.tableAlias :: known, column.Of a)
      (rest : InScope (j.tableAlias :: known) more) : InScope known (j :: more)

namespace Statement

/-- The aliases that a statement introduces, that of its first table before those of its joins. -/
def aliases (s : Statement) : List String :=
  s.source.toList.map (·.2) ++ s.joins.map (·.tableAlias)

/-- The columns that a statement refers to after its joins. -/
def clauseColumns (s : Statement) : List ColumnRef :=
  Condition.termColumns s.filters ++ s.groupBy ++ Condition.termColumns s.having
    ++ s.orderBy.map (·.1)

/-- No alias is introduced twice, and a column is referred to only where its table is in scope:
behind ON the tables so far, in the projections any, and in the clauses after the joins the first
table alone. -/
structure WellScoped (base : String) (s : Statement) : Prop where
  source : ∃ table, s.source = some (table, base)
  aliases : s.aliases.Nodup
  joins : Join.InScope [base] s.joins
  projections : ∀ p ∈ s.projections, ∃ a ∈ s.aliases, p.expression.Of a
  clauses : ∀ column ∈ s.clauseColumns, column.Of base

end Statement
end NestedRead
