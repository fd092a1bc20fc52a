import NestedRead.Statement.Basic

/-!
# A statement is what each of its clauses adds

`Statement.ofClauses` folds over a sequence of clauses. Every part of the result depends only on
the clauses of its own kind, in their order: lists are concatenated, of a source, a limit and an
offset the last one counts. `Statement.foldl_apply` says so for all parts at once, so a proof about
a compiled statement looks at its clauses and never at the fold.
-/

set_option autoImplicit false

namespace NestedRead

namespace Clause

/-! ## What one clause adds to each part -/

def sources : Clause → List (String × String)
  | .source table tableAlias => [(table, tableAlias)]
  | _ => []

def projections : Clause → List Projection
  | .select projections => projections
  | _ => []

def joins : Clause → List Join
  | .join j => [j]
  | _ => []

def filters : Clause → List Term
  | .filter term => [term]
  | _ => []

def groupings : Clause → List ColumnRef
  | .groupBy column => [column]
  | _ => []

def havings : Clause → List Term
  | .having term => [term]
  | _ => []

def orderings : Clause → List (ColumnRef × SortDirection)
  | .orderBy column direction => [(column, direction)]
  | _ => []

def limits : Clause → List Nat
  | .limit n => [n]
  | _ => []

def offsets : Clause → List Nat
  | .offset n => [n]
  | _ => []

def isDistinct : Clause → Bool
  | .distinct => true
  | _ => false

end Clause

/-- Clauses of one kind add nothing to the parts of the others. -/
theorem flatMap_nil_right {α β : Type} (xs : List α) : (xs.flatMap fun _ => ([] : List β)) = [] := by
  simp

namespace Statement

theorem foldl_apply : ∀ (cs : List Clause) (s : Statement), cs.foldl apply s =
    { source := (cs.flatMap Clause.sources).getLast?.or s.source
      projections := s.projections ++ cs.flatMap Clause.projections
      joins := s.joins ++ cs.flatMap Clause.joins
      filters := s.filters ++ cs.flatMap Clause.filters
      groupBy := s.groupBy ++ cs.flatMap Clause.groupings
      having := s.having ++ cs.flatMap Clause.havings
      orderBy := s.orderBy ++ cs.flatMap Clause.orderings
      limit := (cs.flatMap Clause.limits).getLast?.or s.limit
      offset := (cs.flatMap Clause.offsets).getLast?.or s.offset
      distinct := s.distinct || cs.any Clause.isDistinct }
  | [], s => by simp
  | c :: cs, s => by
    rw [List.foldl_cons, foldl_apply cs]
    cases c <;> simp [apply, Clause.sources, Clause.projections, Clause.joins, Clause.filters,
      Clause.groupings, Clause.havings, Clause.orderings, Clause.limits, Clause.offsets,
      Clause.isDistinct, List.getLast?_cons]

/-- The statement that a sequence of clauses makes, part by part. -/
theorem ofClauses_eq (cs : List Clause) : ofClauses cs =
    { source := (cs.flatMap Clause.sources).getLast?
      projections := cs.flatMap Clause.projections
      joins := cs.flatMap Clause.joins
      filters := cs.flatMap Clause.filters
      groupBy := cs.flatMap Clause.groupings
      having := cs.flatMap Clause.havings
      orderBy := cs.flatMap Clause.orderings
      limit := (cs.flatMap Clause.limits).getLast?
      offset := (cs.flatMap Clause.offsets).getLast?
      distinct := cs.any Clause.isDistinct } := by
  rw [ofClauses, foldl_apply]
  simp

end Statement
end NestedRead
