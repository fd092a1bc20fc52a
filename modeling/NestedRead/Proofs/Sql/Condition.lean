import NestedRead.Proofs.Sql.Truth
import NestedRead.Statement.Basic

/-!
# What conditions mean

An `Interpretation` says what value every column and aggregate expression has and what scalar
comparisons make of two values; nothing is assumed of either. On top of it conditions are read
as SQL reads them: `IN` is a disjunction of equalities, so an empty list is `no`; `BETWEEN` is a
pair of bounds; `NOT` turns a truth around and keeps the unknown.

A list of terms is read from left to right with AND binding tighter than OR. The connector of
the first term joins it to nothing and is not looked at. `truthFrom` carries the truth of the
conjunction that is being read, so the two lemmas at the end say how a list falls apart: a run of
AND terms is one conjunction, and terms that are all OR are alternatives to what came before.
-/

set_option autoImplicit false

namespace NestedRead

/-- The values of columns and expressions, and the comparison of two values. -/
structure Interpretation where
  value : ColumnRef → Json
  compare : Comparison → Json → Json → Truth

namespace Condition

variable (I : Interpretation)

/-- Whether a value equals one of several. -/
def memberTruth (x : Json) (values : List Json) : Truth :=
  Truth.any (values.map (I.compare .eq x))

/-- Whether a value lies between two bounds, which belong to the range. -/
def rangeTruth (x low high : Json) : Truth :=
  (I.compare .gte x low).and (I.compare .lte x high)

mutual

/-- The truth of a condition. -/
def truth : Condition → Truth
  | .compare column operator value => I.compare operator (I.value column) value
  | .compareColumns left operator right => I.compare operator (I.value left) (I.value right)
  | .member column values negated => (memberTruth I (I.value column) values).negatedIf negated
  | .between column low high negated =>
    (rangeTruth I (I.value column) low high).negatedIf negated
  | .group terms => termsTruth terms

/-- The truth of a list of terms; no terms ask for nothing. -/
def termsTruth : List (Conjunction × Condition) → Truth
  | [] => .yes
  | (_, condition) :: rest => truthFrom (truth condition) rest

/-- The truth of the terms that follow a conjunction with this truth. -/
def truthFrom (sofar : Truth) : List (Conjunction × Condition) → Truth
  | [] => sofar
  | (.and, condition) :: rest => truthFrom (sofar.and (truth condition)) rest
  | (.or, condition) :: rest => sofar.or (truthFrom (truth condition) rest)

end

def truths (conditions : List Condition) : List Truth := conditions.map (truth I)

/-! ## Runs of terms with one connector -/

/-- A run of AND terms is one conjunction. -/
theorem truthFrom_and (sofar : Truth) (conditions : List Condition) (rest : List Term) :
    truthFrom I sofar (conditions.map (Conjunction.and, ·) ++ rest)
      = truthFrom I (sofar.and (Truth.all (truths I conditions))) rest := by
  induction conditions generalizing sofar with
  | nil => simp [truths]
  | cons c cs ih =>
    rw [List.map_cons, List.cons_append, truthFrom, ih]
    simp only [truths, List.map_cons, Truth.all_cons, Truth.and_assoc]

/-- OR terms are alternatives to the conjunction before them. -/
theorem truthFrom_or (sofar : Truth) (conditions : List Condition) :
    truthFrom I sofar (conditions.map (Conjunction.or, ·))
      = sofar.or (Truth.any (truths I conditions)) := by
  induction conditions generalizing sofar with
  | nil => simp [truthFrom, truths]
  | cons c cs ih =>
    rw [List.map_cons, truthFrom, ih]
    simp only [truths, List.map_cons, Truth.any_cons]

/-- Conditions joined by AND alone hold when each of them does. -/
theorem termsTruth_and (conditions : List Condition) :
    termsTruth I (conditions.map (Conjunction.and, ·)) = Truth.all (truths I conditions) := by
  cases conditions with
  | nil => simp [termsTruth, truths]
  | cons c cs =>
    have h := truthFrom_and I (truth I c) cs []
    rw [List.append_nil] at h
    rw [List.map_cons, termsTruth, h]
    simp [truthFrom, truths]

/-- AND terms with OR terms behind them: the conjunction or one of the alternatives, and only
the alternatives where there is no AND term. -/
theorem termsTruth_and_or (conjuncts alternatives : List Condition) :
    termsTruth I (conjuncts.map (Conjunction.and, ·) ++ alternatives.map (Conjunction.or, ·))
      = if conjuncts.isEmpty && !alternatives.isEmpty then Truth.any (truths I alternatives)
        else (Truth.all (truths I conjuncts)).or (Truth.any (truths I alternatives)) := by
  cases conjuncts with
  | nil =>
    cases alternatives with
    | nil => simp [termsTruth, truths, Truth.or]
    | cons c cs =>
      -- The OR of the first alternative has nothing before it.
      rw [List.map_nil, List.nil_append, List.map_cons, termsTruth, truthFrom_or]
      simp [truths]
  | cons c cs =>
    rw [List.map_cons, List.cons_append, termsTruth, truthFrom_and, truthFrom_or]
    simp [truths]

end Condition
end NestedRead
