import NestedRead.Statement.Render

/-!
# Statements without their values

A statement is blanked by putting one and the same value in the place of every value that a
placeholder stands for. What is left is what the text is made of: a blanked statement has the text
of the statement (`Statement.sql_blank`). The tests with IS are the one place where a value decides
about the text, as one of three keywords, and there it stays.
-/

set_option autoImplicit false

namespace NestedRead

/-- The value that stands for all others. It is a scalar, and it is not null. -/
def Json.blank : Json := .string ""

namespace Condition

mutual

def blank : Condition → Condition
  | .compare column operator value =>
    .compare column operator (if (operator.keyword? value).isSome then value else .blank)
  | .compareColumns left operator right => .compareColumns left operator right
  | .member column values negated => .member column (values.map fun _ => .blank) negated
  | .between column _ _ negated => .between column .blank .blank negated
  | .group terms => .group (blankTerms terms)

def blankTerms : List (Conjunction × Condition) → List (Conjunction × Condition)
  | [] => []
  | (conjunction, condition) :: rest => (conjunction, blank condition) :: blankTerms rest

end

theorem blankTerms_eq_map (ts : List Term) : blankTerms ts = ts.map fun t => (t.1, t.2.blank) := by
  induction ts with
  | nil => rfl
  | cons t ts ih => rw [blankTerms, ih, List.map_cons]

@[simp] theorem blankTerms_append (ts us : List Term) :
    blankTerms (ts ++ us) = blankTerms ts ++ blankTerms us := by
  rw [blankTerms_eq_map, blankTerms_eq_map, blankTerms_eq_map, List.map_append]

theorem blankTerms_map (conjunction : Conjunction) (cs : List Condition) :
    blankTerms (cs.map (conjunction, ·)) = (cs.map blank).map (conjunction, ·) := by
  rw [blankTerms_eq_map, List.map_map, List.map_map]
  rfl

theorem isEmpty_blankTerms (ts : List Term) : (blankTerms ts).isEmpty = ts.isEmpty := by
  cases ts <;> rfl

/-! ## The text -/

theorem keyword?_blank (operator : Comparison) (value : Json) :
    operator.keyword? (if (operator.keyword? value).isSome then value else .blank) =
      operator.keyword? value := by
  cases h : operator.keyword? value with
  | some word => exact h
  | none => cases operator <;> rfl

mutual

theorem sql_blank : ∀ c : Condition, c.blank.sql = c.sql
  | .compare column operator value => by rw [blank, sql, sql, keyword?_blank]
  | .compareColumns _ _ _ => rfl
  | .member column values negated => by
    rw [blank, sql, sql, List.isEmpty_map, List.map_map]
    rfl
  | .between _ _ _ _ => rfl
  | .group [] => rfl
  | .group ((conjunction, condition) :: rest) => by
    rw [blank, blankTerms, sql, sql, termSql, termSql, sql_blank condition, moreSql_blank rest]

theorem moreSql_blank : ∀ ts : List (Conjunction × Condition),
    moreSql (blankTerms ts) = moreSql ts
  | [] => rfl
  | (conjunction, condition) :: rest => by
    rw [blankTerms, moreSql, moreSql, sql_blank condition, moreSql_blank rest]

end

theorem termsSql_blank (ts : List Term) : termsSql (blankTerms ts) = termsSql ts := by
  cases ts with
  | nil => rfl
  | cons t ts => rw [blankTerms, termsSql, termsSql, termSql, termSql, sql_blank, moreSql_blank]

end Condition

namespace Join

def blank (j : Join) : Join := { j with conditions := j.conditions.map Condition.blank }

theorem sql_blank (j : Join) : j.blank.sql = j.sql := by
  have hsql : (j.conditions.map Condition.blank).map Condition.sql
      = j.conditions.map Condition.sql := by
    rw [List.map_map]
    exact List.map_congr_left fun c _ => Condition.sql_blank c
  unfold sql blank
  simp only [hsql, List.isEmpty_map]

end Join

/-! ## Statements and their clauses -/

def Clause.blank : Clause → Clause
  | .join j => .join j.blank
  | .filter (conjunction, condition) => .filter (conjunction, condition.blank)
  | .having (conjunction, condition) => .having (conjunction, condition.blank)
  | c => c

namespace Statement

def blank (s : Statement) : Statement :=
  { s with
    joins := s.joins.map Join.blank
    filters := Condition.blankTerms s.filters
    having := Condition.blankTerms s.having }

theorem termsSection_blank (keyword : String) (ts : List Term) :
    termsSection keyword (Condition.blankTerms ts) = termsSection keyword ts := by
  unfold termsSection
  rw [Condition.isEmpty_blankTerms, Condition.termsSql_blank]

/-- **The text of a statement does not depend on the values of its placeholders.** -/
theorem sql_blank (s : Statement) : s.blank.sql = s.sql := by
  have hjoins : s.blank.joinsSql = s.joinsSql := by
    unfold joinsSql
    rw [show s.blank.joins = s.joins.map Join.blank from rfl, List.map_map]
    exact congrArg _ (List.map_congr_left fun j _ => Join.sql_blank j)
  unfold sql
  rw [hjoins, show s.blank.filters = Condition.blankTerms s.filters from rfl,
    show s.blank.having = Condition.blankTerms s.having from rfl, termsSection_blank,
    termsSection_blank]
  rfl

theorem apply_blank (s : Statement) (c : Clause) : s.blank.apply c.blank = (s.apply c).blank := by
  cases c <;> simp [apply, blank, Clause.blank, Condition.blankTerms]

theorem foldl_apply_blank (cs : List Clause) (s : Statement) :
    (cs.map Clause.blank).foldl apply s.blank = (cs.foldl apply s).blank := by
  induction cs generalizing s with
  | nil => rfl
  | cons c cs ih => rw [List.map_cons, List.foldl_cons, List.foldl_cons, apply_blank, ih]

/-- A statement is blanked clause by clause. -/
theorem ofClauses_blank (cs : List Clause) :
    ofClauses (cs.map Clause.blank) = (ofClauses cs).blank :=
  foldl_apply_blank cs {}

end Statement
end NestedRead
