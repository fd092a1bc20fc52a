import NestedRead.Proofs.Sql.Columns
import NestedRead.Statement.Render

/-!
# The words of a statement

The text of a statement is put together from keywords, which are the same for all statements, and
from what the statement holds: its tables, aliases and names of columns in quotes, its column
references, and its two numbers. Nothing else gets into the text (`Statement.Uses.spelled`). In
particular a value gets into it as a question mark, or as one of three keywords.

The proofs follow the printer. Texts that are spelled from some words are closed under the ways in
which it puts texts together, so there is one lemma for each of its functions.
-/

set_option autoImplicit false

namespace NestedRead

namespace Sql

/-- A text that is put together from some words. -/
inductive Spelled (Word : String → Prop) : String → Prop
  | empty : Spelled Word ""
  | word {w : String} (known : Word w) : Spelled Word w
  | append {s t : String} (front : Spelled Word s) (back : Spelled Word t) : Spelled Word (s ++ t)

/-- The texts of the printer that are the same for all statements. -/
def keywords : List String :=
  ["SELECT ", "DISTINCT ", "*", " FROM ", " AS ", " ON ", " WHERE ", " GROUP BY ", " HAVING ",
    " ORDER BY ", " LIMIT ", " OFFSET ", "INNER JOIN", "LEFT JOIN", "RIGHT JOIN",
    "FULL OUTER JOIN", "CROSS JOIN", " AND ", " OR ", "NOT ", "IN (", "BETWEEN ? AND ?", "ASC",
    "DESC", ">", ">=", "<", "<=", "=", "<>", "IS", "IS NOT", "NULL", "TRUE", "FALSE", "?",
    "1 = 1", "1 = 0", "(", ")", ", ", " "]

theorem Spelled.joined {Word : String → Prop} {separator : String}
    (hseparator : Spelled Word separator) : ∀ {texts : List String},
      (∀ text ∈ texts, Spelled Word text) → Spelled Word (Text.joined separator texts)
  | [], _ => .empty
  | [text], h => h text (List.mem_singleton_self text)
  | text :: next :: rest, h => by
    obtain ⟨htext, hrest⟩ := List.forall_mem_cons.mp h
    exact (htext.append hseparator).append (Spelled.joined hseparator hrest)

end Sql

open Sql (Spelled)

section printer

variable {Word : String → Prop} (hkeyword : ∀ {w : String}, w ∈ Sql.keywords → Spelled Word w)

include hkeyword

theorem Comparison.spelled (operator : Comparison) : Spelled Word operator.sql := by
  apply hkeyword
  cases operator <;> decide

/-- A value is a question mark or a keyword. -/
theorem Comparison.spelled_value (operator : Comparison) (value : Json) :
    Spelled Word ((operator.keyword? value).getD "?") := by
  apply hkeyword
  unfold keyword?
  split <;> decide

theorem Conjunction.spelled (conjunction : Conjunction) : Spelled Word conjunction.sql := by
  apply hkeyword
  cases conjunction <;> decide

theorem spelled_negation (negated : Bool) : Spelled Word (negation negated) := by
  cases negated with
  | false => exact .empty
  | true => exact hkeyword (by decide)

/-! ## Conditions -/

namespace Condition

mutual

/-- A condition is spelled from keywords and its columns. -/
theorem spelled : ∀ c : Condition, (∀ column ∈ c.columns, Word column.sql) → Spelled Word c.sql
  | .compare column operator value, h => by
    have hcolumn : Spelled Word column.sql := .word (h column (List.mem_singleton_self column))
    have hblank : Spelled Word " " := hkeyword (by decide)
    exact (((hcolumn.append hblank).append (operator.spelled hkeyword)).append hblank).append
      (operator.spelled_value hkeyword value)
  | .compareColumns left operator right, h => by
    have hleft : Word left.sql := h left List.mem_cons_self
    have hright : Word right.sql := h right (by simp [columns])
    have hblank : Spelled Word " " := hkeyword (by decide)
    exact ((((Spelled.word hleft).append hblank).append (operator.spelled hkeyword)).append
      hblank).append (.word hright)
  | .member column values negated, h => by
    have hcolumn : Spelled Word column.sql := .word (h column (List.mem_singleton_self column))
    rw [sql]
    split
    · cases negated <;> exact hkeyword (by decide)
    · have hmarks : Spelled Word (Text.joined ", " (values.map fun _ => "?")) := by
        refine Spelled.joined (hkeyword (by decide)) fun text htext => ?_
        obtain ⟨_, -, rfl⟩ := List.mem_map.mp htext
        exact hkeyword (by decide)
      exact ((((hcolumn.append (hkeyword (by decide))).append
        (spelled_negation hkeyword negated)).append (hkeyword (by decide))).append hmarks).append
        (hkeyword (by decide))
  | .between column low high negated, h => by
    have hcolumn : Spelled Word column.sql := .word (h column (List.mem_singleton_self column))
    exact ((hcolumn.append (hkeyword (by decide))).append
      (spelled_negation hkeyword negated)).append (hkeyword (by decide))
  | .group [], _ => hkeyword (by decide)
  | .group ((conjunction, condition) :: rest), h => by
    rw [columns, termColumns, List.forall_mem_append] at h
    exact (((hkeyword (by decide)).append (spelled condition h.1)).append
      (spelled_more rest h.2)).append (hkeyword (by decide))

theorem spelled_more : ∀ terms : List (Conjunction × Condition),
    (∀ column ∈ termColumns terms, Word column.sql) → Spelled Word (moreSql terms)
  | [], _ => .empty
  | (conjunction, condition) :: rest, h => by
    rw [termColumns, List.forall_mem_append] at h
    exact ((conjunction.spelled hkeyword).append (spelled condition h.1)).append
      (spelled_more rest h.2)

end

theorem spelled_terms : ∀ terms : List Term, (∀ column ∈ termColumns terms, Word column.sql) →
    Spelled Word (termsSql terms)
  | [], _ => .empty
  | (_, condition) :: rest, h => by
    rw [termColumns, List.forall_mem_append] at h
    exact (spelled hkeyword condition h.1).append (spelled_more hkeyword rest h.2)

end Condition

/-! ## Clauses -/

theorem Projection.spelled (p : Projection) (hexpression : Word p.expression.sql)
    (hname : Word (Sql.identifier p.name)) : Spelled Word p.sql :=
  ((Spelled.word hexpression).append (hkeyword (by decide))).append (.word hname)

theorem Join.spelled (j : Join) (htable : Word (Sql.table j.table))
    (halias : Word (Sql.identifier j.tableAlias))
    (hcolumns : ∀ c ∈ j.conditions, ∀ column ∈ c.columns, Word column.sql) :
    Spelled Word j.sql := by
  have hkind : Spelled Word j.kind.sql := by
    cases j.kind <;> exact hkeyword (by decide)
  have hhead : Spelled Word (" " ++ j.kind.sql ++ " " ++ Sql.table j.table ++ " AS "
      ++ Sql.identifier j.tableAlias) :=
    (((((hkeyword (by decide)).append hkind).append (hkeyword (by decide))).append
      (.word htable)).append (hkeyword (by decide))).append (.word halias)
  have hconditions : Spelled Word (Text.joined " AND " (j.conditions.map Condition.sql)) := by
    refine Spelled.joined (hkeyword (by decide)) fun text htext => ?_
    obtain ⟨c, hc, rfl⟩ := List.mem_map.mp htext
    exact c.spelled hkeyword (hcolumns c hc)
  unfold sql
  dsimp only
  split
  · exact hhead
  · exact (hhead.append (hkeyword (by decide))).append hconditions

namespace Statement

theorem spelled_termsSection {keyword : String} (hmem : keyword ∈ Sql.keywords)
    (terms : List Term) (h : ∀ column ∈ Condition.termColumns terms, Word column.sql) :
    Spelled Word (termsSection keyword terms) := by
  unfold termsSection
  split
  · exact .empty
  · exact (hkeyword hmem).append (Condition.spelled_terms hkeyword terms h)

theorem spelled_listSection {keyword : String} (hmem : keyword ∈ Sql.keywords)
    {parts : List String} (h : ∀ part ∈ parts, Spelled Word part) :
    Spelled Word (listSection keyword parts) := by
  unfold listSection
  split
  · exact .empty
  · exact (hkeyword hmem).append (Spelled.joined (hkeyword (by decide)) h)

theorem spelled_countSql {keyword : String} (hmem : keyword ∈ Sql.keywords) {count : Option Nat}
    (h : ∀ n, count = some n → Word (toString n)) : Spelled Word (countSql keyword count) := by
  cases count with
  | none => exact .empty
  | some n => exact (hkeyword hmem).append (.word (h n rfl))

end Statement
end printer

/-! ## Statements -/

namespace Statement

/-- All that a statement is written with is among these words. -/
structure Uses (Word : String → Prop) (s : Statement) : Prop where
  keywords : ∀ w ∈ Sql.keywords, Word w
  source : ∀ table tableAlias, s.source = some (table, tableAlias) →
    Word (Sql.table table) ∧ Word (Sql.identifier tableAlias)
  projections : ∀ p ∈ s.projections, Word p.expression.sql ∧ Word (Sql.identifier p.name)
  joins : ∀ j ∈ s.joins, Word (Sql.table j.table) ∧ Word (Sql.identifier j.tableAlias) ∧
    ∀ c ∈ j.conditions, ∀ column ∈ c.columns, Word column.sql
  clauses : ∀ column ∈ s.clauseColumns, Word column.sql
  counts : ∀ n, s.limit = some n ∨ s.offset = some n → Word (toString n)

namespace Uses

variable {Word : String → Prop} {s : Statement} (h : s.Uses Word)

include h

theorem spelled_keyword {w : String} (hw : w ∈ Sql.keywords) : Spelled Word w :=
  .word (h.keywords w hw)

theorem spelled_select : Spelled Word s.selectSql := by
  have hprojections : Spelled Word (Text.joined ", " (s.projections.map Projection.sql)) := by
    refine Spelled.joined (h.spelled_keyword (by decide)) fun text htext => ?_
    obtain ⟨p, hp, rfl⟩ := List.mem_map.mp htext
    exact p.spelled h.spelled_keyword (h.projections p hp).1 (h.projections p hp).2
  have hdistinct : Spelled Word (if s.distinct then "DISTINCT " else "") := by
    split
    · exact h.spelled_keyword (by decide)
    · exact .empty
  refine ((h.spelled_keyword (by decide)).append hdistinct).append ?_
  split
  · exact h.spelled_keyword (by decide)
  · exact hprojections

theorem spelled_source : Spelled Word s.sourceSql := by
  unfold sourceSql
  split
  · rename_i table tableAlias hsource
    obtain ⟨htable, halias⟩ := h.source table tableAlias hsource
    exact (((h.spelled_keyword (by decide)).append (.word htable)).append
      (h.spelled_keyword (by decide))).append (.word halias)
  · exact .empty

theorem spelled_joins : Spelled Word s.joinsSql := by
  refine Spelled.joined .empty fun text htext => ?_
  obtain ⟨j, hj, rfl⟩ := List.mem_map.mp htext
  obtain ⟨htable, halias, hcolumns⟩ := h.joins j hj
  exact j.spelled h.spelled_keyword htable halias hcolumns

theorem spelled_groupBy :
    Spelled Word (listSection " GROUP BY " (s.groupBy.map ColumnRef.sql)) := by
  refine spelled_listSection h.spelled_keyword (by decide) fun text htext => ?_
  obtain ⟨column, hcolumn, rfl⟩ := List.mem_map.mp htext
  refine .word (h.clauses column ?_)
  simp [clauseColumns, hcolumn]

theorem spelled_orderBy : Spelled Word (listSection " ORDER BY " (s.orderBy.map orderSql)) := by
  refine spelled_listSection h.spelled_keyword (by decide) fun text htext => ?_
  obtain ⟨⟨column, direction⟩, hitem, rfl⟩ := List.mem_map.mp htext
  have hcolumn : Word column.sql := by
    refine h.clauses column ?_
    rw [clauseColumns, List.mem_append]
    exact .inr (List.mem_map_of_mem (f := (·.1)) hitem)
  have hdirection : Spelled Word direction.sql := by
    cases direction <;> exact h.spelled_keyword (by decide)
  exact ((Spelled.word hcolumn).append (h.spelled_keyword (by decide))).append hdirection

/-- **A statement is written in its own words.** -/
theorem spelled : Spelled Word s.sql := by
  have hfilters : ∀ column ∈ Condition.termColumns s.filters, Word column.sql := by
    intro column hcolumn
    refine h.clauses column ?_
    simp [clauseColumns, hcolumn]
  have hhaving : ∀ column ∈ Condition.termColumns s.having, Word column.sql := by
    intro column hcolumn
    refine h.clauses column ?_
    simp [clauseColumns, hcolumn]
  have hwhereSql : Spelled Word (termsSection " WHERE " s.filters) :=
    spelled_termsSection h.spelled_keyword (by decide) s.filters hfilters
  have hhavingSql : Spelled Word (termsSection " HAVING " s.having) :=
    spelled_termsSection h.spelled_keyword (by decide) s.having hhaving
  have hlimit : Spelled Word (countSql " LIMIT " s.limit) :=
    spelled_countSql h.spelled_keyword (by decide) fun n hn => h.counts n (.inl hn)
  have hoffset : Spelled Word (countSql " OFFSET " s.offset) :=
    spelled_countSql h.spelled_keyword (by decide) fun n hn => h.counts n (.inr hn)
  exact (((((((h.spelled_select.append h.spelled_source).append h.spelled_joins).append
    hwhereSql).append h.spelled_groupBy).append hhavingSql).append h.spelled_orderBy).append
    hlimit).append hoffset

end Uses
end Statement
end NestedRead
