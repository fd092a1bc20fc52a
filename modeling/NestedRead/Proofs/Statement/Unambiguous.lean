import NestedRead.Proofs.Sql.LegibleCondition
import NestedRead.Proofs.Statement.Clauses

/-!
# A statement can be read from its text and its values

Rendering loses nothing of a statement that is explicit, which is to say that it is made of columns
and explicit conditions, and that And stands before its first filter and before the first of the
terms after HAVING. Two explicit statements with the same text and the same values are the same.

The proof goes along the text: each section of it is legible (`Sql.Legible`), and no section begins
with a word that would be read as more of the one before it.
-/

set_option autoImplicit false

namespace NestedRead

open Sql

/-- Every part of the statement leaves something in the text. -/
structure Statement.Explicit (s : Statement) : Prop where
  projections : ∀ p ∈ s.projections, p.expression.isQualified = true
  joins : ∀ j ∈ s.joins, ∀ c ∈ j.conditions, c.isExplicit = true
  filters : Condition.leadsWithAnd s.filters = true ∧ Condition.areExplicit s.filters = true
  groupBy : ∀ column ∈ s.groupBy, column.isQualified = true
  having : Condition.leadsWithAnd s.having = true ∧ Condition.areExplicit s.having = true
  orderBy : ∀ item ∈ s.orderBy, item.1.isQualified = true

/-! ## Projections and tables -/

theorem legible_projection :
    Legible Projection.sql noValues id (fun p => p.expression.isQualified = true) ["\""] := by
  have hname : Legible (fun p : Projection => " AS " ++ identifier p.name) noValues (·.name)
      (fun p => p.expression.isQualified = true) ["\""] :=
    ((legible_identifier.comap Projection.name).keyword " AS ").imp fun _ _ => trivial
  have hboth := (legible_column.comap Projection.expression).followed hname
    (fun p _ => starts_append " AS " (identifier p.name)) (by decide)
  simp only [← String.append_assoc] at hboth
  exact hboth.map_part fun p q _ _ h => by
    cases p
    cases q
    cases h
    rfl

/-- A table and its alias. -/
def aliasedSql (p : String × String) : String :=
  table p.1 ++ " AS " ++ identifier p.2

theorem legible_aliasedSql : Legible aliasedSql noValues id (fun _ => True) ["\""] := by
  have hname : Legible (fun p : String × String => " AS " ++ identifier p.2) noValues (·.2)
      (fun _ => True) ["\""] :=
    (legible_identifier.comap Prod.snd).keyword " AS "
  have hboth := (legible_table.comap Prod.fst).followed hname
    (fun p _ => starts_append " AS " (identifier p.2)) (by decide)
  simp only [← String.append_assoc] at hboth
  exact hboth

/-! ## Joins -/

namespace Join

/-- The conditions behind ON. -/
def onSql (conditions : List Condition) : String :=
  if conditions.isEmpty then "" else " ON " ++ Text.joined " AND " (conditions.map Condition.sql)

theorem sql_eq (j : Join) :
    j.sql = " " ++ j.kind.sql ++ " " ++ aliasedSql (j.table, j.tableAlias)
      ++ onSql j.conditions := by
  unfold sql onSql aliasedSql
  split <;> simp only [String.append_assoc, String.append_empty]

theorem legible_kind : Legible (fun kind : JoinKind => " " ++ kind.sql ++ " ") noValues id
    (fun _ => True) [] :=
  legible_of_apart fun a b => by cases a <;> cases b <;> decide

/-- The words that a join begins with. -/
def leads : List String :=
  [" INNER JOIN ", " LEFT JOIN ", " RIGHT JOIN ", " FULL OUTER JOIN ", " CROSS JOIN "]

theorem starts_sql (j : Join) : Starts leads j.sql := by
  rw [sql_eq]
  refine Starts.append (Starts.append ?_ _) _
  cases j.kind <;> exact ⟨_, by decide, "", (String.append_empty).symm⟩

theorem legible_onSql : Legible onSql (fun conditions => conditions.flatMap Condition.bindings) id
    (fun conditions => ∀ c ∈ conditions, c.isExplicit = true) [" ON ", " AND ", "\""] :=
  ((Condition.legible_sql.joined (by decide : ∀ w ∈ ["\""], Apart w " AND "))).list " ON " rfl

theorem opens_onSql (conditions : List Condition) : Opens [" ON "] (onSql conditions) :=
  opens_list " ON " (fun cs => Text.joined " AND " (cs.map Condition.sql)) conditions

/-- What may not stand behind a join. -/
def words : List String := ["\"", " ON ", " AND "]

theorem legible_sql :
    Legible sql bindings id (fun j => ∀ c ∈ j.conditions, c.isExplicit = true) words := by
  have htable : Legible (fun j : Join => " " ++ j.kind.sql ++ " "
      ++ aliasedSql (j.table, j.tableAlias)) noValues (fun j => (j.kind, j.table, j.tableAlias))
      (fun _ => True) ["\""] :=
    (legible_kind.comap Join.kind).append
      (legible_aliasedSql.comap fun j : Join => (j.table, j.tableAlias))
      fun _ _ _ _ => free_of_nil _
  have hall := (htable.imp fun _ _ => trivial).section (legible_onSql.comap Join.conditions)
    (fun j _ => opens_onSql j.conditions) (by decide)
  simp only [← sql_eq] at hall
  refine (hall.map_part fun i j _ _ h => ?_).mono (by decide)
  cases i
  cases j
  cases h
  rfl

end Join

/-! ## Sections -/

namespace Statement

theorem legible_distinct : Legible (fun distinct : Bool => if distinct then "DISTINCT " else "")
    noValues id (fun _ => True) ["DISTINCT "] :=
  legible_of_text fun a b _ _ u v hu hv htext => by
    cases a <;> cases b
    · exact ⟨rfl, htext⟩
    · exact absurd htext ((starts_self "DISTINCT ").not_free v hu)
    · exact absurd htext.symm ((starts_self "DISTINCT ").not_free u hv)
    · exact ⟨rfl, List.append_cancel_left htext⟩

/-- What is selected: everything, or a list of projections. -/
def itemsSql (ps : List Projection) : String :=
  if ps.isEmpty then "*" else Text.joined ", " (ps.map Projection.sql)

theorem starts_itemsSql_cons {p : Projection} {ps : List Projection}
    (h : p.expression.isQualified = true) : Starts ["\""] (itemsSql (p :: ps)) := by
  rw [itemsSql, if_neg (by simp), List.map_cons, Text.joined_cons, Projection.sql]
  exact (((ColumnRef.starts_sql h).append _).append _).append _

theorem starts_itemsSql {ps : List Projection} (h : ∀ p ∈ ps, p.expression.isQualified = true) :
    Starts ["*", "\""] (itemsSql ps) := by
  cases ps with
  | nil => exact (starts_self "*").mono (by simp)
  | cons p ps => exact (starts_itemsSql_cons (h p List.mem_cons_self)).mono (by simp)

theorem legible_itemsSql : Legible itemsSql noValues id
    (fun ps => ∀ p ∈ ps, p.expression.isQualified = true) [", ", "\""] := by
  have hjoined := (legible_projection.joined (by decide : ∀ w ∈ ["\""], Apart w ", ")).congr_values
    fun ps => List.flatMap_eq_nil_iff.mpr fun _ _ => rfl
  rintro (_ | ⟨p, ps⟩) (_ | ⟨q, qs⟩) hps hqs u v hu hv xs ys htext hvalues
  · exact ⟨rfl, List.append_cancel_left htext, hvalues⟩
  · exact absurd htext ((starts_self "*").ne (starts_itemsSql_cons (hqs q List.mem_cons_self))
      (by decide) u v)
  · exact absurd htext ((starts_itemsSql_cons (hps p List.mem_cons_self)).ne (starts_self "*")
      (by decide) u v)
  · exact hjoined ⟨List.cons_ne_nil p ps, hps⟩ ⟨List.cons_ne_nil q qs, hqs⟩ hu hv htext hvalues

theorem legible_selectSql : Legible selectSql noValues (fun s => (s.distinct, s.projections))
    (fun s => ∀ p ∈ s.projections, p.expression.isQualified = true) [", ", "\""] :=
  (((legible_distinct.comap distinct).keyword "SELECT ").imp fun _ _ => trivial).followed
    (legible_itemsSql.comap projections) (fun _ hs => starts_itemsSql hs) (by decide)

theorem sourceSql_eq (s : Statement) :
    s.sourceSql = s.source.elim "" (" FROM " ++ aliasedSql ·) := by
  rw [sourceSql]
  cases s.source with
  | none => rfl
  | some source => simp only [Option.elim, aliasedSql, String.append_assoc]

theorem legible_sourceSql :
    Legible sourceSql noValues source (fun _ => True) [" FROM ", "\""] := by
  have h := ((legible_aliasedSql.option " FROM ").comap source).imp
    fun s (_ : True) p _ => trivial
  simp only [← sourceSql_eq] at h
  exact h

theorem opens_sourceSql (s : Statement) : Opens [" FROM "] s.sourceSql := by
  rw [sourceSql_eq]
  exact opens_option " FROM " _ s.source

theorem legible_joinsSql : Legible joinsSql (fun s => s.joins.flatMap Join.bindings) joins
    (fun s => ∀ j ∈ s.joins, ∀ c ∈ j.conditions, c.isExplicit = true) (Join.leads ++ Join.words) :=
  (Join.legible_sql.many (fun j _ => j.starts_sql) (by decide)).comap joins

theorem opens_joinsSql (s : Statement) : Opens Join.leads s.joinsSql :=
  opens_joined (List.forall_mem_map.mpr fun j _ => j.starts_sql)

theorem legible_termsSection (keyword : String) :
    Legible (termsSection keyword) Condition.termBindings id
      (fun ts => Condition.leadsWithAnd ts = true ∧ Condition.areExplicit ts = true)
      (keyword :: Condition.termWords) := by
  refine Legible.list keyword (Condition.legible_terms.imp ?_) rfl
  rintro ts ⟨hne, hleads, hts⟩
  simp [Condition.isExplicit, hne, hleads, hts]

theorem opens_termsSection (keyword : String) (ts : List Term) :
    Opens [keyword] (termsSection keyword ts) :=
  opens_list keyword Condition.termsSql ts

section

variable {σ : Type} {text : σ → String} {ok : σ → Prop} {words : List String}

theorem listSection_map (keyword : String) (items : List σ) :
    listSection keyword (items.map text) =
      if items.isEmpty then "" else keyword ++ Text.joined ", " (items.map text) := by
  rw [listSection, List.isEmpty_map]

theorem legible_listSection (keyword : String) (h : Legible text noValues id ok words)
    (hapart : ∀ w ∈ words, Apart w ", ") :
    Legible (fun items : List σ => listSection keyword (items.map text)) noValues id
      (fun items => ∀ a ∈ items, ok a) (keyword :: ", " :: words) := by
  have hjoined : Legible _ noValues _ _ _ := (h.joined hapart).congr_values
    fun items => List.flatMap_eq_nil_iff.mpr fun _ _ => rfl
  simpa only [listSection_map] using hjoined.list keyword rfl

theorem opens_listSection (keyword : String) (items : List σ) :
    Opens [keyword] (listSection keyword (items.map text)) := by
  rw [listSection_map]
  exact opens_list keyword (fun items => Text.joined ", " (items.map text)) items

end

theorem legible_direction :
    Legible SortDirection.sql noValues id (fun _ => True) [] :=
  legible_of_apart fun a b => by cases a <;> cases b <;> decide

theorem legible_orderSql :
    Legible orderSql noValues id (fun item => item.1.isQualified = true) [] := by
  have hdirection : Legible (fun item : ColumnRef × SortDirection => " " ++ item.2.sql) noValues
      (·.2) (fun item => item.1.isQualified = true) [] :=
    ((legible_direction.comap Prod.snd).keyword " ").imp fun _ _ => trivial
  have hboth := (legible_column.comap Prod.fst).followed hdirection
    (fun item _ => starts_append " " item.2.sql) (by decide)
  simp only [← String.append_assoc] at hboth
  exact hboth

theorem countSql_eq (keyword : String) (n : Option Nat) :
    countSql keyword n = n.elim "" (keyword ++ toString ·) := by
  cases n <;> rfl

theorem legible_countSql (keyword : String) :
    Legible (countSql keyword) noValues id (fun _ => True) (keyword :: digits) := by
  have h := (legible_number.option keyword).imp fun o (_ : True) n _ => trivial
  simp only [← countSql_eq] at h
  exact h

theorem opens_countSql (keyword : String) (n : Option Nat) :
    Opens [keyword] (countSql keyword n) := by
  rw [countSql_eq]
  exact opens_option keyword (fun n => toString n) n

/-- What may not stand behind a statement, because it would be read as a part of it. -/
def words : List String :=
  [", ", "\"", " FROM ", " ON ", " WHERE ", " AND ", " OR ", " GROUP BY ", " HAVING ",
    " ORDER BY ", " LIMIT ", " OFFSET "] ++ Join.leads ++ digits

/-- A statement is legible, section by section. -/
theorem legible_sql : Legible sql bindings id Explicit words := by
  have hsource := (legible_selectSql.imp fun s (hs : s.Explicit) => hs.projections).section
    (legible_sourceSql.imp fun _ _ => trivial) (fun s _ => s.opens_sourceSql) (by decide)
  have hjoins := hsource.section (legible_joinsSql.imp fun _ hs => hs.joins)
    (fun s _ => s.opens_joinsSql) (by decide)
  have hfilters := hjoins.section
    (((legible_termsSection " WHERE ").comap filters).imp fun _ hs => hs.filters)
    (fun s _ => opens_termsSection " WHERE " s.filters) (by decide)
  have hgroupBy := hfilters.section
    (((legible_listSection " GROUP BY " legible_column (by decide)).comap groupBy).imp
      fun _ hs => hs.groupBy)
    (fun s _ => opens_listSection " GROUP BY " s.groupBy) (by decide)
  have hhaving := hgroupBy.section
    (((legible_termsSection " HAVING ").comap having).imp fun _ hs => hs.having)
    (fun s _ => opens_termsSection " HAVING " s.having) (by decide)
  have horderBy := hhaving.section
    (((legible_listSection " ORDER BY " legible_orderSql (by decide)).comap orderBy).imp
      fun _ hs => hs.orderBy)
    (fun s _ => opens_listSection " ORDER BY " s.orderBy) (by decide)
  have hlimit := horderBy.section
    (((legible_countSql " LIMIT ").comap limit).imp fun _ _ => trivial)
    (fun s _ => opens_countSql " LIMIT " s.limit) (by decide)
  have hoffset := hlimit.section
    (((legible_countSql " OFFSET ").comap offset).imp fun _ _ => trivial)
    (fun s _ => opens_countSql " OFFSET " s.offset) (by decide)
  have hwhole : Legible sql bindings _ Explicit _ := hoffset.congr_values fun s => by
    simp only [noValues, bindings, List.nil_append, List.append_nil]
  refine Legible.mono (hwhole.map_part fun s t _ _ h => ?_) (by decide)
  cases s
  cases t
  simp only [Prod.mk.injEq, id] at h
  simp only [h, id]

/-- **No two explicit statements are rendered alike.** -/
theorem eq_of_render_eq {s t : Statement} (hs : s.Explicit) (ht : t.Explicit)
    (h : s.render = t.render) : s = t := by
  obtain ⟨hsql, hbindings⟩ := Rendered.mk.inj h
  obtain ⟨hsame, -⟩ := legible_sql hs ht (free_nil (by decide)) (free_nil (by decide))
    (by rw [hsql]) (congrArg (· ++ []) hbindings)
  exact hsame

end Statement

/-! ## A statement that is hard to read -/

namespace Sample

/-- Names that look like SQL, and conditions that do. -/
def intricate : Statement where
  source := some ("a.b\".\"c", "x\" AS \"y")
  projections := [⟨.qualified "\"" "", "\", \""⟩, ⟨.qualified "." ".", "FROM"⟩]
  joins := [⟨.left, "", "", []⟩,
    ⟨.cross, ".", " ON ", [.between (.qualified "a" "b") (.ofNat 1) (.ofNat 2) true,
      .compare (.qualified "a" "b") .is (.string "NOT NULL")]⟩]
  filters := [(.and, .compare (.qualified "a" "b") .isNot .null),
    (.or, .group [(.and, .group [(.and, .member (.qualified "a" "b") [.null, .null] false)]),
      (.and, .compareColumns (.qualified "a" "b") .is (.qualified "NOT " "?"))])]
  orderBy := [(.qualified "a" "b", .descending)]
  limit := some 10
  offset := some 1
  distinct := true

theorem explicit_intricate : intricate.Explicit where
  projections := by decide
  joins := by decide
  filters := by decide
  groupBy := by decide
  having := by decide
  orderBy := by decide

/-- The same, put together in another order. -/
def intricateClauses : List Clause :=
  intricate.filters.map .filter ++ [.limit 7, .distinct, .source "lost" "", .offset 1]
    ++ intricate.projections.map (.select [·]) ++ [.source "a.b\".\"c" "x\" AS \"y"]
    ++ intricate.orderBy.map (fun item => .orderBy item.1 item.2) ++ intricate.joins.map .join
    ++ [.limit 10]

theorem explicit_intricateClauses : (Statement.ofClauses intricateClauses).Explicit where
  projections := by decide
  joins := by decide
  filters := by decide
  groupBy := by decide
  having := by decide
  orderBy := by decide

end Sample

theorem Statement.eq_of_render_eq_intricate :
    Statement.ofClauses Sample.intricateClauses = Sample.intricate :=
  Statement.eq_of_render_eq Sample.explicit_intricateClauses Sample.explicit_intricate rfl

end NestedRead
