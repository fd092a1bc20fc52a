import NestedRead.Proofs.Sql.Columns
import NestedRead.Proofs.Sql.Placeholder
import NestedRead.Proofs.Statement.Clauses
import NestedRead.Proofs.Text.Joined

/-!
# Placeholders and values stay aligned

The text of a statement and its values are made side by side, and nothing but their order says which
value belongs to which placeholder. A statement is taken apart into the pieces that contribute
values of their own. Each piece has as many placeholders as values, and the n-th placeholder is the
place of the n-th value: with the values written in their places, the piece reads as it would if it
were written without placeholders at all (`Condition.written`). The pieces in their order are the
statement, so the same holds for the whole.

A raw expression may contain anything, so it has to be asked of it that its double quotes are
balanced and that it brings no placeholder of its own. Names need no such condition.
-/

set_option autoImplicit false

namespace NestedRead

/-! ## Columns -/

/-- A raw expression leaves no name open and has no placeholder. -/
def ColumnRef.Closed : ColumnRef → Prop
  | .qualified _ _ => True
  | .raw expression => Sql.Closed expression

instance : DecidablePred ColumnRef.Closed
  | .qualified _ _ => inferInstanceAs (Decidable True)
  | .raw expression => inferInstanceAs (Decidable (Sql.Closed expression))

theorem ColumnRef.Closed.sql : ∀ {column : ColumnRef}, column.Closed → Sql.Closed column.sql
  | .qualified tableAlias column, _ => Sql.closed_qualified tableAlias column
  | .raw _, h => h

theorem Projection.closed_sql {p : Projection} (h : p.expression.Closed) : Sql.Closed p.sql :=
  (h.sql.append (by decide)).append (Sql.closed_identifier p.name)

/-! ## Keywords -/

theorem Comparison.closed_sql (operator : Comparison) : Sql.Closed operator.sql := by
  cases operator <;> decide

theorem Comparison.closed_keyword {operator : Comparison} {value : Json} {word : String}
    (h : operator.keyword? value = some word) : Sql.Closed word := by
  unfold keyword? at h
  split at h <;> cases h <;> decide

theorem Conjunction.closed_sql (conjunction : Conjunction) : Sql.Closed conjunction.sql := by
  cases conjunction <;> decide

theorem JoinKind.closed_sql (kind : JoinKind) : Sql.Closed kind.sql := by
  cases kind <;> decide

theorem SortDirection.closed_sql (direction : SortDirection) : Sql.Closed direction.sql := by
  cases direction <;> decide

theorem closed_negation (negated : Bool) : Sql.Closed (negation negated) := by
  cases negated <;> decide

/-! ## Conditions -/

namespace Condition

mutual

/-- A condition with its operands in the text, each written as `lit` says. -/
def written (lit : Json → String) : Condition → String
  | .compare column operator value =>
    column.sql ++ " " ++ operator.sql ++ " " ++ (operator.keyword? value).getD (lit value)
  | .compareColumns left operator right => left.sql ++ " " ++ operator.sql ++ " " ++ right.sql
  | .member column values negated =>
    if values.isEmpty then (if negated then "1 = 1" else "1 = 0")
    else column.sql ++ " " ++ negation negated ++ "IN (" ++ Text.joined ", " (values.map lit) ++ ")"
  | .between column low high negated =>
    column.sql ++ " " ++ negation negated ++ ("BETWEEN " ++ lit low ++ " AND " ++ lit high)
  | .group [] => "1 = 1"
  | .group ((_, condition) :: rest) => "(" ++ written lit condition ++ moreWritten lit rest ++ ")"

def moreWritten (lit : Json → String) : List (Conjunction × Condition) → String
  | [] => ""
  | (conjunction, condition) :: rest =>
    conjunction.sql ++ written lit condition ++ moreWritten lit rest

end

variable (lit : Json → String)

/-- The operand of a comparison is a keyword, or a placeholder. -/
theorem aligned_operand (operator : Comparison) (value : Json) :
    Sql.Aligned ((operator.keyword? value).getD "?")
      ((if (operator.keyword? value).isSome then [] else [value]).map lit)
      ((operator.keyword? value).getD (lit value)) := by
  cases hword : operator.keyword? value with
  | some word => exact (Comparison.closed_keyword hword).aligned
  | none => exact Sql.aligned_placeholder (lit value)

theorem aligned_members (values : List Json) :
    Sql.Aligned (Text.joined ", " (values.map fun _ => "?")) (values.map lit)
      (Text.joined ", " (values.map lit)) := by
  have h := Sql.Aligned.joined (by decide : Sql.Closed ", ")
    fun value (_ : value ∈ values) => Sql.aligned_placeholder (lit value)
  rwa [← List.map_eq_flatMap] at h

mutual

theorem aligned : ∀ c : Condition, (∀ column ∈ c.columns, column.Closed) →
    Sql.Aligned c.sql (c.bindings.map lit) (c.written lit)
  | .compare column operator value, h => by
    rw [sql, bindings, written]
    have hcolumn : Sql.Closed column.sql := (h column List.mem_cons_self).sql
    exact (((hcolumn.append (by decide)).append operator.closed_sql).append (by decide)).before
      (aligned_operand lit operator value)
  | .compareColumns left operator right, h => by
    rw [sql, bindings, written]
    have hleft : Sql.Closed left.sql := (h left List.mem_cons_self).sql
    have hright : Sql.Closed right.sql := (h right (List.mem_cons_of_mem _ List.mem_cons_self)).sql
    exact ((((hleft.append (by decide)).append operator.closed_sql).append (by decide)).append
      hright).aligned
  | .member column values negated, h => by
    rw [sql, bindings, written]
    cases values with
    | nil =>
      have hconstant : Sql.Closed (if negated then "1 = 1" else "1 = 0") := by
        cases negated <;> decide
      exact hconstant.aligned
    | cons value values =>
      have hcolumn : Sql.Closed column.sql := (h column List.mem_cons_self).sql
      exact ((((hcolumn.append (by decide)).append (closed_negation negated)).append
        (by decide)).before (aligned_members lit (value :: values))).behind (by decide)
  | .between column low high negated, h => by
    rw [sql, bindings, written]
    have hcolumn : Sql.Closed column.sql := (h column List.mem_cons_self).sql
    -- The test is one keyword in the text, but its two operands stand apart.
    have htest : Sql.Aligned "BETWEEN ? AND ?" [lit low, lit high]
        ("BETWEEN " ++ lit low ++ " AND " ++ lit high) :=
      (((by decide : Sql.Closed "BETWEEN ").before (Sql.aligned_placeholder (lit low))).behind
        (by decide : Sql.Closed " AND ")).append (Sql.aligned_placeholder (lit high))
    exact ((hcolumn.append (by decide)).append (closed_negation negated)).before htest
  | .group [], _ => Sql.Closed.aligned (by decide)
  | .group ((conjunction, condition) :: rest), h => by
    rw [sql, termSql, bindings, termBindings, List.map_append, written]
    rw [columns, termColumns, List.forall_mem_append] at h
    exact ((Sql.Closed.before (by decide) (aligned condition h.1)).append
      (aligned_more rest h.2)).behind (by decide)

theorem aligned_more : ∀ ts : List (Conjunction × Condition),
    (∀ column ∈ termColumns ts, column.Closed) →
      Sql.Aligned (moreSql ts) ((termBindings ts).map lit) (moreWritten lit ts)
  | [], _ => Sql.Closed.aligned (by decide)
  | (conjunction, condition) :: rest, h => by
    rw [moreSql, termBindings, List.map_append, moreWritten]
    rw [termColumns, List.forall_mem_append] at h
    exact (conjunction.closed_sql.before (aligned condition h.1)).append (aligned_more rest h.2)

end

end Condition

/-! ## Pieces -/

/-- A piece of a statement: its text, the values that it contributes, and how it reads with these
in place. -/
structure Piece where
  text : String
  values : List Json
  written : (Json → String) → String

namespace Piece

/-- A text that contributes no value. -/
def plain (text : String) : Piece := ⟨text, [], fun _ => text⟩

/-- The piece has a placeholder for each of its values, in their order, and leaves no name open. -/
structure Aligned (p : Piece) : Prop where
  ends : Sql.Place.code.after p.text.toList ≠ .name
  count : Sql.placeholders p.text = p.values.length
  fill : ∀ lit, Sql.fill p.text (p.values.map lit) = p.written lit

theorem aligned_iff {p : Piece} :
    p.Aligned ↔ ∀ lit, Sql.Aligned p.text (p.values.map lit) (p.written lit) where
  mp h lit := ⟨h.ends, by rw [List.length_map, h.count], h.fill lit⟩
  mpr h := by
    have hcount := (h fun _ => "").count
    rw [List.length_map] at hcount
    exact ⟨(h fun _ => "").ends, hcount, fun lit => (h lit).fill⟩

theorem aligned_plain {text : String} (h : Sql.Closed text) : (plain text).Aligned :=
  aligned_iff.mpr fun _ => h.aligned

/-- Pieces as one. -/
def concat (ps : List Piece) : Piece where
  text := Text.joined "" (ps.map text)
  values := ps.flatMap values
  written lit := Text.joined "" (ps.map (·.written lit))

theorem aligned_concat {ps : List Piece} (h : ∀ p ∈ ps, p.Aligned) : (concat ps).Aligned :=
  aligned_iff.mpr fun lit => by
    rw [concat, List.map_flatMap]
    exact Sql.Aligned.joined (by decide) fun p hp => aligned_iff.mp (h p hp) lit

end Piece

def Condition.piece (c : Condition) : Piece := ⟨c.sql, c.bindings, fun lit => c.written lit⟩

theorem Condition.aligned_piece {c : Condition} (h : ∀ column ∈ c.columns, column.Closed) :
    c.piece.Aligned :=
  Piece.aligned_iff.mpr fun lit => c.aligned lit h

namespace Join

/-- A join with the operands of its conditions in the text. -/
def written (lit : Json → String) (j : Join) : String :=
  let head := " " ++ j.kind.sql ++ " " ++ Sql.table j.table ++ " AS " ++ Sql.identifier j.tableAlias
  if j.conditions.isEmpty then head
  else head ++ " ON " ++ Text.joined " AND " (j.conditions.map (Condition.written lit))

def piece (j : Join) : Piece := ⟨j.sql, j.bindings, fun lit => j.written lit⟩

theorem aligned_piece {j : Join} (h : ∀ c ∈ j.conditions, ∀ column ∈ c.columns, column.Closed) :
    j.piece.Aligned := by
  refine Piece.aligned_iff.mpr fun lit => ?_
  have hhead : Sql.Closed (" " ++ j.kind.sql ++ " " ++ Sql.table j.table ++ " AS "
      ++ Sql.identifier j.tableAlias) :=
    ((((Sql.Closed.append (by decide) j.kind.closed_sql).append (by decide)).append
      (Sql.closed_table j.table)).append (by decide)).append (Sql.closed_identifier j.tableAlias)
  show Sql.Aligned j.sql (j.bindings.map lit) (j.written lit)
  unfold sql bindings written
  cases hconditions : j.conditions with
  | nil => exact hhead.aligned
  | cons c cs =>
    rw [← hconditions, List.map_flatMap]
    have hjoined := Sql.Aligned.joined (by decide : Sql.Closed " AND ")
      fun c hc => Condition.aligned lit c (h c hc)
    rw [show j.conditions.isEmpty = false by rw [hconditions, List.isEmpty_cons]]
    exact (hhead.append (by decide)).before hjoined

end Join

namespace Statement

/-- Terms behind a keyword. Each is a piece by itself, and so are the connectors between them. -/
def termPieces (keyword : String) : List Term → List Piece
  | [] => []
  | (_, condition) :: rest =>
    .plain keyword :: condition.piece :: rest.flatMap fun t => [.plain t.1.sql, t.2.piece]

/-- A statement in pieces, in the order of SQL. -/
def pieces (s : Statement) : List Piece :=
  .plain s.selectSql :: .plain s.sourceSql :: s.joins.map Join.piece
    ++ termPieces " WHERE " s.filters
    ++ [.plain (listSection " GROUP BY " (s.groupBy.map ColumnRef.sql))]
    ++ termPieces " HAVING " s.having
    ++ [.plain (listSection " ORDER BY " (s.orderBy.map orderSql)),
      .plain (countSql " LIMIT " s.limit), .plain (countSql " OFFSET " s.offset)]

/-- Every column or expression that a statement mentions. -/
def columns (s : Statement) : List ColumnRef :=
  s.projections.map (·.expression) ++ s.joins.flatMap (·.conditions.flatMap Condition.columns)
    ++ s.clauseColumns

/-- The pieces of a statement are what is rendered of it, joins and terms are pieces of their own,
and each piece is aligned, as is the whole. -/
structure Aligned (s : Statement) : Prop where
  text : s.render.sql = Text.joined "" (s.pieces.map Piece.text)
  values : s.render.bindings = s.pieces.flatMap Piece.values
  joins : ∀ j ∈ s.joins, j.piece ∈ s.pieces
  terms : ∀ t ∈ s.filters ++ s.having, t.2.piece ∈ s.pieces
  pieces : ∀ p ∈ s.pieces, p.Aligned
  count : Sql.placeholders s.render.sql = s.render.bindings.length
  fill : ∀ lit, Sql.fill s.render.sql (s.render.bindings.map lit) =
    Text.joined "" (s.pieces.map (·.written lit))

/-! ### The pieces are the statement -/

theorem joined_morePieces (ts : List Term) :
    Text.joined "" ((ts.flatMap fun t => [.plain t.1.sql, t.2.piece]).map Piece.text)
      = Condition.moreSql ts := by
  induction ts with
  | nil => rfl
  | cons t ts ih =>
    rw [List.flatMap_cons, List.map_append, Text.joined_empty_append, ih, Condition.moreSql,
      List.map_cons, Text.joined_empty_cons]
    rfl

theorem joined_termPieces (keyword : String) (ts : List Term) :
    Text.joined "" ((termPieces keyword ts).map Piece.text) = termsSection keyword ts := by
  cases ts with
  | nil => rfl
  | cons t ts =>
    rw [termPieces, List.map_cons, List.map_cons, Text.joined_empty_cons, Text.joined_empty_cons,
      joined_morePieces, termsSection, if_neg (by simp), Condition.termsSql, Condition.termSql]
    rfl

theorem values_termPieces (keyword : String) (ts : List Term) :
    (termPieces keyword ts).flatMap Piece.values = Condition.termBindings ts := by
  cases ts with
  | nil => rfl
  | cons t ts =>
    rw [termPieces, List.flatMap_cons, List.flatMap_cons, List.flatMap_assoc,
      Condition.termBindings_eq_flatMap, List.flatMap_cons]
    simp only [Piece.plain, Condition.piece, List.flatMap_cons, List.flatMap_nil, List.nil_append,
      List.append_nil]

theorem joined_pieces (s : Statement) :
    Text.joined "" (s.pieces.map Piece.text) = s.render.sql := by
  simp only [pieces, List.map_append, List.map_cons, List.map_nil, List.map_map,
    Text.joined_empty_append, Text.joined_empty_cons, joined_termPieces, Piece.plain,
    List.cons_append]
  simp only [render, sql, joinsSql, String.append_assoc, Text.joined, String.append_empty]
  rfl

theorem values_pieces (s : Statement) : s.pieces.flatMap Piece.values = s.render.bindings := by
  simp only [pieces, List.flatMap_append, List.flatMap_cons, List.flatMap_nil, List.flatMap_map,
    values_termPieces, Piece.plain, List.nil_append, List.append_nil, List.cons_append]
  rfl

theorem mem_termPieces (keyword : String) {t : Term} {ts : List Term} (h : t ∈ ts) :
    t.2.piece ∈ termPieces keyword ts := by
  cases ts with
  | nil => cases h
  | cons u us =>
    rw [termPieces]
    rcases List.mem_cons.mp h with rfl | h
    · exact List.mem_cons_of_mem _ List.mem_cons_self
    · exact List.mem_cons_of_mem _ (List.mem_cons_of_mem _ (List.mem_flatMap.mpr
        ⟨t, h, List.mem_cons_of_mem _ List.mem_cons_self⟩))

/-! ### The pieces are aligned -/

theorem closed_selectSql {s : Statement} (h : ∀ p ∈ s.projections, p.expression.Closed) :
    Sql.Closed s.selectSql := by
  have hdistinct : Sql.Closed (if s.distinct then "DISTINCT " else "") := by
    cases s.distinct <;> decide
  refine (Sql.Closed.append (by decide) hdistinct).append ?_
  split
  · decide
  · refine Sql.Closed.joined (by decide) fun part hpart => ?_
    obtain ⟨p, hp, rfl⟩ := List.mem_map.mp hpart
    exact Projection.closed_sql (h p hp)

theorem closed_sourceSql (s : Statement) : Sql.Closed s.sourceSql := by
  unfold sourceSql
  split
  · exact (((by decide : Sql.Closed " FROM ").append (Sql.closed_table _)).append
      (by decide)).append (Sql.closed_identifier _)
  · decide

theorem closed_listSection {keyword : String} (hkeyword : Sql.Closed keyword) {parts : List String}
    (h : ∀ part ∈ parts, Sql.Closed part) : Sql.Closed (listSection keyword parts) := by
  unfold listSection
  split
  · decide
  · exact hkeyword.append (Sql.Closed.joined (by decide) h)

theorem closed_countSql {keyword : String} (hkeyword : Sql.Closed keyword) (n : Option Nat) :
    Sql.Closed (countSql keyword n) := by
  cases n with
  | none => exact (by decide : Sql.Closed "")
  | some n => exact hkeyword.append (Sql.closed_number n)

theorem aligned_termPieces {keyword : String} (hkeyword : Sql.Closed keyword) {ts : List Term}
    (h : ∀ column ∈ Condition.termColumns ts, column.Closed) :
    ∀ p ∈ termPieces keyword ts, p.Aligned := by
  have hterm : ∀ t ∈ ts, t.2.piece.Aligned := fun t ht =>
    Condition.aligned_piece fun column hcolumn =>
      h column (Condition.columns_subset_termColumns ht hcolumn)
  cases ts with
  | nil => exact fun _ hp => absurd hp List.not_mem_nil
  | cons t ts =>
    rw [termPieces, List.forall_mem_cons, List.forall_mem_cons]
    refine ⟨Piece.aligned_plain hkeyword, hterm t List.mem_cons_self, fun p hp => ?_⟩
    obtain ⟨u, hu, hp⟩ := List.mem_flatMap.mp hp
    rcases List.mem_cons.mp hp with rfl | hp
    · exact Piece.aligned_plain u.1.closed_sql
    · rw [List.mem_singleton.mp hp]
      exact hterm u (List.mem_cons_of_mem t hu)

theorem aligned_pieces {s : Statement} (h : ∀ column ∈ s.columns, column.Closed) :
    ∀ p ∈ s.pieces, p.Aligned := by
  -- Where the columns of each clause stand among those of the statement.
  simp only [columns, clauseColumns, List.forall_mem_append] at h
  obtain ⟨⟨hprojections, hjoins⟩, ⟨⟨hfilters, hgroupBy⟩, hhaving⟩, horderBy⟩ := h
  have hgroups : ∀ part ∈ s.groupBy.map ColumnRef.sql, Sql.Closed part :=
    List.forall_mem_map.mpr fun column hcolumn => (hgroupBy column hcolumn).sql
  have horders : ∀ part ∈ s.orderBy.map orderSql, Sql.Closed part :=
    List.forall_mem_map.mpr fun item hitem =>
      (((horderBy item.1 (List.mem_map_of_mem hitem)).sql.append (by decide)).append
        item.2.closed_sql)
  have hjoined : ∀ j ∈ s.joins, j.piece.Aligned := fun j hj =>
    Join.aligned_piece fun c hc column hcolumn =>
      hjoins column (List.mem_flatMap.mpr ⟨j, hj, List.mem_flatMap.mpr ⟨c, hc, hcolumn⟩⟩)
  simp only [pieces, List.forall_mem_append, List.forall_mem_cons, List.cons_append,
    List.forall_mem_map, List.not_mem_nil, false_imp_iff, implies_true, and_true]
  exact ⟨Piece.aligned_plain (closed_selectSql (List.forall_mem_map.mp hprojections)),
    Piece.aligned_plain s.closed_sourceSql, ⟨⟨⟨hjoined, aligned_termPieces (by decide) hfilters⟩,
      Piece.aligned_plain (closed_listSection (by decide) hgroups)⟩,
      aligned_termPieces (by decide) hhaving⟩,
    Piece.aligned_plain (closed_listSection (by decide) horders),
    Piece.aligned_plain (closed_countSql (by decide) s.limit),
    Piece.aligned_plain (closed_countSql (by decide) s.offset)⟩

theorem aligned_of_columns {s : Statement} (h : ∀ column ∈ s.columns, column.Closed) :
    s.Aligned := by
  have hwhole := Piece.aligned_concat (aligned_pieces h)
  rw [Piece.concat, joined_pieces, values_pieces] at hwhole
  refine ⟨(joined_pieces s).symm, (values_pieces s).symm, fun j hj => ?_, fun t ht => ?_,
    aligned_pieces h, hwhole.count, hwhole.fill⟩
  · have hpiece : j.piece ∈ s.joins.map Join.piece := List.mem_map_of_mem hj
    simp only [pieces, List.mem_append, List.mem_cons, hpiece, or_true, true_or]
  · rcases List.mem_append.mp ht with ht | ht
    · simp only [pieces, List.mem_append, mem_termPieces " WHERE " ht, or_true, true_or]
    · simp only [pieces, List.mem_append, mem_termPieces " HAVING " ht, or_true, true_or]

end Statement

/-- The columns and expressions that a clause mentions. -/
def Clause.columns : Clause → List ColumnRef
  | .select projections => projections.map (·.expression)
  | .join j => j.conditions.flatMap Condition.columns
  | .filter term | .having term => term.2.columns
  | .groupBy column | .orderBy column _ => [column]
  | .source _ _ | .limit _ | .offset _ | .distinct => []

/-- Two sequences of clauses that add the same to each part of a statement, however the clauses of
one kind stand among those of the others. Of a source, a limit and an offset only the last counts.
-/
structure Clause.SameParts (cs ds : List Clause) : Prop where
  source : (cs.flatMap Clause.sources).getLast? = (ds.flatMap Clause.sources).getLast?
  projections : cs.flatMap Clause.projections = ds.flatMap Clause.projections
  joins : cs.flatMap Clause.joins = ds.flatMap Clause.joins
  filters : cs.flatMap Clause.filters = ds.flatMap Clause.filters
  groupings : cs.flatMap Clause.groupings = ds.flatMap Clause.groupings
  havings : cs.flatMap Clause.havings = ds.flatMap Clause.havings
  orderings : cs.flatMap Clause.orderings = ds.flatMap Clause.orderings
  limit : (cs.flatMap Clause.limits).getLast? = (ds.flatMap Clause.limits).getLast?
  offset : (cs.flatMap Clause.offsets).getLast? = (ds.flatMap Clause.offsets).getLast?
  distinct : cs.any Clause.isDistinct = ds.any Clause.isDistinct

namespace Statement

theorem ofClauses_congr {cs ds : List Clause} (h : Clause.SameParts cs ds) :
    ofClauses cs = ofClauses ds := by
  rw [ofClauses_eq, ofClauses_eq, h.source, h.projections, h.joins, h.filters, h.groupings,
    h.havings, h.orderings, h.limit, h.offset, h.distinct]

/-- A statement mentions no column that none of its clauses mentions. -/
theorem exists_clause_of_mem_columns {cs : List Clause} {column : ColumnRef}
    (h : column ∈ (ofClauses cs).columns) : ∃ c ∈ cs, column ∈ c.columns := by
  rw [ofClauses_eq] at h
  simp only [columns, clauseColumns, List.mem_append, List.mem_map, List.mem_flatMap,
    Condition.termColumns_eq_flatMap] at h
  rcases h with (⟨p, ⟨c, hc, hp⟩, rfl⟩ | ⟨j, ⟨c, hc, hj⟩, hcolumn⟩) |
    (((⟨t, ⟨c, hc, ht⟩, hcolumn⟩ | ⟨c, hc, hcolumn⟩) | ⟨t, ⟨c, hc, ht⟩, hcolumn⟩) |
      ⟨item, ⟨c, hc, hitem⟩, rfl⟩) <;> refine ⟨c, hc, ?_⟩
  · cases c with
    | select projections => exact List.mem_map_of_mem hp
    | _ => exact absurd hp List.not_mem_nil
  · cases c with
    | join join =>
      rw [List.mem_singleton.mp hj] at hcolumn
      exact List.mem_flatMap.mpr hcolumn
    | _ => exact absurd hj List.not_mem_nil
  · cases c with
    | filter term => rwa [List.mem_singleton.mp ht] at hcolumn
    | _ => exact absurd ht List.not_mem_nil
  · cases c with
    | groupBy column => exact hcolumn
    | _ => exact absurd hcolumn List.not_mem_nil
  · cases c with
    | having term => rwa [List.mem_singleton.mp ht] at hcolumn
    | _ => exact absurd ht List.not_mem_nil
  · cases c with
    | orderBy column direction =>
      rw [List.mem_singleton.mp hitem]
      exact List.mem_cons_self
    | _ => exact absurd hitem List.not_mem_nil

/-- **Placeholders and values of a statement are aligned**, whatever its names are, as is each of
its joins and terms. Its values are those of the joins, the filters and the terms after HAVING, and
how clauses of different kinds were interleaved makes no difference to it. -/
theorem ofClauses_aligned {clauses : List Clause}
    (h : ∀ c ∈ clauses, ∀ column ∈ c.columns, column.Closed) :
    (ofClauses clauses).Aligned ∧
      (ofClauses clauses).render.bindings =
        (clauses.flatMap Clause.joins).flatMap Join.bindings
          ++ (clauses.flatMap Clause.filters).flatMap (·.2.bindings)
          ++ (clauses.flatMap Clause.havings).flatMap (·.2.bindings) ∧
      ∀ others, Clause.SameParts others clauses →
        (ofClauses others).render = (ofClauses clauses).render := by
  refine ⟨aligned_of_columns fun column hcolumn => ?_, ?_, fun others hothers => ?_⟩
  · obtain ⟨c, hc, hcolumn⟩ := exists_clause_of_mem_columns hcolumn
    exact h c hc column hcolumn
  · rw [render, bindings, ofClauses_eq, Condition.termBindings_eq_flatMap,
      Condition.termBindings_eq_flatMap]
  · rw [ofClauses_congr hothers]

end Statement

/-! ## A statement with everything in it -/

namespace Sample

/-- Clauses in no particular order, with question marks and double quotes in names, an expression
that has a question mark in a name of its own, and conditions of every kind. -/
def mixedClauses : List Clause :=
  [.having (.and, .compare (.raw "COUNT(\"b\".\"odd?\"\"name\")") .gt (.ofNat 3)),
    .filter (.and, .member (.qualified "a?" "na\"me") [.string "x", .null, .string "y?"] true),
    .limit 7,
    .join ⟨.left, "public.b?", "b",
      [.compareColumns (.qualified "a?" "id") .eq (.qualified "b" "a_id"),
        .compare (.qualified "b" "gone") .is .null,
        .between (.qualified "b" "n") (.ofNat 1) (.ofNat 2) false]⟩,
    .select [⟨.qualified "a?" "id", "a?___id"⟩, ⟨.raw "COUNT(*)", "\""⟩],
    .filter (.or, .group [(.or, .member (.qualified "b" "n") [] false),
      (.or, .compare (.qualified "b" "n") .ne (.string "?"))]),
    .source "a" "a?", .distinct, .limit 5]

end Sample

theorem Statement.ofClauses_aligned_mixed :
    (Statement.ofClauses Sample.mixedClauses).Aligned ∧
      (Statement.ofClauses Sample.mixedClauses).render.bindings =
        [.ofNat 1, .ofNat 2, .string "x", .null, .string "y?", .string "?", .ofNat 3] := by
  have hcolumns : ∀ c ∈ Sample.mixedClauses, ∀ column ∈ c.columns, column.Closed := by decide
  obtain ⟨haligned, hbindings, -⟩ := Statement.ofClauses_aligned hcolumns
  exact ⟨haligned, hbindings.trans rfl⟩

end NestedRead
