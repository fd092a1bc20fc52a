import Mathlib
import NestedRead.Proofs.Filter.Meaning
import NestedRead.Proofs.Outcome

/-!
# Compiling a filter keeps its meaning

One lemma for each level of the compilation: an operator with its operand, the operators of a
field, the fields of a filter, and by recursion on the filter its groups. A group that asks for
nothing leaves no term, and this is exactly when its filter is vacuous, so the groups that are left
are the members that the meaning counts.
-/

set_option autoImplicit false

namespace NestedRead

variable (I : Interpretation)

/-! ## Operators -/

namespace Condition

/-- The condition of a comparison says what the operator says, once null is tested with IS. -/
theorem truth_ofComparison {column : ColumnRef} {name : String} {op : Comparison}
    {value : Json} {c : Condition} (h : ofComparison column name op value = .ok c) :
    c.truth I = I.compare (op.against value) (I.value column) value := by
  unfold ofComparison at h
  split at h
  · rename_i his
    rcases his with rfl | rfl <;> cases value <;> simp at h <;> subst h <;> rfl
  · split at h
    · cases h; rfl
    · cases h

/-- The condition of an operator says what the operator says. -/
theorem truth_ofOperator {column : ColumnRef} {name : String} {value : Json} {c : Condition}
    (h : ofOperator column name value = .ok c) :
    c.truth I = I.operatorTruth (I.value column) name value := by
  obtain ⟨op, hop, h⟩ := Outcome.bind_eq_ok_iff.mp h
  unfold FilterOperator.ofName at hop
  split at hop <;> cases hop
  case h_1 | h_2 | h_3 | h_4 | h_7 | h_8 =>
    rename_i hname
    simp only [Interpretation.operatorTruth, hname]
    exact truth_ofComparison I h
  case h_5 | h_6 =>
    rename_i hname
    rw [truth_ofComparison I h]
    simp only [Interpretation.operatorTruth, hname]
    cases value <;> rfl
  case h_9 | h_10 =>
    rename_i hname
    simp only [Interpretation.operatorTruth, hname]
    dsimp only at h
    split at h <;> cases h
    rfl
  case h_11 | h_12 =>
    rename_i hname
    simp only [Interpretation.operatorTruth, hname]
    dsimp only at h
    split at h <;> cases h
    rfl

theorem truths_ofOperators {column : ColumnRef} :
    ∀ {operators : List (String × Json)} {cs : List Condition},
      ofOperators column operators = .ok cs →
      truths I cs = operators.map fun (name, value) =>
        I.operatorTruth (I.value column) name value
  | [], cs, h => by cases h; rfl
  | (name, value) :: rest, cs, h => by
    obtain ⟨c, hc, h⟩ := Outcome.bind_eq_ok_iff.mp h
    obtain ⟨more, hmore, h⟩ := Outcome.bind_eq_ok_iff.mp h
    cases h
    simp only [truths, List.map_cons, truth_ofOperator I hc]
    exact congrArg _ (truths_ofOperators hmore)

end Condition

/-! ## Fields -/

namespace FilterScope

variable {scope : FilterScope}

theorem value_column {name : String} {column : ColumnRef} (h : scope.column name = .ok column) :
    I.value column = I.fieldValue scope name := by
  have plain : ∀ {column}, scope.entity.plainColumn scope.tableAlias name = .ok column →
      column = .qualified scope.tableAlias name := by
    intro column h
    unfold Entity.plainColumn at h
    split at h <;> cases h
    rfl
  unfold FilterScope.column at h
  unfold Interpretation.fieldValue
  -- Only behind HAVING can a name be cut into a column and an aggregate.
  cases hclause : scope.clause with
  | filter | join => rw [hclause] at h; rw [plain h]
  | having =>
    rw [hclause] at h
    unfold Entity.column at h
    cases hcut : Text.cutAt? aggregateMark name with
    | none => simp only [hcut] at h; rw [plain h]
    | some parts =>
      obtain ⟨source, function⟩ := parts
      simp only [hcut] at h
      split at h
      · cases h
      · split at h
        · rename_i f hf
          cases h
          have hname : AggregateFn.ofName? function = some f :=
            (Option.filter_eq_some_iff.mp hf).1
          simp only [hname]
        · cases h

/-- A field has at least one condition, and their truths are those of its predicates. -/
theorem truths_fieldConditions {f : FieldFilter} {cs : List Condition}
    (h : scope.fieldConditions f = .ok cs) :
    cs ≠ [] ∧ Condition.truths I cs = FilterExpr.fieldTruths I scope f := by
  unfold fieldConditions at h
  split at h
  · cases h
  · rename_i hempty
    obtain ⟨column, hcolumn, h⟩ := Outcome.bind_eq_ok_iff.mp h
    have htruths := Condition.truths_ofOperators I h
    refine ⟨?_, ?_⟩
    · rintro rfl
      cases hops : f.operators with
      | nil => rw [hops] at hempty; exact hempty rfl
      | cons op ops => rw [hops] at htruths; simp [Condition.truths] at htruths
    · rw [htruths, value_column I hcolumn]
      rfl

/-- The terms of the fields of a filter are AND terms with the truths of its predicates, and only
a filter without fields has none. -/
theorem fieldTerms_eq :
    ∀ {fields : List FieldFilter} {ts : List Term}, scope.fieldTerms fields = .ok ts →
      ∃ cs, ts = cs.map (Conjunction.and, ·) ∧ (cs = [] ↔ fields = []) ∧
        Condition.truths I cs = fields.flatMap (FilterExpr.fieldTruths I scope)
  | [], ts, h => by cases h; exact ⟨[], rfl, by simp, rfl⟩
  | f :: rest, ts, h => by
    obtain ⟨cs, hcs, h⟩ := Outcome.bind_eq_ok_iff.mp h
    obtain ⟨more, hmore, h⟩ := Outcome.bind_eq_ok_iff.mp h
    cases h
    obtain ⟨hne, htruths⟩ := truths_fieldConditions I hcs
    obtain ⟨ds, rfl, -, hds⟩ := fieldTerms_eq hmore
    refine ⟨cs ++ ds, by rw [List.map_append], by simp [hne], ?_⟩
    rw [List.flatMap_cons, ← htruths, ← hds]
    simp [Condition.truths]

/-! ## Groups -/

mutual

/-- Compiling a filter gives AND terms and then OR terms. They are all gone exactly when the
filter asks for nothing, and read as SQL reads them they have the meaning of the filter. -/
theorem terms_spec : ∀ {filter : FilterExpr} {ts : List Term}, scope.terms filter = .ok ts →
    (ts = [] ↔ filter.isVacuous = true) ∧
      Condition.termsTruth I ts = filter.meaning I scope
  | ⟨fields, allOf, anyOf⟩, ts, h => by
    rw [terms] at h
    split at h
    · cases h
    obtain ⟨_, hfields, h⟩ := Outcome.bind_eq_ok_iff.mp h
    obtain ⟨_, hall, h⟩ := Outcome.bind_eq_ok_iff.mp h
    obtain ⟨_, hany, h⟩ := Outcome.bind_eq_ok_iff.mp h
    cases h
    -- Fields and `_and` members give AND terms, `_or` members the OR terms behind them.
    obtain ⟨cs, rfl, hcsnil, hcs⟩ := fieldTerms_eq I hfields
    obtain ⟨ds, rfl, hdsnil, hds⟩ := groups_spec hall
    obtain ⟨es, rfl, hesnil, hes⟩ := groups_spec hany
    refine ⟨?_, ?_⟩
    · simp [FilterExpr.isVacuous, hcsnil, hdsnil, hesnil, and_assoc]
    · rw [← List.map_append, Condition.termsTruth_and_or, FilterExpr.meaning]
      have htruths : Condition.truths I (cs ++ ds)
          = fields.flatMap (FilterExpr.fieldTruths I scope)
            ++ FilterExpr.memberMeanings I scope allOf := by
        rw [← hcs, ← hds]
        simp [Condition.truths]
      have hempty : ∀ xs : List Condition, xs.isEmpty = (Condition.truths I xs).isEmpty := by
        intro xs; cases xs <;> rfl
      simp only [hempty, htruths, hes]

/-- The terms of a group all have its connector and are the members that ask for something. -/
theorem groups_spec {conjunction : Conjunction} :
    ∀ {members : List FilterExpr} {ts : List Term}, scope.groups conjunction members = .ok ts →
      ∃ cs, ts = cs.map (conjunction, ·) ∧ (cs = [] ↔ FilterExpr.allVacuous members = true) ∧
        Condition.truths I cs = FilterExpr.memberMeanings I scope members
  | [], ts, h => by
    cases h
    exact ⟨[], rfl, by simp [FilterExpr.allVacuous], rfl⟩
  | member :: rest, ts, h => by
    rw [groups] at h
    obtain ⟨inner, hinner, h⟩ := Outcome.bind_eq_ok_iff.mp h
    obtain ⟨more, hmore, h⟩ := Outcome.bind_eq_ok_iff.mp h
    cases h
    obtain ⟨hnil, htruth⟩ := terms_spec hinner
    obtain ⟨cs, rfl, hcsnil, hcs⟩ := groups_spec hmore
    cases inner with
    | nil =>
      -- A member without terms leaves no group, and its meaning does not count.
      have hvac : member.isVacuous = true := hnil.mp rfl
      refine ⟨cs, rfl, by simp [FilterExpr.allVacuous, hvac, hcsnil], ?_⟩
      rw [FilterExpr.memberMeanings, if_pos hvac, hcs]
    | cons t inner =>
      have hvac : member.isVacuous = false := by
        have : ¬ member.isVacuous = true := fun h => by simpa using hnil.mpr h
        simpa using this
      refine ⟨.group (t :: inner) :: cs, rfl, by simp [FilterExpr.allVacuous, hvac], ?_⟩
      rw [FilterExpr.memberMeanings, if_neg (by simp [hvac]), ← hcs, ← htruth]
      simp [Condition.truths, Condition.truth]

end

/-! ## Conditions of a join -/

/-- Behind ON a filter has predicates only, so its conditions all hold exactly when it does. -/
theorem truths_conditions {filter : FilterExpr} {cs : List Condition} (hjoin : scope.clause = .join)
    (h : scope.conditions filter = .ok cs) :
    Truth.all (Condition.truths I cs) = filter.meaning I scope := by
  obtain ⟨ts, hterms, h⟩ := Outcome.bind_eq_ok_iff.mp h
  cases h
  have hmeaning := (terms_spec I hterms).2
  obtain ⟨fields, allOf, anyOf⟩ := filter
  rw [terms] at hterms
  -- A filter with groups is refused here.
  split at hterms
  · cases hterms
  · rename_i hgroups
    simp only [hjoin, decide_true, Bool.true_and, Bool.or_eq_true, Bool.not_eq_true',
      not_or, Bool.not_eq_false, List.isEmpty_iff] at hgroups
    obtain ⟨rfl, rfl⟩ := hgroups
    obtain ⟨fieldTerms, hfields, hterms⟩ := Outcome.bind_eq_ok_iff.mp hterms
    cases hterms
    obtain ⟨conditions, rfl, -, -⟩ := fieldTerms_eq I hfields
    rw [← hmeaning, List.append_nil, List.append_nil, Condition.termsTruth_and, List.map_map]
    simp [Function.comp_def]

/-! ## The whole filter -/

/-- **The compiled terms mean what the filter asks for**, whatever the columns hold and whatever a
comparison makes of two values. A filter that asks for nothing leaves no term and always holds. -/
theorem termsTruth_terms {filter : FilterExpr} {ts : List Term} (h : scope.terms filter = .ok ts) :
    (∀ I : Interpretation, Condition.termsTruth I ts = filter.meaning I scope) ∧
      (ts = [] ↔ filter.isVacuous = true) ∧
      (filter.isVacuous = true → ∀ I : Interpretation, filter.meaning I scope = .yes) := by
  refine ⟨fun I => (terms_spec I h).2, ?_, fun hvac I => filter.meaning_of_isVacuous I scope hvac⟩
  -- Which terms there are does not hang on an interpretation; any one will do.
  exact (terms_spec ⟨fun _ => .null, fun _ _ _ => .unknown⟩ h).1

/-- At a HAVING filter on an aggregate, with an alternative that never holds and members that ask
for nothing at two depths. -/
theorem termsTruth_terms_having :
    ∃ ts, FilterScope.terms
        ⟨⟨"Book", "books", "id", [("id", .scalar .id), ("price", .scalar .float)]⟩, "base", .having⟩
        ⟨[⟨"price__sum", [("GTE", .bool true), ("ne", .null)]⟩], [.empty],
          [⟨[⟨"id", [("in", .array [])]⟩], [], []⟩, ⟨[], [.empty], []⟩]⟩ = .ok ts ∧
      ∀ I : Interpretation, Condition.termsTruth I ts
        = (((I.compare .gte (I.value (.raw "sum(\"base\".\"price\")")) (.bool true)).and
          ((I.compare .isNot (I.value (.raw "sum(\"base\".\"price\")")) .null).and .yes)).or
          .no) := by
  have h : FilterScope.terms
      ⟨⟨"Book", "books", "id", [("id", .scalar .id), ("price", .scalar .float)]⟩, "base", .having⟩
      ⟨[⟨"price__sum", [("GTE", .bool true), ("ne", .null)]⟩], [.empty],
        [⟨[⟨"id", [("in", .array [])]⟩], [], []⟩, ⟨[], [.empty], []⟩]⟩
      = .ok [(.and, .compare (.raw "sum(\"base\".\"price\")") .gte (.bool true)),
        (.and, .compare (.raw "sum(\"base\".\"price\")") .isNot .null),
        (.or, .group [(.and, .member (.qualified "base" "id") [] false)])] :=
    rfl
  refine ⟨_, h, fun I => ?_⟩
  rw [(termsTruth_terms h).1 I]
  rfl

end FilterScope
end NestedRead
