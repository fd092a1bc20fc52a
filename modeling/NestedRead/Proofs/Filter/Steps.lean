import NestedRead.Proofs.Outcome
import NestedRead.Query.Predicate

/-!
# What compiling a filter does

One lemma for each function of the compilation: what a successful run consists of. The proofs that
follow a filter down to its operators go by these lemmas and not by the functions.
-/

set_option autoImplicit false

namespace NestedRead

theorem Condition.ofOperators_cons_eq_ok {column : ColumnRef} {o : String × Json}
    {rest : List (String × Json)} {cs : List Condition}
    (h : ofOperators column (o :: rest) = .ok cs) :
    ∃ c more, ofOperator column o.1 o.2 = .ok c ∧ ofOperators column rest = .ok more ∧
      cs = c :: more := by
  obtain ⟨c, hc, h⟩ := Outcome.bind_eq_ok_iff.mp h
  obtain ⟨more, hmore, h⟩ := Outcome.bind_eq_ok_iff.mp h
  cases h
  exact ⟨c, more, hc, hmore, rfl⟩

namespace FilterScope

variable {scope : FilterScope}

theorem fieldTerms_cons_eq_ok {f : FieldFilter} {rest : List FieldFilter} {ts : List Term}
    (h : scope.fieldTerms (f :: rest) = .ok ts) :
    ∃ column cs more, scope.column f.field = .ok column ∧
      Condition.ofOperators column f.operators = .ok cs ∧ scope.fieldTerms rest = .ok more ∧
      ts = cs.map (Conjunction.and, ·) ++ more := by
  obtain ⟨cs, hcs, h⟩ := Outcome.bind_eq_ok_iff.mp h
  obtain ⟨more, hmore, h⟩ := Outcome.bind_eq_ok_iff.mp h
  cases h
  unfold fieldConditions at hcs
  split at hcs
  · cases hcs
  obtain ⟨column, hcolumn, hcs⟩ := Outcome.bind_eq_ok_iff.mp hcs
  exact ⟨column, cs, more, hcolumn, hcs, hmore, rfl⟩

theorem terms_eq_ok {fields : List FieldFilter} {allOf anyOf : List FilterExpr} {ts : List Term}
    (h : scope.terms ⟨fields, allOf, anyOf⟩ = .ok ts) :
    ∃ fieldTerms allTerms anyTerms, scope.fieldTerms fields = .ok fieldTerms ∧
      scope.groups .and allOf = .ok allTerms ∧ scope.groups .or anyOf = .ok anyTerms ∧
      ts = fieldTerms ++ allTerms ++ anyTerms := by
  rw [terms] at h
  split at h
  · cases h
  obtain ⟨fieldTerms, hfields, h⟩ := Outcome.bind_eq_ok_iff.mp h
  obtain ⟨allTerms, hall, h⟩ := Outcome.bind_eq_ok_iff.mp h
  obtain ⟨anyTerms, hany, h⟩ := Outcome.bind_eq_ok_iff.mp h
  cases h
  exact ⟨fieldTerms, allTerms, anyTerms, hfields, hall, hany, rfl⟩

theorem groups_cons_eq_ok {conjunction : Conjunction} {member : FilterExpr}
    {rest : List FilterExpr} {ts : List Term}
    (h : scope.groups conjunction (member :: rest) = .ok ts) :
    ∃ inner more, scope.terms member = .ok inner ∧ scope.groups conjunction rest = .ok more ∧
      ts = parenthesised conjunction inner ++ more := by
  rw [groups] at h
  obtain ⟨inner, hinner, h⟩ := Outcome.bind_eq_ok_iff.mp h
  obtain ⟨more, hmore, h⟩ := Outcome.bind_eq_ok_iff.mp h
  cases h
  exact ⟨inner, more, hinner, hmore, rfl⟩

theorem conditions_eq_ok {filter : FilterExpr} {cs : List Condition}
    (h : scope.conditions filter = .ok cs) :
    ∃ ts, scope.terms filter = .ok ts ∧ cs = ts.map (·.2) := by
  obtain ⟨ts, hts, h⟩ := Outcome.bind_eq_ok_iff.mp h
  cases h
  exact ⟨ts, hts, rfl⟩

end FilterScope
end NestedRead
