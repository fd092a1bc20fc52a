import NestedRead.Proofs.Statement.Blank
import NestedRead.Query.Predicate

/-!
# Filters without their operands

An operand that an operator takes is blanked as the conditions are that it is bound in: a list keeps
its length, and what decides about the text stays, which is null and the truth values. An operand
that is refused stays too, since it is told in the error. Compiling then commutes with blanking
(`FilterScope.terms_blank`), in its results and in its errors.
-/

set_option autoImplicit false

namespace NestedRead

/-! ## Operands -/

namespace FilterOperator

def blank : FilterOperator → Json → Json
  | .compare .is, value => value
  | .compare .isNot, value => value
  | .compare .eq, .null => .null
  | .compare .ne, .null => .null
  | .compare _, value => if value.isScalar then .blank else value
  | .member _, .array values => .array (values.map fun _ => .blank)
  | .between _, .array [_, _] => .array [.blank, .blank]
  | _, value => value

end FilterOperator

/-- The name of an operator with its operand. -/
abbrev Operand := String × Json

/-- The operand as its operator blanks it; under a name that is none it stays. -/
def Operand.blank (o : Operand) : Operand :=
  (o.1, match FilterOperator.ofName o.1 with
    | .ok op => op.blank o.2
    | .error _ => o.2)

namespace FilterExpr

def blankField (f : FieldFilter) : FieldFilter :=
  { f with operators := f.operators.map Operand.blank }

mutual

def blank : FilterExpr → FilterExpr
  | ⟨fields, allOf, anyOf⟩ => ⟨fields.map blankField, blankAll allOf, blankAll anyOf⟩

def blankAll : List FilterExpr → List FilterExpr
  | [] => []
  | f :: fs => blank f :: blankAll fs

end

theorem isEmpty_blankAll (fs : List FilterExpr) : (blankAll fs).isEmpty = fs.isEmpty := by
  cases fs <;> rfl

end FilterExpr

/-! ## Conditions -/

namespace Condition

variable (column : ColumnRef)

theorem ofComparison_blank (name : String) (comparison : Comparison) (value : Json) :
    ofComparison column name comparison (FilterOperator.blank (.compare comparison) value) =
      (ofComparison column name comparison value).map blank := by
  -- IS takes the keywords alone, an equation keeps null, and all else is blanked or refused.
  cases comparison <;> rcases value with _ | ⟨_ | _⟩ | _ | _ | _ | _ <;> rfl

theorem ofOperator_blank (o : Operand) :
    ofOperator column o.blank.1 o.blank.2 = (ofOperator column o.1 o.2).map blank := by
  obtain ⟨name, value⟩ := o
  unfold ofOperator Operand.blank
  dsimp only
  cases FilterOperator.ofName name with
  | error e => rfl
  | ok op =>
    cases op with
    | compare comparison => exact ofComparison_blank column name comparison value
    | member negated => cases value <;> rfl
    | between negated =>
      cases value with
      | array values => rcases values with _ | ⟨_, _ | ⟨_, _ | _⟩⟩ <;> rfl
      | _ => rfl

theorem ofOperators_blank (operators : List Operand) :
    ofOperators column (operators.map Operand.blank) =
      (ofOperators column operators).map (List.map blank) := by
  induction operators with
  | nil => rfl
  | cons o rest ih =>
    rw [List.map_cons, ofOperators, ofOperators, ofOperator_blank, ih]
    cases ofOperator column o.1 o.2 with
    | error e => rfl
    | ok c => cases ofOperators column rest <;> rfl

end Condition

/-! ## Filters -/

namespace FilterScope

variable (scope : FilterScope)

theorem fieldConditions_blank (f : FieldFilter) :
    scope.fieldConditions (FilterExpr.blankField f) =
      (scope.fieldConditions f).map (List.map Condition.blank) := by
  unfold fieldConditions FilterExpr.blankField
  dsimp only
  rw [List.isEmpty_map]
  split
  · rfl
  · cases scope.column f.field with
    | error e => rfl
    | ok column => exact Condition.ofOperators_blank column f.operators

theorem fieldTerms_blank (fields : List FieldFilter) :
    scope.fieldTerms (fields.map FilterExpr.blankField) =
      (scope.fieldTerms fields).map Condition.blankTerms := by
  induction fields with
  | nil => rfl
  | cons f rest ih =>
    rw [List.map_cons, fieldTerms, fieldTerms, fieldConditions_blank, ih]
    cases scope.fieldConditions f with
    | error e => rfl
    | ok cs =>
      cases scope.fieldTerms rest with
      | error e => rfl
      | ok ts =>
        show Except.ok _ = Except.ok _
        rw [Condition.blankTerms_append, Condition.blankTerms_map]

theorem parenthesised_blank (conjunction : Conjunction) (ts : List Term) :
    parenthesised conjunction (Condition.blankTerms ts) =
      Condition.blankTerms (parenthesised conjunction ts) := by
  unfold parenthesised
  rw [Condition.isEmpty_blankTerms]
  split <;> rfl

mutual

/-- **Compiling a filter commutes with blanking it.** -/
theorem terms_blank : ∀ filter : FilterExpr,
    scope.terms filter.blank = (scope.terms filter).map Condition.blankTerms
  | ⟨fields, allOf, anyOf⟩ => by
    rw [FilterExpr.blank, terms, terms, FilterExpr.isEmpty_blankAll, FilterExpr.isEmpty_blankAll,
      fieldTerms_blank, groups_blank .and allOf, groups_blank .or anyOf]
    split
    · rfl
    cases scope.fieldTerms fields with
    | error e => rfl
    | ok fieldTerms =>
      cases scope.groups .and allOf with
      | error e => rfl
      | ok allTerms =>
        cases scope.groups .or anyOf with
        | error e => rfl
        | ok anyTerms =>
          show Except.ok _ = Except.ok _
          rw [Condition.blankTerms_append, Condition.blankTerms_append]

theorem groups_blank (conjunction : Conjunction) : ∀ members : List FilterExpr,
    scope.groups conjunction (FilterExpr.blankAll members) =
      (scope.groups conjunction members).map Condition.blankTerms
  | [] => rfl
  | member :: rest => by
    rw [FilterExpr.blankAll, groups, groups, terms_blank member, groups_blank conjunction rest]
    cases scope.terms member with
    | error e => rfl
    | ok inner =>
      cases scope.groups conjunction rest with
      | error e => rfl
      | ok more =>
        show Except.ok _ = Except.ok _
        rw [Condition.blankTerms_append, parenthesised_blank]

end

theorem conditions_blank (filter : FilterExpr) :
    scope.conditions filter.blank = (scope.conditions filter).map (List.map Condition.blank) := by
  unfold conditions
  rw [terms_blank]
  cases scope.terms filter with
  | error e => rfl
  | ok ts =>
    show Except.ok _ = Except.ok _
    rw [Condition.blankTerms_eq_map, List.map_map, List.map_map]
    rfl

end FilterScope
end NestedRead
