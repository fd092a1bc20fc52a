import NestedRead.Proofs.Sql.Condition
import NestedRead.Query.Predicate

/-!
# What a filter asks for

The meaning of a filter expression, said without the terms that it compiles to. A predicate is a
field, an operator and an operand; its meaning is the line of the operator in `operatorTruth`. A
filter holds when all its predicates and all members of `_and` hold, or when one of the members of
`_or` does. Members that ask for nothing are passed over, and where nothing but alternatives is
left, one of them has to hold.

A meaning looks at nothing but the values of the fields and how two values compare
(`meaning_congr`), so it is the same under every alias that stands for one row.
-/

set_option autoImplicit false

namespace NestedRead

/-! ## Predicates -/

/-- What an operator with its operand says about a value. Letter case does not matter. -/
def Interpretation.operatorTruth (I : Interpretation) (x : Json) (operator : String)
    (operand : Json) : Truth :=
  match Text.lowerAscii operator, operand with
  | "gt", y => I.compare .gt x y
  | "gte", y => I.compare .gte x y
  | "lt", y => I.compare .lt x y
  | "lte", y => I.compare .lte x y
  | "eq", .null => I.compare .is x .null
  | "eq", y => I.compare .eq x y
  | "ne", .null => I.compare .isNot x .null
  | "ne", y => I.compare .ne x y
  | "is", y => I.compare .is x y
  | "nis", y => I.compare .isNot x y
  | "in", .array ys => Truth.any (ys.map (I.compare .eq x))
  | "nin", .array ys => (Truth.any (ys.map (I.compare .eq x))).not
  | "between", .array [low, high] => (I.compare .gte x low).and (I.compare .lte x high)
  | "nbetween", .array [low, high] => ((I.compare .gte x low).and (I.compare .lte x high)).not
  | _, _ => .unknown

/-- The value that the name of a field stands for: a column of the table, or in HAVING also an
aggregate over one. -/
def Interpretation.fieldValue (I : Interpretation) (scope : FilterScope) (name : String) : Json :=
  match scope.clause, Text.cutAt? aggregateMark name with
  | .having, some (source, function) =>
    match AggregateFn.ofName? function with
    | some f => I.value (.raw (f.expression scope.tableAlias source))
    | none => .null
  | _, _ => I.value (.qualified scope.tableAlias name)

/-! ## Filters -/

namespace FilterExpr

mutual

/-- Whether a filter asks for nothing, however deep its empty members are nested. -/
def isVacuous : FilterExpr → Bool
  | ⟨fields, allOf, anyOf⟩ => fields.isEmpty && allVacuous allOf && allVacuous anyOf

/-- Whether all of several filters ask for nothing. -/
def allVacuous : List FilterExpr → Bool
  | [] => true
  | member :: rest => isVacuous member && allVacuous rest

end

variable (I : Interpretation) (scope : FilterScope)

/-- The truths of the predicates on one field. -/
def fieldTruths (f : FieldFilter) : List Truth :=
  f.operators.map fun (operator, operand) =>
    I.operatorTruth (I.fieldValue scope f.field) operator operand

mutual

/-- The meaning of a filter. -/
def meaning : FilterExpr → Truth
  | ⟨fields, allOf, anyOf⟩ =>
    let conjuncts := fields.flatMap (fieldTruths I scope) ++ memberMeanings allOf
    let alternatives := memberMeanings anyOf
    if conjuncts.isEmpty && !alternatives.isEmpty then Truth.any alternatives
    else (Truth.all conjuncts).or (Truth.any alternatives)

/-- The meanings of the members of a group that ask for something. -/
def memberMeanings : List FilterExpr → List Truth
  | [] => []
  | member :: rest =>
    if isVacuous member then memberMeanings rest else meaning member :: memberMeanings rest

end

/-- Members that ask for nothing have no meanings. -/
theorem memberMeanings_of_allVacuous : ∀ {members : List FilterExpr},
    allVacuous members = true → memberMeanings I scope members = []
  | [], _ => rfl
  | member :: rest, h => by
    rw [allVacuous, Bool.and_eq_true] at h
    rw [memberMeanings, if_pos h.1]
    exact memberMeanings_of_allVacuous h.2

/-- A filter that asks for nothing always holds. -/
theorem meaning_of_isVacuous {filter : FilterExpr} (h : filter.isVacuous = true) :
    filter.meaning I scope = .yes := by
  obtain ⟨fields, allOf, anyOf⟩ := filter
  rw [isVacuous, Bool.and_eq_true, Bool.and_eq_true, List.isEmpty_iff] at h
  obtain ⟨⟨rfl, hall⟩, hany⟩ := h
  rw [meaning, memberMeanings_of_allVacuous I scope hall, memberMeanings_of_allVacuous I scope hany]
  rfl

/-! ## What a meaning depends on -/

section congr

variable {I I' : Interpretation} {scope scope' : FilterScope}

theorem operatorTruth_congr (hcompare : I.compare = I'.compare) (x : Json) (operator : String)
    (operand : Json) :
    I.operatorTruth x operator operand = I'.operatorTruth x operator operand := by
  unfold Interpretation.operatorTruth
  rw [hcompare]

mutual

theorem meaning_congr (hcompare : I.compare = I'.compare)
    (hvalue : ∀ name, I.fieldValue scope name = I'.fieldValue scope' name) :
    ∀ filter : FilterExpr, filter.meaning I scope = filter.meaning I' scope'
  | ⟨fields, allOf, anyOf⟩ => by
    have hfields : fieldTruths I scope = fieldTruths I' scope' := by
      funext f
      unfold fieldTruths
      rw [hvalue]
      exact List.map_congr_left fun (operator, operand) _ => operatorTruth_congr hcompare ..
    rw [meaning, meaning, hfields, memberMeanings_congr hcompare hvalue allOf,
      memberMeanings_congr hcompare hvalue anyOf]

theorem memberMeanings_congr (hcompare : I.compare = I'.compare)
    (hvalue : ∀ name, I.fieldValue scope name = I'.fieldValue scope' name) :
    ∀ members : List FilterExpr, memberMeanings I scope members = memberMeanings I' scope' members
  | [] => rfl
  | member :: rest => by
    rw [memberMeanings, memberMeanings, meaning_congr hcompare hvalue member,
      memberMeanings_congr hcompare hvalue rest]

end

end congr

end FilterExpr
end NestedRead
