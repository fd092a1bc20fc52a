import Mathlib
import NestedRead.Proofs.Filter.Blank
import NestedRead.Proofs.Filter.Steps
import NestedRead.Proofs.Sql.Columns

/-!
# The operands of a filter

A filter holds its operands in an order, and the values that its terms bind are those of its
operands, in this order (`FilterScope.termBindings_terms`): none for a keyword, one for a comparison,
and for a list or a pair all of theirs.

Two operands are alike where their operator treats them so: two scalars to compare by size, two
scalars that are not null to test for equality, two lists of one length, two pairs. Filters that
differ in alike operands are the same filter once they are blanked.
-/

set_option autoImplicit false

namespace NestedRead

namespace FilterOperator

/-- The values that an operand puts behind placeholders. -/
def bound : FilterOperator → Json → List Json
  | .compare .is, _ => []
  | .compare .isNot, _ => []
  | .compare .eq, .null => []
  | .compare .ne, .null => []
  | .compare _, value => [value]
  | .member _, .array values => values
  | .between _, .array [low, high] => [low, high]
  | _, _ => []

variable {name : String}

theorem ofName_order (h : Text.lowerAscii name ∈ ["gt", "gte", "lt", "lte"]) :
    ∃ comparison, ofName name = .ok (.compare comparison) ∧
      (∀ value : Json, value.isScalar = true → (compare comparison).blank value = .blank) ∧
      ∀ value, (compare comparison).bound value = [value] := by
  simp only [List.mem_cons, List.not_mem_nil, or_false] at h
  rcases h with h | h | h | h
  · exact ⟨.gt, by simp only [ofName, h], fun _ hscalar => if_pos hscalar, fun _ => rfl⟩
  · exact ⟨.gte, by simp only [ofName, h], fun _ hscalar => if_pos hscalar, fun _ => rfl⟩
  · exact ⟨.lt, by simp only [ofName, h], fun _ hscalar => if_pos hscalar, fun _ => rfl⟩
  · exact ⟨.lte, by simp only [ofName, h], fun _ hscalar => if_pos hscalar, fun _ => rfl⟩

theorem blank_and_bound_of_equation {comparison : Comparison}
    (h : comparison = .eq ∨ comparison = .ne) {value : Json} (hscalar : value.isScalar = true)
    (hnull : value ≠ .null) :
    (compare comparison).blank value = .blank ∧ (compare comparison).bound value = [value] := by
  cases value with
  | null => exact absurd rfl hnull
  | array | object => cases hscalar
  | bool | number | string => rcases h with rfl | rfl <;> exact ⟨rfl, rfl⟩

theorem ofName_equation (h : Text.lowerAscii name ∈ ["eq", "ne"]) :
    ∃ comparison, ofName name = .ok (.compare comparison) ∧
      (comparison = .eq ∨ comparison = .ne) := by
  simp only [List.mem_cons, List.not_mem_nil, or_false] at h
  rcases h with h | h
  · exact ⟨.eq, by simp only [ofName, h], Or.inl rfl⟩
  · exact ⟨.ne, by simp only [ofName, h], Or.inr rfl⟩

theorem ofName_member (h : Text.lowerAscii name ∈ ["in", "nin"]) :
    ∃ negated, ofName name = .ok (.member negated) := by
  simp only [List.mem_cons, List.not_mem_nil, or_false] at h
  rcases h with h | h
  · exact ⟨false, by simp only [ofName, h]⟩
  · exact ⟨true, by simp only [ofName, h]⟩

theorem ofName_between (h : Text.lowerAscii name ∈ ["between", "nbetween"]) :
    ∃ negated, ofName name = .ok (.between negated) := by
  simp only [List.mem_cons, List.not_mem_nil, or_false] at h
  rcases h with h | h
  · exact ⟨false, by simp only [ofName, h]⟩
  · exact ⟨true, by simp only [ofName, h]⟩

end FilterOperator

namespace Operand

def bound (o : Operand) : List Json :=
  match FilterOperator.ofName o.1 with
  | .ok op => op.bound o.2
  | .error _ => []

/-- Operands of one operator, whose name may have any case, that make no difference to a text. -/
inductive Alike : Operand → Operand → Prop
  | same (o : Operand) : Alike o o
  | order {name : String} {v w : Json}
      (operator : Text.lowerAscii name ∈ ["gt", "gte", "lt", "lte"])
      (scalar : v.isScalar = true) (scalar' : w.isScalar = true) : Alike (name, v) (name, w)
  | equation {name : String} {v w : Json} (operator : Text.lowerAscii name ∈ ["eq", "ne"])
      (scalar : v.isScalar = true) (scalar' : w.isScalar = true) (ne_null : v ≠ .null)
      (ne_null' : w ≠ .null) : Alike (name, v) (name, w)
  | member {name : String} {vs ws : List Json} (operator : Text.lowerAscii name ∈ ["in", "nin"])
      (length : vs.length = ws.length) : Alike (name, .array vs) (name, .array ws)
  | between {name : String} {low high low' high' : Json}
      (operator : Text.lowerAscii name ∈ ["between", "nbetween"]) :
      Alike (name, .array [low, high]) (name, .array [low', high'])

variable {name : String}

theorem blank_of_ofName {op : FilterOperator} (h : FilterOperator.ofName name = .ok op)
    (value : Json) : blank (name, value) = (name, op.blank value) := by
  rw [blank, h]

theorem bound_of_ofName {op : FilterOperator} (h : FilterOperator.ofName name = .ok op)
    (value : Json) : bound (name, value) = op.bound value := by
  rw [bound, h]

/-- Alike operands are the same once they are blanked, and they bind equally many values. -/
theorem Alike.blank_eq_and_length_bound {o o' : Operand} (h : Alike o o') :
    o.blank = o'.blank ∧ o.bound.length = o'.bound.length := by
  cases h with
  | same => exact ⟨rfl, rfl⟩
  | order operator scalar scalar' =>
    obtain ⟨comparison, hname, hblank, hbound⟩ := FilterOperator.ofName_order operator
    rw [blank_of_ofName hname, blank_of_ofName hname, bound_of_ofName hname,
      bound_of_ofName hname, hblank _ scalar, hblank _ scalar', hbound, hbound]
    exact ⟨rfl, rfl⟩
  | equation operator scalar scalar' ne_null ne_null' =>
    obtain ⟨comparison, hname, hequation⟩ := FilterOperator.ofName_equation operator
    obtain ⟨hv, hv'⟩ :=
      FilterOperator.blank_and_bound_of_equation hequation scalar ne_null
    obtain ⟨hw, hw'⟩ :=
      FilterOperator.blank_and_bound_of_equation hequation scalar' ne_null'
    rw [blank_of_ofName hname, blank_of_ofName hname, bound_of_ofName hname,
      bound_of_ofName hname, hv, hw, hv', hw']
    exact ⟨rfl, rfl⟩
  | member operator length =>
    obtain ⟨negated, hname⟩ := FilterOperator.ofName_member operator
    rw [blank_of_ofName hname, blank_of_ofName hname, bound_of_ofName hname,
      bound_of_ofName hname, FilterOperator.blank, FilterOperator.blank, List.map_const',
      List.map_const', length]
    exact ⟨rfl, length⟩
  | between operator =>
    obtain ⟨negated, hname⟩ := FilterOperator.ofName_between operator
    rw [blank_of_ofName hname, blank_of_ofName hname, bound_of_ofName hname,
      bound_of_ofName hname]
    exact ⟨rfl, rfl⟩

end Operand

/-! ## Filters -/

namespace FilterExpr

/-- Two tests of one field with alike operands. -/
structure FieldAlike (f g : FieldFilter) : Prop where
  field : f.field = g.field
  operators : List.Forall₂ Operand.Alike f.operators g.operators

mutual

/-- Filters that are equal but for operands that are alike. -/
def Alike : FilterExpr → FilterExpr → Prop
  | ⟨fields, allOf, anyOf⟩, ⟨fields', allOf', anyOf'⟩ =>
    List.Forall₂ FieldAlike fields fields' ∧ AllAlike allOf allOf' ∧ AllAlike anyOf anyOf'

def AllAlike : List FilterExpr → List FilterExpr → Prop
  | [], [] => True
  | f :: fs, g :: gs => Alike f g ∧ AllAlike fs gs
  | _, _ => False

end

mutual

/-- The operands of a filter, fields before groups. -/
def operands : FilterExpr → List Operand
  | ⟨fields, allOf, anyOf⟩ =>
    fields.flatMap (·.operators) ++ allOperands allOf ++ allOperands anyOf

def allOperands : List FilterExpr → List Operand
  | [] => []
  | f :: fs => operands f ++ allOperands fs

end

theorem FieldAlike.blank_eq {f g : FieldFilter} (h : FieldAlike f g) :
    blankField f = blankField g := by
  have hoperators : f.operators.map Operand.blank = g.operators.map Operand.blank := by
    rw [← List.forall₂_eq_eq_eq, List.forall₂_map_left_iff, List.forall₂_map_right_iff]
    exact h.operators.imp fun _ _ ho => ho.blank_eq_and_length_bound.1
  rw [blankField, blankField, hoperators, h.field]

mutual

theorem Alike.blank_eq : ∀ {f g : FilterExpr}, f.Alike g → f.blank = g.blank
  | ⟨fields, allOf, anyOf⟩, ⟨fields', allOf', anyOf'⟩, h => by
    obtain ⟨hfields, hall, hany⟩ := h
    have hblank : fields.map blankField = fields'.map blankField := by
      rw [← List.forall₂_eq_eq_eq, List.forall₂_map_left_iff, List.forall₂_map_right_iff]
      exact hfields.imp fun _ _ => FieldAlike.blank_eq
    rw [blank, blank, hblank, AllAlike.blank_eq hall, AllAlike.blank_eq hany]

theorem AllAlike.blank_eq : ∀ {fs gs : List FilterExpr}, AllAlike fs gs → blankAll fs = blankAll gs
  | [], [], _ => rfl
  | f :: fs, g :: gs, h => by
    rw [blankAll, blankAll, Alike.blank_eq h.1, AllAlike.blank_eq h.2]

end

mutual

theorem Alike.operands : ∀ {f g : FilterExpr}, f.Alike g →
    List.Forall₂ Operand.Alike f.operands g.operands
  | ⟨fields, allOf, anyOf⟩, ⟨fields', allOf', anyOf'⟩, h => by
    obtain ⟨hfields, hall, hany⟩ := h
    rw [FilterExpr.operands, FilterExpr.operands]
    refine List.rel_append (List.rel_append ?_ (AllAlike.operands hall)) (AllAlike.operands hany)
    exact List.rel_flatMap hfields fun _ _ hf => hf.operators

theorem AllAlike.operands : ∀ {fs gs : List FilterExpr}, AllAlike fs gs →
    List.Forall₂ Operand.Alike (allOperands fs) (allOperands gs)
  | [], [], _ => .nil
  | f :: fs, g :: gs, h => by
    rw [allOperands, allOperands]
    exact List.rel_append (Alike.operands h.1) (AllAlike.operands h.2)

end

end FilterExpr

/-! ## What a compiled filter binds -/

namespace Condition

theorem bindings_ofComparison {column : ColumnRef} {name : String} {comparison : Comparison}
    {value : Json} {c : Condition} (h : ofComparison column name comparison value = .ok c) :
    c.bindings = FilterOperator.bound (.compare comparison) value := by
  unfold ofComparison at h
  -- A truth value is looked into, because each of the two is a keyword of its own.
  cases comparison <;> rcases value with _ | ⟨_ | _⟩ | _ | _ | _ | _ <;> cases h <;> rfl

theorem bindings_ofOperator {column : ColumnRef} {o : Operand} {c : Condition}
    (h : ofOperator column o.1 o.2 = .ok c) : c.bindings = o.bound := by
  obtain ⟨name, value⟩ := o
  obtain ⟨op, hop, h⟩ := Outcome.bind_eq_ok_iff.mp h
  rw [Operand.bound_of_ofName hop]
  cases op with
  | compare comparison => exact bindings_ofComparison h
  | member negated =>
    cases value <;> cases h
    rfl
  | between negated =>
    dsimp only at h
    split at h <;> cases h
    rfl

theorem bindings_ofOperators {column : ColumnRef} {operators : List Operand} {cs : List Condition}
    (h : ofOperators column operators = .ok cs) :
    cs.flatMap bindings = operators.flatMap Operand.bound := by
  induction operators generalizing cs with
  | nil => cases h; rfl
  | cons o rest ih =>
    obtain ⟨c, more, hc, hmore, rfl⟩ := ofOperators_cons_eq_ok h
    rw [List.flatMap_cons, List.flatMap_cons, bindings_ofOperator hc, ih hmore]

end Condition

namespace FilterScope

variable {scope : FilterScope}

theorem termBindings_fieldTerms {fields : List FieldFilter} {ts : List Term}
    (h : scope.fieldTerms fields = .ok ts) : Condition.termBindings ts =
      (fields.flatMap (·.operators)).flatMap Operand.bound := by
  induction fields generalizing ts with
  | nil => cases h; rfl
  | cons f rest ih =>
    obtain ⟨column, cs, more, -, hcs, hmore, rfl⟩ := fieldTerms_cons_eq_ok h
    rw [Condition.termBindings_append, ih hmore, List.flatMap_cons, List.flatMap_append,
      ← Condition.bindings_ofOperators hcs, Condition.termBindings_eq_flatMap, List.flatMap_map]

theorem termBindings_parenthesised (conjunction : Conjunction) (ts : List Term) :
    Condition.termBindings (parenthesised conjunction ts) = Condition.termBindings ts := by
  cases ts with
  | nil => rfl
  | cons t ts => simp [parenthesised, Condition.termBindings, Condition.bindings]

mutual

/-- **The terms of a filter bind the values of its operands**, in their order. -/
theorem termBindings_terms : ∀ {filter : FilterExpr} {ts : List Term},
    scope.terms filter = .ok ts →
      Condition.termBindings ts = filter.operands.flatMap Operand.bound
  | ⟨fields, allOf, anyOf⟩, ts, h => by
    obtain ⟨fieldTerms, allTerms, anyTerms, hfields, hall, hany, rfl⟩ := terms_eq_ok h
    rw [FilterExpr.operands, List.flatMap_append, List.flatMap_append,
      Condition.termBindings_append, Condition.termBindings_append,
      termBindings_fieldTerms hfields, termBindings_groups hall, termBindings_groups hany]

theorem termBindings_groups {conjunction : Conjunction} : ∀ {members : List FilterExpr}
    {ts : List Term}, scope.groups conjunction members = .ok ts →
      Condition.termBindings ts = (FilterExpr.allOperands members).flatMap Operand.bound
  | [], ts, h => by cases h; rfl
  | member :: rest, ts, h => by
    obtain ⟨inner, more, hinner, hmore, rfl⟩ := groups_cons_eq_ok h
    rw [FilterExpr.allOperands, List.flatMap_append, Condition.termBindings_append,
      termBindings_parenthesised, termBindings_terms hinner, termBindings_groups hmore]

end

theorem bindings_conditions {filter : FilterExpr} {cs : List Condition}
    (h : scope.conditions filter = .ok cs) :
    cs.flatMap Condition.bindings = filter.operands.flatMap Operand.bound := by
  obtain ⟨ts, hts, rfl⟩ := conditions_eq_ok h
  rw [← termBindings_terms hts, Condition.termBindings_eq_flatMap, List.flatMap_map]

end FilterScope
end NestedRead
