import NestedRead.Proofs.Filter.Acceptance
import NestedRead.Proofs.Query.Mirror
import NestedRead.Proofs.Query.Operands

/-!
# Which values are bound

A statement binds the values of the operands of its tree (`SelectionTree.compile_bindings`), and in
a tree that compiles each operand fits its operator (`SelectionTree.fits_operands`). A comparison
takes scalars only. A list and a pair are taken whatever their items are, so these decide: all that
is bound is scalar exactly when the items of all lists are.

An item that is an array or an object is not refused. The last theorems are about one.
-/

set_option autoImplicit false

namespace NestedRead

/-! ## One operand -/

namespace Operand

/-- The operand is a list, and its operator is one that takes lists. -/
def IsList (o : Operand) (values : List Json) : Prop :=
  o.2 = .array values ∧ Text.lowerAscii o.1 ∈ ["in", "nin", "between", "nbetween"]

theorem Fits.bound_eq {o : Operand} {op : FilterOperator} (h : Text.lowerAscii o.1 = op.word) :
    o.bound = op.bound o.2 :=
  bound_of_ofName (FilterOperator.ofName_eq_ok_iff.mpr h) o.2

theorem isScalar_of_compare_takes {comparison : Comparison} {value : Json}
    (h : (FilterOperator.compare comparison).Takes value) :
    value.isScalar = true ∧ ∀ v ∈ (FilterOperator.compare comparison).bound value, v = value := by
  cases comparison with
  | is | isNot => rcases h with rfl | ⟨b, rfl⟩ <;> simp [FilterOperator.bound, Json.isScalar]
  | gt | gte | lt | lte => exact ⟨h, fun v hv => List.mem_singleton.mp hv⟩
  | eq | ne =>
    -- Null is a keyword here.
    refine ⟨h, fun v hv => ?_⟩
    cases value with
    | null => cases hv
    | bool | number | string | array | object => exact List.mem_singleton.mp hv

/-- What fits is a scalar, and then nothing but itself is bound, or a list, and then its items
are. -/
theorem Fits.cases {o : Operand} (h : o.Fits) :
    (o.2.isScalar = true ∧ ∀ v ∈ o.bound, v = o.2) ∨
      ∃ values, o.IsList values ∧ o.bound = values := by
  obtain ⟨op, hword, htakes⟩ := h
  rw [Fits.bound_eq hword]
  rcases op with comparison | negated | negated
  · exact .inl (isScalar_of_compare_takes htakes)
  · right
    obtain ⟨values, hvalues⟩ := htakes
    refine ⟨values, ⟨hvalues, ?_⟩, ?_⟩
    · rw [hword]
      cases negated <;> decide
    · rw [hvalues]
      rfl
  · right
    obtain ⟨low, high, hvalues⟩ := htakes
    refine ⟨[low, high], ⟨hvalues, ?_⟩, ?_⟩
    · rw [hword]
      cases negated <;> decide
    · rw [hvalues]
      rfl

end Operand

/-! ## The operands of what compiles -/

namespace FilterScope

variable {scope : FilterScope}

theorem fits_fieldTerms {fields : List FieldFilter} {ts : List Term}
    (h : scope.fieldTerms fields = .ok ts) :
    ∀ o ∈ fields.flatMap (·.operators), Operand.Fits o := by
  induction fields generalizing ts with
  | nil => simp
  | cons f rest ih =>
    obtain ⟨column, cs, more, -, hcs, hmore, -⟩ := fieldTerms_cons_eq_ok h
    rw [List.flatMap_cons, List.forall_mem_append]
    exact ⟨(Condition.exists_ofOperators_iff column _).mp ⟨cs, hcs⟩, ih hmore⟩

mutual

/-- All operands of a filter that compiles fit. -/
theorem fits_terms : ∀ {filter : FilterExpr} {ts : List Term}, scope.terms filter = .ok ts →
    ∀ o ∈ filter.operands, Operand.Fits o
  | ⟨fields, allOf, anyOf⟩, ts, h => by
    obtain ⟨fieldTerms, allTerms, anyTerms, hfields, hall, hany, -⟩ := terms_eq_ok h
    rw [FilterExpr.operands, List.forall_mem_append, List.forall_mem_append]
    exact ⟨⟨fits_fieldTerms hfields, fits_groups hall⟩, fits_groups hany⟩

theorem fits_groups {conjunction : Conjunction} : ∀ {members : List FilterExpr} {ts : List Term},
    scope.groups conjunction members = .ok ts →
      ∀ o ∈ FilterExpr.allOperands members, Operand.Fits o
  | [], _, _ => by simp [FilterExpr.allOperands]
  | member :: rest, ts, h => by
    obtain ⟨inner, more, hinner, hmore, -⟩ := groups_cons_eq_ok h
    rw [FilterExpr.allOperands, List.forall_mem_append]
    exact ⟨fits_terms hinner, fits_groups hmore⟩

end

theorem Conditions.fits {filter : Option FilterExpr} {cs : List Condition}
    (h : scope.Conditions filter cs) : ∀ o ∈ FilterExpr.operandsOf filter, Operand.Fits o := by
  cases filter with
  | none => simp [FilterExpr.operandsOf]
  | some filter =>
    obtain ⟨ts, hts, -⟩ := conditions_eq_ok h
    exact fits_terms hts

end FilterScope

theorem RootPlan.FilterTerms.fits {scope : FilterScope} {filter : Option FilterExpr}
    {ts : List Term} (h : RootPlan.FilterTerms scope filter ts) :
    ∀ o ∈ FilterExpr.operandsOf filter, Operand.Fits o := by
  cases filter with
  | none => simp [FilterExpr.operandsOf]
  | some filter => exact FilterScope.fits_terms h

namespace SelectionTree

variable {catalog : Catalog} {config : Config} {tree : SelectionTree} {compiled : CompiledRead}

/-- All operands of a tree that compiles fit: those on its relations and those on its root. -/
theorem fits_operands (hroot : tree.root.WellFormed catalog)
    (h : (tree.compile catalog config).outcome = .ok compiled) :
    ∀ o ∈ tree.operands, Operand.Fits o := by
  obtain ⟨plan, root, hfor, hvalid, -⟩ := compile_eq_ok hroot h
  rw [operands, List.forall_mem_append, List.forall_mem_append]
  -- Each relation that is selected has a link in the plan, for which its filter was compiled.
  have hlinks : List.Forall₂ (fun d l => (∀ o ∈ d.operands, Operand.Fits o) ∧
      Plan.MadeForDescent l d) tree.root.descents plan.links := by
    rw [← hfor.selection, ← List.map_id plan.links]
    refine List.Forall₂.flip (Plan.forall₂_descents id fun l hl d hd => ⟨?_, hd⟩)
    have hconditions := (JoinPlan.joinConditions_eq_ok (hfor.valid.links l hl).conditions).1
    rw [← hd.args] at hconditions
    exact hconditions.fits
  have hdescents := ((List.forall₂_and_left _ _).mp hlinks).1
  refine ⟨⟨fun o ho => ?_, hvalid.filters.fits⟩, hvalid.having.fits⟩
  obtain ⟨d, hd, ho⟩ := List.mem_flatMap.mp ho
  exact hdescents d hd o ho

/-- **What is bound and no scalar is an item of a list.** In a tree that was built and compiles,
every operand is a scalar, or a list under an operator that takes lists. A value that is no scalar
is bound exactly when it is an item of such a list. -/
theorem compile_bound {request : Request} (hbuilt : (ofRequest catalog request).outcome = .ok tree)
    (h : (tree.compile catalog config).outcome = .ok compiled) :
    (∀ o ∈ tree.operands, o.2.isScalar = true ∨ ∃ values, Operand.IsList o values) ∧
    ∀ v : Json, v.isScalar = false → (v ∈ compiled.statement.render.bindings ↔
      ∃ o ∈ tree.operands, ∃ values, Operand.IsList o values ∧ v ∈ values) := by
  have hfits := fits_operands (build_wellFormed hbuilt).1 h
  refine ⟨fun o ho => ?_, fun v hv => ?_⟩
  · rcases (hfits o ho).cases with ⟨hscalar, -⟩ | ⟨values, hlist, -⟩
    · exact .inl hscalar
    · exact .inr ⟨values, hlist⟩
  have hbindings : compiled.statement.render.bindings = tree.operands.flatMap Operand.bound :=
    compile_bindings h
  rw [hbindings, List.mem_flatMap]
  refine exists_congr fun o => and_congr_right fun ho => ?_
  rcases (hfits o ho).cases with ⟨hscalar, honly⟩ | ⟨values, hlist, hbound⟩
  · -- A scalar binds at most itself, and it is no list.
    refine iff_of_false (fun hmem => ?_) ?_
    · rw [honly v hmem, hscalar] at hv
      cases hv
    · rintro ⟨values, ⟨hvalues, -⟩, -⟩
      rw [hvalues] at hscalar
      cases hscalar
  · rw [hbound]
    refine ⟨fun hmem => ⟨values, hlist, hmem⟩, ?_⟩
    rintro ⟨others, hothers, hmem⟩
    rwa [Json.array.inj (hlist.1.symm.trans hothers.1)]

end SelectionTree

/-! ## A list in a list -/

namespace Sample

def innerList : Json := .array [.string "a"]

def nestedRequest : Request where
  entity := "Book"
  selection :=
    { name := "books"
      args := [("where", .object [("id", .object [("IN", .array [.null, innerList])])])]
      selections := [.leaf "title"] }

def nestedTree : SelectionTree where
  root := .mk "Book" .root ["title"] []
  args := { filter := some ⟨[⟨"id", [("IN", .array [.null, innerList])]⟩], [], []⟩ }

def nestedRead : CompiledRead where
  statement :=
    { source := some ("books", "base")
      projections := [⟨.qualified "base" "title", "base___title"⟩,
        ⟨.qualified "base" "id", "base___id"⟩]
      filters := [(.and, .member (.qualified "base" "id") [.null, innerList] false)] }
  layout := ⟨"___", [⟨.root, "base", "Book", "id", none⟩]⟩

theorem nestedRequest_built :
    (SelectionTree.ofRequest catalog nestedRequest).outcome = .ok nestedTree := rfl

theorem nestedTree_compiled : (nestedTree.compile catalog {}).outcome = .ok nestedRead := rfl

end Sample

theorem SelectionTree.compile_bound_nested :
    (ofRequest Sample.catalog Sample.nestedRequest).outcome = .ok Sample.nestedTree ∧
    (Sample.nestedTree.compile Sample.catalog {}).outcome = .ok Sample.nestedRead ∧
    Sample.innerList.isScalar = false ∧
    Sample.innerList ∈ Sample.nestedRead.statement.render.bindings := by
  have hbound := compile_bound Sample.nestedRequest_built Sample.nestedTree_compiled
  refine ⟨Sample.nestedRequest_built, Sample.nestedTree_compiled, rfl,
    (hbound.2 Sample.innerList rfl).mpr ?_⟩
  exact ⟨_, List.mem_singleton.mpr rfl, _, ⟨rfl, by decide⟩, by simp⟩

/-- A list in a list is not refused, although a list in the place of a scalar is. -/
theorem SelectionTree.not_only_scalars_bound : ¬ ∀ (catalog : Catalog) (config : Config)
    (request : Request) (tree : SelectionTree) (compiled : CompiledRead), catalog.Accepted →
      (ofRequest catalog request).outcome = .ok tree →
      (tree.compile catalog config).outcome = .ok compiled →
      ∀ v ∈ compiled.statement.render.bindings, v.isScalar = true := by
  intro h
  have hscalar := h _ _ _ _ _ Sample.catalog_accepted Sample.nestedRequest_built
    Sample.nestedTree_compiled Sample.innerList
    (by simp [Sample.nestedRead, Statement.render, Statement.bindings, Condition.termBindings,
      Condition.bindings])
  cases hscalar

end NestedRead
