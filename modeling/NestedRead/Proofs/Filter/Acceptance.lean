import NestedRead.Proofs.Filter.Blank
import NestedRead.Proofs.Filter.Steps
import NestedRead.Proofs.Json.Same
import NestedRead.Proofs.Naming.Column

/-!
# Which filters are accepted

A filter is read first and compiled afterwards, and either may refuse it: reading asks for objects
and lists in their places, compiling for the names, the operators and their operands.
`FilterScope.WellFormed` says on the value itself what the two ask for together, and
`FilterScope.exists_ofJson_iff` that nothing else decides.

Compiling goes through fields, conjuncts and alternatives in this order whatever the order of the
members was, but all of them have to compile, so for acceptance the order does not matter. That is
`compiles_iff`. Reading keeps the last of two groups under one key and forgets the first, hence
`Json.WellKeyed`.
-/

set_option autoImplicit false

namespace NestedRead

/-! ## Operators and operands -/

namespace FilterOperator

/-- The name of the operator in small letters. -/
def word : FilterOperator → String
  | .compare .gt => "gt"
  | .compare .gte => "gte"
  | .compare .lt => "lt"
  | .compare .lte => "lte"
  | .compare .eq => "eq"
  | .compare .ne => "ne"
  | .compare .is => "is"
  | .compare .isNot => "nis"
  | .member false => "in"
  | .member true => "nin"
  | .between false => "between"
  | .between true => "nbetween"

theorem ofName_eq_ok_iff {name : String} {op : FilterOperator} :
    ofName name = .ok op ↔ Text.lowerAscii name = op.word := by
  constructor
  · intro h
    unfold ofName at h
    split at h <;> cases h <;> assumption
  · intro h
    rw [ofName, h]
    rcases op with comparison | negated | negated
    · cases comparison <;> rfl
    · cases negated <;> rfl
    · cases negated <;> rfl

/-- The operands that the operator takes. -/
def Takes : FilterOperator → Json → Prop
  | .compare .is, value | .compare .isNot, value => value = .null ∨ ∃ b, value = .bool b
  | .compare _, value => value.isScalar = true
  | .member _, value => ∃ values, value = .array values
  | .between _, value => ∃ low high, value = .array [low, high]

end FilterOperator

/-- An operand fits its operator, whose name may have any case. -/
def Operand.Fits (o : Operand) : Prop :=
  ∃ op : FilterOperator, Text.lowerAscii o.1 = op.word ∧ op.Takes o.2

namespace Condition

variable {column : ColumnRef} {name : String} {value : Json}

theorem exists_ofComparison_iff {comparison : Comparison} :
    (∃ c, ofComparison column name comparison value = .ok c) ↔
      (FilterOperator.compare comparison).Takes value := by
  cases comparison with
  | is | isNot => cases value <;> simp [ofComparison, FilterOperator.Takes]
  | gt | gte | lt | lte | eq | ne =>
    cases value <;> simp [ofComparison, FilterOperator.Takes, Json.isScalar]

/-- An operator compiles with the operands that fit it, on every column. -/
theorem exists_ofOperator_iff (column : ColumnRef) :
    (∃ c, ofOperator column name value = .ok c) ↔ Operand.Fits (name, value) := by
  have hop : ∀ op : FilterOperator, FilterOperator.ofName name = .ok op →
      ((∃ c, ofOperator column name value = .ok c) ↔ op.Takes value) := fun op hname => by
    rw [ofOperator, hname]
    rcases op with comparison | negated | negated
    · exact exists_ofComparison_iff
    · cases value <;> simp [bind, Except.bind, FilterOperator.Takes]
    · simp only [bind, Except.bind, FilterOperator.Takes]
      split
      · exact iff_of_true ⟨_, rfl⟩ ⟨_, _, rfl⟩
      · rename_i hpair
        exact iff_of_false (fun ⟨_, h⟩ => by cases h) fun ⟨low, high, h⟩ => hpair low high h
  constructor
  · rintro ⟨c, hc⟩
    obtain ⟨op, hname, -⟩ := Outcome.bind_eq_ok_iff.mp hc
    exact ⟨op, FilterOperator.ofName_eq_ok_iff.mp hname, (hop op hname).mp ⟨c, hc⟩⟩
  · rintro ⟨op, hword, htakes⟩
    exact (hop op (FilterOperator.ofName_eq_ok_iff.mpr hword)).mpr htakes

theorem exists_ofOperators_iff (column : ColumnRef) : ∀ operators : List Operand,
    (∃ cs, ofOperators column operators = .ok cs) ↔ ∀ o ∈ operators, Operand.Fits o
  | [] => iff_of_true ⟨_, rfl⟩ (by simp)
  | o :: rest => by
    rw [List.forall_mem_cons, ← exists_ofOperator_iff column, ← exists_ofOperators_iff column rest]
    exact Outcome.exists_both_iff

end Condition

namespace FilterScope

variable {scope : FilterScope}

/-! ## Compiling -/

/-- What a field of a filter may be called: a scalar column, and in HAVING also an aggregate. -/
def Names (scope : FilterScope) (name : String) : Prop :=
  match scope.clause with
  | .having => scope.entity.NamesColumn name
  | .filter | .join => ∃ type, scope.entity.HasScalar name type

theorem exists_column_iff (hclean : scope.entity.Clean) {name : String} :
    (∃ column, scope.column name = .ok column) ↔ scope.Names name := by
  unfold FilterScope.column Names
  cases scope.clause with
  | having => exact Entity.exists_column_iff hclean
  | filter | join => exact Entity.exists_plainColumn_iff

/-- A field with operators that all fit. -/
structure Tests (scope : FilterScope) (name : String) (operators : List Operand) : Prop where
  names : scope.Names name
  nonempty : operators ≠ []
  fits : ∀ o ∈ operators, Operand.Fits o

theorem exists_fieldConditions_iff (hclean : scope.entity.Clean) {f : FieldFilter} :
    (∃ cs, scope.fieldConditions f = .ok cs) ↔ scope.Tests f.field f.operators := by
  unfold fieldConditions
  split
  · rename_i hempty
    exact iff_of_false (fun ⟨_, h⟩ => by cases h)
      fun h => h.nonempty (List.isEmpty_iff.mp hempty)
  · rename_i hempty
    simp only [Outcome.bind_eq_ok_iff]
    constructor
    · rintro ⟨cs, column, hcolumn, hcs⟩
      exact ⟨(exists_column_iff hclean).mp ⟨column, hcolumn⟩, fun h => hempty (h ▸ rfl),
        (Condition.exists_ofOperators_iff column _).mp ⟨cs, hcs⟩⟩
    · intro h
      obtain ⟨column, hcolumn⟩ := (exists_column_iff hclean).mpr h.names
      obtain ⟨cs, hcs⟩ := (Condition.exists_ofOperators_iff column _).mpr h.fits
      exact ⟨cs, column, hcolumn, hcs⟩

theorem exists_fieldTerms_iff (hclean : scope.entity.Clean) : ∀ fields : List FieldFilter,
    (∃ ts, scope.fieldTerms fields = .ok ts) ↔ ∀ f ∈ fields, scope.Tests f.field f.operators
  | [] => iff_of_true ⟨_, rfl⟩ (by simp)
  | f :: rest => by
    rw [List.forall_mem_cons, ← exists_fieldConditions_iff hclean,
      ← exists_fieldTerms_iff hclean rest]
    exact Outcome.exists_both_iff

def Compiles (scope : FilterScope) (filter : FilterExpr) : Prop :=
  ∃ ts, scope.terms filter = .ok ts

theorem exists_groups_iff (conjunction : Conjunction) (members : List FilterExpr) :
    (∃ ts, scope.groups conjunction members = .ok ts) ↔
      ∀ member ∈ members, scope.Compiles member := by
  induction members with
  | nil => exact iff_of_true ⟨_, by rw [groups]⟩ (by simp)
  | cons member rest ih =>
    rw [List.forall_mem_cons, ← ih, groups]
    exact Outcome.exists_both_iff

/-- A filter compiles when all its parts do, in whatever order they came. -/
theorem compiles_iff (hclean : scope.entity.Clean) {fields : List FieldFilter}
    {allOf anyOf : List FilterExpr} :
    scope.Compiles ⟨fields, allOf, anyOf⟩ ↔
      (∀ f ∈ fields, scope.Tests f.field f.operators) ∧
      ((scope.clause = .join → allOf = []) ∧ ∀ member ∈ allOf, scope.Compiles member) ∧
      ((scope.clause = .join → anyOf = []) ∧ ∀ member ∈ anyOf, scope.Compiles member) := by
  rw [Compiles, ← exists_fieldTerms_iff hclean, ← exists_groups_iff .and, ← exists_groups_iff .or]
  constructor
  · rintro ⟨ts, hts⟩
    have hgroups : scope.clause = .join → allOf = [] ∧ anyOf = [] := fun hjoin => by
      rw [terms] at hts
      split at hts
      · cases hts
      · rename_i hguard
        simpa [hjoin] using hguard
    obtain ⟨fieldTerms, allTerms, anyTerms, hfields, hall, hany, -⟩ := terms_eq_ok hts
    exact ⟨⟨_, hfields⟩, ⟨fun h => (hgroups h).1, _, hall⟩, ⟨fun h => (hgroups h).2, _, hany⟩⟩
  · rintro ⟨⟨fieldTerms, hfields⟩, ⟨hjoinAll, allTerms, hall⟩, ⟨hjoinAny, anyTerms, hany⟩⟩
    refine ⟨fieldTerms ++ allTerms ++ anyTerms, ?_⟩
    have hguard : ¬ (scope.clause = .join && (!allOf.isEmpty || !anyOf.isEmpty)) = true := by
      simp only [Bool.and_eq_true, decide_eq_true_eq]
      rintro ⟨hjoin, hgroups⟩
      rw [hjoinAll hjoin, hjoinAny hjoin] at hgroups
      cases hgroups
    rw [terms, if_neg hguard, hfields, hall, hany]
    rfl

/-! ## Reading -/

/-- The keys of the two groups. -/
def IsGroupKey (key : String) : Prop := key = FilterExpr.andKey ∨ key = FilterExpr.orKey

/-- **A filter that is right** in the place where it stands, for the columns of an entity. The
groups are lists of such filters, and there are none in a join condition; under every other key
a column is tested. -/
inductive WellFormed (scope : FilterScope) : Json → Prop
  | object {members : Json.Members}
      (lists : ∀ key value, (key, value) ∈ members → IsGroupKey key →
        ∃ items, value = .array items)
      (ungrouped : ∀ key items, (key, .array items) ∈ members → IsGroupKey key →
        scope.clause = .join → items = [])
      (grouped : ∀ key items, (key, .array items) ∈ members → IsGroupKey key →
        ∀ item ∈ items, WellFormed scope item)
      (tests : ∀ key value, (key, value) ∈ members → ¬ IsGroupKey key →
        ∃ operators, value = .object operators ∧ scope.Tests key operators) :
      WellFormed scope (.object members)

/-- A member of a filter that is right. -/
structure MemberFits (scope : FilterScope) (key : String) (value : Json) : Prop where
  group : IsGroupKey key → ∃ items, value = .array items ∧ (scope.clause = .join → items = []) ∧
    ∀ item ∈ items, scope.WellFormed item
  test : ¬ IsGroupKey key → ∃ operators, value = .object operators ∧ scope.Tests key operators

theorem wellFormed_object_iff {members : Json.Members} :
    scope.WellFormed (.object members) ↔ ∀ entry ∈ members, scope.MemberFits entry.1 entry.2 := by
  constructor
  · rintro ⟨hlists, hungrouped, hgrouped, htests⟩ ⟨key, value⟩ hentry
    refine ⟨fun hkey => ?_, htests key value hentry⟩
    obtain ⟨items, rfl⟩ := hlists key value hentry hkey
    exact ⟨items, rfl, hungrouped key items hentry hkey, hgrouped key items hentry hkey⟩
  · intro h
    have hgroup : ∀ key items, (key, .array items) ∈ members → IsGroupKey key →
        (scope.clause = .join → items = []) ∧ ∀ item ∈ items, scope.WellFormed item :=
      fun key items hentry hkey => by
        obtain ⟨_, hvalue, hgroup⟩ := (h _ hentry).group hkey
        cases hvalue
        exact hgroup
    refine .object (fun key value hentry hkey => ?_)
      (fun key items hentry hkey => (hgroup key items hentry hkey).1)
      (fun key items hentry hkey => (hgroup key items hentry hkey).2)
      fun key value hentry => (h _ hentry).test
    obtain ⟨items, hvalue, -⟩ := (h _ hentry).group hkey
    exact ⟨items, hvalue⟩

/-! ## Growing filters -/

theorem ofMembers_andKey (filter : FilterExpr) (value : Json) (rest : Json.Members) :
    FilterExpr.ofMembers filter ((FilterExpr.andKey, value) :: rest) =
      FilterExpr.groupOf FilterExpr.andKey value >>= fun allOf =>
        FilterExpr.ofMembers { filter with allOf } rest := by
  rw [FilterExpr.ofMembers.eq_def]
  exact if_pos rfl

theorem ofMembers_orKey (filter : FilterExpr) (value : Json) (rest : Json.Members) :
    FilterExpr.ofMembers filter ((FilterExpr.orKey, value) :: rest) =
      FilterExpr.groupOf FilterExpr.orKey value >>= fun anyOf =>
        FilterExpr.ofMembers { filter with anyOf } rest := by
  rw [FilterExpr.ofMembers.eq_def]
  exact (if_neg (by decide)).trans (if_pos rfl)

/-- A list is read item by item, so none are read from none only. -/
theorem ofItems_eq_nil_iff {items : List Json} {filters : List FilterExpr}
    (h : FilterExpr.ofItems items = .ok filters) : filters = [] ↔ items = [] := by
  cases items with
  | nil =>
    cases h
    simp
  | cons item rest =>
    rw [FilterExpr.ofItems] at h
    obtain ⟨filter, -, h⟩ := Outcome.bind_eq_ok_iff.mp h
    obtain ⟨filters, -, h⟩ := Outcome.bind_eq_ok_iff.mp h
    cases h
    simp

/-- The operators under the key of a field. -/
def operatorsOf (key : String) : Json → Except CompileError (List (String × Json))
  | .object operators => .ok operators
  | value => .error (.malformedFilter (.notOperators key value))

theorem ofMembers_field {key : String} (hkey : ¬ IsGroupKey key) (filter : FilterExpr)
    (value : Json) (rest : Json.Members) :
    FilterExpr.ofMembers filter ((key, value) :: rest) =
      operatorsOf key value >>= fun operators => FilterExpr.ofMembers
        { filter with fields := filter.fields ++ [⟨key, operators⟩] } rest := by
  rw [FilterExpr.ofMembers.eq_def]
  dsimp only
  rw [if_neg fun h => hkey (.inl h), if_neg fun h => hkey (.inr h)]
  cases value <;> rfl

/-- The filter grows by what a member is read as, and compiles if the growth does. -/
theorem exists_grown_iff {α : Type} {member : Except CompileError α} {grown : α → FilterExpr}
    {filter : FilterExpr} {rest : Json.Members} {part : α → Prop} {others : Prop}
    (hgrown : ∀ a, scope.Compiles (grown a) ↔ scope.Compiles filter ∧ part a)
    (hrest : ∀ a, (∃ result, FilterExpr.ofMembers (grown a) rest = .ok result ∧
      scope.Compiles result) ↔ scope.Compiles (grown a) ∧ others) :
    (∃ result, (member >>= fun a => FilterExpr.ofMembers (grown a) rest) = .ok result ∧
      scope.Compiles result) ↔
        scope.Compiles filter ∧ (∃ a, member = .ok a ∧ part a) ∧ others := by
  simp only [Outcome.bind_eq_ok_iff]
  constructor
  · rintro ⟨result, ⟨a, ha, hresult⟩, hcompiles⟩
    obtain ⟨hgrowth, hothers⟩ := (hrest a).mp ⟨result, hresult, hcompiles⟩
    obtain ⟨hfilter, hpart⟩ := (hgrown a).mp hgrowth
    exact ⟨hfilter, ⟨a, ha, hpart⟩, hothers⟩
  · rintro ⟨hfilter, ⟨a, ha, hpart⟩, hothers⟩
    obtain ⟨result, hresult, hcompiles⟩ :=
      (hrest a).mpr ⟨(hgrown a).mpr ⟨hfilter, hpart⟩, hothers⟩
    exact ⟨result, ⟨a, ha, hresult⟩, hcompiles⟩

theorem memberFits_group_iff {key : String} (hkey : IsGroupKey key) {value : Json} :
    scope.MemberFits key value ↔ ∃ items, value = .array items ∧
      (scope.clause = .join → items = []) ∧ ∀ item ∈ items, scope.WellFormed item :=
  ⟨fun h => h.group hkey, fun h => ⟨fun _ => h, fun hfield => absurd hkey hfield⟩⟩

theorem memberFits_field_iff {key : String} (hkey : ¬ IsGroupKey key) {value : Json} :
    scope.MemberFits key value ↔
      ∃ operators, operatorsOf key value = .ok operators ∧ scope.Tests key operators := by
  have hvalue : ∀ operators, operatorsOf key value = .ok operators ↔ value = .object operators :=
    fun operators => by cases value <;> simp [operatorsOf]
  simp only [hvalue]
  exact ⟨fun h => h.test hkey, fun h => ⟨fun hgroup => absurd hgroup hkey, fun _ => h⟩⟩

section growing

variable (hclean : scope.entity.Clean)

include hclean

theorem compiles_with_field {filter : FilterExpr} {f : FieldFilter} :
    scope.Compiles { filter with fields := filter.fields ++ [f] } ↔
      scope.Compiles filter ∧ scope.Tests f.field f.operators := by
  obtain ⟨fields, allOf, anyOf⟩ := filter
  simp only [compiles_iff hclean, List.forall_mem_append, List.forall_mem_singleton]
  tauto

theorem compiles_with_allOf {filter : FilterExpr} {allOf : List FilterExpr}
    (h : filter.allOf = []) :
    scope.Compiles { filter with allOf } ↔ scope.Compiles filter ∧
      (scope.clause = .join → allOf = []) ∧ ∀ member ∈ allOf, scope.Compiles member := by
  obtain ⟨fields, _, anyOf⟩ := filter
  subst h
  simp only [compiles_iff hclean, List.not_mem_nil, false_implies, implies_true, and_self]
  tauto

theorem compiles_with_anyOf {filter : FilterExpr} {anyOf : List FilterExpr}
    (h : filter.anyOf = []) :
    scope.Compiles { filter with anyOf } ↔ scope.Compiles filter ∧
      (scope.clause = .join → anyOf = []) ∧ ∀ member ∈ anyOf, scope.Compiles member := by
  obtain ⟨fields, allOf, _⟩ := filter
  subst h
  simp only [compiles_iff hclean, List.not_mem_nil, false_implies, implies_true, and_self]
  tauto

theorem compiles_empty : scope.Compiles .empty := by
  refine (compiles_iff hclean).mpr ?_
  simp

end growing

/-! ## Both passes -/

mutual

theorem exists_ofJson_iff (hclean : scope.entity.Clean) : ∀ {v : Json}, v.WellKeyed →
    ((∃ filter, FilterExpr.ofJson v = .ok filter ∧ scope.Compiles filter) ↔ scope.WellFormed v)
  | .object members, h => by
    rw [FilterExpr.ofJson, exists_ofMembers_iff hclean h.1 h.2 (fun _ => rfl) (fun _ => rfl),
      wellFormed_object_iff]
    exact and_iff_right (compiles_empty hclean)
  | .null, _ | .bool _, _ | .number _, _ | .string _, _ | .array _, _ => by
    refine iff_of_false ?_ fun h => nomatch h
    rintro ⟨_, h, -⟩
    rw [FilterExpr.ofJson] at h
    · cases h
    · exact fun _ h => nomatch h

/-- From member to member the filter grows. A group that is still to come is not there yet. -/
theorem exists_ofMembers_iff (hclean : scope.entity.Clean) : ∀ {members : Json.Members}
    {filter : FilterExpr},
    (members.map Prod.fst).Nodup → Json.MembersWellKeyed members →
    (FilterExpr.andKey ∈ members.map Prod.fst → filter.allOf = []) →
    (FilterExpr.orKey ∈ members.map Prod.fst → filter.anyOf = []) →
    ((∃ result, FilterExpr.ofMembers filter members = .ok result ∧ scope.Compiles result) ↔
      scope.Compiles filter ∧ ∀ entry ∈ members, scope.MemberFits entry.1 entry.2)
  | [], filter, _, _, _, _ => by simp [FilterExpr.ofMembers]
  | (key, value) :: rest, filter, hnodup, hwell, hall, hany => by
    simp only [List.map_cons] at hnodup hall hany
    obtain ⟨hkey, hkeys⟩ := List.nodup_cons.mp hnodup
    rw [List.forall_mem_cons]
    by_cases hand : key = FilterExpr.andKey
    · subst hand
      rw [ofMembers_andKey, memberFits_group_iff (.inl rfl), ← exists_groupOf_iff hclean hwell.1]
      exact exists_grown_iff
        (fun _ => compiles_with_allOf hclean (hall List.mem_cons_self))
        fun _ => exists_ofMembers_iff hclean hkeys hwell.2 (fun h => absurd h hkey)
          fun h => hany (List.mem_cons_of_mem _ h)
    by_cases hor : key = FilterExpr.orKey
    · subst hor
      rw [ofMembers_orKey, memberFits_group_iff (.inr rfl), ← exists_groupOf_iff hclean hwell.1]
      exact exists_grown_iff
        (fun _ => compiles_with_anyOf hclean (hany List.mem_cons_self))
        fun _ => exists_ofMembers_iff hclean hkeys hwell.2
          (fun h => hall (List.mem_cons_of_mem _ h)) fun h => absurd h hkey
    · have hfield : ¬ IsGroupKey key := fun h => h.elim hand hor
      rw [ofMembers_field hfield, memberFits_field_iff hfield]
      exact exists_grown_iff (fun _ => compiles_with_field hclean)
        fun _ => exists_ofMembers_iff hclean hkeys hwell.2
          (fun h => hall (List.mem_cons_of_mem _ h)) fun h => hany (List.mem_cons_of_mem _ h)

theorem exists_groupOf_iff (hclean : scope.entity.Clean) {key : String} : ∀ {value : Json},
    value.WellKeyed →
    ((∃ filters, FilterExpr.groupOf key value = .ok filters ∧
        (scope.clause = .join → filters = []) ∧ ∀ filter ∈ filters, scope.Compiles filter) ↔
      ∃ items, value = .array items ∧ (scope.clause = .join → items = []) ∧
        ∀ item ∈ items, scope.WellFormed item)
  | .array items, h => by
    rw [FilterExpr.groupOf]
    simp only [Json.array.injEq, exists_eq_left']
    rw [← exists_ofItems_iff hclean h]
    constructor
    · rintro ⟨filters, hfilters, hjoin, hcompiles⟩
      exact ⟨fun h => (ofItems_eq_nil_iff hfilters).mp (hjoin h), filters, hfilters, hcompiles⟩
    · rintro ⟨hjoin, filters, hfilters, hcompiles⟩
      exact ⟨filters, hfilters, fun h => (ofItems_eq_nil_iff hfilters).mpr (hjoin h), hcompiles⟩
  | .null, _ | .bool _, _ | .number _, _ | .string _, _ | .object _, _ => by
    refine iff_of_false ?_ ?_
    · rintro ⟨_, h, -⟩
      rw [FilterExpr.groupOf] at h
      · cases h
      · exact fun _ h => nomatch h
    · rintro ⟨_, h, -⟩
      cases h

theorem exists_ofItems_iff (hclean : scope.entity.Clean) : ∀ {items : List Json},
    Json.ItemsWellKeyed items →
    ((∃ filters, FilterExpr.ofItems items = .ok filters ∧
        ∀ filter ∈ filters, scope.Compiles filter) ↔ ∀ item ∈ items, scope.WellFormed item)
  | [], _ => by simp [FilterExpr.ofItems]
  | item :: rest, h => by
    rw [List.forall_mem_cons, ← exists_ofJson_iff hclean h.1, ← exists_ofItems_iff hclean h.2,
      FilterExpr.ofItems]
    simp only [Outcome.bind_eq_ok_iff]
    constructor
    · rintro ⟨_, ⟨filter, hfilter, filters, hfilters, h⟩, hcompiles⟩
      cases h
      obtain ⟨hfirst, hrest⟩ := List.forall_mem_cons.mp hcompiles
      exact ⟨⟨filter, hfilter, hfirst⟩, ⟨filters, hfilters, hrest⟩⟩
    · rintro ⟨⟨filter, hfilter, hfirst⟩, ⟨filters, hfilters, hrest⟩⟩
      exact ⟨_, ⟨filter, hfilter, filters, hfilters, rfl⟩,
        List.forall_mem_cons.mpr ⟨hfirst, hrest⟩⟩

end

/-- **A filter is accepted exactly when it is right.** For an entity of an accepted catalog, under
every alias and in every clause, a value is read and compiled without an error if and only if it is
well formed there. -/
theorem accepts_iff_wellFormed {catalog : Catalog} (hcat : catalog.Accepted) {name : String}
    {entity : Entity} (hentity : catalog.get? name = some entity) (tableAlias : String)
    (clause : FilterClause) {v : Json} (hv : v.WellKeyed) :
    (∃ filter ts, FilterExpr.ofJson v = .ok filter ∧
      FilterScope.terms ⟨entity, tableAlias, clause⟩ filter = .ok ts) ↔
        FilterScope.WellFormed ⟨entity, tableAlias, clause⟩ v := by
  simp only [exists_and_left]
  exact exists_ofJson_iff (hcat.clean hentity) hv

end FilterScope

/-! ## A filter that is right in one clause only -/

namespace Sample

/-- Some titles or a range of the column that is not listed. -/
def titleCount : Json :=
  .object [("title__COUNT", .object [("Gte", .number (.int 1 (by decide)))]),
    ("_or", .array [.object [("_and", .array []),
      ("id", .object [("nBetween", .array [.string "a", .string "b"])])]])]

end Sample

theorem FilterScope.accepts_iff_wellFormed_titleCount :
    Sample.catalog.Accepted ∧ Sample.catalog.get? "Book" = some Sample.book ∧
    Sample.titleCount.WellKeyed ∧
    FilterScope.WellFormed ⟨Sample.book, "base", .having⟩ Sample.titleCount ∧
    ¬ FilterScope.WellFormed ⟨Sample.book, "base", .filter⟩ Sample.titleCount := by
  have hentity : Sample.catalog.get? "Book" = some Sample.book := rfl
  have hkeys : Sample.titleCount.WellKeyed := by
    simp [Sample.titleCount, Json.WellKeyed, Json.MembersWellKeyed, Json.ItemsWellKeyed]
  have haccepts := fun clause =>
    accepts_iff_wellFormed Sample.catalog_accepted hentity "base" clause hkeys
  refine ⟨Sample.catalog_accepted, hentity, hkeys, (haccepts .having).mp ⟨_, _, rfl, rfl⟩,
    fun h => ?_⟩
  obtain ⟨filter, ts, hfilter, hts⟩ := (haccepts .filter).mpr h
  cases hfilter
  cases hts

end NestedRead
