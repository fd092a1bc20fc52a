import NestedRead.Proofs.Catalog.Accepted
import NestedRead.Proofs.Naming.Key

/-!
# Names of columns

The compiler cuts a name at its first two underscores and looks the parts up. The names that are
found are said here without the cut: scalar columns, and scalar columns with two underscores and a
function behind them that is offered on their type. The two are the same on an entity whose names
are clean (`Entity.exists_column_iff`): a scalar column is an identifier, so it is neither cut
itself nor cut in a wrong place when a function follows.
-/

set_option autoImplicit false

namespace NestedRead

/-! ## Aggregate functions -/

namespace AggregateFn

/-- The name of the function in small letters. -/
def word : AggregateFn → String
  | .count => "count"
  | .countDistinct => "count_distinct"
  | .min => "min"
  | .max => "max"
  | .sum => "sum"
  | .avg => "avg"

theorem ofName?_eq_some_iff {name : String} {f : AggregateFn} :
    ofName? name = some f ↔ Text.lowerAscii name = f.word := by
  constructor
  · intro h
    unfold ofName? at h
    split at h <;> cases h <;> assumption
  · intro h
    rw [ofName?, h]
    cases f <;> rfl

/-- The functions that calculate are offered on numbers only. -/
def OfferedOn (f : AggregateFn) (type : ScalarType) : Prop :=
  f.requiresNumeric = true → type.isNumeric = true

end AggregateFn

namespace Entity

variable {entity : Entity} {name : String}

theorem aggregateOn?_eq_some_iff {type : ScalarType} {function : String} {f : AggregateFn} :
    aggregateOn? type function = some f ↔ Text.lowerAscii function = f.word ∧ f.OfferedOn type := by
  rw [aggregateOn?, Option.filter_eq_some_iff, AggregateFn.ofName?_eq_some_iff,
    AggregateFn.OfferedOn]
  cases f.requiresNumeric <;> simp

/-! ## Scalar columns -/

/-- The scalar columns with their types: the fields that are scalars, and the unique column where
it is not listed. -/
inductive HasScalar (entity : Entity) : String → ScalarType → Prop
  | field {name : String} {type : ScalarType} (listed : entity.field? name = some (.scalar type)) :
      HasScalar entity name type
  | unique (unlisted : entity.field? entity.uniqueColumn = none) :
      HasScalar entity entity.uniqueColumn .id

theorem scalarType?_eq_some_iff {type : ScalarType} :
    entity.scalarType? name = some type ↔ entity.HasScalar name type := by
  unfold scalarType?
  constructor
  · intro h
    split at h
    · rename_i hfield
      cases h
      exact .field hfield
    · cases h
    · rename_i hfield
      split at h
      · rename_i hunique
        cases h
        rw [hunique] at hfield ⊢
        exact .unique hfield
      · cases h
  · rintro (hfield | hfield)
    · rw [hfield]
    · rw [hfield]
      exact if_pos rfl

theorem plainColumn_eq_ok_iff {tableAlias : String} {c : ColumnRef} :
    entity.plainColumn tableAlias name = .ok c ↔
      (∃ type, entity.HasScalar name type) ∧ c = .qualified tableAlias name := by
  simp only [← scalarType?_eq_some_iff, ← Option.isSome_iff_exists, plainColumn]
  split
  · rename_i hfound
    simp [hfound, eq_comm]
  · rename_i hfound
    simp [hfound]

theorem exists_plainColumn_iff {tableAlias : String} :
    (∃ column, entity.plainColumn tableAlias name = .ok column) ↔
      ∃ type, entity.HasScalar name type := by
  simp only [plainColumn_eq_ok_iff, exists_and_left, exists_eq, and_true]

/-- A scalar column has a clean name. -/
theorem Clean.isPlain_of_hasScalar (hclean : entity.Clean) {type : ScalarType}
    (h : entity.HasScalar name type) : Identifier.isPlain name = true := by
  cases h with
  | field listed => exact hclean.fields _ _ (mem_of_field? listed)
  | unique unlisted => exact hclean.uniqueColumn

/-! ## Columns and aggregates -/

/-- The names that stand for a column or for an aggregate over one. -/
inductive NamesColumn (entity : Entity) : String → Prop
  | scalar {name : String} {type : ScalarType} (found : entity.HasScalar name type) :
      NamesColumn entity name
  | aggregate {source function : String} {type : ScalarType} {f : AggregateFn}
      (found : entity.HasScalar source type) (named : Text.lowerAscii function = f.word)
      (offered : f.OfferedOn type) : NamesColumn entity (source ++ aggregateMark ++ function)

/-- An aggregate is cut behind the column that it is over. -/
theorem cutAt?_aggregate {source : String} (h : Identifier.isPlain source = true)
    (function : String) :
    Text.cutAt? aggregateMark (source ++ aggregateMark ++ function) = some (source, function) :=
  -- The mark has the shape of a separator, and an aggregate that of a key.
  Text.cutAt?_columnKey function (by decide) h

/-- The expression that a name stands for: the column of its own name, or an aggregate over the
column before the two underscores. -/
inductive Denotes (entity : Entity) (tableAlias : String) : String → ColumnRef → Prop
  | scalar {name : String} {type : ScalarType} (found : entity.HasScalar name type) :
      Denotes entity tableAlias name (.qualified tableAlias name)
  | aggregate {source function : String} {type : ScalarType} {f : AggregateFn}
      (found : entity.HasScalar source type) (named : Text.lowerAscii function = f.word)
      (offered : f.OfferedOn type) :
      Denotes entity tableAlias (source ++ aggregateMark ++ function)
        (.raw (f.expression tableAlias source))

theorem exists_denotes_iff {tableAlias : String} :
    (∃ c, entity.Denotes tableAlias name c) ↔ entity.NamesColumn name := by
  constructor
  · rintro ⟨_, hfound | ⟨hfound, hword, hoffered⟩⟩
    · exact .scalar hfound
    · exact .aggregate hfound hword hoffered
  · rintro (hfound | ⟨hfound, hword, hoffered⟩)
    · exact ⟨_, .scalar hfound⟩
    · exact ⟨_, .aggregate hfound hword hoffered⟩

theorem column_of_hasScalar (hclean : entity.Clean) {tableAlias : String} {type : ScalarType}
    (h : entity.HasScalar name type) :
    entity.column tableAlias name = .ok (.qualified tableAlias name) := by
  rw [column, Text.cutAt?_aggregateMark (hclean.isPlain_of_hasScalar h)]
  exact plainColumn_eq_ok_iff.mpr ⟨⟨type, h⟩, rfl⟩

theorem column_aggregate (hclean : entity.Clean) {tableAlias source function : String}
    {type : ScalarType} {f : AggregateFn} (h : entity.HasScalar source type)
    (hword : Text.lowerAscii function = f.word) (hoffered : f.OfferedOn type) :
    entity.column tableAlias (source ++ aggregateMark ++ function) =
      .ok (.raw (f.expression tableAlias source)) := by
  rw [column, cutAt?_aggregate (hclean.isPlain_of_hasScalar h)]
  simp only [scalarType?_eq_some_iff.mpr h, aggregateOn?_eq_some_iff.mpr ⟨hword, hoffered⟩]

/-- What a name resolves to is what it stands for. -/
theorem denotes_of_column {tableAlias : String} {c : ColumnRef}
    (h : entity.column tableAlias name = .ok c) : entity.Denotes tableAlias name c := by
  unfold Entity.column at h
  split at h
  · obtain ⟨⟨type, htype⟩, rfl⟩ := plainColumn_eq_ok_iff.mp h
    exact .scalar htype
  rename_i source function hcut
  split at h
  · cases h
  rename_i type htype
  split at h
  · rename_i f hf
    cases h
    obtain ⟨hword, hoffered⟩ := aggregateOn?_eq_some_iff.mp hf
    rw [Text.eq_columnKey_of_cutAt? hcut]
    exact .aggregate (scalarType?_eq_some_iff.mp htype) hword hoffered
  · cases h

/-- On an entity with clean names a name resolves to what it stands for, and to nothing else. -/
theorem column_eq_ok_iff (hclean : entity.Clean) {tableAlias : String} {c : ColumnRef} :
    entity.column tableAlias name = .ok c ↔ entity.Denotes tableAlias name c := by
  refine ⟨denotes_of_column, ?_⟩
  rintro (hfound | ⟨hfound, hword, hoffered⟩)
  · exact column_of_hasScalar hclean hfound
  · exact column_aggregate hclean hfound hword hoffered

theorem exists_column_iff (hclean : entity.Clean) {tableAlias : String} :
    (∃ column, entity.column tableAlias name = .ok column) ↔ entity.NamesColumn name := by
  simp only [column_eq_ok_iff hclean]
  exact exists_denotes_iff

end Entity
end NestedRead
