import NestedRead.Proofs.Naming.Column
import NestedRead.Proofs.Sql.Legible

/-!
# What names resolve to

The vocabulary of an entity is its scalar columns and the aggregates over them: every column can be
counted, and those of numbers can be calculated with. `Entity.column_vocabulary` says that a name
resolves exactly when it is in there, that it is never both a column and an aggregate, and that
different names stand for different expressions, unless they differ in nothing but the case of the
function.

The last of these compares texts of SQL. An aggregate is written as a function, the quoted names of
a table and a column, and a parenthesis; each part can be told from the whole, because a quoted name
has one end, and what opens a function is not continued by a quote to what opens another.
-/

set_option autoImplicit false

namespace NestedRead

/-! ## Functions in SQL -/

namespace AggregateFn

theorem word_injective {f g : AggregateFn} (h : f.word = g.word) : f = g := by
  cases f <;> cases g <;> simp [word] at h ⊢

/-- Where a quote follows, the opening of a function tells which one it is. -/
theorem opening_cancel {f g : AggregateFn} {s t : String} (hs : Sql.Starts ["\""] s)
    (ht : Sql.Starts ["\""] t) {u v : List Char}
    (h : f.opening.toList ++ (s.toList ++ u) = g.opening.toList ++ (t.toList ++ v)) : f = g := by
  obtain ⟨_, hquote, s, rfl⟩ := hs
  obtain ⟨_, hquote', t, rfl⟩ := ht
  rw [List.mem_singleton] at hquote hquote'
  subst hquote hquote'
  cases f <;> cases g <;> simp [opening] at h ⊢

/-- Under one table alias, function and column are told from the text of an aggregate. -/
theorem expression_inj {f g : AggregateFn} {tableAlias source other : String} :
    f.expression tableAlias source = g.expression tableAlias other ↔ f = g ∧ source = other := by
  constructor
  · intro h
    have htext := congrArg String.toList h
    simp only [expression, String.toList_append, List.append_assoc] at htext
    have hstarts := Sql.starts_qualified tableAlias
    obtain rfl : f = g := opening_cancel (hstarts source) (hstarts other) htext
    have hbehind : Sql.Free ["\""] (")".toList ++ []) := Sql.free_of_apart (by decide) []
    have hnames := Sql.legible_qualified.text_cancel (a := (tableAlias, source))
      (b := (tableAlias, other)) trivial trivial hbehind hbehind (List.append_cancel_left htext)
    exact ⟨rfl, (Prod.mk.inj hnames.1).2⟩
  · rintro ⟨rfl, rfl⟩
    rfl

end AggregateFn

/-! ## The vocabulary -/

/-- The names of the functions that are offered on a type, in any case of their letters: every
column can be counted, and those of numbers can be calculated with. -/
inductive ScalarType.Offers : ScalarType → String → Prop
  | counting {type : ScalarType} {function : String}
      (named : Text.lowerAscii function ∈ ["count", "count_distinct"]) : Offers type function
  | calculating {type : ScalarType} {function : String} (numeric : type = .int ∨ type = .float)
      (named : Text.lowerAscii function ∈ ["min", "max", "sum", "avg"]) : Offers type function

theorem ScalarType.offers_iff {type : ScalarType} {function : String} :
    type.Offers function ↔ ∃ f : AggregateFn, Text.lowerAscii function = f.word ∧
      f.OfferedOn type := by
  have hnumeric : type.isNumeric = true ↔ type = .int ∨ type = .float := by
    cases type <;> simp [isNumeric]
  constructor
  · rintro (hnamed | ⟨htype, hnamed⟩)
    · simp only [List.mem_cons, List.not_mem_nil, or_false] at hnamed
      rcases hnamed with hnamed | hnamed
      · exact ⟨.count, hnamed, fun h => nomatch h⟩
      · exact ⟨.countDistinct, hnamed, fun h => nomatch h⟩
    · simp only [List.mem_cons, List.not_mem_nil, or_false] at hnamed
      have hoffered : ∀ f : AggregateFn, f.OfferedOn type := fun _ _ => hnumeric.mpr htype
      rcases hnamed with hnamed | hnamed | hnamed | hnamed
      · exact ⟨.min, hnamed, hoffered _⟩
      · exact ⟨.max, hnamed, hoffered _⟩
      · exact ⟨.sum, hnamed, hoffered _⟩
      · exact ⟨.avg, hnamed, hoffered _⟩
  · rintro ⟨f, hword, hoffered⟩
    cases f with
    | count | countDistinct => exact .counting (by rw [hword]; decide)
    | min | max | sum | avg =>
      exact .calculating (hnumeric.mp (hoffered rfl)) (by rw [hword]; decide)

namespace Entity

/-- The aggregates over the scalar columns. -/
def HasAggregate (entity : Entity) (name : String) : Prop :=
  ∃ source function type, name = source ++ "__" ++ function ∧ entity.HasScalar source type ∧
    type.Offers function

/-- Two names are the same, or aggregates over one column whose functions differ in case only. -/
inductive SameButForCase (entity : Entity) : String → String → Prop
  | same (name : String) : SameButForCase entity name name
  | function {source f g : String} {type : ScalarType} (found : entity.HasScalar source type)
      (alike : Text.lowerAscii f = Text.lowerAscii g) :
      SameButForCase entity (source ++ "__" ++ f) (source ++ "__" ++ g)

variable {entity : Entity} {tableAlias name : String}

theorem namesColumn_iff : entity.NamesColumn name ↔
    (∃ type, entity.HasScalar name type) ∨ entity.HasAggregate name := by
  constructor
  · rintro (hfound | ⟨hfound, hword, hoffered⟩)
    · exact .inl ⟨_, hfound⟩
    · exact .inr ⟨_, _, _, rfl, hfound, ScalarType.offers_iff.mpr ⟨_, hword, hoffered⟩⟩
  · rintro (⟨type, hfound⟩ | ⟨source, function, type, rfl, hfound, hoffers⟩)
    · exact .scalar hfound
    · obtain ⟨f, hword, hoffered⟩ := ScalarType.offers_iff.mp hoffers
      exact .aggregate hfound hword hoffered

/-- A name without two underscores in a row is looked up as it is. -/
theorem column_of_unmarked (h : ¬ "__".toList <:+: name.toList) :
    entity.column tableAlias name = entity.plainColumn tableAlias name := by
  have hcut : Text.cutAt? aggregateMark name = none := by
    by_contra hne
    obtain ⟨⟨source, function⟩, hcut⟩ := Option.ne_none_iff_exists'.mp hne
    refine h ⟨source.toList, function.toList, ?_⟩
    rw [Text.eq_columnKey_of_cutAt? hcut, columnKey, String.toList_append, String.toList_append]
    rfl
  rw [column, hcut]

/-- A column has no two underscores in a row, and an aggregate does. -/
theorem not_hasScalar_of_hasAggregate (hclean : entity.Clean) (h : entity.HasAggregate name)
    (type : ScalarType) : ¬ entity.HasScalar name type := by
  intro hscalar
  obtain ⟨source, function, _, rfl, hsource, -⟩ := h
  have hnone := Text.cutAt?_aggregateMark (hclean.isPlain_of_hasScalar hscalar)
  have hsome := cutAt?_aggregate (hclean.isPlain_of_hasScalar hsource) function
  cases hsome.symm.trans hnone

/-- An aggregate over a column stands for the function behind the two underscores. -/
theorem Denotes.of_aggregate (hclean : entity.Clean) {source function : String} {type : ScalarType}
    (h : entity.HasScalar source type) {c : ColumnRef}
    (hc : entity.Denotes tableAlias (source ++ "__" ++ function) c) :
    ∃ f : AggregateFn, Text.lowerAscii function = f.word ∧
      c = .raw (f.expression tableAlias source) := by
  have hcut : Text.cutAt? aggregateMark (source ++ "__" ++ function) = some (source, function) :=
    cutAt?_aggregate (hclean.isPlain_of_hasScalar h) function
  generalize source ++ "__" ++ function = name at hc hcut
  cases hc with
  | scalar hfound =>
    rw [Text.cutAt?_aggregateMark (hclean.isPlain_of_hasScalar hfound)] at hcut
    cases hcut
  | aggregate hfound hword hoffered =>
    rw [cutAt?_aggregate (hclean.isPlain_of_hasScalar hfound)] at hcut
    cases hcut
    exact ⟨_, hword, rfl⟩

/-- What two names stand for is the same where they differ in the case of a function only. -/
theorem Denotes.eq_iff (hclean : entity.Clean) {other : String} {c d : ColumnRef}
    (hc : entity.Denotes tableAlias name c) (hd : entity.Denotes tableAlias other d) :
    c = d ↔ entity.SameButForCase name other := by
  constructor
  · rintro rfl
    cases hc with
    | scalar hfound =>
      cases hd
      exact .same name
    | aggregate hfound hword hoffered =>
      generalize hexpression : AggregateFn.expression _ _ _ = text at hd
      cases hd with
      | aggregate hfound' hword' hoffered' =>
        obtain ⟨rfl, rfl⟩ := AggregateFn.expression_inj.mp hexpression
        exact .function hfound (hword.trans hword'.symm)
  · rintro (_ | ⟨hfound, halike⟩)
    · have hboth := ((column_eq_ok_iff hclean).mpr hc).symm.trans ((column_eq_ok_iff hclean).mpr hd)
      cases hboth
      rfl
    · obtain ⟨f, hf, rfl⟩ := hc.of_aggregate hclean hfound
      obtain ⟨g, hg, rfl⟩ := hd.of_aggregate hclean hfound
      rw [AggregateFn.word_injective (hf.symm.trans (halike.trans hg))]

/-- **The vocabulary of an entity, and that it is unambiguous.** On an entity of an accepted catalog
and under every table alias: the names of plain columns are the scalar columns, the names that
resolve at all are those and the aggregates over them, and no name is both. A scalar column, and any
name that has no two underscores in a row, is looked up alike in both ways. Names that resolve stand
for one expression exactly when they are the same but for the case of a function. -/
theorem column_vocabulary {catalog : Catalog} (hcat : catalog.Accepted) {entityName : String}
    {entity : Entity} (hentity : catalog.get? entityName = some entity) (tableAlias : String) :
    (∀ name, (∃ c, entity.column tableAlias name = .ok c) ↔
      (∃ type, entity.HasScalar name type) ∨ entity.HasAggregate name) ∧
    (∀ name, (∃ c, entity.plainColumn tableAlias name = .ok c) ↔
      ∃ type, entity.HasScalar name type) ∧
    (∀ name, ¬ ((∃ type, entity.HasScalar name type) ∧ entity.HasAggregate name)) ∧
    (∀ name, (∃ type, entity.HasScalar name type) ∨ ¬ "__".toList <:+: name.toList →
      entity.column tableAlias name = entity.plainColumn tableAlias name) ∧
    ∀ name other c d, entity.column tableAlias name = .ok c →
      entity.column tableAlias other = .ok d → (c = d ↔ entity.SameButForCase name other) := by
  have hclean := hcat.clean hentity
  refine ⟨fun name => ?_, fun name => exists_plainColumn_iff, ?_, ?_, ?_⟩
  · exact (exists_column_iff hclean).trans namesColumn_iff
  · rintro name ⟨⟨type, hscalar⟩, haggregate⟩
    exact not_hasScalar_of_hasAggregate hclean haggregate type hscalar
  · rintro name (⟨type, hscalar⟩ | hplain)
    · rw [column_of_hasScalar hclean hscalar]
      exact (plainColumn_eq_ok_iff.mpr ⟨⟨type, hscalar⟩, rfl⟩).symm
    · exact column_of_unmarked hplain
  · intro name other c d hc hd
    exact Denotes.eq_iff hclean ((column_eq_ok_iff hclean).mp hc) ((column_eq_ok_iff hclean).mp hd)

/-- Of a book one may ask for a count of the column that is not listed, in any case, but not for a
maximum of it, nor for a relation. -/
theorem column_vocabulary_book :
    Sample.catalog.Accepted ∧ Sample.catalog.get? "Book" = some Sample.book ∧
    Sample.book.HasAggregate "id__Count" ∧ Sample.book.HasAggregate "id__COUNT" ∧
    Sample.book.SameButForCase "id__Count" "id__COUNT" ∧
    ¬ Sample.book.SameButForCase "id__count" "id__count_distinct" ∧
    ¬ Sample.book.HasAggregate "id__max" ∧ ¬ ∃ type, Sample.book.HasScalar "sequel" type := by
  have hentity : Sample.catalog.get? "Book" = some Sample.book := rfl
  obtain ⟨hcolumn, hplain, -, -, hsame⟩ :=
    column_vocabulary Sample.catalog_accepted hentity "base"
  have haggregate : ∀ name, (∃ c, Sample.book.column "base" name = .ok c) →
      (¬ ∃ c, Sample.book.plainColumn "base" name = .ok c) → Sample.book.HasAggregate name := by
    intro name hfound hnot
    exact ((hcolumn name).mp hfound).resolve_left fun hscalar => hnot ((hplain name).mpr hscalar)
  refine ⟨Sample.catalog_accepted, hentity, haggregate _ ⟨_, rfl⟩ (fun ⟨_, h⟩ => nomatch h),
    haggregate _ ⟨_, rfl⟩ (fun ⟨_, h⟩ => nomatch h), (hsame _ _ _ _ rfl rfl).mp rfl, ?_, ?_, ?_⟩
  · intro h
    have := (hsame "id__count" "id__count_distinct" _ _ rfl rfl).mpr h
    exact absurd this (by decide)
  · intro h
    obtain ⟨c, hc⟩ := (hcolumn "id__max").mpr (.inr h)
    cases hc
  · intro h
    obtain ⟨c, hc⟩ := (hplain "sequel").mpr h
    cases hc

end Entity
end NestedRead
