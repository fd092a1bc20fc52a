import Mathlib
import NestedRead.Catalog.Definition
import NestedRead.Proofs.Ascending
import NestedRead.Proofs.Catalog.Accepted
import NestedRead.Proofs.Naming.Grammar

/-!
# The catalog that is defined

A definition is valid when its tags are known, its names are what the grammar asks for, no two of
its entities have the same name, and its relations lead to entities that it defines
(`CatalogDefinition.Valid`). The catalog that it defines holds, in ascending order of their names,
the entities that its entity definitions describe (`CatalogDefinition.Defines`). Neither property
speaks of the order in which the checks are made, nor of the order in which the entities are
defined.

Making the catalog is taken apart stage by stage. Each stage succeeds exactly when a relation holds
between what it is given and what it returns: `FieldDefinition.Means` for a field, `Describes` for
an entity, item by item for the list. The checks are those of `Proofs.Catalog.Accepted`, carried
over from the entities to their definitions.
-/

set_option autoImplicit false

namespace NestedRead

/-! ## Lists related item by item -/

section Forall₂

variable {α β : Type} {R : α → β → Prop}

/-- Where an item has no more than one counterpart, the second list has the counterparts of the
items of the first, and nothing else. -/
theorem mem_iff_of_forall₂ (hunique : Relator.RightUnique R) {xs : List α} {ys : List β}
    (h : List.Forall₂ R xs ys) {y : β} : y ∈ ys ↔ ∃ x ∈ xs, R x y := by
  induction h with
  | nil => simp
  | @cons a b xs ys hab _ ih =>
    rw [List.mem_cons, ih, List.exists_mem_cons_iff]
    refine or_congr_left ⟨?_, fun hay => hunique hay hab⟩
    rintro rfl
    exact hab

theorem forall_mem_iff_of_forall₂ {P : α → Prop} {Q : β → Prop} (hpq : ∀ x y, R x y → (P x ↔ Q y))
    {xs : List α} {ys : List β} (h : List.Forall₂ R xs ys) :
    (∀ x ∈ xs, P x) ↔ ∀ y ∈ ys, Q y := by
  induction h with
  | nil => simp
  | cons hab _ ih => rw [List.forall_mem_cons, List.forall_mem_cons, hpq _ _ hab, ih]

theorem exists_forall₂_iff {xs : List α} :
    (∃ ys, List.Forall₂ R xs ys) ↔ ∀ x ∈ xs, ∃ y, R x y := by
  induction xs with
  | nil => exact iff_of_true ⟨[], .nil⟩ fun _ hx => nomatch hx
  | cons x xs ih =>
    rw [List.forall_mem_cons, ← ih]
    constructor
    · rintro ⟨_, _ | ⟨hy, hys⟩⟩
      exact ⟨⟨_, hy⟩, ⟨_, hys⟩⟩
    · rintro ⟨⟨y, hy⟩, ⟨ys, hys⟩⟩
      exact ⟨y :: ys, .cons hy hys⟩

end Forall₂

/-! ## Sorting -/

namespace Ordered

variable {α : Type} {cmp : α → α → Ordering}

/-- An item that has no equal in an ascending list is put in its place. -/
theorem ascending_insert [Std.TransCmp cmp] {x : α} : ∀ {ys : List α}, Ascending cmp ys →
    (∀ y ∈ ys, cmp x y ≠ .eq) → Ascending cmp (insert cmp x ys)
  | [], _, _ => List.pairwise_singleton _ _
  | y :: ys, h, hne => by
    obtain ⟨hy, hys⟩ := List.pairwise_cons.mp h
    obtain ⟨hxy, hrest⟩ := List.forall_mem_cons.mp hne
    rw [insert]
    split
    · rename_i hlt
      have hlt : cmp x y = .lt := by simpa using hlt
      refine List.pairwise_cons.mpr ⟨fun z hz => ?_, h⟩
      rcases List.mem_cons.mp hz with rfl | hz
      · exact hlt
      · exact Std.TransCmp.lt_trans hlt (hy z hz)
    · rename_i hnot
      have hgt : cmp x y = .gt := by
        cases hcmp : cmp x y with
        | lt => simp [hcmp] at hnot
        | eq => exact absurd hcmp hxy
        | gt => rfl
      refine List.pairwise_cons.mpr ⟨fun z hz => ?_, ascending_insert hys hrest⟩
      rcases List.mem_cons.mp ((insert_perm cmp x ys).mem_iff.mp hz) with rfl | hz
      · exact Std.OrientedCmp.lt_of_gt hgt
      · exact hy z hz

/-- Items under different keys are in ascending order once they are sorted. -/
theorem ascending_sort [Std.TransCmp cmp] {xs : List α}
    (hne : xs.Pairwise fun x y => cmp x y ≠ .eq) : Ascending cmp (sort cmp xs) := by
  induction xs using List.reverseRecOn with
  | nil => exact List.Pairwise.nil
  | append_singleton xs x ih =>
    obtain ⟨hxs, -, hlast⟩ := List.pairwise_append.mp hne
    have hsort : sort cmp (xs ++ [x]) = insert cmp x (sort cmp xs) := by
      rw [sort, List.foldl_append]
      rfl
    rw [hsort]
    refine ascending_insert (ih hxs) fun y hy heq => ?_
    have hy := (sort_perm cmp xs).mem_iff.mp hy
    exact hlast y hy x (List.mem_singleton_self x) (Std.OrientedCmp.eq_symm heq)

end Ordered

/-! ## Valid definitions -/

/-- The columns of a relation are identifiers and the table between its ends has a table name. -/
structure Relation.WellNamed (relation : Relation) : Prop where
  fromColumn : Identifier.Plain relation.fromColumn
  toColumn : Identifier.Plain relation.toColumn
  through : ∀ t, relation.through = some t → Identifier.TableName t.table ∧
    Identifier.Plain t.fromColumn ∧ Identifier.Plain t.toColumn

/-- What has to be right about the definition of one entity by itself. -/
structure EntityDefinition.Valid (definition : EntityDefinition) : Prop where
  name : Identifier.Plain definition.name
  table : Identifier.TableName definition.table
  uniqueColumn : Identifier.Plain definition.uniqueColumn
  fields : ∀ f field, (f, field) ∈ definition.fields → Identifier.Plain f
  tags : ∀ f tag, (f, .scalar tag) ∈ definition.fields →
    tag ∈ ["ID", "Int", "Float", "Boolean", "String"]
  relations : ∀ f relation, (f, .relation relation) ∈ definition.fields → relation.WellNamed

/-- What has to be right about a definition. -/
structure CatalogDefinition.Valid (definition : CatalogDefinition) : Prop where
  nonempty : definition.entities ≠ []
  entities : ∀ d ∈ definition.entities, d.Valid
  names : (definition.entities.map (·.name)).Nodup
  targets : ∀ d ∈ definition.entities, ∀ f relation, (f, .relation relation) ∈ d.fields →
    ∃ t ∈ definition.entities, t.name = relation.target

theorem Relation.clean_iff {relation : Relation} : relation.Clean ↔ relation.WellNamed := by
  constructor
  · intro h
    refine ⟨Identifier.isPlain_iff.mp h.fromColumn, Identifier.isPlain_iff.mp h.toColumn, ?_⟩
    intro t ht
    obtain ⟨htable, hfrom, hto⟩ := h.through t ht
    exact ⟨Identifier.isTable_iff.mp htable, Identifier.isPlain_iff.mp hfrom,
      Identifier.isPlain_iff.mp hto⟩
  · intro h
    refine ⟨Identifier.isPlain_iff.mpr h.fromColumn, Identifier.isPlain_iff.mpr h.toColumn, ?_⟩
    intro t ht
    obtain ⟨htable, hfrom, hto⟩ := h.through t ht
    exact ⟨Identifier.isTable_iff.mpr htable, Identifier.isPlain_iff.mpr hfrom,
      Identifier.isPlain_iff.mpr hto⟩

/-! ## Described entities -/

/-- A field that is defined, and the field that it is. -/
inductive FieldDefinition.Means : String × FieldDefinition → String × FieldKind → Prop
  | scalar (field : String) {tag : String} (type : ScalarType) (named : tag = type.tag) :
      Means (field, .scalar tag) (field, .scalar type)
  | relation (field : String) (relation : Relation) :
      Means (field, .relation relation) (field, .relation relation)

/-- The entity that a definition describes. -/
structure EntityDefinition.Describes (definition : EntityDefinition) (entity : Entity) : Prop where
  name : entity.name = definition.name
  table : entity.table = definition.table
  uniqueColumn : entity.uniqueColumn = definition.uniqueColumn
  fields : List.Forall₂ FieldDefinition.Means definition.fields entity.fields

theorem ScalarType.ofTag?_eq_some_iff {tag : String} {type : ScalarType} :
    ofTag? tag = some type ↔ tag = type.tag := by
  constructor
  · intro h
    unfold ofTag? at h
    split at h <;> cases h <;> rfl
  · rintro rfl
    exact ofTag?_tag type

theorem ScalarType.exists_tag_iff {tag : String} :
    (∃ type : ScalarType, tag = type.tag) ↔ tag ∈ ["ID", "Int", "Float", "Boolean", "String"] := by
  simp only [List.mem_cons, List.not_mem_nil, or_false]
  constructor
  · rintro ⟨type, rfl⟩
    cases type <;> decide
  · rintro (rfl | rfl | rfl | rfl | rfl)
    exacts [⟨.id, rfl⟩, ⟨.int, rfl⟩, ⟨.float, rfl⟩, ⟨.boolean, rfl⟩, ⟨.string, rfl⟩]

theorem FieldDefinition.means_unique : Relator.RightUnique FieldDefinition.Means := by
  rintro _ _ _ (⟨field, type, htag⟩ | ⟨field, relation⟩) h
  · obtain ⟨-, other, hother⟩ | - := h
    have : some type = some other :=
      (ScalarType.ofTag?_eq_some_iff.mpr htag).symm.trans (ScalarType.ofTag?_eq_some_iff.mpr hother)
    cases this
    rfl
  · cases h
    rfl

/-- A relation always means something, and a scalar does when its tag is known. -/
theorem FieldDefinition.exists_means_iff {field : String} {definition : FieldDefinition} :
    (∃ kind, Means (field, definition) kind) ↔
      ∀ tag, definition = .scalar tag → tag ∈ ["ID", "Int", "Float", "Boolean", "String"] := by
  simp only [← ScalarType.exists_tag_iff]
  constructor
  · rintro ⟨_, ⟨_, type, rfl⟩ | ⟨_, relation⟩⟩ tag htag
    · cases htag
      exact ⟨type, rfl⟩
    · cases htag
  · intro h
    cases definition with
    | scalar tag =>
      obtain ⟨type, htype⟩ := h tag rfl
      exact ⟨_, .scalar field type htype⟩
    | relation relation => exact ⟨_, .relation field relation⟩

namespace EntityDefinition

theorem fieldKinds_eq_ok_iff {entity : String} : ∀ {fields : List (String × FieldDefinition)}
    {kinds : List (String × FieldKind)}, fieldKinds entity fields = .ok kinds ↔
      List.Forall₂ FieldDefinition.Means fields kinds
  | [], kinds => by simp [fieldKinds, eq_comm]
  | (field, .scalar tag) :: rest, kinds => by
    rw [fieldKinds, List.forall₂_cons_left_iff]
    cases htag : ScalarType.ofTag? tag with
    | none =>
      refine iff_of_false (fun h => nomatch h) ?_
      rintro ⟨_, _, ⟨-, type, hnamed⟩ | -, -⟩
      cases htag.symm.trans (ScalarType.ofTag?_eq_some_iff.mpr hnamed)
    | some type =>
      simp only [Outcome.bind_eq_ok_iff, fieldKinds_eq_ok_iff]
      constructor
      · rintro ⟨more, hmore, h⟩
        cases h
        exact ⟨_, more, .scalar field type (ScalarType.ofTag?_eq_some_iff.mp htag), hmore, rfl⟩
      · rintro ⟨_, more, hmeans, hmore, rfl⟩
        cases FieldDefinition.means_unique hmeans
          (.scalar field type (ScalarType.ofTag?_eq_some_iff.mp htag))
        exact ⟨more, hmore, rfl⟩
  | (field, .relation relation) :: rest, kinds => by
    rw [fieldKinds, List.forall₂_cons_left_iff]
    simp only [Outcome.bind_eq_ok_iff, fieldKinds_eq_ok_iff]
    constructor
    · rintro ⟨more, hmore, h⟩
      cases h
      exact ⟨_, more, .relation field relation, hmore, rfl⟩
    · rintro ⟨_, more, - | -, hmore, rfl⟩
      exact ⟨more, hmore, rfl⟩

theorem toEntity_eq_ok_iff {definition : EntityDefinition} {entity : Entity} :
    definition.toEntity = .ok entity ↔ definition.Describes entity := by
  rw [toEntity, Outcome.bind_eq_ok_iff]
  simp only [fieldKinds_eq_ok_iff]
  constructor
  · rintro ⟨fields, hfields, h⟩
    cases h
    exact ⟨rfl, rfl, rfl, hfields⟩
  · rintro ⟨hname, htable, hunique, hfields⟩
    obtain ⟨name, table, uniqueColumn, fields⟩ := entity
    cases hname
    cases htable
    cases hunique
    exact ⟨fields, hfields, rfl⟩

theorem describes_unique : Relator.RightUnique EntityDefinition.Describes := by
  intro definition entity other h hother
  have := (toEntity_eq_ok_iff.mpr h).symm.trans (toEntity_eq_ok_iff.mpr hother)
  cases this
  rfl

/-- An entity is described exactly when the tags are known. -/
theorem exists_describes_iff {definition : EntityDefinition} :
    (∃ entity, definition.Describes entity) ↔ ∀ f tag, (f, .scalar tag) ∈ definition.fields →
      tag ∈ ["ID", "Int", "Float", "Boolean", "String"] := by
  have hfields : (∃ entity, definition.Describes entity) ↔
      ∃ kinds, List.Forall₂ FieldDefinition.Means definition.fields kinds := by
    constructor
    · rintro ⟨entity, h⟩
      exact ⟨entity.fields, h.fields⟩
    · rintro ⟨kinds, h⟩
      exact ⟨⟨definition.name, definition.table, definition.uniqueColumn, kinds⟩, rfl, rfl, rfl, h⟩
  rw [hfields, exists_forall₂_iff]
  constructor
  · intro h f tag hf
    exact FieldDefinition.exists_means_iff.mp (h _ hf) tag rfl
  · rintro h ⟨f, field⟩ hf
    refine FieldDefinition.exists_means_iff.mpr ?_
    rintro tag rfl
    exact h f tag hf

namespace Describes

variable {definition : EntityDefinition} {entity : Entity}

theorem plain_fields_iff (h : definition.Describes entity) :
    (∀ f field, (f, field) ∈ definition.fields → Identifier.Plain f) ↔
      ∀ f kind, (f, kind) ∈ entity.fields → Identifier.isPlain f = true := by
  have hplain : ∀ x y, FieldDefinition.Means x y →
      (Identifier.Plain x.1 ↔ Identifier.isPlain y.1 = true) := by
    rintro _ _ (_ | _) <;> exact Identifier.isPlain_iff.symm
  simpa only [Prod.forall] using forall_mem_iff_of_forall₂ hplain h.fields

/-- The relations of the entity are those of its definition. -/
theorem mem_relation_iff (h : definition.Describes entity) {f : String} {relation : Relation} :
    (f, .relation relation) ∈ entity.fields ↔ (f, .relation relation) ∈ definition.fields := by
  rw [mem_iff_of_forall₂ FieldDefinition.means_unique h.fields]
  constructor
  · rintro ⟨_, hmem, hmeans⟩
    cases hmeans
    exact hmem
  · intro hmem
    exact ⟨_, hmem, .relation f relation⟩

/-- An entity is clean exactly when its definition is valid. -/
theorem valid_iff (h : definition.Describes entity) : definition.Valid ↔ entity.Clean := by
  constructor
  · intro hvalid
    refine ⟨?_, ?_, ?_, h.plain_fields_iff.mp hvalid.fields, ?_⟩
    · rw [h.name]
      exact Identifier.isPlain_iff.mpr hvalid.name
    · rw [h.table]
      exact Identifier.isTable_iff.mpr hvalid.table
    · rw [h.uniqueColumn]
      exact Identifier.isPlain_iff.mpr hvalid.uniqueColumn
    · intro f relation hf
      exact Relation.clean_iff.mpr (hvalid.relations f relation (h.mem_relation_iff.mp hf))
  · intro hclean
    refine ⟨?_, ?_, ?_, h.plain_fields_iff.mpr hclean.fields,
      exists_describes_iff.mp ⟨entity, h⟩, ?_⟩
    · rw [← h.name]
      exact Identifier.isPlain_iff.mp hclean.name
    · rw [← h.table]
      exact Identifier.isTable_iff.mp hclean.table
    · rw [← h.uniqueColumn]
      exact Identifier.isPlain_iff.mp hclean.uniqueColumn
    · intro f relation hf
      exact Relation.clean_iff.mp (hclean.relations f relation (h.mem_relation_iff.mpr hf))

end Describes

end EntityDefinition

/-! ## The catalog of some entities -/

/-- A catalog is made of entities exactly when they pass the checks, in whatever order they are
listed, and then it holds them in order. -/
theorem Catalog.ofEntities_eq_ok_iff {entities : List Entity} {catalog : Catalog} :
    ofEntities entities = .ok catalog ↔
      (Catalog.mk entities).Checked ∧
        catalog = ⟨Ordered.sort (compareOn Entity.name) entities⟩ := by
  have hperm := Ordered.sort_perm (compareOn Entity.name) entities
  have htargets : checkTargets (Catalog.mk (Ordered.sort (compareOn Entity.name) entities)).names
      (Ordered.sort (compareOn Entity.name) entities) = .ok () ↔
      ∀ e ∈ entities, ∀ f relation, (f, .relation relation) ∈ e.fields →
        relation.target ∈ (Catalog.mk entities).names := by
    simp only [checkTargets_eq_ok_iff, hperm.mem_iff, names, (hperm.map _).mem_iff]
  unfold ofEntities
  rw [Outcome.check_bind_eq_ok_iff, Outcome.check_bind_eq_ok_iff, checkEntities_eq_ok_iff]
  constructor
  · rintro ⟨⟨hclean, hnames, -⟩, hchecked, hcatalog⟩
    exact ⟨⟨hclean, hnames, htargets.mp hchecked⟩, (Outcome.pure_eq_ok_iff.mp hcatalog).symm⟩
  · rintro ⟨hchecked, rfl⟩
    exact ⟨⟨hchecked.clean, hchecked.names, fun _ _ => List.not_mem_nil⟩,
      htargets.mpr hchecked.targets, rfl⟩

namespace CatalogDefinition

theorem toEntities_eq_ok_iff : ∀ {definitions : List EntityDefinition} {entities : List Entity},
    toEntities definitions = .ok entities ↔
      List.Forall₂ EntityDefinition.Describes definitions entities
  | [], entities => by simp [toEntities, eq_comm]
  | definition :: rest, entities => by
    rw [toEntities, List.forall₂_cons_left_iff]
    simp only [Outcome.bind_eq_ok_iff, EntityDefinition.toEntity_eq_ok_iff, toEntities_eq_ok_iff]
    constructor
    · rintro ⟨entity, hentity, more, hmore, h⟩
      cases h
      exact ⟨entity, more, hentity, hmore, rfl⟩
    · rintro ⟨entity, more, hentity, hmore, rfl⟩
      exact ⟨entity, hentity, more, hmore, rfl⟩

/-- A catalog is defined in two stages: entities are described, and a catalog is made of them. -/
theorem toCatalog_stages {definition : CatalogDefinition} {catalog : Catalog} :
    definition.toCatalog = .ok catalog ↔ definition.entities ≠ [] ∧ ∃ entities,
      List.Forall₂ EntityDefinition.Describes definition.entities entities ∧
      Catalog.ofEntities entities = .ok catalog := by
  rw [toCatalog]
  cases hentities : definition.entities with
  | nil => simp
  | cons d ds => simp [Outcome.bind_eq_ok_iff, toEntities_eq_ok_iff]

/-- The definition is valid exactly when the entities that it describes pass the checks. -/
theorem valid_iff_of_described {definition : CatalogDefinition} {entities : List Entity}
    (h : List.Forall₂ EntityDefinition.Describes definition.entities entities) :
    definition.Valid ↔ definition.entities ≠ [] ∧ (Catalog.mk entities).Checked := by
  have hnames : definition.entities.map (·.name) = (Catalog.mk entities).names := by
    rw [Catalog.names, ← List.forall₂_eq_eq_eq, List.forall₂_map_left_iff,
      List.forall₂_map_right_iff]
    exact h.imp fun d e hd => hd.name.symm
  have htarget : ∀ name : String,
      (∃ t ∈ definition.entities, t.name = name) ↔ name ∈ (Catalog.mk entities).names := by
    intro name
    rw [← hnames, List.mem_map]
  have hentities := forall_mem_iff_of_forall₂ (R := EntityDefinition.Describes)
    (fun d e hd => hd.valid_iff) h
  have htargets : (∀ d ∈ definition.entities, ∀ f relation, (f, .relation relation) ∈ d.fields →
      ∃ t ∈ definition.entities, t.name = relation.target) ↔
      ∀ e ∈ entities, ∀ f relation, (f, .relation relation) ∈ e.fields →
        relation.target ∈ (Catalog.mk entities).names := by
    refine forall_mem_iff_of_forall₂ (fun d e hd => forall₂_congr fun f relation => ?_) h
    rw [hd.mem_relation_iff, htarget]
  constructor
  · intro hvalid
    exact ⟨hvalid.nonempty, hentities.mp hvalid.entities, hnames ▸ hvalid.names,
      htargets.mp hvalid.targets⟩
  · rintro ⟨hnonempty, hchecked⟩
    exact ⟨hnonempty, hentities.mpr hchecked.clean, hnames ▸ hchecked.names,
      htargets.mpr hchecked.targets⟩

/-! ## The defined catalog -/

/-- The catalog that is defined: it holds what the entity definitions describe, in ascending order
of the names. -/
structure Defines (definition : CatalogDefinition) (catalog : Catalog) : Prop where
  ascending : Ordered.Ascending (compareOn Entity.name) catalog.entities
  entities : ∀ e, e ∈ catalog.entities ↔ ∃ d ∈ definition.entities, d.Describes e

theorem Defines.unique {definition : CatalogDefinition} {catalog other : Catalog}
    (h : definition.Defines catalog) (hother : definition.Defines other) : catalog = other := by
  obtain ⟨entities⟩ := catalog
  obtain ⟨others⟩ := other
  have : entities = others := h.ascending.ext hother.ascending fun e =>
    (h.entities e).trans (hother.entities e).symm
  rw [this]

/-- Entities under different names are held in order. -/
theorem defines_of_described {definition : CatalogDefinition} {entities : List Entity}
    (h : List.Forall₂ EntityDefinition.Describes definition.entities entities)
    (hnodup : (entities.map (·.name)).Nodup) :
    definition.Defines ⟨Ordered.sort (compareOn Entity.name) entities⟩ := by
  constructor
  · refine Ordered.ascending_sort ((List.pairwise_map.mp hnodup).imp fun {e e'} hne heq => ?_)
    exact hne (Std.LawfulEqCmp.eq_of_compare heq)
  · intro e
    rw [(Ordered.sort_perm _ entities).mem_iff]
    exact mem_iff_of_forall₂ EntityDefinition.describes_unique h

theorem Valid.exists_described {definition : CatalogDefinition} (h : definition.Valid) :
    ∃ entities, List.Forall₂ EntityDefinition.Describes definition.entities entities ∧
      (Catalog.mk entities).Checked := by
  obtain ⟨entities, hdescribed⟩ := exists_forall₂_iff.mpr fun d hd =>
    EntityDefinition.exists_describes_iff.mpr (h.entities d hd).tags
  obtain ⟨-, hchecked⟩ := (valid_iff_of_described hdescribed).mp h
  exact ⟨entities, hdescribed, hchecked⟩

/-- A catalog comes out exactly when the definition is valid and defines it. -/
theorem toCatalog_eq_ok_iff {definition : CatalogDefinition} {catalog : Catalog} :
    definition.toCatalog = .ok catalog ↔ definition.Valid ∧ definition.Defines catalog := by
  rw [toCatalog_stages]
  constructor
  · rintro ⟨hnonempty, entities, hdescribed, hcatalog⟩
    obtain ⟨hchecked, rfl⟩ := Catalog.ofEntities_eq_ok_iff.mp hcatalog
    exact ⟨(valid_iff_of_described hdescribed).mpr ⟨hnonempty, hchecked⟩,
      defines_of_described hdescribed hchecked.names⟩
  · rintro ⟨hvalid, hdefines⟩
    obtain ⟨entities, hdescribed, hchecked⟩ := hvalid.exists_described
    have heq := hdefines.unique (defines_of_described hdescribed hchecked.names)
    exact ⟨hvalid.nonempty, entities, hdescribed,
      Catalog.ofEntities_eq_ok_iff.mpr ⟨hchecked, heq⟩⟩

theorem exists_toCatalog_iff {definition : CatalogDefinition} :
    (∃ catalog, definition.toCatalog = .ok catalog) ↔ definition.Valid := by
  constructor
  · rintro ⟨catalog, hcatalog⟩
    exact (toCatalog_eq_ok_iff.mp hcatalog).1
  · intro hvalid
    obtain ⟨entities, hdescribed, hchecked⟩ := hvalid.exists_described
    exact ⟨_, toCatalog_eq_ok_iff.mpr ⟨hvalid, defines_of_described hdescribed hchecked.names⟩⟩

/-! ## Looking up what is defined -/

section get?

variable {definition : CatalogDefinition} {catalog : Catalog}

theorem Defines.get?_eq_some_iff (h : definition.Defines catalog) (hvalid : definition.Valid)
    {name : String} {entity : Entity} : catalog.get? name = some entity ↔
      ∃ d ∈ definition.entities, d.name = name ∧ d.Describes entity := by
  constructor
  · intro hget
    obtain ⟨d, hd, hdescribes⟩ := (h.entities entity).mp (Catalog.mem_of_get? hget)
    exact ⟨d, hd, hdescribes.name.symm.trans (Catalog.name_of_get? hget), hdescribes⟩
  · rintro ⟨d, hd, rfl, hdescribes⟩
    have hmem : entity ∈ catalog.entities := (h.entities entity).mpr ⟨d, hd, hdescribes⟩
    have hsome : (catalog.get? d.name).isSome := by
      rw [Catalog.get?, List.find?_isSome]
      exact ⟨entity, hmem, by simpa using hdescribes.name⟩
    -- What is found has the same name, so it is described by the same definition.
    obtain ⟨found, hfound⟩ := Option.isSome_iff_exists.mp hsome
    obtain ⟨d', hd', hdescribes'⟩ := (h.entities found).mp (Catalog.mem_of_get? hfound)
    have hname : d'.name = d.name := hdescribes'.name.symm.trans (Catalog.name_of_get? hfound)
    obtain rfl := List.inj_on_of_nodup_map hvalid.names hd' hd hname
    rw [hfound, EntityDefinition.describes_unique hdescribes' hdescribes]

theorem Defines.get?_eq_none_iff (h : definition.Defines catalog) (hvalid : definition.Valid)
    {name : String} : catalog.get? name = none ↔ ∀ d ∈ definition.entities, d.name ≠ name := by
  constructor
  · rintro hnone d hd rfl
    obtain ⟨entity, hdescribes⟩ :=
      EntityDefinition.exists_describes_iff.mpr (hvalid.entities d hd).tags
    have hget := (h.get?_eq_some_iff hvalid).mpr ⟨d, hd, rfl, hdescribes⟩
    cases hnone.symm.trans hget
  · intro hother
    cases hget : catalog.get? name with
    | none => rfl
    | some entity =>
      obtain ⟨d, hd, hname, -⟩ := (h.get?_eq_some_iff hvalid).mp hget
      exact absurd hname (hother d hd)

end get?

/-! ## The order of the entities -/

section Perm

variable {definition other : CatalogDefinition}

theorem Valid.perm (hperm : definition.entities.Perm other.entities) (h : definition.Valid) :
    other.Valid where
  nonempty hnil := h.nonempty (List.perm_nil.mp (hnil ▸ hperm))
  entities d hd := h.entities d (hperm.mem_iff.mpr hd)
  names := (hperm.map _).nodup_iff.mp h.names
  targets d hd f relation hf := by
    obtain ⟨t, ht, hname⟩ := h.targets d (hperm.mem_iff.mpr hd) f relation hf
    exact ⟨t, hperm.mem_iff.mp ht, hname⟩

theorem Defines.perm (hperm : definition.entities.Perm other.entities) {catalog : Catalog}
    (h : definition.Defines catalog) : other.Defines catalog where
  ascending := h.ascending
  entities e := (h.entities e).trans (exists_congr fun _ => and_congr_left' hperm.mem_iff)

theorem toCatalog_perm (hperm : definition.entities.Perm other.entities) (catalog : Catalog) :
    definition.toCatalog = .ok catalog ↔ other.toCatalog = .ok catalog := by
  rw [toCatalog_eq_ok_iff, toCatalog_eq_ok_iff]
  exact ⟨fun ⟨hvalid, hdefines⟩ => ⟨hvalid.perm hperm, hdefines.perm hperm⟩,
    fun ⟨hvalid, hdefines⟩ => ⟨hvalid.perm hperm.symm, hdefines.perm hperm.symm⟩⟩

end Perm

/-- **Which definitions make a catalog, and which catalog they make.** A catalog comes out exactly
when the definition is valid. Under the name of an entity that is defined it has the entity that
the definition describes, and under every other name it has none. Entities that are defined in
another order make the same catalog, or none as well. -/
theorem toCatalog_defined (definition : CatalogDefinition) :
    ((∃ catalog, definition.toCatalog = .ok catalog) ↔ definition.Valid) ∧
    (∀ catalog, definition.toCatalog = .ok catalog →
      (∀ name entity, catalog.get? name = some entity ↔
        ∃ d ∈ definition.entities, d.name = name ∧ d.Describes entity) ∧
      ∀ name, catalog.get? name = none ↔ ∀ d ∈ definition.entities, d.name ≠ name) ∧
    ∀ other : CatalogDefinition, definition.entities.Perm other.entities → ∀ catalog,
      definition.toCatalog = .ok catalog ↔ other.toCatalog = .ok catalog := by
  refine ⟨exists_toCatalog_iff, ?_, fun other hperm => toCatalog_perm hperm⟩
  intro catalog hcatalog
  obtain ⟨hvalid, hdefines⟩ := toCatalog_eq_ok_iff.mp hcatalog
  exact ⟨fun _ _ => hdefines.get?_eq_some_iff hvalid, fun _ => hdefines.get?_eq_none_iff hvalid⟩

end CatalogDefinition

/-! ## The library as it is defined -/

namespace Sample

def authorDefinition : EntityDefinition where
  name := "Author"
  table := "authors"
  uniqueColumn := "id"
  fields := [("books", .relation ⟨"Book", "id", "author_id", none, .many⟩),
    ("name", .scalar "String")]

def bookDefinition : EntityDefinition where
  name := "Book"
  table := "books"
  uniqueColumn := "id"
  fields := [("sequel", .relation ⟨"Book", "id", "id", some ⟨"links", "from_id", "to_id"⟩, .one⟩),
    ("title", .scalar "String")]

end Sample

/-- The library comes out of both orders of its entities. It has an author and no publisher, and its
books alone are not enough, since an author's books would lead nowhere. -/
theorem CatalogDefinition.toCatalog_defined_library :
    (mk [Sample.bookDefinition, Sample.authorDefinition]).toCatalog = .ok Sample.catalog ∧
    (mk [Sample.authorDefinition, Sample.bookDefinition]).toCatalog = .ok Sample.catalog ∧
    (mk [Sample.bookDefinition, Sample.authorDefinition]).Valid ∧
    Sample.authorDefinition.Describes Sample.author ∧
    Sample.catalog.get? "Publisher" = none ∧
    ¬ (mk [Sample.authorDefinition]).Valid := by
  have hcatalog : (mk [Sample.bookDefinition, Sample.authorDefinition]).toCatalog =
      .ok Sample.catalog := rfl
  obtain ⟨hvalid, hdefined, horder⟩ :=
    toCatalog_defined (mk [Sample.bookDefinition, Sample.authorDefinition])
  obtain ⟨hsome, hnone⟩ := hdefined Sample.catalog hcatalog
  refine ⟨hcatalog, (horder _ (.swap _ _ _) _).mp hcatalog, hvalid.mp ⟨_, hcatalog⟩, ?_, ?_, ?_⟩
  · obtain ⟨d, hd, hname, hdescribes⟩ := (hsome "Author" Sample.author).mp rfl
    simp only [List.mem_cons, List.not_mem_nil, or_false] at hd
    rcases hd with rfl | rfl
    · exact absurd hname (by decide)
    · exact hdescribes
  · rw [hnone]
    decide
  · rw [← (toCatalog_defined _).1]
    rintro ⟨catalog, h⟩
    have : (mk [Sample.authorDefinition]).toCatalog =
        .error (.unknownTarget "Author" "books" "Book") := rfl
    cases this.symm.trans h

end NestedRead
