import Mathlib.Data.List.Nodup
import NestedRead.Catalog.Validation
import NestedRead.Proofs.Outcome

/-!
# Accepted catalogs

What a catalog that passed its checks is known to satisfy. Each check is turned into the property
that it tests, in both directions: `Entity.Clean` for the names of one entity, distinct names for
the list, and targets that exist. `Catalog.Accepted` says that a catalog came out of
`Catalog.ofEntities`; the rest of the development uses it only through the look-up lemmas at the
end: an entity that is found has clean names, and the target of its relation is found too.
-/

set_option autoImplicit false

namespace NestedRead

/-! ## Sorting -/

namespace Ordered

variable {α : Type}

theorem insert_perm (cmp : α → α → Ordering) (x : α) : ∀ ys : List α,
    (insert cmp x ys).Perm (x :: ys)
  | [] => .refl _
  | y :: ys => by
    rw [insert]
    split
    · exact .refl _
    · exact ((insert_perm cmp x ys).cons y).trans (.swap x y ys)

/-- Sorting keeps every item as often as it is there. -/
theorem sort_perm (cmp : α → α → Ordering) (xs : List α) : (sort cmp xs).Perm xs := by
  have key : ∀ (xs sorted : List α),
      (xs.foldl (fun sorted x => insert cmp x sorted) sorted).Perm (sorted ++ xs) := by
    intro xs
    induction xs with
    | nil => intro sorted; simp
    | cons x xs ih =>
      intro sorted
      refine (ih (insert cmp x sorted)).trans ?_
      exact ((insert_perm cmp x sorted).append_right xs).trans List.perm_middle.symm
  simpa [sort] using key xs []

end Ordered

/-! ## Clean names -/

/-- The columns of a relation are identifiers and its table is a table name. -/
structure Relation.Clean (relation : Relation) : Prop where
  fromColumn : Identifier.isPlain relation.fromColumn = true
  toColumn : Identifier.isPlain relation.toColumn = true
  through : ∀ t, relation.through = some t → Identifier.isTable t.table = true ∧
    Identifier.isPlain t.fromColumn = true ∧ Identifier.isPlain t.toColumn = true

/-- All names of an entity are what they should be. -/
structure Entity.Clean (entity : Entity) : Prop where
  name : Identifier.isPlain entity.name = true
  table : Identifier.isTable entity.table = true
  uniqueColumn : Identifier.isPlain entity.uniqueColumn = true
  fields : ∀ f kind, (f, kind) ∈ entity.fields → Identifier.isPlain f = true
  relations : ∀ f relation, (f, .relation relation) ∈ entity.fields → relation.Clean

theorem checkIdentifier_eq_ok_iff {place : NamePlace} {name : String} :
    checkIdentifier place name = .ok () ↔ Identifier.isPlain name = true := by
  unfold checkIdentifier
  split <;> simp_all

theorem checkTable_eq_ok_iff {place : NamePlace} {name : String} :
    checkTable place name = .ok () ↔ Identifier.isTable name = true := by
  unfold checkTable
  split <;> simp_all

theorem Relation.check_eq_ok_iff {place : NamePlace} {relation : Relation} :
    relation.check place = .ok () ↔ relation.Clean := by
  unfold Relation.check
  simp only [Outcome.check_bind_eq_ok_iff, checkIdentifier_eq_ok_iff]
  cases hthrough : relation.through with
  | none =>
    constructor
    · rintro ⟨hfrom, hto, -⟩
      exact ⟨hfrom, hto, by simp [hthrough]⟩
    · intro h
      exact ⟨h.fromColumn, h.toColumn, rfl⟩
  | some t =>
    simp only [Outcome.check_bind_eq_ok_iff, checkIdentifier_eq_ok_iff, checkTable_eq_ok_iff]
    constructor
    · rintro ⟨hfrom, hto, ht⟩
      exact ⟨hfrom, hto, by rintro t' h; cases hthrough.symm.trans h; exact ht⟩
    · intro h
      exact ⟨h.fromColumn, h.toColumn, h.through t hthrough⟩

namespace Entity

theorem checkFields_eq_ok_iff {entity : String} : ∀ {fields : List (String × FieldKind)},
    checkFields entity fields = .ok () ↔
      (∀ f kind, (f, kind) ∈ fields → Identifier.isPlain f = true) ∧
      (∀ f relation, (f, .relation relation) ∈ fields → relation.Clean)
  | [] => by simp [checkFields]
  | (f, kind) :: rest => by
    -- A scalar has nothing to check but its name.
    cases kind with
    | scalar type =>
      simp only [checkFields, Outcome.check_bind_eq_ok_iff, checkIdentifier_eq_ok_iff,
        checkFields_eq_ok_iff, List.mem_cons]
      constructor
      · rintro ⟨hf, hrest, hrels⟩
        refine ⟨?_, fun g r hg => ?_⟩
        · rintro g k (h | h)
          · cases h; exact hf
          · exact hrest g k h
        · rcases hg with h | h
          · cases h
          · exact hrels g r h
      · rintro ⟨hfields, hrels⟩
        exact ⟨hfields f _ (Or.inl rfl), fun g k h => hfields g k (Or.inr h),
          fun g r h => hrels g r (Or.inr h)⟩
    | relation relation =>
      simp only [checkFields, Outcome.check_bind_eq_ok_iff, checkIdentifier_eq_ok_iff,
        Relation.check_eq_ok_iff, checkFields_eq_ok_iff, List.mem_cons]
      constructor
      · rintro ⟨hf, hr, hrest, hrels⟩
        refine ⟨?_, fun g r hg => ?_⟩
        · rintro g k (h | h)
          · cases h; exact hf
          · exact hrest g k h
        · rcases hg with h | h
          · cases h; exact hr
          · exact hrels g r h
      · rintro ⟨hfields, hrels⟩
        exact ⟨hfields f _ (Or.inl rfl), hrels f relation (Or.inl rfl),
          fun g k h => hfields g k (Or.inr h), fun g r h => hrels g r (Or.inr h)⟩

/-- The checks of an entity pass exactly when all its names are clean. -/
theorem check_eq_ok_iff {entity : Entity} : entity.check = .ok () ↔ entity.Clean := by
  unfold check
  simp only [Outcome.check_bind_eq_ok_iff, checkIdentifier_eq_ok_iff, checkTable_eq_ok_iff,
    checkFields_eq_ok_iff]
  exact ⟨fun ⟨h1, h2, h3, h4, h5⟩ => ⟨h1, h2, h3, h4, h5⟩,
    fun h => ⟨h.name, h.table, h.uniqueColumn, h.fields, h.relations⟩⟩

theorem checkTargets_eq_ok_iff {known : List String} {entity : String} :
    ∀ {fields : List (String × FieldKind)}, checkTargets known entity fields = .ok () ↔
      ∀ f relation, (f, .relation relation) ∈ fields → relation.target ∈ known
  | [] => by simp [checkTargets]
  | (f, .relation relation) :: rest => by
    rw [checkTargets]
    split
    · rename_i hknown
      rw [checkTargets_eq_ok_iff]
      constructor
      · rintro h g r hg
        rcases List.mem_cons.mp hg with hg | hg
        · cases hg; simpa using hknown
        · exact h g r hg
      · exact fun h g r hg => h g r (List.mem_cons_of_mem _ hg)
    · rename_i hknown
      constructor
      · intro h; cases h
      · intro h
        exact absurd (by simpa using h f relation List.mem_cons_self) hknown
  | (f, .scalar type) :: rest => by
    rw [checkTargets, checkTargets_eq_ok_iff]
    simp

end Entity

/-! ## Fields that are found -/

namespace Entity

theorem mem_of_field? {e : Entity} {name : String} {kind : FieldKind}
    (h : e.field? name = some kind) : (name, kind) ∈ e.fields := by
  obtain ⟨before, after, hfields, -⟩ := List.lookup_eq_some_iff.mp h
  rw [hfields]
  simp

theorem mem_of_relation? {e : Entity} {name : String}
    {relation : Relation} (h : e.relation? name = some relation) :
    (name, .relation relation) ∈ e.fields := by
  unfold relation? at h
  split at h
  · rename_i hfield
    cases h
    exact mem_of_field? hfield
  · cases h

end Entity

/-! ## The checks of a catalog -/

namespace Catalog

theorem checkEntities_eq_ok_iff : ∀ {entities : List Entity} {seen : List String},
    checkEntities seen entities = .ok () ↔
      (∀ e ∈ entities, e.Clean) ∧ (entities.map (·.name)).Nodup ∧
      ∀ e ∈ entities, e.name ∉ seen
  | [], seen => by simp [checkEntities]
  | e :: rest, seen => by
    rw [checkEntities]
    simp only [Outcome.check_bind_eq_ok_iff, Entity.check_eq_ok_iff]
    split
    · rename_i hseen
      constructor
      · rintro ⟨-, h⟩; cases h
      · rintro ⟨-, -, h⟩
        exact absurd (by simpa using hseen) (h e List.mem_cons_self)
    · rename_i hseen
      have hseen : e.name ∉ seen := by simpa using hseen
      rw [checkEntities_eq_ok_iff]
      simp only [List.mem_cons, forall_eq_or_imp, List.map_cons, List.nodup_cons, List.mem_map,
        not_or, not_exists, not_and]
      constructor
      · rintro ⟨he, hrest, hnodup, hfresh⟩
        exact ⟨⟨he, hrest⟩, ⟨fun x hx => (hfresh x hx).1, hnodup⟩, hseen,
          fun x hx => (hfresh x hx).2⟩
      · rintro ⟨⟨he, hrest⟩, ⟨hne, hnodup⟩, -, hfresh⟩
        exact ⟨he, hrest, hnodup, fun x hx => ⟨hne x hx, hfresh x hx⟩⟩

theorem checkTargets_eq_ok_iff {known : List String} : ∀ {entities : List Entity},
    checkTargets known entities = .ok () ↔
      ∀ e ∈ entities, ∀ f relation, (f, .relation relation) ∈ e.fields → relation.target ∈ known
  | [] => by simp [checkTargets]
  | e :: rest => by
    have hrest : checkTargets known rest = .ok () ↔ _ := checkTargets_eq_ok_iff
    rw [checkTargets]
    simp only [Outcome.check_bind_eq_ok_iff, Entity.checkTargets_eq_ok_iff, hrest,
      List.forall_mem_cons]

/-- The catalog came out of the checks. -/
def Accepted (catalog : Catalog) : Prop :=
  ∃ entities, ofEntities entities = .ok catalog

/-- What the checks establish. -/
structure Checked (catalog : Catalog) : Prop where
  clean : ∀ e ∈ catalog.entities, e.Clean
  names : catalog.names.Nodup
  targets : ∀ e ∈ catalog.entities, ∀ f relation, (f, .relation relation) ∈ e.fields →
    relation.target ∈ catalog.names

theorem Accepted.checked {catalog : Catalog} (h : catalog.Accepted) : catalog.Checked := by
  obtain ⟨entities, h⟩ := h
  unfold ofEntities at h
  obtain ⟨hentities, h⟩ := Outcome.check_bind_eq_ok_iff.mp h
  obtain ⟨htargets, h⟩ := Outcome.check_bind_eq_ok_iff.mp h
  cases h
  obtain ⟨hclean, hnodup, -⟩ := checkEntities_eq_ok_iff.mp hentities
  have hperm := Ordered.sort_perm (fun a b : Entity => compare a.name b.name) entities
  exact ⟨fun e he => hclean e (hperm.mem_iff.mp he), (hperm.map _).nodup_iff.mpr hnodup,
    checkTargets_eq_ok_iff.mp htargets⟩

/-! ## Looking entities up -/

/-- What is found under a name has it. -/
theorem name_of_get? {catalog : Catalog} {name : String} {e : Entity}
    (h : catalog.get? name = some e) : e.name = name := by
  simpa using List.find?_some h

theorem mem_of_get? {catalog : Catalog} {name : String} {e : Entity}
    (h : catalog.get? name = some e) : e ∈ catalog.entities :=
  List.mem_of_find?_eq_some h

theorem Accepted.clean {catalog : Catalog} (hcat : catalog.Accepted) {name : String} {e : Entity}
    (h : catalog.get? name = some e) : e.Clean :=
  hcat.checked.clean e (mem_of_get? h)

theorem Accepted.target {catalog : Catalog} (hcat : catalog.Accepted) {name f : String}
    {e : Entity} {relation : Relation} (h : catalog.get? name = some e)
    (hf : e.relation? f = some relation) : ∃ t, catalog.get? relation.target = some t := by
  have hmem := hcat.checked.targets e (mem_of_get? h) f relation (Entity.mem_of_relation? hf)
  obtain ⟨t, ht, heq⟩ := List.mem_map.mp hmem
  refine Option.isSome_iff_exists.mp ?_
  rw [get?, List.find?_isSome]
  exact ⟨t, ht, by simpa using heq⟩

end Catalog

/-! ## A small library

Authors and their books. Books refer to each other through a table of links, so one table can stand
under two aliases. General theorems are applied to this catalog where their hypotheses have to be
seen to hold together. -/

namespace Sample

def author : Entity where
  name := "Author"
  table := "authors"
  uniqueColumn := "id"
  fields := [("books", .relation ⟨"Book", "id", "author_id", none, .many⟩),
    ("name", .scalar .string)]

def book : Entity where
  name := "Book"
  table := "books"
  uniqueColumn := "id"
  fields := [("sequel", .relation ⟨"Book", "id", "id", some ⟨"links", "from_id", "to_id"⟩, .one⟩),
    ("title", .scalar .string)]

def catalog : Catalog := ⟨[author, book]⟩

theorem catalog_accepted : catalog.Accepted := ⟨[book, author], rfl⟩

end Sample
end NestedRead
