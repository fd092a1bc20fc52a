import Mathlib.Data.List.Forall2
import NestedRead.Proofs.Json.Members
import NestedRead.Proofs.Outcome
import NestedRead.Rows.Nested

/-!
# What nesting puts into an object

The relations of a node are put one after the other into the object that the index has for an id.
What comes of it is told by keys: no key but the fields of the relations changes, and each field has
the value that its own relation is nested into, for no two relations share a field.
-/

set_option autoImplicit false

namespace NestedRead

/-- What a relation shows of ids, where `P` says what is shown of one of them: all of them in an
array, or the first of them, if there is one. -/
def Multiplicity.Gathers (P : EntityId → Json → Prop) (ids : List EntityId) (value : Json) :
    Multiplicity → Prop
  | .one =>
    match ids with
    | [] => value = .null
    | first :: _ => P first value
  | .many => ∃ items, value = .array items ∧ List.Forall₂ P ids items

theorem Multiplicity.Gathers.imp {P Q : EntityId → Json → Prop} {ids : List EntityId}
    {value : Json} : ∀ {m : Multiplicity}, m.Gathers P ids value →
      (∀ id ∈ ids, ∀ v, P id v → Q id v) → m.Gathers Q ids value
  | .one, h, himp => by
    cases ids with
    | nil => exact h
    | cons first rest => exact himp first List.mem_cons_self value h
  | .many, ⟨items, hvalue, hall⟩, himp =>
    ⟨items, hvalue, ((List.forall₂_and_left ids items).mpr ⟨fun _ hid => hid, hall⟩).imp
      fun k v hk => himp k hk.1 v hk.2⟩

namespace RowIndex

variable {index : RowIndex} {layout : Layout}

/-- A relation is nested into what it gathers of its children. -/
theorem nestRelation_eq_ok {child : SelectionNode} {field : String} {args : RelationArgs}
    {id : EntityId} {entry : String × Json}
    (h : (index.nestRelation layout id (.mk field args child)).outcome = .ok entry) :
    entry.1 = field ∧ (((layout.byPath? child.path).bind (·.multiplicity)).getD .many).Gathers
      (fun k v => (index.nest layout k child).outcome = .ok v) (index.children child.path id)
      entry.2 := by
  rw [nestRelation] at h
  generalize ((layout.byPath? child.path).bind (·.multiplicity)).getD .many = m at h ⊢
  dsimp only at h
  cases m with
  | one =>
    cases hids : index.children child.path id with
    | nil =>
      rw [hids] at h
      cases h
      exact ⟨rfl, rfl⟩
    | cons first rest =>
      rw [hids] at h
      dsimp only at h
      -- The notice about further children does not change the outcome.
      have hfirst : (index.nest layout first child >>= fun value =>
          (pure (field, value) : Reading (String × Json))).outcome = .ok entry := by
        split at h
        · obtain ⟨-, -, h⟩ := Traced.outcome_bind_eq_ok_iff.mp h
          exact h
        · exact h
      obtain ⟨value, hvalue, h⟩ := Traced.outcome_bind_eq_ok_iff.mp hfirst
      cases h
      exact ⟨rfl, hvalue⟩
  | many =>
    obtain ⟨items, hitems, h⟩ := Traced.outcome_bind_eq_ok_iff.mp h
    cases h
    exact ⟨rfl, items, rfl, Traced.outcome_each_eq_ok_iff.mp hitems⟩

theorem field_nestRelation {r : RelationSelection} {id : EntityId} {entry : String × Json}
    (h : (index.nestRelation layout id r).outcome = .ok entry) : entry.1 = r.field := by
  cases r
  exact (nestRelation_eq_ok h).1

/-- An object after relations have been put into it, one after the other. -/
structure Filled (index : RowIndex) (layout : Layout) (id : EntityId) (object : Json.Members)
    (relations : List RelationSelection) (members : Json.Members) : Prop where
  nodup : (object.map Prod.fst).Nodup → (members.map Prod.fst).Nodup
  other : ∀ key ∉ relations.map RelationSelection.field,
    Json.get? members key = Json.get? object key
  relation : ∀ r ∈ relations, ∃ value, Json.get? members r.field = some value ∧
    (index.nestRelation layout id r).outcome = .ok (r.field, value)

theorem nestRelations_eq_ok {id : EntityId} : ∀ {relations : List RelationSelection}
    {object members : Json.Members}, (relations.map RelationSelection.field).Nodup →
      (index.nestRelations layout id object relations).outcome = .ok members →
      Filled index layout id object relations members
  | [], object, members, _, h => by
    rw [nestRelations] at h
    cases h
    exact ⟨fun h => h, fun _ _ => rfl, fun _ hr => absurd hr List.not_mem_nil⟩
  | r :: rest, object, members, hfields, h => by
    rw [nestRelations] at h
    obtain ⟨⟨field, value⟩, hvalue, h⟩ := Traced.outcome_bind_eq_ok_iff.mp h
    obtain rfl : field = r.field := field_nestRelation hvalue
    rw [List.map_cons, List.nodup_cons] at hfields
    have hrest := nestRelations_eq_ok hfields.2 h
    refine ⟨fun hnodup => hrest.nodup (Json.nodup_put hnodup _ _), fun key hkey => ?_,
      List.forall_mem_cons.mpr ⟨⟨value, ?_, hvalue⟩, hrest.relation⟩⟩
    · rw [List.map_cons, List.mem_cons, not_or] at hkey
      rw [hrest.other key hkey.2, Json.get?_put, if_neg (Ne.symm hkey.1)]
    · -- The later relations have other fields.
      rw [hrest.other _ hfields.1, Json.get?_put, if_pos rfl]

/-- The keys are those that were there and the fields of the relations. -/
theorem Filled.mem_keys_iff {id : EntityId} {object members : Json.Members}
    {relations : List RelationSelection} (h : Filled index layout id object relations members)
    (key : String) : key ∈ members.map Prod.fst ↔
      key ∈ object.map Prod.fst ∨ key ∈ relations.map RelationSelection.field := by
  by_cases hkey : key ∈ relations.map RelationSelection.field
  · obtain ⟨r, hr, rfl⟩ := List.mem_map.mp hkey
    obtain ⟨value, hvalue, -⟩ := h.relation r hr
    refine iff_of_true ?_ (Or.inr hkey)
    exact List.mem_map_of_mem (f := Prod.fst) (Json.mem_of_get? hvalue)
  · rw [or_iff_left hkey, ← not_iff_not, ← Json.get?_eq_none_iff, ← Json.get?_eq_none_iff,
      h.other key hkey]

theorem nest_eq_ok {name : String} {path : FieldPath} {scalars : List String}
    {relations : List RelationSelection} {id : EntityId} {b : Binding} {value : Json}
    (hb : layout.byPath? path = some b) (hfields : (relations.map RelationSelection.field).Nodup)
    (h : (index.nest layout id (.mk name path scalars relations)).outcome = .ok value) :
    ∃ members, value = .object members ∧
      Filled index layout id ((index.object? b.tableAlias id).getD []) relations members := by
  rw [nest, hb] at h
  obtain ⟨members, hmembers, h⟩ := Traced.outcome_bind_eq_ok_iff.mp h
  cases h
  exact ⟨members, rfl, nestRelations_eq_ok hfields hmembers⟩

end RowIndex

namespace SelectionTree

variable {tree : SelectionTree} {layout : Layout} {rows results : List Json}

/-- The result of some rows is nested out of an index of them, root by root. -/
theorem nest_outcome_eq_ok_iff (hrows : rows ≠ []) :
    (tree.nest layout rows).outcome = .ok results ↔
      ∃ index, (RowIndex.ofRows layout tree.edges rows).outcome = .ok index ∧
        List.Forall₂ (fun id value => (index.nest layout id tree.root).outcome = .ok value)
          index.rootIds results := by
  rw [nest, if_neg (by simpa using hrows), Traced.outcome_bind_eq_ok_iff]
  refine exists_congr fun index => and_congr_right fun _ => ?_
  rw [Traced.outcome_bind_eq_ok_iff, ← Traced.outcome_each_eq_ok_iff]
  constructor
  · rintro ⟨roots, hroots, h⟩
    cases h
    exact hroots
  · exact fun hroots => ⟨results, hroots, rfl⟩

/-- A result is nested out of an index of its rows, root by root, if there are rows at all. -/
theorem nest_eq_ok (h : (tree.nest layout rows).outcome = .ok results) :
    rows = [] ∧ results = [] ∨
      ∃ index, (RowIndex.ofRows layout tree.edges rows).outcome = .ok index ∧
        List.Forall₂ (fun id value => (index.nest layout id tree.root).outcome = .ok value)
          index.rootIds results := by
  by_cases hrows : rows = []
  · subst hrows
    cases h
    exact Or.inl ⟨rfl, rfl⟩
  · exact Or.inr ((nest_outcome_eq_ok_iff hrows).mp h)

end SelectionTree
end NestedRead
