import NestedRead.Proofs.Json.Same
import NestedRead.Proofs.Rows.Filled
import NestedRead.Proofs.Selection.WellFormed

/-!
# Part of a nested result

Some nodes of a tree are kept, and the relations that lead to all others are erased from the nested
objects (`SelectionNode.erase`). What is left depends on the index at the kept nodes only: two
indexes that hold the same objects and the same links there are nested into results that are the
same once the rest is erased (`RowIndex.Alike.erase_nest`). With all nodes kept nothing is erased,
so indexes that agree everywhere have the same results.

Sameness is that of values: the members of an object may stand in another order.
-/

set_option autoImplicit false

namespace NestedRead

/-- The value of a relation with a function applied to each of its objects. -/
def Json.mapObjects (f : Json → Json) : Json → Json
  | .array items => .array (items.map f)
  | value => f value

/-- The members that a function leaves, with the values that it gives them. -/
def Json.filterMembers (f : String → Json → Option Json) (members : Json.Members) : Json.Members :=
  members.filterMap fun entry => (f entry.1 entry.2).map (entry.1, ·)

namespace SelectionNode

mutual

/-- The value of a node without the relations that lead to nodes that are not kept. -/
def erase (kept : FieldPath → Bool) : SelectionNode → Json → Json
  | .mk _ _ _ relations, .object members =>
    .object (Json.filterMembers (eraseMember kept relations) members)
  | _, value => value

/-- What is left of a member. Only the members of relations change. -/
def eraseMember (kept : FieldPath → Bool) :
    List RelationSelection → String → Json → Option Json
  | [], _, value => some value
  | .mk field _ node :: rest, key, value =>
    if field = key then
      if kept node.path then some (value.mapObjects (erase kept node)) else none
    else eraseMember kept rest key value

end

variable {kept : FieldPath → Bool}

mutual

/-- Where all nodes are kept, nothing is erased. -/
theorem erase_all : ∀ (node : SelectionNode) (value : Json),
    node.erase (fun _ => true) value = value
  | .mk _ _ _ relations, value => by
    cases value with
    | object members =>
      rw [erase, Json.filterMembers]
      simp only [eraseMember_all relations, Option.map_some, Prod.eta, List.filterMap_some]
    | null | bool | number | string | array => rfl

theorem eraseMember_all : ∀ (relations : List RelationSelection) (key : String) (value : Json),
    eraseMember (fun _ => true) relations key value = some value
  | [], _, _ => rfl
  | .mk field _ node :: rest, key, value => by
    rw [eraseMember, if_pos rfl, eraseMember_all rest, ite_eq_right_iff]
    intro _
    rw [show node.erase (fun _ => true) = id from funext (erase_all node)]
    cases value <;> simp [Json.mapObjects]

end

theorem eraseMember_of_not_mem {key : String} (value : Json) :
    ∀ {relations : List RelationSelection}, key ∉ relations.map RelationSelection.field →
      eraseMember kept relations key value = some value
  | [], _ => rfl
  | .mk field _ node :: rest, h => by
    rw [List.map_cons, List.mem_cons, not_or] at h
    rw [eraseMember, if_neg (fun heq => h.1 heq.symm), eraseMember_of_not_mem value h.2]

/-- The value of a relation is erased as its own node says, or as a whole. -/
theorem eraseMember_of_mem (value : Json) : ∀ {relations : List RelationSelection},
    (relations.map RelationSelection.field).Nodup → ∀ {r : RelationSelection}, r ∈ relations →
      eraseMember kept relations r.field value =
        if kept r.node.path then some (value.mapObjects (r.node.erase kept)) else none
  | .mk field args node :: rest, hnodup, r, h => by
    rw [List.map_cons, List.nodup_cons] at hnodup
    rcases List.mem_cons.mp h with rfl | h
    · exact if_pos rfl
    · have hne : field ≠ r.field := fun heq =>
        hnodup.1 (show field ∈ _ from heq ▸ List.mem_map_of_mem h)
      rw [eraseMember, if_neg hne, eraseMember_of_mem value hnodup.2 h]

end SelectionNode

namespace Json

theorem nodup_filterMembers {members : Members} (h : (members.map Prod.fst).Nodup)
    (f : String → Json → Option Json) : ((filterMembers f members).map Prod.fst).Nodup := by
  refine h.sublist ?_
  clear h
  induction members with
  | nil => exact List.Sublist.slnil
  | cons entry rest ih =>
    rw [filterMembers, List.filterMap_cons]
    cases f entry.1 entry.2 with
    | none => exact ih.cons _
    | some found => exact ih.cons_cons _

/-- Members that are changed or dropped one by one are found one by one. -/
theorem get?_filterMembers (f : String → Json → Option Json) (key : String) :
    ∀ {members : Members}, (members.map Prod.fst).Nodup →
      get? (filterMembers f members) key = (get? members key).bind (f key)
  | [], _ => rfl
  | (k, value) :: rest, h => by
    rw [List.map_cons, List.nodup_cons] at h
    have ih := get?_filterMembers f key h.2
    rw [filterMembers] at ih
    rw [filterMembers, List.filterMap_cons, get?_cons]
    by_cases hkey : k = key
    · subst hkey
      rw [get?_eq_none_iff.mpr h.1] at ih
      cases hf : f k value with
      | none => simp [ih, hf]
      | some found => simp [get?_cons, hf]
    · cases hf : f k value with
      | none => simp [ih, hkey]
      | some found => simp [get?_cons, ih, hkey]

end Json

/-! ## Two indexes -/

/-- Two lists that were made of one, item by item, are related item by item. -/
theorem forall₂_of_common {α β γ : Type} {R : α → β → Prop} {S : α → γ → Prop} {T : β → γ → Prop}
    {xs : List α} {ys : List β} {zs : List γ} (hys : List.Forall₂ R xs ys)
    (hzs : List.Forall₂ S xs zs) (h : ∀ x ∈ xs, ∀ y z, R x y → S x z → T y z) :
    List.Forall₂ T ys zs := by
  induction hys generalizing zs with
  | nil =>
    cases hzs
    exact .nil
  | cons hy _ ih =>
    obtain ⟨hhead, hrest⟩ := List.forall_mem_cons.mp h
    cases hzs with
    | cons hz hzs => exact .cons (hhead _ _ hy hz) (ih hzs hrest)

namespace RowIndex

/-- Two indexes hold the same objects for the bindings of kept paths, and the same links between
kept paths. -/
structure Alike (layout : Layout) (relations : List (FieldPath × FieldPath))
    (kept : FieldPath → Bool) (index index' : RowIndex) : Prop where
  nodup : ∀ b ∈ layout.bindings, ∀ id,
    (((index.object? b.tableAlias id).getD []).map Prod.fst).Nodup ∧
      (((index'.object? b.tableAlias id).getD []).map Prod.fst).Nodup
  object : ∀ b ∈ layout.bindings, kept b.path = true → ∀ id field,
    Option.Rel (fun value value' => value.same value' = true)
      ((index.object? b.tableAlias id).bind (Json.get? · field))
      ((index'.object? b.tableAlias id).bind (Json.get? · field))
  children : ∀ relation ∈ relations, kept relation.1 = true → kept relation.2 = true → ∀ id,
    index.children relation.2 id = index'.children relation.2 id

variable {layout : Layout} {relations : List (FieldPath × FieldPath)} {kept : FieldPath → Bool}
  {index index' : RowIndex} {catalog : Catalog}

theorem get?_getD (object : Option Json.Members) (field : String) :
    Json.get? (object.getD []) field = object.bind (Json.get? · field) := by
  cases object <;> rfl

/-- What a node is nested into is an object, and the path of the node is bound. -/
theorem nest_eq_ok_bound {name : String} {path : FieldPath} {scalars : List String}
    {below : List RelationSelection} {id : EntityId} {value : Json}
    (h : (index.nest layout id (.mk name path scalars below)).outcome = .ok value) :
    (∃ b, layout.byPath? path = some b) ∧ ∃ members, value = .object members := by
  rw [nest] at h
  cases hb : layout.byPath? path with
  | none =>
    rw [hb] at h
    cases h
  | some b =>
    rw [hb] at h
    obtain ⟨members, -, h⟩ := Traced.outcome_bind_eq_ok_iff.mp h
    cases h
    exact ⟨⟨b, rfl⟩, members, rfl⟩

/-- What is gathered of the same children is the same if the children are. -/
theorem gathers_same {node : SelectionNode} {ids : List EntityId} {value value' : Json}
    (h : ∀ k v v', (index.nest layout k node).outcome = .ok v →
      (index'.nest layout k node).outcome = .ok v' →
        (node.erase kept v).same (node.erase kept v') = true) : ∀ {m : Multiplicity},
      m.Gathers (fun k v => (index.nest layout k node).outcome = .ok v) ids value →
      m.Gathers (fun k v => (index'.nest layout k node).outcome = .ok v) ids value' →
      (value.mapObjects (node.erase kept)).same (value'.mapObjects (node.erase kept)) = true
  | .one, hgathers, hgathers' => by
    cases node with
    | mk name path scalars below =>
      cases ids with
      | nil =>
        cases hgathers
        cases hgathers'
        rfl
      | cons first rest =>
        obtain ⟨-, members, rfl⟩ := nest_eq_ok_bound hgathers
        obtain ⟨-, members', rfl⟩ := nest_eq_ok_bound hgathers'
        exact h first _ _ hgathers hgathers'
  | .many, ⟨items, hvalue, hall⟩, ⟨items', hvalue', hall'⟩ => by
    subst hvalue hvalue'
    rw [Json.mapObjects, Json.mapObjects, Json.same_array_iff, List.forall₂_map_left_iff,
      List.forall₂_map_right_iff]
    exact forall₂_of_common hall hall' fun k _ => h k

mutual

/-- Indexes that are alike at the kept nodes are nested into the same, once the rest is erased. -/
theorem Alike.erase_nest (h : Alike layout relations kept index index') :
    ∀ {node : SelectionNode}, node.WellFormed catalog → (∀ edge ∈ node.edges, edge ∈ relations) →
      kept node.path = true → ∀ {id : EntityId} {value value' : Json},
        (index.nest layout id node).outcome = .ok value →
        (index'.nest layout id node).outcome = .ok value' →
        (node.erase kept value).same (node.erase kept value') = true
  | .mk name path scalars below, hwf, hedges, hkept, id, value, value', hvalue, hvalue' => by
    obtain ⟨entity, -, -, -, hfields, hbelow⟩ := hwf
    obtain ⟨⟨b, hb⟩, -⟩ := nest_eq_ok_bound hvalue
    obtain ⟨members, rfl, hfilled⟩ := nest_eq_ok hb hfields hvalue
    obtain ⟨members', rfl, hfilled'⟩ := nest_eq_ok hb hfields hvalue'
    have hmem : b ∈ layout.bindings := List.mem_of_find?_eq_some hb
    have hpath : b.path = path := by simpa using List.find?_some hb
    obtain ⟨hnodup, hnodup'⟩ := h.nodup b hmem id
    rw [SelectionNode.erase, SelectionNode.erase]
    refine Json.same_object (Json.nodup_filterMembers (hfilled.nodup hnodup) _)
      (Json.nodup_filterMembers (hfilled'.nodup hnodup') _) fun key => ?_
    rw [Json.get?_filterMembers _ _ (hfilled.nodup hnodup),
      Json.get?_filterMembers _ _ (hfilled'.nodup hnodup')]
    by_cases hkey : key ∈ below.map RelationSelection.field
    · obtain ⟨r, hr, rfl⟩ := List.mem_map.mp hkey
      obtain ⟨member, hmember, hnest⟩ := hfilled.relation r hr
      obtain ⟨member', hmember', hnest'⟩ := hfilled'.relation r hr
      rw [hmember, hmember', Option.bind_some, Option.bind_some,
        SelectionNode.eraseMember_of_mem _ hfields hr,
        SelectionNode.eraseMember_of_mem _ hfields hr]
      split
      · rename_i hchild
        exact .some (h.erase_nestRelation hbelow hedges hkept r hr hchild hnest hnest')
      · exact .none
    · -- No relation has this field, so it is one of the object.
      have hobject := h.object b hmem (hpath ▸ hkept) id key
      rw [← get?_getD, ← get?_getD, ← hfilled.other key hkey, ← hfilled'.other key hkey] at hobject
      have hpass : SelectionNode.eraseMember kept below key = some :=
        funext fun value => SelectionNode.eraseMember_of_not_mem value hkey
      rwa [hpass, Option.bind_fun_some, Option.bind_fun_some]

theorem Alike.erase_nestRelation (h : Alike layout relations kept index index') {entity : Entity}
    {path : FieldPath} : ∀ {below : List RelationSelection},
      SelectionNode.RelationsWellFormed catalog entity path below →
      (∀ edge ∈ SelectionNode.edgesFrom path below, edge ∈ relations) → kept path = true →
      ∀ r ∈ below, kept r.node.path = true → ∀ {id : EntityId} {entry entry' : String × Json},
        (index.nestRelation layout id r).outcome = .ok entry →
        (index'.nestRelation layout id r).outcome = .ok entry' →
        (entry.2.mapObjects (r.node.erase kept)).same (entry'.2.mapObjects (r.node.erase kept))
          = true
  | [], _, _, _, _, hr, _, _, _, _, _, _ => nomatch hr
  | .mk field args node :: rest, hwf, hedges, hkept, r, hr, hchild, id, entry, entry', hentry,
      hentry' => by
    obtain ⟨-, -, hnode, hrest⟩ := hwf
    rw [SelectionNode.edgesFrom, List.forall_mem_cons, List.forall_mem_append] at hedges
    rcases List.mem_cons.mp hr with rfl | hr
    · obtain ⟨-, hgathers⟩ := nestRelation_eq_ok hentry
      obtain ⟨-, hgathers'⟩ := nestRelation_eq_ok hentry'
      rw [← h.children _ hedges.1 hkept hchild id] at hgathers'
      exact gathers_same (fun _ _ _ => h.erase_nest hnode hedges.2.1 hchild) hgathers hgathers'
    · exact h.erase_nestRelation hrest hedges.2.2 hkept r hr hchild hentry hentry'

end

end RowIndex
end NestedRead
