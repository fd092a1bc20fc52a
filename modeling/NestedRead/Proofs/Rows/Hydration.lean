import NestedRead.Proofs.Outcome
import NestedRead.Proofs.Selection.WellFormed
import NestedRead.Rows.Nested

/-!
# Nesting never fails on bound paths

Once an index is there, the one thing that nesting can miss is the binding of a path. Where the
layout binds every path of a tree there is a nested object for every id, known to the index or not.
-/

set_option autoImplicit false

namespace NestedRead

theorem Traced.exists_outcome_each {ω ε α β : Type} {step : α → Traced ω ε β} :
    ∀ {items : List α}, (∀ a ∈ items, ∃ b, (step a).outcome = .ok b) →
      ∃ results, (each step items).outcome = .ok results
  | [], _ => ⟨[], rfl⟩
  | a :: rest, h => by
    obtain ⟨⟨b, hb⟩, hrest⟩ := List.forall_mem_cons.mp h
    obtain ⟨results, hresults⟩ := exists_outcome_each hrest
    exact ⟨b :: results, Traced.outcome_bind_eq_ok_iff.mpr
      ⟨b, hb, Traced.outcome_bind_eq_ok_iff.mpr ⟨results, hresults, rfl⟩⟩⟩

namespace RowIndex

variable (index : RowIndex) {layout : Layout}

theorem exists_nestRelation {child : SelectionNode}
    (h : ∀ id : EntityId, ∃ value, (index.nest layout id child).outcome = .ok value)
    (field : String) (args : RelationArgs) (id : EntityId) :
    ∃ entry, (index.nestRelation layout id (.mk field args child)).outcome = .ok entry := by
  rw [nestRelation]
  dsimp only
  split
  · cases index.children child.path id with
    | nil => exact ⟨(field, .null), rfl⟩
    | cons first _ =>
      obtain ⟨value, hvalue⟩ := h first
      have hfirst : (index.nest layout first child >>= fun value =>
          (pure (field, value) : Reading (String × Json))).outcome = .ok (field, value) :=
        Traced.outcome_bind_eq_ok_iff.mpr ⟨value, hvalue, rfl⟩
      refine ⟨(field, value), ?_⟩
      dsimp only
      -- The notice about further matches changes no outcome.
      split
      · exact Traced.outcome_bind_eq_ok_iff.mpr ⟨(), rfl, hfirst⟩
      · exact hfirst
  · have hall : ∀ childId ∈ index.children child.path id,
        ∃ value, (index.nest layout childId child).outcome = .ok value := fun childId _ => h childId
    obtain ⟨values, hvalues⟩ := Traced.exists_outcome_each hall
    exact ⟨_, Traced.outcome_bind_eq_ok_iff.mpr ⟨values, hvalues, rfl⟩⟩

mutual

/-- An id is nested at every node whose subtree is bound. -/
theorem exists_nest : ∀ {node : SelectionNode},
    (∀ n ∈ node.nodes, (layout.byPath? n.path).isSome = true) →
      ∀ id : EntityId, ∃ value, (index.nest layout id node).outcome = .ok value
  | .mk name path scalars relations, h, id => by
    rw [SelectionNode.nodes] at h
    obtain ⟨hpath, hrels⟩ := List.forall_mem_cons.mp h
    obtain ⟨b, hb⟩ := Option.isSome_iff_exists.mp hpath
    rw [SelectionNode.path] at hb
    obtain ⟨members, hmembers⟩ := exists_nestRelations hrels id
      ((index.object? b.tableAlias id).getD [])
    refine ⟨.object members, ?_⟩
    rw [nest, hb]
    exact Traced.outcome_bind_eq_ok_iff.mpr ⟨members, hmembers, rfl⟩

theorem exists_nestRelations : ∀ {relations : List RelationSelection},
    (∀ n ∈ SelectionNode.nodesOf relations, (layout.byPath? n.path).isSome = true) →
      ∀ (id : EntityId) (object : Json.Members), ∃ members,
        (index.nestRelations layout id object relations).outcome = .ok members
  | [], _, _, object => ⟨object, rfl⟩
  | .mk field args child :: rest, h, id, object => by
    rw [SelectionNode.nodesOf, List.forall_mem_append] at h
    obtain ⟨⟨f, value⟩, hvalue⟩ :=
      exists_nestRelation index (fun id => exists_nest h.1 id) field args id
    obtain ⟨members, hmembers⟩ := exists_nestRelations h.2 id (Json.put object f value)
    refine ⟨members, ?_⟩
    rw [nestRelations]
    exact Traced.outcome_bind_eq_ok_iff.mpr ⟨(f, value), hvalue, hmembers⟩

end

end RowIndex
end NestedRead
