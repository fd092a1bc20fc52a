import NestedRead.Proofs.Rows.Contents
import NestedRead.Proofs.Rows.Filled

/-!
# Rows that come again

An index that has taken a row in does not change when the row comes again, whatever has come in
between: the fields of the row are in the objects of its ids, the children among the ids are linked
to their parents, and the root is known (`RowIndex.Taken`). So a copy of a row can stand anywhere
behind it, and rows with the copy are read exactly when they are without it, into the same index.

That values differ does not matter here, for the copy says nothing that has not been said, and of
what differs the first one stays.
-/

set_option autoImplicit false

namespace NestedRead

/-- A store is as it was if a value is made into itself. -/
theorem Keyed.alter_eq_self {κ α : Type} [DecidableEq κ] {key : κ} {f : Option α → α} {a : α} :
    ∀ {store : List (κ × α)}, store.lookup key = some a → f (some a) = a →
      Keyed.alter key f store = store
  | [], h, _ => nomatch h
  | (k, b) :: rest, h, hf => by
    rw [List.lookup_cons] at h
    rw [alter]
    by_cases hk : k = key
    · subst hk
      rw [beq_self_eq_true] at h
      cases h
      rw [if_pos rfl, hf]
    · rw [beq_eq_false_iff_ne.mpr (Ne.symm hk)] at h
      rw [if_neg hk, alter_eq_self h hf]

namespace RowIndex

variable {layout : Layout} {root : Binding} {edges : List Edge} {row : Json.Members}
  {index : RowIndex}

/-- What a row says is in the index. -/
structure Taken (layout : Layout) (root : Binding) (edges : List Edge) (row : Json.Members)
    (index : RowIndex) : Prop where
  object : ∀ b ∈ layout.bindings, ∀ id, layout.idIn? row b = some id →
    ∃ object, index.object? b.tableAlias id = some object ∧
      ∀ entry ∈ layout.fieldsIn row b.tableAlias, entry.1 ∈ object.map Prod.fst
  linked : ∀ e ∈ edges, ∀ p k, layout.idIn? row e.parent = some p →
    layout.idIn? row e.child = some k →
      k ∈ index.children e.child.path p ∧
        Ordered.Ascending EntityId.cmp (index.children e.child.path p)
  root : ∀ id, layout.idIn? row root = some id → id ∈ index.rootIds

/-! ## One row again -/

theorem upsert_eq_self {pool : List (String × List (EntityId × Json.Members))}
    {tableAlias : String} {id : EntityId} {fields object : Json.Members}
    (hobject : poolObject? pool tableAlias id = some object)
    (hfields : ∀ entry ∈ fields, entry.1 ∈ object.map Prod.fst) :
    upsert pool tableAlias id fields = pool := by
  obtain ⟨objects, halias, hid⟩ := Option.bind_eq_some_iff.mp hobject
  exact Keyed.alter_eq_self halias (Keyed.alter_eq_self hid (mergeFields_of_subset hfields))

theorem link_eq_self {adjacency : List (FieldPath × List (EntityId × List EntityId))}
    {path : FieldPath} {p k : EntityId} (hk : k ∈ childrenIn adjacency path p)
    (hascending : Ordered.Ascending EntityId.cmp (childrenIn adjacency path p)) :
    link path p k adjacency = adjacency := by
  rw [childrenIn] at hk hascending
  cases hlinked : (adjacency.lookup path).bind (·.lookup p) with
  | none =>
    rw [hlinked] at hk
    cases hk
  | some kids =>
    rw [hlinked] at hk hascending
    obtain ⟨byParent, hpath, hparent⟩ := Option.bind_eq_some_iff.mp hlinked
    exact Keyed.alter_eq_self hpath
      (Keyed.alter_eq_self hparent (Ordered.insertNew_of_mem hascending hk))

theorem linkEdges_eq_self {ids : List (String × EntityId)} : ∀ {edges : List Edge},
    (∀ e ∈ edges, ∀ p k, ids.lookup e.parent.tableAlias = some p →
      ids.lookup e.child.tableAlias = some k →
        k ∈ index.children e.child.path p ∧
          Ordered.Ascending EntityId.cmp (index.children e.child.path p)) →
    linkEdges ids index edges = index
  | [], _ => rfl
  | e :: rest, h => by
    obtain ⟨he, hrest⟩ := List.forall_mem_cons.mp h
    rw [linkEdges]
    split
    · rename_i p k hp hk
      obtain ⟨hmem, hascending⟩ := he p k hp hk
      rw [link_eq_self hmem hascending]
      exact linkEdges_eq_self hrest
    · exact linkEdges_eq_self hrest

/-- A row that has been taken in changes nothing. -/
theorem Taken.withRow_eq_self (hsep : Separated layout root edges)
    (h : Taken layout root edges row index) :
    index.withRow layout root.tableAlias edges row = index := by
  have hpool : layout.bindings.foldl (takeFields layout row) index.pool = index.pool := by
    refine List.foldlRecOn (motive := (· = index.pool)) _ _ rfl ?_
    rintro pool rfl b hb
    rw [takeFields]
    split
    · rfl
    · rename_i id hid
      obtain ⟨object, hobject, hfields⟩ := h.object b hb id hid
      exact upsert_eq_self hobject hfields
  have hroots : addRoot index.rootIds ((idsOf layout row).lookup root.tableAlias)
      = index.rootIds := by
    rw [lookup_idsOf hsep.aliases hsep.root]
    cases hid : layout.idIn? row root with
    | none => rfl
    | some id => rw [addRoot, if_pos (List.contains_iff_mem.mpr (h.root id hid))]
  rw [withRow, hpool, hroots]
  refine linkEdges_eq_self fun e he p k hp hk => ?_
  rw [lookup_idsOf hsep.aliases (hsep.parents e he)] at hp
  rw [lookup_idsOf hsep.aliases (hsep.children e he)] at hk
  exact h.linked e he p k hp hk

/-- Every row that an index holds has been taken in. -/
theorem Holds.taken {rows : List Json.Members} (h : Holds layout root edges rows index)
    (hrow : row ∈ rows) : Taken layout root edges row index where
  object b hb id hid := by
    obtain ⟨object, hobject⟩ := Option.isSome_iff_exists.mp (isSome_objectOf?.mpr ⟨row, hrow, hid⟩)
    refine ⟨object, (h.object b hb id).trans hobject, fun entry hentry => ?_⟩
    have hget : (objectOf? layout b id rows).bind (Json.get? · entry.1) = _ :=
      get?_objectOf? entry.1
    rw [hobject, Option.bind_some] at hget
    by_contra hnew
    -- A field that the object does not have is in no row with the id, and it is in this one.
    rw [Json.get?_eq_none_iff.mpr hnew, eq_comm, List.findSome?_eq_none_iff] at hget
    have hnone := hget row hrow
    rw [if_pos hid, Json.get?_eq_none_iff] at hnone
    exact hnone (List.mem_map_of_mem hentry)
  linked e he p k hp hk := by
    rw [h.children e he]
    exact ⟨mem_childrenOf.mpr ⟨row, hrow, hp, hk⟩, ascending_childrenOf⟩
  root id hid := by
    rw [h.rootIds, rootIdsOf_eq_eraseDups, List.mem_eraseDups, List.mem_filterMap]
    exact ⟨row, hrow, hid⟩

/-! ## All rows -/

/-- A scan meets a row again: the index is the one without it. -/
theorem foldl_withRow_of_mem (hsep : Separated layout root edges)
    {before after : List Json.Members} (hrow : row ∈ before) :
    (before ++ row :: after).foldl (withRow layout root.tableAlias edges) {}
      = (before ++ after).foldl (withRow layout root.tableAlias edges) {} := by
  have hholds : Holds layout root edges ([] ++ before)
      (before.foldl (withRow layout root.tableAlias edges) {}) :=
    (holds_nil layout root edges).foldl_withRow hsep
  rw [List.nil_append] at hholds
  rw [List.foldl_append, List.foldl_cons, (hholds.taken hrow).withRow_eq_self hsep,
    ← List.foldl_append]

/-- Rows are read with a copy of one of them exactly when they are without, into the same index. -/
theorem ofRows_of_mem {relations : List (FieldPath × FieldPath)} (hroot : layout.root? = some root)
    (hedges : RowIndex.edges layout relations = .ok edges) (hsep : Separated layout root edges)
    {before after : List Json} {row : Json} (hrow : row ∈ before) :
    (ofRows layout relations (before ++ row :: after)).outcome = .ok index ↔
      (ofRows layout relations (before ++ after)).outcome = .ok index := by
  rw [ofRows_outcome_eq_ok_iff hroot hedges, ofRows_outcome_eq_ok_iff hroot hedges]
  constructor
  · rintro ⟨found, hfound, hreads, rfl⟩
    obtain ⟨first, later, rfl, rfl, hlater⟩ := List.map_eq_append_iff.mp hfound.symm
    obtain ⟨members, last, rfl, rfl, rfl⟩ := List.map_eq_cons_iff.mp hlater
    obtain ⟨other, hother, heq⟩ := List.mem_map.mp hrow
    cases heq
    rw [List.forall_mem_append, List.forall_mem_cons] at hreads
    exact ⟨first ++ last, List.map_append.symm,
      List.forall_mem_append.mpr ⟨hreads.1, hreads.2.2⟩, (foldl_withRow_of_mem hsep hother).symm⟩
  · rintro ⟨found, hfound, hreads, rfl⟩
    obtain ⟨first, last, rfl, rfl, rfl⟩ := List.map_eq_append_iff.mp hfound.symm
    obtain ⟨members, hmembers, rfl⟩ := List.mem_map.mp hrow
    rw [List.forall_mem_append] at hreads
    refine ⟨first ++ members :: last, by rw [List.map_append, List.map_cons],
      List.forall_mem_append.mpr ⟨hreads.1, List.forall_mem_cons.mpr
        ⟨hreads.1 members hmembers, hreads.2⟩⟩, foldl_withRow_of_mem hsep hmembers⟩

end RowIndex

/-- A result is not changed by a copy of a row that stands behind it. -/
theorem SelectionTree.nest_of_mem {tree : SelectionTree} {layout : Layout} {root : Binding}
    {edges : List RowIndex.Edge} (hroot : layout.root? = some root)
    (hedges : RowIndex.edges layout tree.edges = .ok edges)
    (hsep : RowIndex.Separated layout root edges) {before after : List Json} {row : Json}
    (hrow : row ∈ before) (results : List Json) :
    (tree.nest layout (before ++ row :: after)).outcome = .ok results ↔
      (tree.nest layout (before ++ after)).outcome = .ok results := by
  have hne : before ≠ [] := List.ne_nil_of_mem hrow
  rw [nest_outcome_eq_ok_iff (by simp), nest_outcome_eq_ok_iff (by simp [hne])]
  simp only [RowIndex.ofRows_of_mem hroot hedges hsep hrow]

end NestedRead
