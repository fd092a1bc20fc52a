import NestedRead.Proofs.Ascending
import NestedRead.Proofs.Json.Members
import NestedRead.Proofs.Rows.EntityIdOrder
import NestedRead.Proofs.Rows.Row

/-!
# The index of rows is a function of the rows

`RowIndex.Holds` is the invariant of the scan: of each binding the index has the object that the
rows so far make for each id, of each edge the children that they link, and the roots in the order
of their first row. One row keeps it, by the views of `withRow`; the whole scan keeps it, by
induction on the rows. What the three folds amount to is said afterwards, without the index.
-/

set_option autoImplicit false

namespace NestedRead.RowIndex

variable {layout : Layout}

/-! ## What rows make -/

def objectOf? (layout : Layout) (b : Binding) (id : EntityId) (rows : List Json.Members) :
    Option Json.Members :=
  rows.foldl (fun object row =>
    if layout.idIn? row b = some id then
      some (mergeFields (object.getD []) (layout.fieldsIn row b.tableAlias))
    else object) none

/-- The children that rows make for an id over an edge. -/
def childrenOf (layout : Layout) (e : Edge) (id : EntityId) (rows : List Json.Members) :
    List EntityId :=
  rows.foldl (fun children row =>
    takeChild (layout.idIn? row e.parent) (layout.idIn? row e.child) id children) []

def rootIdsOf (layout : Layout) (root : Binding) (rows : List Json.Members) : List EntityId :=
  rows.foldl (fun rootIds row => addRoot rootIds (layout.idIn? row root)) []

/-- The index holds what the rows make, and nothing else. -/
structure Holds (layout : Layout) (root : Binding) (edges : List Edge) (rows : List Json.Members)
    (index : RowIndex) : Prop where
  object : ∀ b ∈ layout.bindings, ∀ id,
    index.object? b.tableAlias id = objectOf? layout b id rows
  children : ∀ e ∈ edges, ∀ id, index.children e.child.path id = childrenOf layout e id rows
  rootIds : index.rootIds = rootIdsOf layout root rows

/-! ## The scan -/

/-- What a layout and the edges between its bindings have to satisfy for rows to be told apart:
aliases are different, and no two edges lead to one path. -/
structure Separated (layout : Layout) (root : Binding) (edges : List Edge) : Prop where
  aliases : (layout.bindings.map (·.tableAlias)).Nodup
  root : root ∈ layout.bindings
  parents : ∀ e ∈ edges, e.parent ∈ layout.bindings
  children : ∀ e ∈ edges, e.child ∈ layout.bindings
  paths : (edges.map (·.child.path)).Nodup

/-- No rows make nothing. -/
theorem holds_nil (layout : Layout) (root : Binding) (edges : List Edge) :
    Holds layout root edges [] {} :=
  ⟨fun _ _ _ => rfl, fun _ _ _ => rfl, rfl⟩

/-- One row keeps the invariant. -/
theorem Holds.withRow {root : Binding} {edges : List Edge} {rows : List Json.Members}
    {index : RowIndex} (hsep : Separated layout root edges)
    (h : Holds layout root edges rows index) (row : Json.Members) :
    Holds layout root edges (rows ++ [row]) (index.withRow layout root.tableAlias edges row) := by
  refine ⟨fun b hb id => ?_, fun e he id => ?_, ?_⟩
  · rw [object?_withRow index row hsep.aliases hb, h.object b hb]
    simp only [objectOf?, List.foldl_append, List.foldl_cons, List.foldl_nil]
  · rw [children_withRow index row hsep.aliases hsep.paths he (hsep.parents e he)
      (hsep.children e he), h.children e he]
    simp only [childrenOf, List.foldl_append, List.foldl_cons, List.foldl_nil]
  · rw [rootIds_withRow, h.rootIds, lookup_idsOf hsep.aliases hsep.root]
    simp only [rootIdsOf, List.foldl_append, List.foldl_cons, List.foldl_nil]

/-- Any number of rows keep the invariant. -/
theorem Holds.foldl_withRow {root : Binding} {edges : List Edge}
    (hsep : Separated layout root edges) : ∀ {more rows : List Json.Members} {index : RowIndex},
      Holds layout root edges rows index →
      Holds layout root edges (rows ++ more)
        (more.foldl (RowIndex.withRow layout root.tableAlias edges) index)
  | [], rows, index, h => by rw [List.append_nil]; exact h
  | row :: more, rows, index, h => by
    rw [List.foldl_cons, ← List.singleton_append, ← List.append_assoc]
    exact Holds.foldl_withRow hsep (h.withRow hsep row)

/-- Rows are taken in exactly when each of them is a readable object. -/
theorem addRows_outcome_eq_ok_iff {rootAlias : String} {edges : List Edge} {index' : RowIndex} :
    ∀ {rows : List Json} {index : RowIndex} {position : Nat},
      (addRows layout rootAlias edges index position rows).outcome = .ok index' ↔
        ∃ found : List Json.Members, rows = found.map Json.object ∧
          (∀ row ∈ found, layout.Reads rootAlias row) ∧
          found.foldl (withRow layout rootAlias edges) index = index'
  | [], index, position => by
    simp [addRows]
  | row :: rest, index, position => by
    rw [addRows, Traced.outcome_bind_eq_ok_iff]
    constructor
    · rintro ⟨next, hrow, hrest⟩
      obtain ⟨found, rfl, hreads, hfold⟩ := addRows_outcome_eq_ok_iff.mp hrest
      cases row with
      | object members =>
        obtain ⟨hread, rfl⟩ := addRow_outcome_eq_ok_iff.mp hrow
        exact ⟨members :: found, rfl, List.forall_mem_cons.mpr ⟨hread, hreads⟩, hfold⟩
      | null | bool | number | string | array => cases hrow
    · rintro ⟨found, hfound, hreads, hfold⟩
      cases found with
      | nil => cases hfound
      | cons members found =>
        cases hfound
        obtain ⟨hread, hreads⟩ := List.forall_mem_cons.mp hreads
        exact ⟨_, addRow_outcome_eq_ok_iff.mpr ⟨hread, rfl⟩,
          addRows_outcome_eq_ok_iff.mpr ⟨found, rfl, hreads, hfold⟩⟩

/-- The index of rows under a layout whose edges are known holds what the rows make. -/
theorem ofRows_outcome {root : Binding} {relations : List (FieldPath × FieldPath)}
    {edges : List Edge} {rows : List Json.Members} (hroot : layout.root? = some root)
    (hedges : RowIndex.edges layout relations = .ok edges) (hsep : Separated layout root edges)
    (hreads : ∀ row ∈ rows, layout.Reads root.tableAlias row) :
    ∃ index, (ofRows layout relations (rows.map Json.object)).outcome = .ok index ∧
      Holds layout root edges rows index := by
  refine ⟨rows.foldl (withRow layout root.tableAlias edges) {}, ?_, ?_⟩
  · rw [ofRows, hroot]
    dsimp only
    rw [hedges, Traced.outcome_bind_eq_ok_iff]
    exact ⟨edges, rfl, addRows_outcome_eq_ok_iff.mpr ⟨rows, rfl, hreads, rfl⟩⟩
  · exact (holds_nil layout root edges).foldl_withRow hsep

/-! ## Children -/

theorem mem_takeChild {parent child : Option EntityId} {id k : EntityId}
    {children : List EntityId} : k ∈ takeChild parent child id children ↔
      k ∈ children ∨ (parent = some id ∧ child = some k) := by
  cases child with
  | none => simp [takeChild]
  | some found =>
    rw [takeChild]
    split
    · rename_i hparent
      rw [Ordered.mem_insertNew, hparent, or_comm]
      simp [eq_comm]
    · rename_i hparent
      simp [hparent]

theorem ascending_takeChild {parent child : Option EntityId} {id : EntityId}
    {children : List EntityId} (h : Ordered.Ascending EntityId.cmp children) :
    Ordered.Ascending EntityId.cmp (takeChild parent child id children) := by
  cases child with
  | none => exact h
  | some found =>
    rw [takeChild]
    split
    · exact Ordered.ascending_insertNew h
    · exact h

/-- A child of an id is one that some row carries together with it. -/
theorem mem_childrenOf {e : Edge} {id k : EntityId} {rows : List Json.Members} :
    k ∈ childrenOf layout e id rows ↔
      ∃ row ∈ rows, layout.idIn? row e.parent = some id ∧ layout.idIn? row e.child = some k := by
  have hfold : ∀ children : List EntityId, k ∈ rows.foldl (fun children row =>
      takeChild (layout.idIn? row e.parent) (layout.idIn? row e.child) id children) children ↔
        k ∈ children ∨ ∃ row ∈ rows,
          layout.idIn? row e.parent = some id ∧ layout.idIn? row e.child = some k := by
    induction rows with
    | nil => simp
    | cons row rest ih =>
      intro children
      rw [List.foldl_cons, ih, mem_takeChild, or_assoc]
      simp
  rw [childrenOf, hfold]
  simp

theorem ascending_childrenOf {e : Edge} {id : EntityId} {rows : List Json.Members} :
    Ordered.Ascending EntityId.cmp (childrenOf layout e id rows) := by
  have hfold : ∀ children : List EntityId, Ordered.Ascending EntityId.cmp children →
      Ordered.Ascending EntityId.cmp (rows.foldl (fun children row =>
        takeChild (layout.idIn? row e.parent) (layout.idIn? row e.child) id children)
        children) := by
    induction rows with
    | nil => exact fun _ h => h
    | cons row rest ih => exact fun children h => ih _ (ascending_takeChild h)
  exact hfold [] List.Pairwise.nil

/-! ## Objects -/

/-- Fields under new keys are added at the end. -/
theorem mergeFields_eq_append : ∀ {fields object : Json.Members},
    ((object ++ fields).map Prod.fst).Nodup → mergeFields object fields = object ++ fields
  | [], object, _ => by rw [List.append_nil, mergeFields]
  | (field, value) :: rest, object, h => by
    have hnew : field ∉ object.map Prod.fst := by
      rw [List.map_append, List.nodup_append] at h
      exact fun hmem => h.2.2 _ hmem _ List.mem_cons_self rfl
    have hput := Json.put_of_not_mem value hnew
    rw [mergeFields, Json.get?_eq_none_iff.mpr hnew]
    dsimp only
    rw [hput, mergeFields_eq_append, List.append_assoc]
    · rfl
    · rw [List.append_assoc]
      exact h

/-- Fields that an object has already change nothing. -/
theorem mergeFields_of_subset {object : Json.Members} : ∀ {fields : Json.Members},
    (∀ p ∈ fields, p.1 ∈ object.map Prod.fst) → mergeFields object fields = object
  | [], _ => rfl
  | (field, value) :: rest, h => by
    obtain ⟨hfield, hrest⟩ := List.forall_mem_cons.mp h
    rw [mergeFields]
    split
    · rename_i hnone
      exact absurd hfield (Json.get?_eq_none_iff.mp hnone)
    · exact mergeFields_of_subset hrest

/-- Where all rows that carry an id have the same fields for it, those are its object. -/
theorem objectOf?_of_forall {b : Binding} {id : EntityId} {rows : List Json.Members}
    {fields : Json.Members} (hnodup : (fields.map Prod.fst).Nodup)
    (hsome : ∃ row ∈ rows, layout.idIn? row b = some id)
    (hall : ∀ row ∈ rows, layout.idIn? row b = some id →
      layout.fieldsIn row b.tableAlias = fields) :
    objectOf? layout b id rows = some fields := by
  have hself : mergeFields fields fields = fields :=
    mergeFields_of_subset fun p hp => List.mem_map_of_mem hp
  have hnew : mergeFields [] fields = fields :=
    mergeFields_eq_append (by rwa [List.nil_append])
  -- From the first such row on the object is what it will be.
  have hfold : ∀ object : Option Json.Members, (object = none ∨ object = some fields) →
      (object = some fields ∨ ∃ row ∈ rows, layout.idIn? row b = some id) →
      rows.foldl (fun object row =>
        if layout.idIn? row b = some id then
          some (mergeFields (object.getD []) (layout.fieldsIn row b.tableAlias))
        else object) object = some fields := by
    clear hsome
    induction rows with
    | nil =>
      rintro object - (rfl | ⟨row, hrow, -⟩)
      · rfl
      · cases hrow
    | cons row rest ih =>
      intro object hobject hsome
      obtain ⟨hrow, hrest⟩ := List.forall_mem_cons.mp hall
      rw [List.foldl_cons]
      by_cases hid : layout.idIn? row b = some id
      · rw [if_pos hid, hrow hid]
        have hmerged : mergeFields (object.getD []) fields = fields := by
          rcases hobject with rfl | rfl
          · exact hnew
          · exact hself
        rw [hmerged]
        exact ih hrest _ (Or.inr rfl) (Or.inl rfl)
      · rw [if_neg hid]
        refine ih hrest object hobject ?_
        rcases hsome with hsome | ⟨found, hfound, hfoundid⟩
        · exact Or.inl hsome
        · rcases List.mem_cons.mp hfound with rfl | hfound
          · exact absurd hfoundid hid
          · exact Or.inr ⟨found, hfound, hfoundid⟩
  exact hfold none (Or.inl rfl) (Or.inr hsome)

/-! ## Roots -/

/-- Rows that all carry one root add it once. -/
theorem foldl_addRoot {root : Binding} {id : EntityId} : ∀ {rows : List Json.Members}
    {rootIds : List EntityId}, (∀ row ∈ rows, layout.idIn? row root = some id) →
      (rows ≠ [] ∨ id ∈ rootIds) →
      rows.foldl (fun rootIds row => addRoot rootIds (layout.idIn? row root)) rootIds
        = if id ∈ rootIds then rootIds else rootIds ++ [id]
  | [], rootIds, _, h => by
    have hmem : id ∈ rootIds := h.resolve_left (fun h => h rfl)
    rw [List.foldl_nil, if_pos hmem]
  | row :: rest, rootIds, hall, _ => by
    obtain ⟨hrow, hrest⟩ := List.forall_mem_cons.mp hall
    rw [List.foldl_cons, hrow, addRoot]
    by_cases hmem : id ∈ rootIds
    · rw [if_pos (by simpa using hmem), if_pos hmem, foldl_addRoot hrest (Or.inr hmem), if_pos hmem]
    · rw [if_neg (by simpa using hmem), if_neg hmem,
        foldl_addRoot hrest (Or.inr (by simp)), if_pos (by simp)]

/-- Rows that come in groups, one for each of several different roots, make these roots in their
order. -/
theorem rootIdsOf_flatMap {α : Type} {root : Binding} {group : α → List Json.Members}
    {id : α → EntityId} {items : List α} (hne : ∀ a ∈ items, group a ≠ [])
    (hid : ∀ a ∈ items, ∀ row ∈ group a, layout.idIn? row root = some (id a))
    (hnodup : (items.map id).Nodup) :
    rootIdsOf layout root (items.flatMap group) = items.map id := by
  have hfold : ∀ rootIds : List EntityId, (rootIds ++ items.map id).Nodup →
      (items.flatMap group).foldl (fun rootIds row => addRoot rootIds (layout.idIn? row root))
        rootIds = rootIds ++ items.map id := by
    clear hnodup
    induction items with
    | nil => exact fun rootIds _ => (List.append_nil _).symm
    | cons a rest ih =>
      intro rootIds hnodup
      obtain ⟨hnea, hne⟩ := List.forall_mem_cons.mp hne
      obtain ⟨hida, hid⟩ := List.forall_mem_cons.mp hid
      have hnew : id a ∉ rootIds := fun hmem =>
        (List.nodup_append.mp hnodup).2.2 _ hmem _ List.mem_cons_self rfl
      have hassoc : rootIds ++ (a :: rest).map id = rootIds ++ [id a] ++ rest.map id := by simp
      rw [hassoc] at hnodup ⊢
      rw [List.flatMap_cons, List.foldl_append, foldl_addRoot hida (Or.inl hnea), if_neg hnew]
      exact ih hne hid _ hnodup
  exact hfold [] (by rwa [List.nil_append])

end NestedRead.RowIndex
