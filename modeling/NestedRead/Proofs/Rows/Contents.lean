import Mathlib.Data.List.Induction
import NestedRead.Proofs.Rows.Indexed

/-!
# What an index holds, told from the rows

The index is made by one scan that changes several maps with every row. What comes of it can be
told without the scan: an object is there for each id that some row carries, with the value that the
first row has for each field, the roots are the ids of the rows in the order in which they first
appear, and a parent has an entry at a path only where some row links it to a child.

The proofs are inductions on the rows from the end, one row more at a time, as the scan goes.
-/

set_option autoImplicit false

namespace NestedRead.RowIndex

variable {layout : Layout}

/-! ## Objects -/

theorem objectOf?_concat (b : Binding) (id : EntityId) (rows : List Json.Members)
    (row : Json.Members) : objectOf? layout b id (rows ++ [row]) =
      if layout.idIn? row b = some id then
        some (mergeFields ((objectOf? layout b id rows).getD [])
          (layout.fieldsIn row b.tableAlias))
      else objectOf? layout b id rows := by
  rw [objectOf?, List.foldl_append]
  rfl

/-- An id has an object exactly when some row carries it. -/
theorem isSome_objectOf? {b : Binding} {id : EntityId} {rows : List Json.Members} :
    (objectOf? layout b id rows).isSome = true ↔ ∃ row ∈ rows, layout.idIn? row b = some id := by
  induction rows using List.reverseRecOn with
  | nil => simp [objectOf?]
  | append_singleton rows row ih =>
    rw [objectOf?_concat]
    by_cases hid : layout.idIn? row b = some id
    · simp [hid]
    · rw [if_neg hid, ih]
      simp [hid]

/-- A field keeps the value that the object has already. -/
theorem get?_mergeFields (key : String) : ∀ fields object : Json.Members,
    Json.get? (mergeFields object fields) key
      = (Json.get? object key).or (Json.get? fields key)
  | [], object => by simp [mergeFields, Json.get?]
  | (field, value) :: rest, object => by
    rw [mergeFields, Json.get?_cons]
    split
    · rename_i hnone
      rw [get?_mergeFields key rest, Json.get?_put]
      by_cases hfield : field = key
      · subst hfield
        rw [if_pos rfl, if_pos rfl, hnone]
        rfl
      · rw [if_neg hfield, if_neg hfield]
    · rename_i kept hkept
      rw [get?_mergeFields key rest]
      by_cases hfield : field = key
      · subst hfield
        rw [hkept]
        rfl
      · rw [if_neg hfield]

/-- The object of an id has each field with the value in the first row that carries the id and has
the field. -/
theorem get?_objectOf? {b : Binding} {id : EntityId} {rows : List Json.Members} (field : String) :
    (objectOf? layout b id rows).bind (Json.get? · field) =
      rows.findSome? fun row => if layout.idIn? row b = some id then
        Json.get? (layout.fieldsIn row b.tableAlias) field else none := by
  induction rows using List.reverseRecOn with
  | nil => rfl
  | append_singleton rows row ih =>
    rw [objectOf?_concat, List.findSome?_append, ← ih, List.findSome?_singleton]
    split
    · rw [Option.bind_some, get?_mergeFields]
      cases objectOf? layout b id rows <;> rfl
    · rw [Option.or_none]

theorem nodup_mergeFields : ∀ {fields object : Json.Members}, (object.map Prod.fst).Nodup →
    ((mergeFields object fields).map Prod.fst).Nodup
  | [], _, h => h
  | (field, value) :: rest, object, h => by
    rw [mergeFields]
    split
    · exact nodup_mergeFields (Json.nodup_put h field value)
    · exact nodup_mergeFields h

/-- No object has a field twice. -/
theorem nodup_objectOf? {b : Binding} {id : EntityId} {rows : List Json.Members} :
    ∀ {object : Json.Members}, objectOf? layout b id rows = some object →
      (object.map Prod.fst).Nodup := by
  induction rows using List.reverseRecOn with
  | nil => exact fun h => nomatch h
  | append_singleton rows row ih =>
    intro object h
    rw [objectOf?_concat] at h
    split at h
    · cases h
      refine nodup_mergeFields ?_
      cases hobject : objectOf? layout b id rows with
      | none => exact List.nodup_nil
      | some found => exact ih hobject
    · exact ih h

/-! ## Roots -/

/-- An id that is there already is dropped, and any other comes last. -/
theorem addRoot_eraseDups (ids : List EntityId) (id : Option EntityId) :
    addRoot ids.eraseDups id = (ids ++ id.toList).eraseDups := by
  cases id with
  | none => rw [addRoot, Option.toList_none, List.append_nil]
  | some id =>
    rw [addRoot, Option.toList_some, List.eraseDups_append]
    by_cases h : id ∈ ids
    · simp [List.removeAll, h]
    · simp [List.removeAll, h, List.eraseDups_cons]

/-- The roots are the ids that rows carry, each where it first appears. -/
theorem rootIdsOf_eq_eraseDups (root : Binding) (rows : List Json.Members) :
    rootIdsOf layout root rows = (rows.filterMap (layout.idIn? · root)).eraseDups := by
  induction rows using List.reverseRecOn with
  | nil => rfl
  | append_singleton rows row ih =>
    have hconcat : rootIdsOf layout root (rows ++ [row])
        = addRoot (rootIdsOf layout root rows) (layout.idIn? row root) := by
      rw [rootIdsOf, List.foldl_append]
      rfl
    rw [hconcat, ih, List.filterMap_append, addRoot_eraseDups]
    cases hid : layout.idIn? row root <;> simp [hid]

/-! ## Nothing else -/

/-- The entry of a parent at a path, if there is one. -/
def linked? (index : RowIndex) (childPath : FieldPath) (parent : EntityId) :
    Option (List EntityId) :=
  (index.adjacency.lookup childPath).bind (·.lookup parent)

/-- Objects are there for aliases of the layout only, entries for paths of the edges only, and no
entry is without a child. -/
structure Confined (layout : Layout) (edges : List Edge) (index : RowIndex) : Prop where
  object : ∀ tableAlias ∉ layout.bindings.map (·.tableAlias), ∀ id,
    index.object? tableAlias id = none
  path : ∀ path parent children, index.linked? path parent = some children →
    path ∈ edges.map (·.child.path)
  children : ∀ path parent, index.linked? path parent ≠ some []

theorem linkEdges_confined (ids : List (String × EntityId)) {paths : List FieldPath} :
    ∀ {edges : List Edge} {index : RowIndex}, (∀ e ∈ edges, e.child.path ∈ paths) →
      (∀ path parent children, index.linked? path parent = some children →
        path ∈ paths ∧ children ≠ []) →
      ∀ path parent children, (linkEdges ids index edges).linked? path parent = some children →
        path ∈ paths ∧ children ≠ []
  | [], _, _, h => h
  | e :: rest, index, hedges, h => by
    obtain ⟨he, hrest⟩ := List.forall_mem_cons.mp hedges
    rw [linkEdges]
    split
    · rename_i p k _ _
      refine linkEdges_confined ids hrest fun path parent children hlinked => ?_
      have hlink := linkedIn_link index.adjacency e.child.path path p k parent
      rw [show linkedIn (link e.child.path p k index.adjacency) path parent = some children
        from hlinked] at hlink
      split at hlink
      · rename_i hand
        cases hlink
        exact ⟨hand.1 ▸ he, Ordered.insertNew_ne_nil _ _⟩
      · exact h path parent children hlink.symm
    · exact linkEdges_confined ids hrest h

/-- One row brings nothing else. -/
theorem Confined.withRow {edges : List Edge} {index : RowIndex} (rootAlias : String)
    (h : Confined layout edges index) (row : Json.Members) :
    Confined layout edges (index.withRow layout rootAlias edges row) := by
  have hlinked : ∀ path parent children,
      (index.withRow layout rootAlias edges row).linked? path parent = some children →
        path ∈ edges.map (·.child.path) ∧ children ≠ [] :=
    linkEdges_confined (idsOf layout row)
      (fun e he => List.mem_map_of_mem (f := fun e : Edge => e.child.path) he)
      fun path parent children hold => ⟨h.path path parent children hold, fun hnil =>
        h.children path parent (hnil ▸ hold)⟩
  refine ⟨fun tableAlias halias id => ?_, fun path parent children hnew =>
    (hlinked path parent children hnew).1, fun path parent hnew =>
    (hlinked path parent [] hnew).2 rfl⟩
  have hpool : (index.withRow layout rootAlias edges row).object? tableAlias id
      = poolObject? (layout.bindings.foldl (takeFields layout row) index.pool) tableAlias id := by
    unfold object? RowIndex.withRow
    rw [(linkEdges_eq ..).1]
    rfl
  rw [hpool, poolObject?_foldl_takeFields halias]
  exact h.object tableAlias halias id

/-- Nor do any number of rows. -/
theorem Confined.foldl_withRow {edges : List Edge} (rootAlias : String) :
    ∀ {rows : List Json.Members} {index : RowIndex}, Confined layout edges index →
      Confined layout edges (rows.foldl (RowIndex.withRow layout rootAlias edges) index)
  | [], _, h => h
  | row :: rest, index, h => by
    rw [List.foldl_cons]
    exact Confined.foldl_withRow rootAlias (h.withRow rootAlias row)

theorem confined_empty (layout : Layout) (edges : List Edge) : Confined layout edges {} := by
  refine ⟨fun _ _ _ => rfl, fun path parent children h => ?_, fun path parent h => ?_⟩
  · cases h
  · cases h

/-! ## A successful scan -/

/-- Rows are read into an index exactly when all of them are readable objects. -/
theorem ofRows_outcome_eq_ok_iff {root : Binding} {relations : List (FieldPath × FieldPath)}
    {edges : List Edge} {rows : List Json} {index : RowIndex}
    (hroot : layout.root? = some root)
    (hedges : RowIndex.edges layout relations = .ok edges) :
    (ofRows layout relations rows).outcome = .ok index ↔
      ∃ found : List Json.Members, rows = found.map Json.object ∧
        (∀ row ∈ found, layout.Reads root.tableAlias row) ∧
        found.foldl (withRow layout root.tableAlias edges) {} = index := by
  rw [ofRows, hroot]
  dsimp only
  rw [hedges, Traced.outcome_bind_eq_ok_iff]
  constructor
  · rintro ⟨found, hfound, h⟩
    cases hfound
    exact addRows_outcome_eq_ok_iff.mp h
  · exact fun h => ⟨edges, rfl, addRows_outcome_eq_ok_iff.mpr h⟩

/-- An index that was made of rows: all of them are readable objects, and it holds what they make
and nothing else. -/
theorem ofRows_eq_ok {root : Binding} {relations : List (FieldPath × FieldPath)}
    {edges : List Edge} {rows : List Json} {index : RowIndex}
    (hroot : layout.root? = some root) (hedges : RowIndex.edges layout relations = .ok edges)
    (hsep : Separated layout root edges)
    (h : (ofRows layout relations rows).outcome = .ok index) :
    ∃ found : List Json.Members, rows = found.map Json.object ∧
      (∀ row ∈ found, layout.Reads root.tableAlias row) ∧
      Holds layout root edges found index ∧ Confined layout edges index := by
  obtain ⟨members, hmembers, hreads, rfl⟩ := (ofRows_outcome_eq_ok_iff hroot hedges).mp h
  exact ⟨members, hmembers, hreads, (holds_nil layout root edges).foldl_withRow hsep,
    (confined_empty layout edges).foldl_withRow root.tableAlias⟩

end NestedRead.RowIndex
