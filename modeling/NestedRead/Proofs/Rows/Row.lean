import NestedRead.Proofs.Outcome
import NestedRead.Rows.Index

/-!
# What one row says

A row is readable under a layout when each of its keys names an alias of the layout, the unique
column is there for every alias that has a column in the row and for the root, and ids are scalars.
Nothing else can go wrong: `RowIndex.addRow_outcome_eq_ok_iff` says that the index takes a row in
exactly when it is readable, whatever it holds already, and names the index that comes of it.

What that index holds is said view by view. The aliases of a layout are different, so each binding
is looked up on its own: its object gets the fields of the row, and nobody else's changes.
-/

set_option autoImplicit false

namespace NestedRead

/-- The id that a value is. Null, arrays and objects are none. -/
def EntityId.ofJson? (value : Json) : Option EntityId :=
  match ofJson value with
  | .ok id => id
  | .error _ => none

theorem EntityId.ofJson_of_ofJson? {value : Json} {id : EntityId} (h : ofJson? value = some id) :
    ofJson value = .ok (some id) := by
  unfold ofJson? at h
  split at h
  · rename_i found hfound
    rw [hfound, h]
  · cases h

/-- Whether a value can be read as an id depends on its being a scalar only. -/
theorem EntityId.ofJson_eq_ok_iff {value : Json} {id : Option EntityId} :
    ofJson value = .ok id ↔ value.isScalar = true ∧ ofJson? value = id := by
  unfold ofJson? ofJson
  cases value with
  | number n => cases n <;> simp [Json.isScalar]
  | null | bool | string | array | object => simp [Json.isScalar]

namespace Layout

variable (layout : Layout)

/-! ## The parts of a row -/

/-- The columns of a row in their order, with alias and field apart. -/
def columnsIn (row : Json.Members) : List RowIndex.Column :=
  row.filterMap fun (key, value) =>
    (layout.split? key).map fun (tableAlias, field) => ⟨tableAlias, field, value⟩

def fieldsIn (row : Json.Members) (tableAlias : String) : Json.Members :=
  RowIndex.fieldsOf tableAlias (layout.columnsIn row)

/-- A column under a key of no alias is a field of none. -/
theorem fieldsIn_cons_of_none {key : String} {value : Json} (row : Json.Members)
    (tableAlias : String) (h : layout.split? key = none) :
    layout.fieldsIn ((key, value) :: row) tableAlias = layout.fieldsIn row tableAlias := by
  simp [fieldsIn, columnsIn, h]

/-- A column is a field of the alias that its key names. -/
theorem fieldsIn_cons_of_some {key found field : String} {value : Json} (row : Json.Members)
    (tableAlias : String) (h : layout.split? key = some (found, field)) :
    layout.fieldsIn ((key, value) :: row) tableAlias =
      if found = tableAlias then (field, value) :: layout.fieldsIn row tableAlias
      else layout.fieldsIn row tableAlias := by
  by_cases halias : found = tableAlias <;>
    simp [fieldsIn, columnsIn, RowIndex.fieldsOf, h, halias]

def idIn? (row : Json.Members) (b : Binding) : Option EntityId :=
  (Json.get? row (layout.key b.tableAlias b.uniqueColumn)).bind EntityId.ofJson?

/-- The unique column of a binding is a scalar, or it is missing like all other columns of an
alias that is not the root's. -/
def ReadsId (rootAlias : String) (row : Json.Members) (b : Binding) : Prop :=
  match Json.get? row (layout.key b.tableAlias b.uniqueColumn) with
  | none => layout.fieldsIn row b.tableAlias = [] ∧ b.tableAlias ≠ rootAlias
  | some value => value.isScalar = true

/-- A row can be read under a layout. -/
structure Reads (rootAlias : String) (row : Json.Members) : Prop where
  keys : ∀ entry ∈ row, ∃ tableAlias field,
    layout.split? entry.1 = some (tableAlias, field) ∧ (layout.byAlias? tableAlias).isSome = true
  ids : ∀ b ∈ layout.bindings, layout.ReadsId rootAlias row b

end Layout

namespace RowIndex

variable {layout : Layout}

/-! ## Taking a row in -/

theorem columns_outcome_eq_ok_iff : ∀ {row : Json.Members} {cs : List Column},
    (columns layout row).outcome = .ok cs ↔
      (∀ entry ∈ row, ∃ tableAlias field, layout.split? entry.1 = some (tableAlias, field) ∧
        (layout.byAlias? tableAlias).isSome = true) ∧ layout.columnsIn row = cs
  | [], cs => by simp [columns, Layout.columnsIn]
  | (key, value) :: rest, cs => by
    rw [columns]
    cases hsplit : layout.split? key with
    | none =>
      simp only [Traced.outcome_fail, List.mem_cons, forall_eq_or_imp, hsplit]
      simp
    | some parts =>
      obtain ⟨tableAlias, field⟩ := parts
      dsimp only
      split
      · rename_i hnone
        simp only [Option.isNone_iff_eq_none] at hnone
        rw [Traced.outcome_bind_eq_ok_iff]
        simp [hsplit, hnone]
      · rename_i hsome
        have hsome : (layout.byAlias? tableAlias).isSome = true := by
          simpa [Option.isSome_iff_ne_none] using hsome
        rw [Traced.outcome_bind_eq_ok_iff]
        simp only [columns_outcome_eq_ok_iff, List.forall_mem_cons, hsplit]
        constructor
        · rintro ⟨more, ⟨hrest, rfl⟩, h⟩
          cases h
          exact ⟨⟨⟨_, _, rfl, hsome⟩, hrest⟩, by simp [Layout.columnsIn, hsplit]⟩
        · rintro ⟨⟨-, hrest⟩, rfl⟩
          exact ⟨_, ⟨hrest, rfl⟩, by simp [Layout.columnsIn, hsplit]⟩

theorem readId_outcome_eq_ok_iff {row : Json.Members} {position : Nat} {b : Binding}
    {required : Bool} {id : Option EntityId} :
    (readId layout row position b required).outcome = .ok id ↔
      (match Json.get? row (layout.key b.tableAlias b.uniqueColumn) with
        | none => required = false
        | some value => value.isScalar = true) ∧ layout.idIn? row b = id := by
  unfold readId Layout.idIn?
  cases hget : Json.get? row (layout.key b.tableAlias b.uniqueColumn) with
  | none =>
    cases required with
    | true => simp [hget, Traced.outcome_bind_eq_ok_iff]
    | false => simp [hget]
  | some value =>
    simp only [hget, Option.bind_some, ← EntityId.ofJson_eq_ok_iff]
    cases EntityId.ofJson value with
    | ok found => simp
    | error found => simp

def takeFields (layout : Layout) (row : Json.Members)
    (pool : List (String × List (EntityId × Json.Members))) (b : Binding) :
    List (String × List (EntityId × Json.Members)) :=
  match layout.idIn? row b with
  | none => pool
  | some id => upsert pool b.tableAlias id (layout.fieldsIn row b.tableAlias)

/-- The ids with that of a row for a binding, the newest first. -/
def takeId (layout : Layout) (row : Json.Members) (ids : List (String × EntityId))
    (b : Binding) : List (String × EntityId) :=
  match layout.idIn? row b with
  | none => ids
  | some id => (b.tableAlias, id) :: ids

theorem readBindings_outcome_eq_ok_iff {rootAlias : String} {row : Json.Members}
    {position : Nat} {result : RowIndex × List (String × EntityId)} :
    ∀ {bindings : List Binding} {index : RowIndex} {ids : List (String × EntityId)},
      (readBindings layout rootAlias row position (layout.columnsIn row) index ids
        bindings).outcome = .ok result ↔
      (∀ b ∈ bindings, layout.ReadsId rootAlias row b) ∧
        ({ index with pool := bindings.foldl (takeFields layout row) index.pool },
          bindings.foldl (takeId layout row) ids) = result
  | [], index, ids => by
    simp [readBindings]
  | b :: rest, index, ids => by
    -- Whether a missing id is an error is computed from the columns, as in `readBindings`.
    have hreads : layout.ReadsId rootAlias row b ↔
        match Json.get? row (layout.key b.tableAlias b.uniqueColumn) with
        | none => (!(fieldsOf b.tableAlias (layout.columnsIn row)).isEmpty ||
            b.tableAlias == rootAlias) = false
        | some value => value.isScalar = true := by
      unfold Layout.ReadsId Layout.fieldsIn
      split <;> simp
    rw [readBindings, Traced.outcome_bind_eq_ok_iff, List.forall_mem_cons, hreads]
    simp only [readId_outcome_eq_ok_iff, and_assoc, exists_and_left, exists_eq_left']
    rw [List.foldl_cons, List.foldl_cons]
    refine and_congr_right fun _ => ?_
    cases hid : layout.idIn? row b with
    | none =>
      simp only [takeFields, takeId, hid]
      exact readBindings_outcome_eq_ok_iff
    | some id =>
      simp only [takeFields, takeId, hid]
      rw [Traced.outcome_bind_eq_ok_iff]
      simp only [Traced.outcome_emitAll, true_and, exists_const]
      exact readBindings_outcome_eq_ok_iff

/-- The ids of a row, the newest binding first. -/
def idsOf (layout : Layout) (row : Json.Members) : List (String × EntityId) :=
  layout.bindings.foldl (takeId layout row) []

def withRow (layout : Layout) (rootAlias : String) (edges : List Edge) (index : RowIndex)
    (row : Json.Members) : RowIndex :=
  linkEdges (idsOf layout row)
    { index with
      pool := layout.bindings.foldl (takeFields layout row) index.pool
      rootIds := addRoot index.rootIds ((idsOf layout row).lookup rootAlias) } edges

/-- A row is taken in exactly when it is readable. -/
theorem addRow_outcome_eq_ok_iff {rootAlias : String} {edges : List Edge}
    {index index' : RowIndex} {position : Nat} {row : Json.Members} :
    (addRow layout rootAlias edges index position (.object row)).outcome = .ok index' ↔
      layout.Reads rootAlias row ∧ withRow layout rootAlias edges index row = index' := by
  rw [addRow, Traced.outcome_bind_eq_ok_iff]
  constructor
  · rintro ⟨cs, hcs, h⟩
    obtain ⟨hkeys, rfl⟩ := columns_outcome_eq_ok_iff.mp hcs
    obtain ⟨result, hread, h⟩ := Traced.outcome_bind_eq_ok_iff.mp h
    obtain ⟨hids, rfl⟩ := readBindings_outcome_eq_ok_iff.mp hread
    cases h
    exact ⟨⟨hkeys, hids⟩, rfl⟩
  · rintro ⟨⟨hkeys, hids⟩, rfl⟩
    refine ⟨_, columns_outcome_eq_ok_iff.mpr ⟨hkeys, rfl⟩, Traced.outcome_bind_eq_ok_iff.mpr ?_⟩
    exact ⟨_, readBindings_outcome_eq_ok_iff.mpr ⟨hids, rfl⟩, rfl⟩

/-! ## The views of the index with one more row -/

section views

variable {row : Json.Members}

/-- The ids of a row are looked up by the aliases of a layout that are different. -/
theorem lookup_foldl_takeId {bindings : List Binding} {ids : List (String × EntityId)}
    {tableAlias : String} (h : tableAlias ∉ bindings.map (·.tableAlias)) :
    (bindings.foldl (takeId layout row) ids).lookup tableAlias = ids.lookup tableAlias := by
  induction bindings generalizing ids with
  | nil => rfl
  | cons b rest ih =>
    rw [List.map_cons, List.mem_cons, not_or] at h
    rw [List.foldl_cons, ih h.2, takeId]
    split
    · rfl
    · rw [List.lookup_cons, beq_eq_false_iff_ne.mpr h.1]

theorem lookup_idsOf (hnodup : (layout.bindings.map (·.tableAlias)).Nodup) {b : Binding}
    (hb : b ∈ layout.bindings) : (idsOf layout row).lookup b.tableAlias = layout.idIn? row b := by
  -- Bindings before and after this one have other aliases and leave its object alone.
  obtain ⟨before, after, hsplit⟩ := List.append_of_mem hb
  rw [hsplit, List.map_append, List.map_cons, List.nodup_append, List.nodup_cons] at hnodup
  obtain ⟨-, ⟨hafter, -⟩, hbefore⟩ := hnodup
  have hbefore : b.tableAlias ∉ before.map (·.tableAlias) :=
    fun hmem => hbefore _ hmem _ List.mem_cons_self rfl
  rw [idsOf, hsplit, List.foldl_append, List.foldl_cons, lookup_foldl_takeId hafter, takeId]
  split
  · rename_i hnone
    rw [lookup_foldl_takeId hbefore, hnone]
    rfl
  · rename_i id hid
    rw [List.lookup_cons, beq_self_eq_true, hid]

def poolObject? (pool : List (String × List (EntityId × Json.Members))) (tableAlias : String)
    (id : EntityId) : Option Json.Members :=
  (pool.lookup tableAlias).bind (·.lookup id)

/-- Fields for an id change the object of that id under that alias and no other. -/
theorem poolObject?_upsert (pool : List (String × List (EntityId × Json.Members)))
    (tableAlias other : String) (id otherId : EntityId) (fields : Json.Members) :
    poolObject? (upsert pool tableAlias id fields) other otherId =
      if tableAlias = other ∧ id = otherId then
        some (mergeFields ((poolObject? pool other otherId).getD []) fields)
      else poolObject? pool other otherId := by
  unfold poolObject? upsert
  by_cases halias : tableAlias = other
  · subst halias
    rw [Keyed.lookup_alter_self, Option.bind_some]
    by_cases hid : id = otherId
    · subst hid
      rw [Keyed.lookup_alter_self, if_pos ⟨rfl, rfl⟩]
      cases pool.lookup tableAlias <;> simp
    · rw [Keyed.lookup_alter_of_ne _ (Ne.symm hid), if_neg fun h => hid h.2]
      cases pool.lookup tableAlias <;> simp
  · rw [Keyed.lookup_alter_of_ne _ (Ne.symm halias), if_neg fun h => halias h.1]

theorem poolObject?_foldl_takeFields {bindings : List Binding}
    {pool : List (String × List (EntityId × Json.Members))} {tableAlias : String}
    (h : tableAlias ∉ bindings.map (·.tableAlias)) (id : EntityId) :
    poolObject? (bindings.foldl (takeFields layout row) pool) tableAlias id
      = poolObject? pool tableAlias id := by
  induction bindings generalizing pool with
  | nil => rfl
  | cons b rest ih =>
    rw [List.map_cons, List.mem_cons, not_or] at h
    rw [List.foldl_cons, ih h.2, takeFields]
    split
    · rfl
    · rw [poolObject?_upsert, if_neg fun hand => h.1 hand.1.symm]

/-- Links touch neither objects nor roots. -/
theorem linkEdges_eq (ids : List (String × EntityId)) : ∀ (edges : List Edge) (index : RowIndex),
    (linkEdges ids index edges).pool = index.pool ∧
      (linkEdges ids index edges).rootIds = index.rootIds
  | [], _ => ⟨rfl, rfl⟩
  | e :: rest, index => by
    rw [linkEdges]
    split
    · exact linkEdges_eq ids rest _
    · exact linkEdges_eq ids rest _

/-- The entry of a parent at a path, among links. -/
def linkedIn (adjacency : List (FieldPath × List (EntityId × List EntityId)))
    (childPath : FieldPath) (parent : EntityId) : Option (List EntityId) :=
  (adjacency.lookup childPath).bind (·.lookup parent)

/-- One more link changes the entry of its parent at its path and no other. -/
theorem linkedIn_link (adjacency : List (FieldPath × List (EntityId × List EntityId)))
    (path other : FieldPath) (parent child otherParent : EntityId) :
    linkedIn (link path parent child adjacency) other otherParent =
      if path = other ∧ parent = otherParent then
        some (Ordered.insertNew EntityId.cmp child
          ((linkedIn adjacency other otherParent).getD []))
      else linkedIn adjacency other otherParent := by
  unfold linkedIn link
  by_cases hpath : path = other
  · subst hpath
    rw [Keyed.lookup_alter_self, Option.bind_some]
    by_cases hparent : parent = otherParent
    · subst hparent
      rw [Keyed.lookup_alter_self, if_pos ⟨rfl, rfl⟩]
      cases adjacency.lookup path <;> simp
    · rw [Keyed.lookup_alter_of_ne _ (Ne.symm hparent), if_neg fun h => hparent h.2]
      cases adjacency.lookup path <;> simp
  · rw [Keyed.lookup_alter_of_ne _ (Ne.symm hpath), if_neg fun h => hpath h.1]

/-- The children that a parent has at a path, among links. -/
def childrenIn (adjacency : List (FieldPath × List (EntityId × List EntityId)))
    (childPath : FieldPath) (parent : EntityId) : List EntityId :=
  ((adjacency.lookup childPath).bind (·.lookup parent)).getD []

/-- One more link adds the child to its parent at its path and to nobody else. -/
theorem childrenIn_link (adjacency : List (FieldPath × List (EntityId × List EntityId)))
    (path other : FieldPath) (parent child otherParent : EntityId) :
    childrenIn (link path parent child adjacency) other otherParent =
      if path = other ∧ parent = otherParent then
        Ordered.insertNew EntityId.cmp child (childrenIn adjacency other otherParent)
      else childrenIn adjacency other otherParent := by
  have hlinked := congrArg (·.getD []) (linkedIn_link adjacency path other parent child otherParent)
  rw [apply_ite (Option.getD · [])] at hlinked
  exact hlinked

/-- The child that ids have for a parent over an edge is put in its place. -/
def takeChild (parent child : Option EntityId) (id : EntityId) (children : List EntityId) :
    List EntityId :=
  match child with
  | some k => if parent = some id then Ordered.insertNew EntityId.cmp k children else children
  | none => children

theorem children_linkEdges_of_not_mem {ids : List (String × EntityId)} {path : FieldPath}
    {id : EntityId} : ∀ {edges : List Edge} {index : RowIndex},
      path ∉ edges.map (·.child.path) →
      (linkEdges ids index edges).children path id = index.children path id
  | [], _, _ => rfl
  | e :: rest, index, h => by
    rw [List.map_cons, List.mem_cons, not_or] at h
    rw [linkEdges]
    split
    · rw [children_linkEdges_of_not_mem h.2]
      exact (childrenIn_link ..).trans (if_neg fun hand => h.1 hand.1.symm)
    · exact children_linkEdges_of_not_mem h.2

/-- Each edge has a child path of its own, so it sees its own link only. -/
theorem children_linkEdges {ids : List (String × EntityId)} {id : EntityId} {e : Edge} :
    ∀ {edges : List Edge} {index : RowIndex}, (edges.map (·.child.path)).Nodup → e ∈ edges →
      (linkEdges ids index edges).children e.child.path id =
        takeChild (ids.lookup e.parent.tableAlias) (ids.lookup e.child.tableAlias) id
          (index.children e.child.path id)
  | [], _, _, h => absurd h (by simp)
  | f :: rest, index, hnodup, h => by
    rw [List.map_cons, List.nodup_cons] at hnodup
    rw [linkEdges]
    -- Either this is the edge, and the later ones do not touch its path, or it does not touch
    -- that of the edge.
    rcases List.mem_cons.mp h with rfl | h
    · split
      · rename_i parent child hparent hchild
        rw [children_linkEdges_of_not_mem hnodup.1, hparent, hchild]
        refine (childrenIn_link ..).trans ?_
        simp only [true_and, takeChild, Option.some.injEq]
        rfl
      · rename_i hnone
        rw [children_linkEdges_of_not_mem hnodup.1, takeChild.eq_def]
        split
        · rename_i child hchild
          rw [if_neg fun hparent => hnone _ _ hparent hchild]
        · rfl
    · have hne : f.child.path ≠ e.child.path :=
        fun heq => hnodup.1 (heq ▸ List.mem_map_of_mem h)
      split
      · rw [children_linkEdges hnodup.2 h]
        congr 1
        exact (childrenIn_link ..).trans (if_neg fun hand => hne hand.1)
      · exact children_linkEdges hnodup.2 h

end views

/-! ## One row more, view by view -/

section step

variable {rootAlias : String} {edges : List Edge} (index : RowIndex) (row : Json.Members)

theorem rootIds_withRow : (withRow layout rootAlias edges index row).rootIds
    = addRoot index.rootIds ((idsOf layout row).lookup rootAlias) :=
  (linkEdges_eq ..).2

/-- The object of an id gets the fields of a row that carries the id, and stays as it is
otherwise. -/
theorem object?_withRow (hnodup : (layout.bindings.map (·.tableAlias)).Nodup) {b : Binding}
    (hb : b ∈ layout.bindings) (id : EntityId) :
    (withRow layout rootAlias edges index row).object? b.tableAlias id =
      if layout.idIn? row b = some id then
        some (mergeFields ((index.object? b.tableAlias id).getD [])
          (layout.fieldsIn row b.tableAlias))
      else index.object? b.tableAlias id := by
  obtain ⟨before, after, hsplit⟩ := List.append_of_mem hb
  rw [hsplit, List.map_append, List.map_cons, List.nodup_append, List.nodup_cons] at hnodup
  obtain ⟨-, ⟨hafter, -⟩, hbefore⟩ := hnodup
  have hbefore : b.tableAlias ∉ before.map (·.tableAlias) :=
    fun hmem => hbefore _ hmem _ List.mem_cons_self rfl
  have hpool : (withRow layout rootAlias edges index row).object? b.tableAlias id
      = poolObject? (layout.bindings.foldl (takeFields layout row) index.pool) b.tableAlias id := by
    unfold object? withRow
    rw [(linkEdges_eq ..).1]
    rfl
  rw [hpool, hsplit, List.foldl_append, List.foldl_cons, poolObject?_foldl_takeFields hafter,
    takeFields]
  split
  · rename_i hnone
    rw [poolObject?_foldl_takeFields hbefore, hnone, if_neg (by simp)]
    rfl
  · rename_i found hfound
    rw [poolObject?_upsert, poolObject?_foldl_takeFields hbefore, hfound]
    simp only [true_and, Option.some.injEq]
    rfl

theorem children_withRow (hnodup : (layout.bindings.map (·.tableAlias)).Nodup)
    (hpaths : (edges.map (·.child.path)).Nodup) {e : Edge} (he : e ∈ edges)
    (hparent : e.parent ∈ layout.bindings) (hchild : e.child ∈ layout.bindings) (id : EntityId) :
    (withRow layout rootAlias edges index row).children e.child.path id =
      takeChild (layout.idIn? row e.parent) (layout.idIn? row e.child) id
        (index.children e.child.path id) := by
  rw [withRow, children_linkEdges hpaths he, lookup_idsOf hnodup hparent,
    lookup_idsOf hnodup hchild]
  rfl

end step

end RowIndex
end NestedRead
